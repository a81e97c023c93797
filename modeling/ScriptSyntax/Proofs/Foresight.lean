import ScriptSyntax.Proofs.Faults.Statement
import ScriptSyntax.Proofs.Lockstep.Statement

/-!
# Failures without foresight

The parser looks ahead: at the token behind a name, and past block comments at the next thing
on the line.  Still, where it gives up it has not seen more than the token that it stands
before, unless that is a block comment.  Another list that begins with the same tokens, up to
and including that one, fails in the same way at the same place.
-/

namespace ScriptSyntax

open Parse

/-- The parser gives up with a diagnostic, before the token with an index. -/
def FailsAt (semicolons : Semicolons) (tokens : List Token) (diagnostic : Diagnostic)
    (index : Nat) : Prop :=
  ∃ after, Parse.reading semicolons Production.program (.start tokens) =
    .error diagnostic after ∧ after.index tokens = index

theorem parse_eq_error_iff {semicolons : Semicolons} {tokens : List Token}
    {diagnostic : Diagnostic} :
    parse semicolons tokens = .error diagnostic ↔
      ∃ index, FailsAt semicolons tokens diagnostic index := by
  unfold parse EStateM.run FailsAt
  cases Parse.reading semicolons Production.program (.start tokens) with
  | ok id after => simp
  | error failure after =>
      constructor
      · rintro ⟨⟩
        exact ⟨after.index tokens, after, rfl, rfl⟩
      · rintro ⟨index, final, hrun, -⟩
        cases hrun
        rfl

namespace Cursor

theorem head?_upcoming (cursor : Cursor) : cursor.upcoming.head? = some cursor.current := by
  obtain ⟨others, hothers⟩ := cursor.current_cons_upcoming
  rw [hothers]
  rfl

theorem upcoming_eq_cons {cursor : Cursor} (hcursor : cursor.current.isEnd = false) :
    cursor.upcoming = cursor.current :: cursor.advance.upcoming := by
  rw [upcoming, pending_eq_cons hcursor]
  rfl

end Cursor

namespace Lockstep

variable {token : Token} {behind other : List Token}

/-- The cursors have the same tokens to come, up to the given one. -/
def Sharing (token : Token) (behind other : List Token) (first second : Cursor) : Prop :=
  ∃ front, first.upcoming = front ++ token :: behind ∧ second.upcoming = front ++ token :: other

variable {first second : Cursor}

theorem Sharing.current (hsharing : Sharing token behind other first second) :
    first.current = second.current := by
  obtain ⟨front, hfirst, hsecond⟩ := hsharing
  have hheads : first.upcoming.head? = second.upcoming.head? := by
    rw [hfirst, hsecond]
    cases front <;> rfl
  rw [first.head?_upcoming, second.head?_upcoming] at hheads
  exact Option.some.inj hheads

/-- Once the last of the tokens that are shared is passed, the rest is not known. -/
theorem Sharing.advance (hsharing : Sharing token behind other first second)
    (hcurrent : first.current.isEnd = false) :
    first.advance.upcoming.length ≤ behind.length ∨
      Sharing token behind other first.advance second.advance := by
  have hsame := hsharing.current
  obtain ⟨front, hfirst, hsecond⟩ := hsharing
  rw [Cursor.upcoming_eq_cons hcurrent] at hfirst
  rw [Cursor.upcoming_eq_cons (hsame ▸ hcurrent)] at hsecond
  cases front with
  | nil => exact .inl (Nat.le_of_eq (congrArg List.length (List.cons.inj hfirst).2))
  | cons head front => exact .inr ⟨front, (List.cons.inj hfirst).2, (List.cons.inj hsecond).2⟩

/-- Two lists that are the same up to a token. -/
def sharing (htoken : token.kind ≠ .blockComment) (behind other : List Token) : Lockstep where
  level := Sharing token behind other
  astray cursor := cursor.upcoming.length ≤ behind.length
  astray_later hsuffix _ hastray := by
    rw [Cursor.length_upcoming] at hastray ⊢
    exact Nat.le_trans (Nat.add_le_add_right hsuffix.length_le 1) hastray
  current := Sharing.current
  lines {first second} hsharing := by
    obtain ⟨front, hfirst, hsecond⟩ := hsharing
    rw [← Cursor.firstOnLine?_upcoming, ← Cursor.firstOnLine?_upcoming, hfirst, hsecond]
    exact Cursor.firstOnLine?_append_cons htoken front behind other
  advance hsharing hordinary := hsharing.advance hordinary.1
  member hsharing hdot :=
    .inl (hsharing.advance (Token.isEnd_of_isWord (Token.isWord_of_isPunctuation hdot)))

end Lockstep

/-- A failure that is not about a missing name is about the token that the parser stands
before. -/
theorem FailsAt.eq_unexpected {semicolons : Semicolons} {tokens : List Token}
    {diagnostic : Diagnostic} {index : Nat} {token : Token}
    (hfails : FailsAt semicolons tokens diagnostic index)
    (htoken : (Token.terminated tokens)[index]? = some token) {found : String} {reason : Reason}
    (hcause : diagnostic.cause = .syntactic found reason)
    (hreason : reason ≠ .expectedFunctionName) : diagnostic = token.unexpected reason := by
  obtain ⟨after, hrun, rfl⟩ := hfails
  have hpoints := Parse.reading_program_points semicolons (.start tokens)
  unfold Parse.PointsFrom at hpoints
  rw [hrun] at hpoints
  cases hpoints with
  | @here _ stated _ hafter =>
      have hsuffix : after.cursor.upcoming <:+ Token.terminated tokens :=
        Cursor.upcoming_ofTokens tokens ▸ hafter
      have hupcoming : after.cursor.upcoming =
          (Token.terminated tokens).drop (after.index tokens) := List.suffix_iff_eq_drop.mp hsuffix
      have hcurrent : some after.cursor.current = some token := by
        rw [← after.cursor.head?_upcoming, hupcoming, List.head?_drop, htoken]
      cases hcause
      rw [Option.some.inj hcurrent]
  | nameless =>
      cases hcause
      exact absurd rfl hreason

/-- Lists that are the same up to a token before which the first one fails. -/
theorem FailsAt.of_sharing {semicolons : Semicolons} {tokens others front behind other : List Token}
    {diagnostic : Diagnostic} {token : Token}
    (hfails : FailsAt semicolons tokens diagnostic front.length)
    (htoken : token.kind ≠ .blockComment)
    (htokens : Token.terminated tokens = front ++ token :: behind)
    (hothers : Token.terminated others = front ++ token :: other) :
    FailsAt semicolons others diagnostic front.length := by
  have hsettles := parse_settles semicolons tokens
  rw [parse_eq_error_iff.mpr ⟨_, hfails⟩] at hsettles
  obtain ⟨after, hrun, hindex⟩ := hfails
  have hlevel : Lockstep.Sharing token behind other (.ofTokens tokens) (.ofTokens others) :=
    ⟨front, (Cursor.upcoming_ofTokens tokens).trans htokens,
      (Cursor.upcoming_ofTokens others).trans hothers⟩
  have houtcome := (Lockstep.sharing htoken behind other).program_outcome semicolons hlevel
  rw [hrun] at houtcome
  have hlength := congrArg List.length htokens
  have hlengthOther := congrArg List.length hothers
  rw [List.length_append, List.length_cons] at hlength hlengthOther
  unfold Session.index at hindex
  rcases houtcome with (hdefect | hastray) | ⟨final, hother, ⟨rest, hfirst, hsecond⟩, -⟩
  · exact absurd hsettles (by simp [hdefect])
  · -- The first run stands before the token, so it is not astray.
    change after.cursor.upcoming.length ≤ behind.length at hastray
    omega
  · refine ⟨final, hother, ?_⟩
    rw [hfirst, List.length_append, List.length_cons] at hindex
    rw [Session.index, hsecond, List.length_append, List.length_cons]
    omega

/-- A list that is not read fails by the tokens up to the one that the parser stands before.
Any other list that begins with the same tokens fails with the same diagnostic, at the same
index. -/
theorem failure_depends_on_tokens_before {semicolons : Semicolons} {tokens others : List Token}
    {diagnostic : Diagnostic} {index : Nat} {token : Token}
    (hfails : FailsAt semicolons tokens diagnostic index)
    (htoken : (Token.terminated tokens)[index]? = some token)
    (hcomment : token.kind ≠ .blockComment)
    (hshared : (Token.terminated others).take (index + 1) =
      (Token.terminated tokens).take (index + 1)) :
    parse semicolons others = .error diagnostic ∧ FailsAt semicolons others diagnostic index ∧
      ∀ found reason, diagnostic.cause = .syntactic found reason →
        reason ≠ .expectedFunctionName → diagnostic = token.unexpected reason := by
  have hfront : (Token.terminated tokens).take (index + 1) =
      (Token.terminated tokens).take index ++ [token] := by
    rw [List.take_add_one, htoken]
    rfl
  have htokens : Token.terminated tokens = (Token.terminated tokens).take index ++
      token :: (Token.terminated tokens).drop (index + 1) := by
    rw [List.append_cons, ← hfront, List.take_append_drop]
  have hothers : Token.terminated others = (Token.terminated tokens).take index ++
      token :: (Token.terminated others).drop (index + 1) := by
    rw [List.append_cons, ← hfront, ← hshared, List.take_append_drop]
  have hindex : ((Token.terminated tokens).take index).length = index :=
    List.length_take_of_le (Nat.le_of_lt (List.getElem?_eq_some_iff.mp htoken).1)
  have hother : FailsAt semicolons others diagnostic index := by
    rw [← hindex] at hfails ⊢
    exact hfails.of_sharing hcomment htokens hothers
  exact ⟨parse_eq_error_iff.mpr ⟨index, hother⟩, hother,
    fun _ _ hcause hreason => hfails.eq_unexpected htoken hcause hreason⟩

/-- What stands behind the parenthesis that is too many does not matter. -/
theorem failure_depends_on_tokens_before_call :
    let tokens := [Token.plain .identifier "f", .plain .punctuation "(", .plain .punctuation ")",
      .plain .punctuation ")"]
    let others := tokens ++ [.plain .keyword "if", .plain .identifier "x"]
    let failure := (Token.plain .punctuation ")").unexpected (.expected ";")
    FailsAt .inserted tokens failure 3 ∧
      (Token.terminated others).take 4 = (Token.terminated tokens).take 4 ∧
        parse .inserted others = .error failure := by
  intro tokens others failure
  have hread : (match Parse.reading .inserted Production.program (.start tokens) with
      | .error diagnostic after => decide (diagnostic = failure ∧ after.index tokens = 3)
      | .ok _ _ => false) = true := by decide +kernel
  have hfails : FailsAt .inserted tokens failure 3 := by
    cases hrun : Parse.reading .inserted Production.program (.start tokens) with
    | ok id after =>
        rw [hrun] at hread
        cases hread
    | error diagnostic after =>
        rw [hrun] at hread
        obtain ⟨rfl, hindex⟩ := of_decide_eq_true hread
        exact ⟨after, hrun, hindex⟩
  have hshared : (Token.terminated others).take 4 = (Token.terminated tokens).take 4 := by
    decide +kernel
  have htoken : (Token.terminated tokens)[3]? = some (.plain .punctuation ")") := by
    decide +kernel
  exact ⟨hfails, hshared,
    (failure_depends_on_tokens_before hfails htoken nofun hshared).1⟩

end ScriptSyntax

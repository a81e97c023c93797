import ScriptSyntax.Proofs.Trace.Basic

/-!
# Readers that leave traces

A reader pushes parts that depend on its result.  Where it fails, what it has
done up to then is still a trace.  The rules below run through a production and
collect the parts that it has pushed so far.
-/

namespace ScriptSyntax

namespace Parse

variable {Result Other : Type}

/-- A session that a reader may fail in: some trace leads to it. -/
def Stuck (start after : Session) : Prop :=
  ∃ parts, Trace start parts after

/-- From the given session the reader pushes parts that depend on its result and
stops at a token with a property. -/
def PushesTo (reader : Parse Result) (session : Session)
    (parts : Result → List (Part NodeId)) (stop : Token → Bool) : Prop :=
  reader.Meets session
    (fun result after =>
      Trace session (parts result) after ∧ stop after.cursor.current = true)
    (Stuck session)

/-- From the given session the reader pushes parts that depend on its result. -/
def Pushes (reader : Parse Result) (session : Session)
    (parts : Result → List (Part NodeId)) : Prop :=
  reader.Meets session (fun result after => Trace session (parts result) after)
    (Stuck session)

variable {start session after : Session} {done taken : List (Part NodeId)}
variable {success : Result → Session → Prop}

theorem Stuck.of_trace (htrace : Trace start done session) : Stuck start session :=
  ⟨done, htrace⟩

theorem Stuck.trans (hfirst : Trace start done session) (hsecond : Stuck session after) :
    Stuck start after := by
  obtain ⟨parts, hparts⟩ := hsecond
  exact ⟨done ++ parts, hfirst.trans hparts⟩

/-- A reader that pushes parts, followed by another reader. -/
theorem PushesTo.andThen {reader : Parse Other} {parts : Other → List (Part NodeId)}
    {stop : Token → Bool} {next : Other → Parse Result}
    (hreader : reader.PushesTo session parts stop) (hdone : Trace start done session)
    (hnext : ∀ value after, Trace start (done ++ parts value) after →
      stop after.cursor.current = true → (next value).Meets after success (Stuck start)) :
    (reader >>= next).Meets session success (Stuck start) := by
  have hextended : reader.Meets session
      (fun value after =>
        Trace start (done ++ parts value) after ∧ stop after.cursor.current = true)
      (Stuck start) := by
    apply Meets.mono hreader
    · intro value after hafter
      exact ⟨hdone.trans hafter.1, hafter.2⟩
    · intro after hafter
      exact hafter.trans hdone
  exact hextended.bind fun value after hafter => hnext value after hafter.1 hafter.2

theorem Pushes.andThen {reader : Parse Other} {parts : Other → List (Part NodeId)}
    {next : Other → Parse Result}
    (hreader : reader.Pushes session parts) (hdone : Trace start done session)
    (hnext : ∀ value after, Trace start (done ++ parts value) after →
      (next value).Meets after success (Stuck start)) :
    (reader >>= next).Meets session success (Stuck start) := by
  have hextended : reader.Meets session
      (fun value after => Trace start (done ++ parts value) after) (Stuck start) := by
    apply Meets.mono hreader
    · intro value after hafter
      exact hdone.trans hafter
    · intro after hafter
      exact hafter.trans hdone
  exact hextended.bind hnext

/-- A reader in the last place. -/
theorem Pushes.meets {reader : Parse Result} {parts : Result → List (Part NodeId)}
    (hreader : reader.Pushes session parts) (hdone : Trace start done session) :
    reader.Meets session (fun result after => Trace start (done ++ parts result) after)
      (Stuck start) := by
  apply Meets.mono hreader
  · intro result after hafter
    exact hdone.trans hafter
  · intro after hafter
    exact hafter.trans hdone

theorem meets_bind_advance_of_trace {next : Token → Parse Result}
    (hdone : Trace start done session) (hword : session.cursor.current.isWord = true)
    (hnext : Trace start (done ++ [.own session.cursor.current]) session.passed →
      (next session.cursor.current).Meets session.passed success (Stuck start)) :
    (advance >>= next).Meets session success (Stuck start) :=
  meets_bind_advance.mpr (hnext (hdone.shift hword))

/-- Passing a token that satisfies a test, followed by another reader. -/
theorem meets_bind_expect {test : Token → Bool} {reason : Reason}
    {next : Token → Parse Result} (hdone : Trace start done session)
    (htest : ∀ token, test token = true → token.isWord = true)
    (hnext : ∀ token after, Trace start (done ++ [.own token]) after →
      test token = true → (next token).Meets after success (Stuck start)) :
    (expect test reason >>= next).Meets session success (Stuck start) := by
  have hexpect : (expect test reason).Meets session
      (fun token after => Trace start (done ++ [.own token]) after ∧ test token = true)
      (Stuck start) := by
    rw [meets_expect]
    split
    · rename_i hcurrent
      exact ⟨hdone.shift (htest _ hcurrent), hcurrent⟩
    · exact Stuck.of_trace hdone
  exact hexpect.bind fun token after hafter => hnext token after hafter.1 hafter.2

theorem meets_bind_expectPunctuation {mark : String} {next : Token → Parse Result}
    (hdone : Trace start done session)
    (hnext : ∀ token after, Trace start (done ++ [.own token]) after →
      token.isPunctuation mark = true → (next token).Meets after success (Stuck start)) :
    (expectPunctuation mark >>= next).Meets session success (Stuck start) :=
  meets_bind_expect hdone (fun _ => Token.isWord_of_isPunctuation) hnext

theorem meets_bind_expectKeyword {word : String} {next : Token → Parse Result}
    (hdone : Trace start done session)
    (hnext : ∀ token after, Trace start (done ++ [.own token]) after →
      token.isKeyword word = true → (next token).Meets after success (Stuck start)) :
    (expectKeyword word >>= next).Meets session success (Stuck start) :=
  meets_bind_expect hdone (fun _ => Token.isWord_of_isKeyword) hnext

theorem meets_bind_expectIdentifier {reason : Reason} {next : Token → Parse Result}
    (hdone : Trace start done session)
    (hnext : ∀ token after, Trace start (done ++ [.own token]) after →
      token.kind = .identifier → (next token).Meets after success (Stuck start)) :
    (expectIdentifier reason >>= next).Meets session success (Stuck start) := by
  apply meets_bind_expect hdone
  · intro token htoken
    exact Token.isWord_of_kind (beq_iff_eq.mp htoken) (by decide)
  · intro token after hafter htoken
    exact hnext token after hafter (beq_iff_eq.mp htoken)

/-- Passing a token if it satisfies a test, followed by another reader. -/
theorem meets_bind_accept? {test : Token → Bool} {next : Option Token → Parse Result}
    (hdone : Trace start done session)
    (htest : ∀ token, test token = true → token.isWord = true)
    (hnext : ∀ accepted after,
      Trace start (done ++ accepted.toList.map .own) after →
      (∀ token ∈ accepted, test token = true) →
      (next accepted).Meets after success (Stuck start)) :
    (accept? test >>= next).Meets session success (Stuck start) := by
  have haccept : (accept? test).Meets session
      (fun accepted after => Trace start (done ++ accepted.toList.map .own) after ∧
        ∀ token ∈ accepted, test token = true)
      (Stuck start) := by
    rw [meets_accept?]
    split
    · rename_i hcurrent
      refine ⟨hdone.shift (htest _ hcurrent), ?_⟩
      rintro token ⟨⟩
      exact hcurrent
    · refine ⟨?_, fun token htoken => nomatch htoken⟩
      simpa using hdone
  exact haccept.bind fun accepted after hafter => hnext accepted after hafter.1 hafter.2

theorem meets_bind_eatComments_of_trace {next : Option Token → Parse Result}
    (hdone : Trace start done session)
    (hnext : Trace start done session.uncommented →
      (next session.cursor.comment?).Meets session.uncommented success (Stuck start)) :
    (eatComments >>= next).Meets session success (Stuck start) :=
  meets_bind_eatComments.mpr (hnext hdone.uncommented)

/-- Adding a node that takes up the last parts. -/
theorem meets_add_of_trace {draft : Draft} (hdone : Trace start taken session)
    (hcovers : draft.Covers taken) :
    (add draft).Meets session (fun id after => Trace start [.below id] after)
      (Stuck start) :=
  meets_add.mpr (hdone.reduceAll hcovers)

theorem meets_bind_add_of_trace {draft : Draft} {next : NodeId → Parse Result}
    (hdone : Trace start (done ++ taken) session) (hcovers : draft.Covers taken)
    (hnext : ∀ id after, Trace start (done ++ [.below id]) after →
      (next id).Meets after success (Stuck start)) :
    (add draft >>= next).Meets session success (Stuck start) := by
  have hadd : (add draft).Meets session
      (fun id after => Trace start (done ++ [.below id]) after) (Stuck start) :=
    meets_add.mpr (hdone.reduce hcovers)
  exact hadd.bind hnext

theorem meets_bind_addAll_of_trace {draft : Draft} {next : NodeId → Parse Result}
    (hdone : Trace start taken session) (hcovers : draft.Covers taken)
    (hnext : ∀ id after, Trace start [.below id] after →
      (next id).Meets after success (Stuck start)) :
    (add draft >>= next).Meets session success (Stuck start) :=
  (meets_add_of_trace hdone hcovers).bind hnext

/-- A construct that is read unless a token comes first. -/
theorem readUnless_pushes {test : Token → Bool} {reader : Parse Result}
    {parts : Result → List (Part NodeId)} (hreader : reader.Pushes session parts) :
    (readUnless test reader).Pushes session fun result =>
      (result.map parts).getD [] := by
  unfold Pushes readUnless
  rw [meets_bind_current]
  split
  · exact Trace.start
  · apply hreader.andThen Trace.start
    intro value after hafter
    exact hafter

/-- The comma after an item is dropped. -/
theorem separator_pushes (closing : String) :
    (Production.separator closing).Pushes session fun _ => [] := by
  unfold Pushes Production.separator
  rw [meets_bind_current]
  split
  · rename_i hcomma
    exact Trace.start.skip (Token.isSkippable_of_isComma hcomma)
  · split
    · exact Stuck.of_trace Trace.start
    · exact Trace.start

end Parse

/-- The token that comes first on the line is the first that is no block
comment. -/
theorem Cursor.dropWhile_of_firstOnLine? {tokens : List Token} {first : Token}
    (hfirst : firstOnLine? tokens = some first) :
    ∃ others, (tokens.dropWhile fun token => token.kind == .blockComment) =
      first :: others := by
  induction tokens with
  | nil => cases hfirst
  | cons token tokens ih =>
      rw [firstOnLine?] at hfirst
      split at hfirst
      · cases hfirst
      · split at hfirst
        · rename_i hblock
          rw [List.dropWhile_cons, if_pos hblock]
          exact ih hfirst
        · rename_i hblock
          cases hfirst
          rw [List.dropWhile_cons, if_neg hblock]
          exact ⟨tokens, rfl⟩

theorem Cursor.current_skipBlockComments {cursor : Cursor}
    (hcursor : cursor.atSemicolon = true) :
    cursor.skipBlockComments.current.isPunctuation ";" = true := by
  unfold atSemicolon at hcursor
  cases hfirst : firstOnLine? cursor.pending with
  | none => simp [hfirst] at hcursor
  | some first =>
      obtain ⟨others, hpending⟩ := dropWhile_of_firstOnLine? hfirst
      simpa [hfirst, skipBlockComments, current, hpending] using hcursor

namespace Parse

variable {Result : Type} {start session : Session} {done : List (Part NodeId)}
variable {success : Result → Session → Prop}

/-- The end of a statement pushes the semicolon that was written. -/
theorem meets_bind_endStatement {semicolons : Semicolons}
    {next : Option Token → Parse Result} (hdone : Trace start done session)
    (hnext : ∀ semicolon after,
      Trace start (done ++ semicolon.toList.map .own) after →
      (∀ token ∈ semicolon, token.isPunctuation ";" = true) →
      (next semicolon).Meets after success (Stuck start)) :
    (endStatement semicolons >>= next).Meets session success (Stuck start) := by
  have hend : (endStatement semicolons).Meets session
      (fun semicolon after => Trace start (done ++ semicolon.toList.map .own) after ∧
        ∀ token ∈ semicolon, token.isPunctuation ";" = true)
      (Stuck start) := by
    unfold endStatement
    rw [meets_bind_cursor]
    split
    · rename_i hcursor
      have hcurrent := Cursor.current_skipBlockComments hcursor
      have hskipped := hdone.skipBlockComments
      refine ⟨hskipped.shift (Token.isWord_of_isPunctuation hcurrent), ?_⟩
      rintro token ⟨⟩
      exact hcurrent
    · cases semicolons with
      | required =>
          apply meets_bind_expectPunctuation hdone
          intro token after hafter htoken
          refine ⟨hafter, ?_⟩
          rintro _ ⟨⟩
          exact htoken
      | inserted =>
          dsimp only
          split
          · refine ⟨?_, fun token htoken => nomatch htoken⟩
            simpa using hdone
          · exact Stuck.of_trace hdone
  exact hend.bind fun semicolon after hafter =>
    hnext semicolon after hafter.1 hafter.2

end Parse

end ScriptSyntax

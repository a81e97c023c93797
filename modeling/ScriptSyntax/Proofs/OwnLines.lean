import ScriptSyntax.Proofs.Parallel.Tokenwise
import ScriptSyntax.Proofs.Semicolons

/-!
# Semicolons on lines of their own

Where semicolons are inserted, the search for the end of a statement stops at a line break,
and a semicolon behind the break is not found by it: the statement ends without it.
Everywhere else the line break before a semicolon is not looked at.  A semicolon can thus be
moved to the line before, unless a statement may end there.
-/

namespace ScriptSyntax

open List (Forall₂)

namespace Token

/-- The tokens are the same, but a semicolon may have lost the line break before it. -/
def Joins (token other : Token) : Prop :=
  other = token ∨ token.isPunctuation ";" = true ∧ other = { token with newlineBefore := false }

/-- A semicolon on a line of its own. -/
def ownLine : Token :=
  { kind := .punctuation, value := ";", span := .null, newlineBefore := true }

/-- A statement may end before the token at the index: it stands behind a token that a
statement may end with, and the search for the end of a line passes over those between. -/
def MayEndBefore (tokens : List Token) (index : Nat) : Prop :=
  ∃ earlier < index, tokens[earlier]?.any mayEnd = true ∧
    ∀ between < index, earlier < between → tokens[between]?.any isPassedOver = true

instance (tokens : List Token) : DecidablePred (MayEndBefore tokens) := fun index =>
  inferInstanceAs (Decidable (∃ earlier < index, tokens[earlier]?.any mayEnd = true ∧
    ∀ between < index, earlier < between → tokens[between]?.any isPassedOver = true))

instance : DecidableRel Joins := fun token other =>
  inferInstanceAs (Decidable (other = token ∨
    token.isPunctuation ";" = true ∧ other = { token with newlineBefore := false }))

variable {token other : Token}

theorem Joins.refl (token : Token) : token.Joins token :=
  .inl rfl

theorem Joins.eq_of_not_semicolon (hjoins : token.Joins other)
    (htoken : token.isPunctuation ";" = false) : token = other := by
  rcases hjoins with rfl | ⟨hsemicolon, -⟩
  · rfl
  · rw [htoken] at hsemicolon
    cases hsemicolon

theorem Joins.signal_eq (hjoins : token.Joins other) : token.signal = other.signal := by
  rcases hjoins with rfl | ⟨hsemicolon, rfl⟩
  · rfl
  · have hother : isPunctuation { token with newlineBefore := false } ";" = true := hsemicolon
    simp [signal, hsemicolon, hother]

theorem Joins.span_eq (hjoins : token.Joins other) : token.span = other.span := by
  rcases hjoins with rfl | ⟨-, rfl⟩ <;> rfl

/-- A token is reported as it is, wherever the line breaks. -/
theorem Joins.unexpected_eq (hjoins : token.Joins other) (reason : Reason) :
    token.unexpected reason = other.unexpected reason := by
  rcases hjoins with rfl | ⟨-, rfl⟩ <;> rfl

end Token

open Token (Joins MayEndBefore)

/-- Semicolons that may have been moved to the line before are alike. -/
def Likeness.joined : Likeness where
  view := .exact
  twin := Joins
  failure diagnostic failed := failed = diagnostic
  signal := Joins.signal_eq
  place := Joins.span_eq
  keep := Joins.eq_of_not_semicolon
  keep_asName hjoins htoken := congrArg Token.asName (hjoins.eq_of_not_semicolon htoken)
  unexpected reason hjoins := (hjoins.unexpected_eq reason).symm

/-- The search for the next thing on the line comes to the same end, if nothing changes
where it gets to. -/
theorem Cursor.firstOnLine?_eq_of_joins {tokens others : List Token}
    (hjoins : Forall₂ Joins tokens others)
    (hkept : ∀ index, (∀ earlier ∈ tokens.take index, earlier.isPassedOver = true) →
      others[index]? = tokens[index]?) :
    firstOnLine? tokens = firstOnLine? others := by
  induction hjoins with
  | nil => rfl
  | @cons token other tokens others _ _ ih =>
      have htoken : other = token := Option.some.inj (hkept 0 nofun)
      rw [htoken, firstOnLine?, firstOnLine?]
      split
      · rfl
      · split
        · have hover : token.isPassedOver = true := by simp_all [Token.isPassedOver]
          apply ih
          intro index hearlier
          exact hkept (index + 1) (List.forall_mem_cons.mpr ⟨hover, hearlier⟩)
        · rfl

theorem Token.getElem?_between {front later behind : List Token} {place index : Nat}
    (hfront : front.length = place) (hindex : index < later.length) :
    (front ++ later ++ behind)[place + index]? = later[index]? := by
  rw [List.append_assoc, List.getElem?_append_right (by omega),
    List.getElem?_append_left (by omega)]
  congr 1
  omega

/-- What the search for the next thing on the line passes over stands behind a token that a
statement may end with. -/
theorem Token.mayEndBefore_of_passed {front later behind : List Token} {last : Token}
    {index : Nat} (hlast : last.mayEnd = true) (hindex : index < later.length)
    (hpassed : ∀ earlier ∈ later.take index, earlier.isPassedOver = true) :
    MayEndBefore (front ++ last :: later ++ behind) (front.length + 1 + index) := by
  refine ⟨front.length, by omega, by simp [hlast], ?_⟩
  intro between hbefore hafter
  obtain ⟨offset, rfl⟩ := Nat.exists_eq_add_of_le (Nat.succ_le_of_lt hafter)
  have hoffset : offset < later.length := by omega
  rw [List.append_cons, getElem?_between (by simp) hoffset, List.getElem?_eq_getElem hoffset]
  exact hpassed _ (List.mem_take_iff_getElem.mpr ⟨offset, by omega, rfl⟩)

/-- Behind a token that a statement may end with, nothing changes where the search for the
next thing on the line gets to. -/
theorem Cursor.kept_behind_end {tokens others later rest : List Token}
    (hjoins : Forall₂ Joins (Token.terminated tokens) (Token.terminated others))
    (hkept : ∀ index < tokens.length, MayEndBefore tokens index →
      others[index]? = tokens[index]?)
    (hlength : later.length = rest.length) (hrest : rest <:+ (Cursor.ofTokens others).pending)
    (hends : Token.EndsBefore (Cursor.ofTokens tokens).pending later) (index : Nat)
    (hpassed : ∀ earlier ∈ later.take index, earlier.isPassedOver = true) :
    rest[index]? = later[index]? := by
  obtain ⟨last, hlast, front, hfront⟩ := hends
  obtain ⟨before, hbefore⟩ := hrest
  obtain ⟨behind, hbehind⟩ := pending_ofTokens_prefix tokens
  obtain ⟨beyond, hbeyond⟩ := pending_ofTokens_prefix others
  rcases Nat.lt_or_ge index later.length with hindex | hindex
  · have hplace : MayEndBefore tokens (front.length + 1 + index) := by
      rw [← hbehind, ← hfront]
      exact Token.mayEndBefore_of_passed hlast hindex hpassed
    have hbound : front.length + 1 + index < tokens.length := by
      rw [← hbehind, ← hfront]
      simp only [List.length_append, List.length_cons]
      omega
    have hfirst : tokens[front.length + 1 + index]? = later[index]? := by
      rw [← hbehind, ← hfront, List.append_cons]
      exact Token.getElem?_between (by simp) hindex
    have hsecond : others[front.length + 1 + index]? = rest[index]? := by
      rw [← hbeyond, ← hbefore]
      apply Token.getElem?_between _ (hlength ▸ hindex)
      have htokens := congrArg List.length hfront
      have hothers := congrArg List.length hbefore
      have hterminated := hjoins.length_eq
      rw [← upcoming_ofTokens, ← upcoming_ofTokens, length_upcoming, length_upcoming,
        ← htokens, ← hothers] at hterminated
      simp only [List.length_append, List.length_cons] at hterminated
      omega
    rw [← hfirst, ← hsecond, hkept _ hbound hplace]
  · rw [List.getElem?_eq_none hindex, List.getElem?_eq_none (hlength ▸ hindex)]

/-- Semicolons can be moved to the line before wherever no statement may end before them: the
tree stays the same, or the failure. -/
theorem parse_eq_of_joins (semicolons : Semicolons) {tokens others : List Token}
    (hjoins : Forall₂ Joins tokens others)
    (hkept : ∀ index < tokens.length, MayEndBefore tokens index →
      others[index]? = tokens[index]?) :
    parse semicolons others = parse semicolons tokens := by
  have htwins : Forall₂ Joins (Token.terminated tokens) (Token.terminated others) := by
    apply Token.rel_terminated hjoins (.refl _)
    · exact fun token other halike => Token.superficial_isEnd.congr halike.signal_eq
    · intro token other halike
      rw [halike.span_eq]
      exact .refl _
  have hagree : Likeness.joined.Agree (parse semicolons tokens) (parse semicolons others) := by
    apply Likeness.agree_parse _ _ htwins
    intro later rest halike _ hrest hends
    have hsame := Cursor.firstOnLine?_eq_of_joins halike
      (Cursor.kept_behind_end htwins hkept halike.length_eq hrest hends)
    rw [← hsame]
    cases Cursor.firstOnLine? later with
    | none => exact .none
    | some token => exact .some (.refl token)
  cases hfirst : parse semicolons tokens <;> cases hsecond : parse semicolons others <;>
    rw [hfirst, hsecond] at hagree
  case error.error => exact congrArg Except.error hagree
  case error.ok => cases hagree
  case ok.error => cases hagree
  case ok.ok tree other =>
    have hsame : other.seen .exact = tree.seen .exact := Tree.Mirrors.seen_eq hagree
    rw [Tree.seen_exact, Tree.seen_exact] at hsame
    rw [hsame]

/-- Statements without content, each on a line of its own, may stand on one line. -/
theorem parse_eq_of_joins_empty :
    let tokens := [Token.plain .identifier "x", Token.plain .punctuation ";",
      Token.ownLine, Token.plain .punctuation "\x7b", Token.ownLine, Token.ownLine,
      Token.plain .punctuation "\x7d"]
    let others := [Token.plain .identifier "x", Token.plain .punctuation ";",
      Token.plain .punctuation ";", Token.plain .punctuation "\x7b",
      Token.plain .punctuation ";", Token.ownLine, Token.plain .punctuation "\x7d"]
    (parse .inserted tokens).isOk = true ∧
      parse .inserted others = parse .inserted tokens := by
  intro tokens others
  have hjoins : Forall₂ Joins tokens others := by
    decide
  have hkept : ∀ index < tokens.length, MayEndBefore tokens index →
      others[index]? = tokens[index]? := by
    decide
  exact ⟨by decide +kernel, parse_eq_of_joins .inserted hjoins hkept⟩

/-- Behind a statement, on the other hand, a semicolon on a line of its own is left over: the
statement is complete without it, and the `else` that follows belongs to none.  Where semicolons
have to be written, it does end the statement. -/
theorem semicolon_on_own_line_left_over :
    let condition := [Token.plain .keyword "if", Token.plain .punctuation "(",
      Token.plain .identifier "a", Token.plain .punctuation ")", Token.plain .identifier "b"]
    let alternative := [Token.plain .keyword "else", Token.plain .identifier "c",
      Token.plain .punctuation ";"]
    let tokens := condition ++ [Token.ownLine] ++ alternative
    let others := condition ++ [Token.plain .punctuation ";"] ++ alternative
    Forall₂ Joins tokens others ∧ (parse .inserted others).isOk = true ∧
      parse .required tokens = parse .inserted others ∧
      parse .inserted tokens =
        .error ((Token.plain .keyword "else").unexpected .unexpectedToken) := by
  decide +kernel

end ScriptSyntax

import ScriptSyntax.Proofs.Parallel.Tokenwise

/-!
# Payloads

The texts of names, literals and comments and the places of all tokens are payload: the
parser stores them and never looks at them.  Two lists that differ in payload only are read
in the same way, and the trees differ in the payload of the tokens that they hold and in the
places of the nodes.
-/

namespace ScriptSyntax

open List (Forall₂)

namespace Token

/-- The tokens differ in payload only. -/
structure SameSyntax (token other : Token) : Prop where
  kind : other.kind = token.kind
  newlineBefore : other.newlineBefore = token.newlineBefore
  value : token.kind.isSyntactic = true → other.value = token.value

/-- The token without its payload. -/
def stripped (token : Token) : Token where
  kind := token.kind
  value := if token.kind.isSyntactic then token.value else ""
  span := .null
  newlineBefore := token.newlineBefore

variable {token other : Token}

theorem SameSyntax.stripped_eq (hsame : token.SameSyntax other) :
    token.stripped = other.stripped := by
  unfold stripped
  rw [hsame.kind, hsame.newlineBefore]
  cases hkind : token.kind.isSyntactic with
  | false => rfl
  | true => rw [hsame.value hkind]

theorem SameSyntax.refl_of_kind (hkind : token.kind = .eof) (hother : other.kind = .eof)
    (hline : other.newlineBefore = token.newlineBefore) : token.SameSyntax other where
  kind := hother.trans hkind.symm
  newlineBefore := hline
  value hsyntactic := by
    rw [hkind] at hsyntactic
    cases hsyntactic

theorem isPunctuation_stripped (token : Token) (mark : String) :
    token.stripped.isPunctuation mark = token.isPunctuation mark := by
  cases hkind : token.kind.isSyntactic with
  | true => simp [isPunctuation, Token.is, stripped, hkind]
  | false =>
      have hpunctuation : (token.kind == .punctuation) = false := by
        apply beq_false_of_ne
        intro hpunctuation
        rw [hpunctuation] at hkind
        cases hkind
      simp [isPunctuation, Token.is, stripped, hpunctuation]

@[simp]
theorem signal_stripped (token : Token) : token.stripped.signal = token.signal := by
  rw [signal, isPunctuation_stripped, signal]
  cases hkind : token.kind.isSyntactic <;> simp [stripped, hkind]

theorem signal_eq_of_stripped (hsame : token.stripped = other.stripped) :
    token.signal = other.signal := by
  rw [← signal_stripped, hsame, signal_stripped]

theorem stripped_asName_eq (hsame : token.stripped = other.stripped) :
    token.asName.stripped = other.asName.stripped := by
  have hline : token.stripped.newlineBefore = other.stripped.newlineBefore := by rw [hsame]
  change token.newlineBefore = other.newlineBefore at hline
  simp [asName, stripped, Kind.isSyntactic, hline]

end Token

/-- Payload and places do not matter. -/
def View.skeleton : View where
  keep := Token.stripped
  place _ := .null
  signal_keep := Token.signal_stripped
  place_between _ _ := rfl

/-- The tree without payload and places. -/
def Tree.stripped (tree : Tree) : Tree :=
  tree.seen .skeleton

/-- Two lists that differ in payload only. -/
def Likeness.skeleton (tokens others : List Token) : Likeness where
  view := .skeleton
  twin token other := token.stripped = other.stripped ∧ ∃ index : Nat,
    (Token.terminated tokens)[index]? = some token ∧
      (Token.terminated others)[index]? = some other
  failure diagnostic failed := ∃ (reason : Reason) (index : Nat) (token other : Token),
    (Token.terminated tokens)[index]? = some token ∧
      (Token.terminated others)[index]? = some other ∧
      diagnostic = token.unexpected reason ∧ failed = other.unexpected reason
  signal htwin := Token.signal_eq_of_stripped htwin.1
  place _ := rfl
  keep htwin _ := htwin.1
  keep_asName htwin _ := Token.stripped_asName_eq htwin.1
  unexpected reason htwin := by
    obtain ⟨-, index, htoken, hother⟩ := htwin
    exact ⟨reason, index, _, _, htoken, hother, rfl, rfl⟩

/-- Tokens in the same places of two lists. -/
theorem Token.rel_indexed {alike : Token → Token → Prop} {tokens others : List Token}
    (halike : Forall₂ alike tokens others) :
    Forall₂ (fun token other => alike token other ∧ ∃ index : Nat,
      tokens[index]? = some token ∧ others[index]? = some other) tokens others := by
  obtain ⟨hlength, hget⟩ := List.forall₂_iff_get.mp halike
  apply List.forall₂_iff_get.mpr
  refine ⟨hlength, fun index hfirst hsecond => ⟨hget index hfirst hsecond, index, ?_, ?_⟩⟩
  · exact List.getElem?_eq_getElem hfirst
  · exact List.getElem?_eq_getElem hsecond

/-- Payloads never steer the parser: of two lists that differ in payload only both are read or
neither is; the trees differ in payload and places only, and failures have the same reason and
name the tokens with the same index. -/
theorem payloads_never_steer (semicolons : Semicolons) {tokens others : List Token}
    (hsame : Forall₂ Token.SameSyntax tokens others) :
    ((∃ tree, parse semicolons tokens = .ok tree) ↔
      ∃ other, parse semicolons others = .ok other) ∧
    (∀ tree other, parse semicolons tokens = .ok tree → parse semicolons others = .ok other →
      other.stripped = tree.stripped) ∧
    ∀ diagnostic failed, parse semicolons tokens = .error diagnostic →
      parse semicolons others = .error failed →
      ∃ (reason : Reason) (index : Nat) (token other : Token),
        (Token.terminated tokens)[index]? = some token ∧
        (Token.terminated others)[index]? = some other ∧
        diagnostic = token.unexpected reason ∧ failed = other.unexpected reason := by
  have hterminated : Forall₂ Token.SameSyntax (Token.terminated tokens)
      (Token.terminated others) := by
    apply Token.rel_terminated hsame (.refl_of_kind rfl rfl rfl)
    · intro token other halike
      rw [Token.isEnd, Token.isEnd, halike.kind]
    · exact fun _ _ _ => .refl_of_kind rfl rfl rfl
  have htwins : Forall₂ (Likeness.skeleton tokens others).twin (Token.terminated tokens)
      (Token.terminated others) :=
    (Token.rel_indexed hterminated).imp fun _ _ halike => ⟨halike.1.stripped_eq, halike.2⟩
  have hagree : (Likeness.skeleton tokens others).Agree (parse semicolons tokens)
      (parse semicolons others) := by
    apply Likeness.agree_parse _ _ htwins
    intro later rest halike _ _ _
    apply Cursor.rel_firstOnLine? _ _ halike
    · intro token other htwin
      exact Token.superficial_kind.congr (Token.signal_eq_of_stripped htwin.1)
    · intro token other htwin
      have hline : token.stripped.newlineBefore = other.stripped.newlineBefore := by rw [htwin.1]
      exact hline
  cases hfirst : parse semicolons tokens <;> cases hsecond : parse semicolons others <;>
    rw [hfirst, hsecond] at hagree
  case error.error => simpa [Likeness.Agree, Likeness.skeleton] using hagree
  case error.ok => cases hagree
  case ok.error => cases hagree
  case ok.ok tree other =>
    have hsame : other.stripped = tree.stripped := Tree.Mirrors.seen_eq hagree
    simpa using hsame

/-- A name spelled like an operator and a text spelled like a brace. -/
theorem payloads_never_steer_lookalikes :
    ∃ tree other,
      parse .required [⟨.identifier, "x", .null, false⟩, ⟨.operator, "=", .null, false⟩,
        ⟨.string, "y", .null, false⟩, ⟨.punctuation, ";", .null, false⟩] = .ok tree ∧
      parse .required [⟨.identifier, "in", .null, false⟩, ⟨.operator, "=", .null, false⟩,
        ⟨.string, "\x7d", .null, false⟩, ⟨.punctuation, ";", .null, false⟩] = .ok other ∧
      other ≠ tree ∧ other.stripped = tree.stripped := by
  let tokens : List Token := [⟨.identifier, "x", .null, false⟩, ⟨.operator, "=", .null, false⟩,
    ⟨.string, "y", .null, false⟩, ⟨.punctuation, ";", .null, false⟩]
  let others : List Token := [⟨.identifier, "in", .null, false⟩, ⟨.operator, "=", .null, false⟩,
    ⟨.string, "\x7d", .null, false⟩, ⟨.punctuation, ";", .null, false⟩]
  have hsame : Forall₂ Token.SameSyntax tokens others := by
    refine .cons ⟨rfl, rfl, nofun⟩ (.cons ⟨rfl, rfl, fun _ => rfl⟩ ?_)
    exact .cons ⟨rfl, rfl, nofun⟩ (.cons ⟨rfl, rfl, fun _ => rfl⟩ .nil)
  obtain ⟨hboth, htrees, -⟩ := payloads_never_steer .required hsame
  have hread : (parse .required tokens).toOption.isSome = true := by decide +kernel
  have hdiffer : (parse .required tokens).toOption ≠ (parse .required others).toOption := by
    decide +kernel
  cases hfirst : parse .required tokens with
  | error diagnostic =>
      rw [hfirst] at hread
      cases hread
  | ok tree =>
      obtain ⟨other, hsecond⟩ := hboth.mp ⟨tree, hfirst⟩
      refine ⟨tree, other, rfl, hsecond, ?_, htrees tree other hfirst hsecond⟩
      rintro rfl
      rw [hfirst, hsecond] at hdiffer
      exact hdiffer rfl

end ScriptSyntax

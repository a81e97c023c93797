import ScriptSyntax.Proofs.Lexeme.Extent

/-!
# Lexemes before a separator

A number, a word, a mark or an operator ends at the next separator at the
latest.  If it ends before that anyway, any other text that starts with a
separator may take the place of what stands behind it.
-/

namespace ScriptSyntax

open Text

namespace Lexeme

/-! ## Separators -/

/-- A character that no number, word, mark or operator contains.  The backslash
is one: it occurs only in comments, strings and regular expressions. -/
def isSeparator (character : Char) : Bool :=
  isBlank character || character == '\\'

/-- The text is empty or starts with a separator. -/
def Separated (text : List Char) : Prop :=
  ∀ character ∈ text.head?, isSeparator character = true

theorem isWordStart_iff (character : Char) :
    isWordStart character = true ↔
      (65 ≤ character.toNat ∧ character.toNat ≤ 90) ∨
        (97 ≤ character.toNat ∧ character.toNat ≤ 122) ∨
        character.toNat = 95 ∨ character.toNat = 36 := by
  have halpha : character.isAlpha = (character.isUpper || character.isLower) := rfl
  have hupper : character.isUpper =
      decide (character.val ≥ 'A'.val ∧ character.val ≤ 'Z'.val) := rfl
  have hlower : character.isLower =
      (decide (character.val ≥ 'a'.val) && decide (character.val ≤ 'z'.val)) := rfl
  simp only [isWordStart, halpha, hupper, hlower, Char.toNat, Bool.or_eq_true, Bool.and_eq_true,
    decide_eq_true_eq, beq_iff_eq, ge_iff_le, UInt32.le_iff_toNat_le, Char.ext_iff,
    ← UInt32.toNat_inj, Char.reduceVal, UInt32.reduceToNat]
  omega

theorem isDigit_iff (character : Char) :
    character.isDigit = true ↔ 48 ≤ character.toNat ∧ character.toNat ≤ 57 := by
  simp only [Char.isDigit, Char.toNat, Bool.and_eq_true, decide_eq_true_eq, ge_iff_le,
    UInt32.le_iff_toNat_le, Char.reduceVal, UInt32.reduceToNat]

theorem isWordPart_iff (character : Char) :
    isWordPart character = true ↔
      (65 ≤ character.toNat ∧ character.toNat ≤ 90) ∨
        (97 ≤ character.toNat ∧ character.toNat ≤ 122) ∨
        (48 ≤ character.toNat ∧ character.toNat ≤ 57) ∨
        character.toNat = 95 ∨ character.toNat = 36 := by
  rw [isWordPart, Bool.or_eq_true, isWordStart_iff, isDigit_iff]
  omega

theorem isWordPart_of_isSeparator {character : Char}
    (hseparator : isSeparator character = true) : isWordPart character = false := by
  rw [Bool.eq_false_iff, ne_eq, isWordPart_iff]
  simp only [isSeparator, isBlank, Char.toNat, Bool.or_eq_true, Bool.and_eq_true,
    decide_eq_true_eq, beq_iff_eq, Char.ext_iff, ← UInt32.toNat_inj, Char.reduceVal,
    UInt32.reduceToNat] at hseparator ⊢
  omega

theorem isWordPart_of_isDigit {character : Char} (hdigit : character.isDigit = true) :
    isWordPart character = true := by
  simp [isWordPart, hdigit]

theorem isWordPart_of_isAlpha {character : Char} (halpha : character.isAlpha = true) :
    isWordPart character = true := by
  simp [isWordPart, isWordStart, halpha]

theorem isWordPart_of_isHexDigit {character : Char}
    (hdigit : StringText.isHexDigit character = true) : isWordPart character = true := by
  rw [isWordPart_iff]
  simp only [StringText.isHexDigit, Char.isDigit, Char.toNat, Bool.or_eq_true, Bool.and_eq_true,
    decide_eq_true_eq, ge_iff_le, Char.le_def, UInt32.le_iff_toNat_le, Char.reduceVal,
    UInt32.reduceToNat] at hdigit ⊢
  omega

namespace Separated

variable {other : List Char}

/-- A separator ends every run of letters and digits. -/
theorem ends (hother : Separated other) {property : Char → Bool}
    (hproperty : ∀ {character}, property character = true → isWordPart character = true) :
    ∀ character ∈ other.head?, property character = false := by
  intro character hcharacter
  have hpart := isWordPart_of_isSeparator (hother character hcharacter)
  rw [Bool.eq_false_iff]
  intro hheld
  rw [hproperty hheld] at hpart
  cases hpart

theorem head?_ne (hother : Separated other) {symbol : Char}
    (hsymbol : isSeparator symbol = false) : other.head? ≠ some symbol := by
  intro hhead
  rw [hother symbol hhead] at hsymbol
  cases hsymbol

theorem head_ne {character : Char} (hother : Separated (character :: other)) {symbol : Char}
    (hsymbol : isSeparator symbol = false) : character ≠ symbol := by
  rintro rfl
  exact hother.head?_ne hsymbol rfl

end Separated

/-- The measure of a lexeme that ends inside a text, or at its end, is the same
with any text behind it that starts with a separator. -/
def Local (measure : List Char → Nat) : Prop :=
  ∀ ⦃left right other : List Char⦄, measure (left ++ right) ≤ left.length →
    Separated other → measure (left ++ other) = measure (left ++ right)

/-- A measure is local if no lexeme starts with a separator and a lexeme that
has a first character is the same before all separators. -/
theorem Local.of_cons {measure : List Char → Nat}
    (hseparated : ∀ {other}, Separated other → measure other = 0)
    (hcons : ∀ {first left right other}, measure (first :: (left ++ right)) ≤ left.length + 1 →
      Separated other → measure (first :: (left ++ other)) = measure (first :: (left ++ right))) :
    Local measure := by
  intro left right other hlength hother
  cases left with
  | nil => exact (hseparated hother).trans (Nat.le_zero.mp hlength).symm
  | cons first left => exact hcons hlength hother

/-- The lexeme is the same when the text is cut off behind it. -/
theorem Local.cut {measure : List Char → Nat} (hlocal : Local measure) {left right : List Char}
    (hinside : measure (left ++ right) ≤ left.length) : measure left = measure (left ++ right) := by
  have hnothing : Separated [] := fun _ hnone => nomatch hnone
  simpa using hlocal hinside hnothing

/-- A lexeme does not reach a separator. -/
theorem Local.append_le {measure : List Char → Nat} (hlocal : Local measure)
    (hmeasure : ∀ text, measure text ≤ text.length) {left other : List Char}
    (hother : Separated other) : measure (left ++ other) ≤ left.length := by
  have hleft : measure (left ++ []) ≤ left.length := by simpa using hmeasure left
  rw [hlocal hleft hother]
  exact hleft

/-! ### Numbers -/

theorem hexLength_of_head?_ne {text : List Char} (htext : text.head? ≠ some '0') :
    hexLength text = 0 := by
  unfold hexLength
  split
  · exact absurd rfl htext
  · rfl

theorem hexLength_cons (mark : Char) (rest : List Char) :
    hexLength ('0' :: mark :: rest) =
      if (mark == 'x' || mark == 'X') && runLength StringText.isHexDigit rest != 0 then
        runLength StringText.isHexDigit rest + 2
      else 0 := rfl

theorem hexLength_zero_of_separated {other : List Char} (hother : Separated other) :
    hexLength ('0' :: other) = 0 := by
  cases other with
  | nil => rfl
  | cons mark other =>
      have hlower : mark ≠ 'x' := hother.head_ne rfl
      have hupper : mark ≠ 'X' := hother.head_ne rfl
      simp [hexLength_cons, hlower, hupper]

/-- Fewer than three characters are no hexadecimal number. -/
theorem hexLength_eq_zero {text : List Char} (hlength : hexLength text ≤ 2) :
    hexLength text = 0 := by
  unfold hexLength at hlength ⊢
  split at hlength
  · dsimp only at hlength ⊢
    split at hlength
    · rename_i hdigits
      simp only [Bool.and_eq_true, bne_iff_ne, ne_eq] at hdigits
      omega
    · simp [*]
  · rfl

theorem local_hexLength : Local hexLength := by
  apply Local.of_cons
  · intro other hother
    exact hexLength_of_head?_ne (hother.head?_ne rfl)
  · intro zero left right other hlength hother
    by_cases hzero : zero = '0'
    · subst hzero
      cases left with
      | nil =>
          rw [List.nil_append, hexLength_zero_of_separated hother]
          exact (hexLength_eq_zero (Nat.le_succ_of_le hlength)).symm
      | cons mark left =>
          simp only [List.cons_append, hexLength_cons, List.length_cons] at hlength ⊢
          cases hmark : mark == 'x' || mark == 'X' with
          | false => rfl
          | true =>
              have hdigits : runLength StringText.isHexDigit (left ++ right) ≤ left.length := by
                simp only [hmark, Bool.true_and, bne_iff_ne] at hlength
                split at hlength <;> omega
              rw [runLength_append hdigits (hother.ends isWordPart_of_isHexDigit)]
    · have hnone (rest : List Char) : hexLength (zero :: rest) = 0 :=
        hexLength_of_head?_ne (by simpa using hzero)
      rw [hnone, hnone]

/-- The length of a mantissa with the given number of digits before the text. -/
def mantissaWith (whole : Nat) : List Char → Nat
  | '.' :: rest =>
      if whole = 0 ∧ runLength Char.isDigit rest = 0 then 0
      else whole + 1 + runLength Char.isDigit rest
  | _ => whole

theorem mantissaLength_eq (text : List Char) :
    mantissaLength text =
      mantissaWith (runLength Char.isDigit text) (text.drop (runLength Char.isDigit text)) := rfl

theorem mantissaWith_of_head_ne {whole : Nat} {text : List Char} (htext : text.head? ≠ some '.') :
    mantissaWith whole text = whole := by
  unfold mantissaWith
  split
  · exact absurd rfl htext
  · rfl

theorem le_mantissaWith (whole : Nat) (text : List Char) : whole ≤ mantissaWith whole text := by
  unfold mantissaWith
  split
  · split
    · omega
    · rw [Nat.add_assoc]
      exact Nat.le_add_right ..
  · exact Nat.le_refl whole

theorem mantissaWith_append {whole : Nat} {left right other : List Char}
    (hlength : mantissaWith whole (left ++ right) ≤ whole + left.length)
    (hother : Separated other) :
    mantissaWith whole (left ++ other) = mantissaWith whole (left ++ right) := by
  cases left with
  | nil =>
      rw [List.nil_append, mantissaWith_of_head_ne (hother.head?_ne rfl)]
      exact Nat.le_antisymm (le_mantissaWith ..) hlength
  | cons point behind =>
      by_cases hpoint : point = '.'
      · subst hpoint
        have hfraction : runLength Char.isDigit (behind ++ right) ≤ behind.length := by
          simp only [List.cons_append, mantissaWith, List.length_cons] at hlength
          split at hlength
          · omega
          · omega
        simp only [List.cons_append, mantissaWith,
          runLength_append hfraction (hother.ends isWordPart_of_isDigit)]
      · rw [mantissaWith_of_head_ne (by simpa using hpoint),
          mantissaWith_of_head_ne (by simpa using hpoint)]

theorem local_mantissaLength : Local mantissaLength := by
  intro left right other hlength hother
  simp only [mantissaLength_eq] at hlength ⊢
  have hwhole : runLength Char.isDigit (left ++ right) ≤ left.length :=
    Nat.le_trans (le_mantissaWith ..) hlength
  rw [runLength_append hwhole (hother.ends isWordPart_of_isDigit)]
  rw [List.drop_append_of_le_length hwhole] at hlength ⊢
  rw [List.drop_append_of_le_length hwhole]
  apply mantissaWith_append _ hother
  rwa [List.length_drop, Nat.add_sub_cancel' hwhole]

/-- The length of the sign at the head of a text. -/
def signLength (text : List Char) : Nat :=
  if text.head? = some '+' ∨ text.head? = some '-' then 1 else 0

theorem signLength_le (text : List Char) : signLength text ≤ text.length := by
  cases text with
  | nil => exact Nat.le_refl 0
  | cons character text =>
      unfold signLength
      split <;> simp

theorem exponentLength_cons (mark : Char) (rest : List Char) :
    exponentLength (mark :: rest) =
      if (mark == 'e' || mark == 'E') &&
          runLength Char.isDigit (rest.drop (signLength rest)) != 0 then
        1 + signLength rest + runLength Char.isDigit (rest.drop (signLength rest))
      else 0 := rfl

theorem exponentLength_cons_of_separated (mark : Char) {other : List Char}
    (hother : Separated other) : exponentLength (mark :: other) = 0 := by
  have hsign : signLength other = 0 :=
    if_neg (not_or.mpr ⟨hother.head?_ne rfl, hother.head?_ne rfl⟩)
  have hdigits : runLength Char.isDigit other = 0 :=
    runLength_append_eq_length (List.forall_mem_nil _) (hother.ends isWordPart_of_isDigit)
  simp [exponentLength_cons, hsign, hdigits]

theorem exponentLength_of_separated {other : List Char} (hother : Separated other) :
    exponentLength other = 0 := by
  cases other with
  | nil => rfl
  | cons mark other =>
      have hlower : mark ≠ 'e' := hother.head_ne rfl
      have hupper : mark ≠ 'E' := hother.head_ne rfl
      simp [exponentLength_cons, hlower, hupper]

theorem local_exponentLength : Local exponentLength := by
  apply Local.of_cons exponentLength_of_separated
  intro mark left right other hlength hother
  cases left with
  | nil =>
      rw [List.nil_append, exponentLength_cons_of_separated mark hother]
      rw [List.nil_append, exponentLength_cons] at hlength ⊢
      split at hlength
      · rename_i hdigits
        simp only [Bool.and_eq_true, bne_iff_ne, ne_eq] at hdigits
        simp only [List.length_nil] at hlength
        omega
      · simp [*]
  | cons first left =>
      -- The sign is a matter of the first character behind the mark.
      have hsign : signLength (first :: left) ≤ (first :: left).length := signLength_le _
      have hsame (rest : List Char) :
          signLength (first :: left ++ rest) = signLength (first :: left) := rfl
      simp only [exponentLength_cons, hsame, List.drop_append_of_le_length hsign] at hlength ⊢
      generalize hbehind : (first :: left).drop (signLength (first :: left)) = behind at *
      have hrest := congrArg List.length hbehind
      rw [List.length_drop] at hrest
      cases hmark : mark == 'e' || mark == 'E' with
      | false => rfl
      | true =>
          have hdigits : runLength Char.isDigit (behind ++ right) ≤ behind.length := by
            simp only [hmark, Bool.true_and, bne_iff_ne] at hlength
            split at hlength <;> omega
          rw [runLength_append hdigits (hother.ends isWordPart_of_isDigit)]

theorem decimalLength_eq (text : List Char) :
    decimalLength text =
      if mantissaLength text = 0 then 0
      else mantissaLength text + exponentLength (text.drop (mantissaLength text)) := by
  unfold decimalLength
  split
  · exact (if_pos ‹_›).symm
  · exact (if_neg ‹_›).symm

theorem local_decimalLength : Local decimalLength := by
  intro left right other hlength hother
  simp only [decimalLength_eq] at hlength ⊢
  have hmantissa : mantissaLength (left ++ right) ≤ left.length := by
    split at hlength <;> omega
  rw [local_mantissaLength hmantissa hother]
  split at hlength
  · simp [*]
  · rw [List.drop_append_of_le_length hmantissa] at hlength ⊢
    rw [List.drop_append_of_le_length hmantissa]
    have hexponent : exponentLength (left.drop (mantissaLength (left ++ right)) ++ right) ≤
        (left.drop (mantissaLength (left ++ right))).length := by
      rw [List.length_drop]
      omega
    rw [local_exponentLength hexponent hother]

theorem numberLength_eq (text : List Char) :
    numberLength text = if hexLength text = 0 then decimalLength text else hexLength text := by
  unfold numberLength
  split
  · exact (if_pos ‹_›).symm
  · exact (if_neg ‹_›).symm

theorem local_numberLength : Local numberLength := by
  intro left right other hlength hother
  simp only [numberLength_eq] at hlength ⊢
  have hhex : hexLength (left ++ right) ≤ left.length := by
    split at hlength <;> omega
  rw [local_hexLength hhex hother]
  split at hlength
  · rw [local_decimalLength hlength hother]
  · simp [*]

/-! ### Words, marks and operators -/

theorem isWordStart_isWordPart {character : Char} (hstart : isWordStart character = true) :
    isWordPart character = true := by
  simp [isWordPart, hstart]

theorem local_wordLength : Local wordLength := by
  apply Local.of_cons
  · intro other hother
    cases other with
    | nil => rfl
    | cons character other =>
        have hstart := hother.ends isWordStart_isWordPart character rfl
        simp [wordLength, hstart]
  · intro first left right other hlength hother
    simp only [wordLength] at hlength ⊢
    split at hlength
    · rw [runLength_append (Nat.le_of_succ_le_succ hlength) (hother.ends id)]
    · simp [*]

theorem not_isSeparator_of_mem_punctuationMarks :
    ∀ mark ∈ Token.punctuationMarks, isSeparator mark = false := by
  have hall : (Token.punctuationMarks.all fun mark => !isSeparator mark) = true := by decide
  simpa only [List.all_eq_true, Bool.not_eq_true'] using hall

theorem local_punctuationLength : Local punctuationLength := by
  apply Local.of_cons
  · intro other hother
    cases other with
    | nil => rfl
    | cons character other =>
        apply if_neg
        intro hmark
        exact hother.head_ne (not_isSeparator_of_mem_punctuationMarks character hmark) rfl
  · intros
    rfl

theorem not_isSeparator_of_mem_symbolOperators :
    ∀ symbol ∈ Token.symbolOperators, ∀ character ∈ symbol.toList,
      isSeparator character = false := by
  have hall : (Token.symbolOperators.all fun symbol =>
      symbol.toList.all fun character => !isSeparator character) = true := by decide
  simpa only [List.all_eq_true, Bool.not_eq_true'] using hall

/-- An operator that starts a text does not reach a separator in it. -/
theorem operator_heads {symbol : String} (hsymbol : symbol ∈ Token.symbolOperators)
    {left other : List Char} (hother : Separated other)
    (hheads : symbol.toList <+: left ++ other) : symbol.toList <+: left := by
  rcases List.prefix_or_prefix_of_prefix hheads (List.prefix_append left other) with
    hinside | ⟨beyond, hbeyond⟩
  · exact hinside
  · rw [← hbeyond, List.prefix_append_right_inj] at hheads
    cases beyond with
    | nil => exact ⟨[], by simpa using hbeyond.symm⟩
    | cons character beyond =>
        obtain ⟨rest, rfl⟩ := hheads
        have hmember : character ∈ symbol.toList := by simp [← hbeyond]
        exact absurd rfl (hother.head_ne
          (not_isSeparator_of_mem_symbolOperators symbol hsymbol character hmember))

theorem isPrefixOf_operator {symbol : String} (hsymbol : symbol ∈ Token.symbolOperators)
    {left other : List Char} (hother : Separated other)
    (hstarts : symbol.toList.isPrefixOf (left ++ other) = true) (right : List Char) :
    symbol.toList.isPrefixOf (left ++ right) = true := by
  rw [List.isPrefixOf_iff_prefix] at hstarts ⊢
  exact (operator_heads hsymbol hother hstarts).trans (List.prefix_append ..)

/-- The operator found inside a text is found before any separator: the longer
ones before it in the table do not start the text. -/
theorem local_operatorLength : Local operatorLength := by
  intro left right other hlength hother
  unfold operatorLength at hlength ⊢
  split at hlength
  · rename_i hnone
    rw [List.find?_eq_none] at hnone
    rw [List.find?_eq_none.mpr fun symbol hsymbol hstarts =>
      hnone symbol hsymbol (isPrefixOf_operator hsymbol hother hstarts right)]
  · rename_i symbol hsome
    obtain ⟨hstarts, earlier, later, hsplit, hearlier⟩ := List.find?_eq_some_iff_append.mp hsome
    have hinside : symbol.toList <+: left :=
      List.prefix_of_prefix_length_le (List.isPrefixOf_iff_prefix.mp hstarts)
        (List.prefix_append ..) hlength
    have hsame : symbol.toList.isPrefixOf (left ++ other) = true :=
      List.isPrefixOf_iff_prefix.mpr (hinside.trans (List.prefix_append ..))
    have hlonger : ∀ longer ∈ earlier, (!longer.toList.isPrefixOf (left ++ other)) = true := by
      intro longer hlonger
      have hmember : longer ∈ Token.symbolOperators := by simp [hsplit, hlonger]
      have hnot := hearlier longer hlonger
      rw [Bool.not_eq_true', Bool.eq_false_iff] at hnot ⊢
      exact fun hstarts => hnot (isPrefixOf_operator hmember hother hstarts right)
    have hfind : Token.symbolOperators.find?
        (fun symbol => symbol.toList.isPrefixOf (left ++ other)) = some symbol :=
      List.find?_eq_some_iff_append.mpr ⟨hsame, earlier, later, hsplit, hlonger⟩
    rw [hfind]

end Lexeme

end ScriptSyntax

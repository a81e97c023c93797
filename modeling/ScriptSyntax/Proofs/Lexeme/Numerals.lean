import ScriptSyntax.Proofs.Lexeme.Separators

/-!
# The longest numeral

A numeral is hexadecimal, or a mantissa with an exponent or without one.  The
measure of numbers looks for the parts one after the other and never goes back;
it finds the longest numeral all the same, since no part can begin with a
character that would have continued the part before it.
-/

namespace ScriptSyntax

namespace Lexeme

/-- The text found is the longest beginning of a text that has the property. -/
structure IsLongestPrefix (property : List Char → Prop) (found text : List Char) : Prop where
  holds : property found
  heads : found <+: text
  longest : ∀ other, property other → other <+: text → other.length ≤ found.length

/-! ## Numerals -/

/-- Decimal digits, with a point before them, behind them or among them. -/
inductive IsMantissa : List Char → Prop
  | whole {digits : List Char} (hne : digits ≠ [])
      (hdigits : ∀ digit ∈ digits, digit.isDigit = true) : IsMantissa digits
  | pointed {whole fraction : List Char} (hne : whole ++ fraction ≠ [])
      (hdigits : ∀ digit ∈ whole ++ fraction, digit.isDigit = true) :
      IsMantissa (whole ++ '.' :: fraction)

/-- A letter `e`, perhaps a sign, and decimal digits. -/
inductive IsExponent : List Char → Prop
  | intro {mark : Char} {sign digits : List Char} (hmark : mark = 'e' ∨ mark = 'E')
      (hsign : sign = [] ∨ sign = ['+'] ∨ sign = ['-']) (hne : digits ≠ [])
      (hdigits : ∀ digit ∈ digits, digit.isDigit = true) : IsExponent (mark :: (sign ++ digits))

/-- How numbers are written. -/
inductive IsNumeral : List Char → Prop
  | hexadecimal {mark : Char} {digits : List Char} (hmark : mark = 'x' ∨ mark = 'X')
      (hne : digits ≠ []) (hdigits : ∀ digit ∈ digits, StringText.isHexDigit digit = true) :
      IsNumeral ('0' :: mark :: digits)
  | plain {mantissa : List Char} (hmantissa : IsMantissa mantissa) : IsNumeral mantissa
  | scaled {mantissa exponent : List Char} (hmantissa : IsMantissa mantissa)
      (hexponent : IsExponent exponent) : IsNumeral (mantissa ++ exponent)

/-! ## Hexadecimal numbers -/

theorem hexLength_pos {text : List Char} (hpos : 0 < hexLength text) :
    ∃ mark rest, text = '0' :: mark :: rest ∧ (mark = 'x' ∨ mark = 'X') ∧
      runLength StringText.isHexDigit rest ≠ 0 ∧
        hexLength text = runLength StringText.isHexDigit rest + 2 := by
  unfold hexLength at hpos ⊢
  split at hpos
  · rename_i mark rest
    dsimp only at hpos ⊢
    split at hpos
    · rename_i hmark
      simp only [Bool.and_eq_true, Bool.or_eq_true, beq_iff_eq, bne_iff_ne] at hmark
      exact ⟨mark, rest, rfl, hmark.1, hmark.2, if_pos (by simp [hmark])⟩
    · cases hpos
  · cases hpos

theorem isNumeral_take_hexLength {text : List Char} (hpos : 0 < hexLength text) :
    IsNumeral (text.take (hexLength text)) := by
  obtain ⟨mark, rest, rfl, hmark, hdigits, hlength⟩ := hexLength_pos hpos
  rw [hlength]
  refine .hexadecimal hmark ?_ fun digit hdigit => of_mem_take_runLength hdigit
  apply List.ne_nil_of_length_pos
  rw [List.length_take_of_le (runLength_le ..)]
  exact Nat.pos_of_ne_zero hdigits

theorem le_hexLength {mark : Char} {digits : List Char} (hmark : mark = 'x' ∨ mark = 'X')
    (hne : digits ≠ []) (hdigits : ∀ digit ∈ digits, StringText.isHexDigit digit = true)
    (rest : List Char) : digits.length + 2 ≤ hexLength ('0' :: mark :: (digits ++ rest)) := by
  rw [hexLength_cons, runLength_append_of_all hdigits, if_pos]
  · omega
  · simp [hmark, hne]

/-! ## Mantissas and exponents -/

theorem isMantissa_take_mantissaLength {text : List Char} (hpos : 0 < mantissaLength text) :
    IsMantissa (text.take (mantissaLength text)) := by
  rw [mantissaLength_eq] at hpos ⊢
  have hwhole : ∀ digit ∈ text.take (runLength Char.isDigit text), digit.isDigit = true :=
    fun digit hdigit => of_mem_take_runLength hdigit
  have hlength : (text.take (runLength Char.isDigit text)).length = runLength Char.isDigit text :=
    List.length_take_of_le (runLength_le ..)
  have hcut := List.take_append_drop (runLength Char.isDigit text) text
  generalize runLength Char.isDigit text = count at hpos hwhole hlength hcut ⊢
  generalize text.take count = digits at hwhole hlength hcut
  generalize text.drop count = behind at hpos hcut ⊢
  subst hlength hcut
  by_cases hpoint : behind.head? = some '.'
  · obtain ⟨rest, rfl⟩ := List.head?_eq_some_iff.mp hpoint
    rw [mantissaWith] at hpos ⊢
    split at hpos
    · cases hpos
    · rename_i hsome
      rw [if_neg hsome, Nat.add_assoc, List.take_length_add_append, Nat.add_comm,
        List.take_succ_cons]
      refine .pointed ?_ ?_
      · intro hnone
        obtain ⟨rfl, hfraction⟩ := List.append_eq_nil_iff.mp hnone
        have hzero := congrArg List.length hfraction
        rw [List.length_take_of_le (runLength_le ..)] at hzero
        exact hsome ⟨rfl, hzero⟩
      · intro digit hdigit
        exact (List.mem_append.mp hdigit).elim (hwhole digit) fun hfraction =>
          of_mem_take_runLength hfraction
  · rw [mantissaWith_of_head_ne hpoint] at hpos ⊢
    rw [List.take_left]
    exact .whole (List.ne_nil_of_length_pos hpos) hwhole

/-- A mantissa with a point goes on as far as digits stand behind it. -/
theorem mantissaLength_pointed {whole fraction : List Char} (hne : whole ++ fraction ≠ [])
    (hdigits : ∀ digit ∈ whole ++ fraction, digit.isDigit = true) (rest : List Char) :
    mantissaLength (whole ++ '.' :: (fraction ++ rest)) =
      whole.length + 1 + (fraction.length + runLength Char.isDigit rest) := by
  obtain ⟨hwhole, hfraction⟩ := List.forall_mem_append.mp hdigits
  have hrun : runLength Char.isDigit (whole ++ '.' :: (fraction ++ rest)) = whole.length :=
    runLength_append_eq_length hwhole (by rintro _ ⟨⟩; rfl)
  have hpos : 0 < (whole ++ fraction).length := List.length_pos_iff.mpr hne
  rw [List.length_append] at hpos
  rw [mantissaLength_eq, hrun, List.drop_left, mantissaWith, runLength_append_of_all hfraction,
    if_neg (by omega)]

theorem IsMantissa.length_le {mantissa : List Char} (hmantissa : IsMantissa mantissa)
    (rest : List Char) : mantissa.length ≤ mantissaLength (mantissa ++ rest) := by
  cases hmantissa with
  | whole hne hdigits =>
      rw [mantissaLength_eq, runLength_append_of_all hdigits]
      exact Nat.le_trans (Nat.le_add_right ..) (le_mantissaWith ..)
  | pointed hne hdigits =>
      rw [List.append_assoc, List.cons_append, mantissaLength_pointed hne hdigits,
        List.length_append, List.length_cons]
      omega

/-- A mantissa ends before a character that is neither a digit nor a point. -/
theorem IsMantissa.length_eq {mantissa rest : List Char} (hmantissa : IsMantissa mantissa)
    (hdigit : ∀ character ∈ rest.head?, character.isDigit = false)
    (hpoint : rest.head? ≠ some '.') :
    mantissaLength (mantissa ++ rest) = mantissa.length := by
  have hstop : runLength Char.isDigit rest = 0 :=
    runLength_append_eq_length (List.forall_mem_nil _) hdigit
  cases hmantissa with
  | whole hne hdigits =>
      rw [mantissaLength_eq, runLength_append_of_all hdigits, hstop, Nat.add_zero, List.drop_left,
        mantissaWith_of_head_ne hpoint]
  | pointed hne hdigits =>
      rw [List.append_assoc, List.cons_append, mantissaLength_pointed hne hdigits, hstop,
        List.length_append, List.length_cons]
      omega

theorem IsMantissa.length_pos {mantissa : List Char} (hmantissa : IsMantissa mantissa) :
    0 < mantissa.length := by
  cases hmantissa with
  | whole hne hdigits => exact List.length_pos_iff.mpr hne
  | pointed hne hdigits => exact List.length_pos_iff.mpr (by simp)

theorem isExponent_take_exponentLength {text : List Char} (hpos : 0 < exponentLength text) :
    IsExponent (text.take (exponentLength text)) := by
  cases text with
  | nil => cases hpos
  | cons mark rest =>
      rw [exponentLength_cons] at hpos ⊢
      split at hpos
      · rename_i hmark
        rw [if_pos hmark]
        simp only [Bool.and_eq_true, Bool.or_eq_true, beq_iff_eq, bne_iff_ne] at hmark
        obtain ⟨hmark, hdigits⟩ := hmark
        rw [Nat.add_assoc, Nat.add_comm, List.take_succ_cons, List.take_add]
        refine .intro hmark ?_ ?_ fun digit hdigit => of_mem_take_runLength hdigit
        · unfold signLength
          split
          · rename_i hsign
            rcases hsign with hplus | hminus
            · obtain ⟨others, rfl⟩ := List.head?_eq_some_iff.mp hplus
              exact .inr (.inl rfl)
            · obtain ⟨others, rfl⟩ := List.head?_eq_some_iff.mp hminus
              exact .inr (.inr rfl)
          · exact .inl rfl
        · apply List.ne_nil_of_length_pos
          rw [List.length_take_of_le (runLength_le ..)]
          exact Nat.pos_of_ne_zero hdigits
      · cases hpos

theorem signLength_append {sign digits : List Char}
    (hsign : sign = [] ∨ sign = ['+'] ∨ sign = ['-']) (hne : digits ≠ [])
    (hdigits : ∀ digit ∈ digits, digit.isDigit = true) (rest : List Char) :
    signLength (sign ++ (digits ++ rest)) = sign.length := by
  rcases hsign with rfl | rfl | rfl
  · obtain ⟨digit, others, rfl⟩ := List.exists_cons_of_ne_nil hne
    have hdigit := hdigits digit List.mem_cons_self
    apply if_neg
    rintro (hplus | hminus)
    · cases hplus
      cases hdigit
    · cases hminus
      cases hdigit
  · rfl
  · rfl

theorem IsExponent.length_le {exponent : List Char} (hexponent : IsExponent exponent)
    (rest : List Char) : exponent.length ≤ exponentLength (exponent ++ rest) := by
  obtain ⟨hmark, hsign, hne, hdigits⟩ := hexponent
  rename_i mark sign digits
  rw [List.cons_append, List.append_assoc, exponentLength_cons,
    signLength_append hsign hne hdigits, List.drop_left, runLength_append_of_all hdigits, if_pos]
  · rw [List.length_cons, List.length_append]
    omega
  · simp [hmark, hne]

/-- An exponent begins with a character that continues no mantissa. -/
theorem IsExponent.head_ends {exponent : List Char} (hexponent : IsExponent exponent)
    (rest : List Char) :
    (∀ character ∈ (exponent ++ rest).head?, character.isDigit = false) ∧
      (exponent ++ rest).head? ≠ some '.' := by
  obtain ⟨hmark, hsign, hne, hdigits⟩ := hexponent
  rcases hmark with rfl | rfl
  all_goals
    constructor
    · rintro _ ⟨⟩
      rfl
    · rintro ⟨⟩

/-! ## Numbers -/

theorem isNumeral_take_decimalLength {text : List Char} (hpos : 0 < decimalLength text) :
    IsNumeral (text.take (decimalLength text)) := by
  rw [decimalLength_eq] at hpos ⊢
  split at hpos
  · cases hpos
  · rename_i hmantissa
    rw [if_neg hmantissa, List.take_add]
    have hwritten := isMantissa_take_mantissaLength (Nat.pos_of_ne_zero hmantissa)
    rcases Nat.eq_zero_or_pos (exponentLength (text.drop (mantissaLength text))) with
      hnone | hexponent
    · rw [hnone, List.take_zero, List.append_nil]
      exact .plain hwritten
    · exact .scaled hwritten (isExponent_take_exponentLength hexponent)

theorem IsMantissa.length_le_decimalLength {mantissa : List Char} (hmantissa : IsMantissa mantissa)
    (rest : List Char) : mantissa.length ≤ decimalLength (mantissa ++ rest) := by
  have hlength := hmantissa.length_le rest
  have hpos := hmantissa.length_pos
  rw [decimalLength_eq, if_neg (by omega)]
  omega

theorem IsMantissa.scaled_length_le {mantissa exponent : List Char}
    (hmantissa : IsMantissa mantissa) (hexponent : IsExponent exponent) (rest : List Char) :
    (mantissa ++ exponent).length ≤ decimalLength (mantissa ++ (exponent ++ rest)) := by
  obtain ⟨hdigit, hpoint⟩ := hexponent.head_ends rest
  have hlength := hmantissa.length_eq hdigit hpoint
  have hpos := hmantissa.length_pos
  have hbehind := hexponent.length_le rest
  rw [decimalLength_eq, hlength, if_neg (by omega), List.drop_left, List.length_append]
  omega

/-- Where a hexadecimal number stands, its zero is the only decimal one. -/
theorem decimalLength_le_hexLength {text : List Char} (hpos : 0 < hexLength text) :
    decimalLength text ≤ hexLength text := by
  obtain ⟨mark, rest, rfl, hmark, -, hlength⟩ := hexLength_pos hpos
  have hzero : decimalLength ('0' :: mark :: rest) = 1 := by
    rcases hmark with rfl | rfl <;> rfl
  omega

theorem decimalLength_le_numberLength (text : List Char) :
    decimalLength text ≤ numberLength text := by
  rw [numberLength_eq]
  split
  · exact Nat.le_refl _
  · exact decimalLength_le_hexLength (Nat.pos_of_ne_zero ‹_›)

theorem IsNumeral.length_le {numeral : List Char} (hnumeral : IsNumeral numeral)
    (rest : List Char) : numeral.length ≤ numberLength (numeral ++ rest) := by
  cases hnumeral with
  | hexadecimal hmark hne hdigits =>
      have hlength := le_hexLength hmark hne hdigits rest
      rw [List.cons_append, List.cons_append, numberLength_eq, if_neg (by omega)]
      exact hlength
  | plain hmantissa =>
      exact Nat.le_trans (hmantissa.length_le_decimalLength rest)
        (decimalLength_le_numberLength _)
  | scaled hmantissa hexponent =>
      rw [List.append_assoc]
      exact Nat.le_trans (hmantissa.scaled_length_le hexponent rest)
        (decimalLength_le_numberLength _)

theorem isNumeral_take_numberLength {text : List Char} (hpos : 0 < numberLength text) :
    IsNumeral (text.take (numberLength text)) := by
  rw [numberLength_eq] at hpos ⊢
  split at hpos
  · rw [if_pos ‹_›]
    exact isNumeral_take_decimalLength hpos
  · rw [if_neg ‹_›]
    exact isNumeral_take_hexLength hpos

/-- A number is the longest numeral at the head of its text. -/
theorem isLongestPrefix_numeral {text rest : List Char} (htext : 0 < text.length)
    (hown : numberLength (text ++ rest) = text.length) :
    IsLongestPrefix IsNumeral text (text ++ rest) where
  holds := by
    have hnumeral := isNumeral_take_numberLength (hown ▸ htext)
    rwa [hown, List.take_left] at hnumeral
  heads := List.prefix_append ..
  longest := by
    rintro other hother ⟨behind, hbehind⟩
    rw [← hown, ← hbehind]
    exact hother.length_le behind

end Lexeme

end ScriptSyntax

import Mathlib.Algebra.Group.Nat.Defs
import ScriptSyntax.Proofs.Lexeme.Escapes
import ScriptSyntax.Proofs.StringLiterals

/-!
# Numeric escapes that name no character

The digits of a numeric escape are taken before it is known whether they name a
character.  If they name none, the letter of the escape stands for itself.
Without any digit nothing is lost by that.  Digits that name no character are
always the four of a surrogate, and these are dropped.
-/

namespace ScriptSyntax.StringText

open Lexeme (EscapedText EscapesWithin)

/-! ## The number that digits write -/

/-- The number that hexadecimal digits write. -/
def hexNumber (digits : List Char) : Nat :=
  digits.foldl (fun value digit => 16 * value + hexValue digit) 0

theorem charOfHex?_eq_none_iff (digits : List Char) :
    charOfHex? digits = none ↔ digits = [] ∨ ¬(hexNumber digits).isValidChar := by
  show (if digits ≠ [] ∧ (hexNumber digits).isValidChar then some (Char.ofNat _) else none) =
    none ↔ _
  rw [ite_eq_right_iff, imp_iff_not (by simp), Decidable.not_and_iff_not_or_not,
    Decidable.not_not]

theorem hexValue_lt {digit : Char} (hdigit : isHexDigit digit = true) : hexValue digit < 16 := by
  simp only [isHexDigit, Bool.or_eq_true, Bool.and_eq_true, decide_eq_true_eq,
    Lexeme.isDigit_iff, Char.le_def, UInt32.le_iff_toNat_le, Char.reduceVal,
    UInt32.reduceToNat] at hdigit
  simp only [hexValue, Lexeme.isDigit_iff, Char.le_def, UInt32.le_iff_toNat_le, Char.reduceVal,
    UInt32.reduceToNat, Char.toNat] at hdigit ⊢
  split
  · omega
  split
  · omega
  · omega

theorem hexNumber_lt {digits : List Char} (hdigits : ∀ digit ∈ digits, isHexDigit digit = true) :
    hexNumber digits < 16 ^ digits.length := by
  suffices hfold : ∀ value, digits.foldl (fun value digit => 16 * value + hexValue digit) value <
      16 ^ digits.length * (value + 1) by
    simpa [hexNumber] using hfold 0
  induction digits with
  | nil => simp
  | cons digit digits ih =>
      intro value
      obtain ⟨hdigit, hothers⟩ := List.forall_mem_cons.mp hdigits
      have hvalue := hexValue_lt hdigit
      calc (digit :: digits).foldl (fun value digit => 16 * value + hexValue digit) value
          < 16 ^ digits.length * (16 * value + hexValue digit + 1) := ih hothers _
        _ ≤ 16 ^ digits.length * (16 * (value + 1)) := Nat.mul_le_mul_left _ (by omega)
        _ = 16 ^ (digit :: digits).length * (value + 1) := by
            rw [List.length_cons, Nat.pow_succ, Nat.mul_assoc]

/-- The digits write the code of a surrogate, which is no character. -/
structure IsSurrogate (digits : List Char) : Prop where
  hexadecimal : ∀ digit ∈ digits, isHexDigit digit = true
  four : digits.length = 4
  lower : 0xD800 ≤ hexNumber digits
  upper : hexNumber digits ≤ 0xDFFF

/-! ## The digits of an escape -/

theorem isHexDigit_of_mem_leadingHex (limit : Nat) (text : List Char) :
    ∀ digit ∈ leadingHex limit text, isHexDigit digit = true :=
  List.all_eq_true.mp List.all_takeWhile

theorem backslash_not_mem_leadingHex (limit : Nat) (text : List Char) :
    '\\' ∉ leadingHex limit text := by
  intro hbackslash
  cases isHexDigit_of_mem_leadingHex limit text _ hbackslash

theorem leadingHex_begins (limit : Nat) (text : List Char) : leadingHex limit text <+: text :=
  (List.takeWhile_prefix _).trans (List.take_prefix ..)

theorem length_leadingHex_le (limit : Nat) (text : List Char) :
    (leadingHex limit text).length ≤ limit :=
  Nat.le_trans (List.takeWhile_prefix _).length_le (List.length_take_le ..)

/-- The digits of an escape do not reach beyond a character that is none. -/
theorem leadingHex_append {rest : List Char}
    (hrest : ∀ character ∈ rest.head?, isHexDigit character = false) (limit : Nat)
    (text : List Char) : leadingHex limit (text ++ rest) = leadingHex limit text := by
  induction text generalizing limit with
  | nil =>
      cases limit with
      | zero => rfl
      | succ limit =>
          cases rest with
          | nil => rfl
          | cons character rest =>
              rw [List.nil_append, leadingHex, List.take_succ_cons, List.takeWhile_cons,
                hrest character rfl]
              rfl
  | cons character text ih =>
      cases limit with
      | zero => rfl
      | succ limit =>
          have hothers := ih limit
          unfold leadingHex at hothers ⊢
          rw [List.cons_append, List.take_succ_cons, List.take_succ_cons, List.takeWhile_cons,
            List.takeWhile_cons, hothers]

/-- The letters of numeric escapes, each with the most digits it takes. -/
def numericEscapes : List (Char × Nat) :=
  [('x', 2), ('u', 4)]

theorem mem_numericEscapes_iff {letter : Char} {limit : Nat} :
    (letter, limit) ∈ numericEscapes ↔ letter = 'x' ∧ limit = 2 ∨ letter = 'u' ∧ limit = 4 := by
  simp [numericEscapes]

/-- No digits name no character, and so do those of a surrogate; others always do. -/
theorem charOfHex?_leadingHex_eq_none_iff {letter : Char} {limit : Nat}
    (hletter : (letter, limit) ∈ numericEscapes) (rest : List Char) :
    charOfHex? (leadingHex limit rest) = none ↔
      leadingHex limit rest = [] ∨ letter = 'u' ∧ IsSurrogate (leadingHex limit rest) := by
  have hdigits := isHexDigit_of_mem_leadingHex limit rest
  have hlength := length_leadingHex_le limit rest
  have hnumber := hexNumber_lt hdigits
  rw [charOfHex?_eq_none_iff]
  apply or_congr_right
  simp only [Nat.isValidChar]
  constructor
  · intro hname
    obtain ⟨rfl, rfl⟩ | ⟨rfl, rfl⟩ := mem_numericEscapes_iff.mp hletter
    · have hsmall : 16 ^ (leadingHex 2 rest).length ≤ 16 ^ 2 :=
        Nat.pow_le_pow_right (by decide) hlength
      omega
    · have hfour : (leadingHex 4 rest).length = 4 := by
        apply Nat.le_antisymm hlength
        apply Nat.le_of_not_lt
        intro hshort
        have hsmall : 16 ^ (leadingHex 4 rest).length ≤ 16 ^ 3 :=
          Nat.pow_le_pow_right (by decide) (Nat.le_of_lt_succ hshort)
        omega
      rw [hfour] at hnumber
      exact ⟨rfl, hdigits, hfour, by omega, by omega⟩
  · rintro ⟨-, hsurrogate⟩
    have hlower := hsurrogate.lower
    have hupper := hsurrogate.upper
    omega

/-! ## Decoding behind whole escapes -/

/-- How many characters belong to an escape behind its letter. -/
theorem snd_escape (letter : Char) (rest : List Char) :
    (escape letter rest).2 =
      if letter = 'x' then (leadingHex 2 rest).length
      else if letter = 'u' then (leadingHex 4 rest).length
      else if letter = '\r' ∧ rest.head? = some '\n' then 1
      else 0 := by
  unfold escape
  split <;> simp_all

/-- What belongs to an escape behind its letter: digits, or the line feed of a
line end. -/
theorem escape_takes (letter : Char) (rest : List Char) :
    (escape letter rest).2 ≤ rest.length ∧
      ∀ character ∈ rest.take (escape letter rest).2,
        isHexDigit character = true ∨ character = '\n' := by
  have hdigits (limit : Nat) : (leadingHex limit rest).length ≤ rest.length ∧
      ∀ character ∈ rest.take (leadingHex limit rest).length,
        isHexDigit character = true ∨ character = '\n' := by
    have hbegins := leadingHex_begins limit rest
    rw [← List.prefix_iff_eq_take.mp hbegins]
    refine ⟨hbegins.length_le, fun digit hdigit => .inl ?_⟩
    exact isHexDigit_of_mem_leadingHex limit rest digit hdigit
  rw [snd_escape]
  split
  · exact hdigits 2
  split
  · exact hdigits 4
  split
  · rename_i hfeed
    obtain ⟨others, rfl⟩ := List.head?_eq_some_iff.mp hfeed.2
    simp
  · simp

/-- The text does not go on with anything that belongs to an escape before it. -/
def Parted (rest : List Char) : Prop :=
  ∀ character ∈ rest.head?, isHexDigit character = false ∧ character ≠ '\n'

theorem parted_backslash (rest : List Char) : Parted ('\\' :: rest) := by
  rintro _ ⟨⟩
  decide

section Parted

variable {rest : List Char} (hrest : Parted rest)

include hrest

theorem escape_append (letter : Char) (text : List Char) :
    escape letter (text ++ rest) = escape letter text := by
  have hdigits (limit : Nat) : leadingHex limit (text ++ rest) = leadingHex limit text :=
    leadingHex_append (fun character hcharacter => (hrest character hcharacter).1) limit text
  have hfeed : (text ++ rest).head? = some '\n' ↔ text.head? = some '\n' := by
    cases text with
    | nil => simpa using fun hhead => (hrest '\n' hhead).2 rfl
    | cons first text => rfl
  simp only [escape, hdigits, hfeed]

/-- A text that ends outside any escape is decoded apart from what follows it. -/
theorem decode_append {text : List Char} (htext : EscapesWithin text) :
    decode (text ++ rest) = decode text ++ decode rest := by
  fun_induction decode text with
  | case1 => rfl
  | case2 =>
      cases htext
      contradiction
  | case3 letter text ih =>
      have hbehind : EscapesWithin text := by
        cases htext with
        | plain hbackslash => exact absurd rfl hbackslash
        | escape _ hbehind => exact hbehind
      obtain ⟨hlength, htaken⟩ := escape_takes letter text
      have hspared : ∀ character ∈ text.take (escape letter text).2, character ≠ '\\' := by
        rintro _ hcharacter rfl
        rcases htaken _ hcharacter with hdigit | hfeed
        · cases hdigit
        · cases hfeed
      rw [List.cons_append, List.cons_append, decode_escape, escape_append hrest,
        List.drop_append_of_le_length hlength, ih (hbehind.drop hspared), List.append_assoc]
  | case4 character text hlone hescape ih =>
      have hbackslash := Lexeme.ne_backslash hlone hescape
      have hbehind : EscapesWithin text := by
        cases htext with
        | plain _ _ hbehind => exact hbehind
        | escape => exact absurd rfl hbackslash
      rw [List.cons_append, decode_cons hbackslash, ih hbehind, List.cons_append]

end Parted

theorem decode_numeric {letter : Char} {limit : Nat} (hletter : (letter, limit) ∈ numericEscapes)
    (rest : List Char) :
    decode ('\\' :: letter :: rest) =
      (charOfHex? (leadingHex limit rest)).getD letter ::
        decode (rest.drop (leadingHex limit rest).length) := by
  obtain ⟨rfl, rfl⟩ | ⟨rfl, rfl⟩ := mem_numericEscapes_iff.mp hletter
  all_goals exact decode_escape _ rest

/-- Text without a backslash stands for itself. -/
theorem decode_plain_append {text : List Char} (hplain : '\\' ∉ text) (rest : List Char) :
    decode (text ++ rest) = text ++ decode rest := by
  induction text with
  | nil => rfl
  | cons character text ih =>
      rw [List.mem_cons, not_or] at hplain
      obtain ⟨hbackslash, hothers⟩ := hplain
      rw [List.cons_append, decode_cons (Ne.symm hbackslash), ih hothers, List.cons_append]

/-! ## Escapes that name no character -/

theorem leadingHex_eq_nil_iff {letter : Char} {limit : Nat}
    (hletter : (letter, limit) ∈ numericEscapes) (rest : List Char) :
    leadingHex limit rest = [] ↔ ∀ character ∈ rest.head?, isHexDigit character = false := by
  obtain ⟨limit, rfl⟩ : ∃ fewer, limit = fewer + 1 := by
    obtain ⟨-, rfl⟩ | ⟨-, rfl⟩ := mem_numericEscapes_iff.mp hletter
    · exact ⟨1, rfl⟩
    · exact ⟨3, rfl⟩
  cases rest with
  | nil => simp [leadingHex]
  | cons first rest => simp [leadingHex, List.takeWhile_cons]

/-- A numeric escape that names no character leaves its letter.  Nothing is lost
with it exactly if no digit follows the letter; otherwise the letter is `u` and
the four digits of a surrogate are lost. -/
theorem decode_nameless_escape {first rest : List Char} (hfirst : EscapesWithin first)
    {letter : Char} {limit : Nat} (hletter : (letter, limit) ∈ numericEscapes)
    (hnone : charOfHex? (leadingHex limit rest) = none) :
    (decode (first ++ '\\' :: letter :: rest) = decode first ++ letter :: decode rest ↔
        ∀ character ∈ rest.head?, isHexDigit character = false) ∧
      ((∃ character ∈ rest.head?, isHexDigit character = true) →
        letter = 'u' ∧ ∃ digits others, rest = digits ++ others ∧ IsSurrogate digits ∧
          decode (first ++ '\\' :: letter :: rest) = decode first ++ letter :: decode others) := by
  have hwhole : decode (first ++ '\\' :: letter :: rest) =
      decode first ++ letter :: decode (rest.drop (leadingHex limit rest).length) := by
    rw [decode_append (parted_backslash _) hfirst, decode_numeric hletter, hnone]
    rfl
  have hrest : leadingHex limit rest ++ rest.drop (leadingHex limit rest).length = rest :=
    List.prefix_iff_eq_append.mp (leadingHex_begins limit rest)
  constructor
  · rw [hwhole, ← leadingHex_eq_nil_iff hletter]
    constructor
    · intro hsame
      have hbehind := (List.cons.inj (List.append_cancel_left hsame)).2
      have hdigits := decode_plain_append (backslash_not_mem_leadingHex limit rest)
        (rest.drop (leadingHex limit rest).length)
      rw [hrest, ← hbehind] at hdigits
      simpa using hdigits
    · intro hnothing
      rw [hnothing]
      rfl
  · rintro ⟨digit, hdigit, hhex⟩
    have hsome : leadingHex limit rest ≠ [] := by
      rw [ne_eq, leadingHex_eq_nil_iff hletter]
      intro hnothing
      rw [hnothing digit hdigit] at hhex
      cases hhex
    obtain ⟨hu, hsurrogate⟩ :=
      ((charOfHex?_leadingHex_eq_none_iff hletter rest).mp hnone).resolve_left hsome
    exact ⟨hu, _, _, hrest.symm, hsurrogate, hwhole⟩

/-- A surrogate behind another escape and before plain text. -/
theorem decode_nameless_escape_surrogate :
    let first := "a\\n".toList
    let rest := "dEadx".toList
    EscapesWithin first ∧ ('u', 4) ∈ numericEscapes ∧ charOfHex? (leadingHex 4 rest) = none ∧
      decode (first ++ '\\' :: 'u' :: rest) ≠ decode first ++ 'u' :: decode rest ∧
        ∃ digits others, rest = digits ++ others ∧ IsSurrogate digits ∧
          decode (first ++ '\\' :: 'u' :: rest) = decode first ++ 'u' :: decode others := by
  intro first rest
  have hfirst : EscapesWithin first := .plain (by decide) trivial (.escape trivial .nil)
  have hletter : ('u', 4) ∈ numericEscapes := by decide
  have hnone : charOfHex? (leadingHex 4 rest) = none := by decide
  have hdigit : ∃ character ∈ rest.head?, isHexDigit character = true := ⟨'d', rfl, rfl⟩
  obtain ⟨hlost, hsurrogate⟩ := decode_nameless_escape hfirst hletter hnone
  refine ⟨hfirst, hletter, hnone, fun hsame => ?_, (hsurrogate hdigit).2⟩
  have hnothing : isHexDigit 'd' = false := hlost.mp hsame 'd' rfl
  cases hnothing

/-- The digits of the first surrogate are lost, with nothing before or behind them. -/
theorem nameless_escape_drops_digits :
    let rest := "d800".toList
    EscapesWithin [] ∧ ('u', 4) ∈ numericEscapes ∧ charOfHex? (leadingHex 4 rest) = none ∧
      decode ('\\' :: 'u' :: rest) = ['u'] ∧
        decode ('\\' :: 'u' :: rest) ≠ decode [] ++ 'u' :: decode rest :=
  ⟨.nil, by decide, by decide, by decide +kernel, by decide +kernel⟩

end ScriptSyntax.StringText

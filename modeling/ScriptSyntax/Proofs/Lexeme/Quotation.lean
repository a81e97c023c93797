import ScriptSyntax.Proofs.Lexeme.Respelling

/-!
# Closed strings

Between its quotes a string holds plain characters of one line and backslashes
that each take one character with them.  Such a body is passed over whatever
stands behind it, so the first unescaped quote closes the string.
-/

namespace ScriptSyntax

namespace Lexeme

/-- What may stand between two quotes of a kind. -/
inductive IsStringBody (quote : Char) : List Char → Prop
  | nil : IsStringBody quote []
  | plain {character : Char} {body : List Char} (hquote : character ≠ quote)
      (hbackslash : character ≠ '\\') (hline : isLineEnd character = false)
      (hbody : IsStringBody quote body) : IsStringBody quote (character :: body)
  | escape (escaped : Char) {body : List Char} (hbody : IsStringBody quote body) :
      IsStringBody quote ('\\' :: escaped :: body)

/-- A body between two quotes. -/
def quotation (quote : Char) (body : List Char) : List Char :=
  quote :: (body ++ [quote])

/-- The text is a body between two quotes of one kind. -/
def IsStringLiteral (text : List Char) : Prop :=
  ∃ quote body, isQuote quote = true ∧ IsStringBody quote body ∧ text = quotation quote body

namespace IsStringBody

variable {quote : Char} {body : List Char}

theorem append (hbody : IsStringBody quote body) {other : List Char}
    (hother : IsStringBody quote other) : IsStringBody quote (body ++ other) := by
  induction hbody with
  | nil => exact hother
  | plain hquote hbackslash hline _ ih => exact .plain hquote hbackslash hline ih
  | escape escaped _ ih => exact .escape escaped ih

/-- A body is passed over whatever stands behind it. -/
theorem stringTail?_append (hbody : IsStringBody quote body) (rest : List Char) :
    stringTail? quote (body ++ rest) = (stringTail? quote rest).map (· + body.length) := by
  induction hbody with
  | nil => simp
  | plain hquote hbackslash hline _ ih =>
      rw [List.cons_append, stringTail?_cons hbackslash, if_neg hquote,
        if_neg (Bool.eq_false_iff.mp hline), ih, Option.map_map]
      rfl
  | escape escaped _ ih =>
      rw [List.cons_append, List.cons_append, stringTail?, ih, Option.map_map]
      rfl

/-- No body begins with the end of a line. -/
theorem head?_ne (hbody : IsStringBody quote body) {character : Char}
    (hline : isLineEnd character = true) : body.head? ≠ some character := by
  rintro hhead
  cases hbody with
  | nil => cases hhead
  | plain _ _ hinside _ =>
      cases hhead
      rw [hline] at hinside
      cases hinside
  | escape escaped _ =>
      cases hhead
      cases hline

/-- A body between quotes is a string as a whole, whatever stands behind it. -/
theorem stringLength_append (hbody : IsStringBody quote body) (hquote : isQuote quote = true)
    (rest : List Char) :
    stringLength (quotation quote body ++ rest) = (quotation quote body).length := by
  have htail : stringTail? quote (body ++ quote :: rest) = some (1 + body.length) := by
    rw [hbody.stringTail?_append, stringTail?_cons (ne_backslash_of_isQuote hquote), if_pos rfl]
    rfl
  rw [quotation, List.cons_append, List.append_assoc, List.singleton_append,
    stringLength_cons hquote, htail, List.length_cons, List.length_append, List.length_singleton,
    Option.map_some, Option.getD_some, Nat.add_comm 1]

end IsStringBody

/-- What starts with a quote is read as a string or not at all. -/
theorem first?_of_isQuote {quote : Char} (hquote : isQuote quote = true) (admitted : Bool)
    (rest : List Char) :
    first? admitted (quote :: rest) = ofClass? .string (quote :: rest) := by
  by_cases hpos : 0 < LexemeClass.string.measure (quote :: rest)
  · have hfirst : first? admitted (quote :: rest) = some ⟨.string, _, hpos⟩ := by
      refine first?_of_earlier .string (.inl (by decide)) hpos fun missed hmissed => ?_
      apply measure_of_isQuote _ hquote rest
      rintro rfl
      exact absurd hmissed (by decide)
    rw [hfirst, ofClass?, dif_pos hpos]
  · rw [ofClass?, dif_neg hpos]
    apply List.findSome?_eq_none_iff.mpr
    intro category _
    split
    · rfl
    · apply ofClass?_eq_none_iff.mpr
      by_cases hstring : category = .string
      · exact hstring ▸ Nat.eq_zero_of_not_pos hpos
      · exact measure_of_isQuote hstring hquote rest

end Lexeme

end ScriptSyntax

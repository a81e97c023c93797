import ScriptSyntax.Proofs.Lexeme.Spacing

/-!
# Texts that are cut off

The first lexeme of a text stays the first when the text is cut off anywhere
behind it.  Comments, strings and regular expressions look far ahead for their
end, but one that closes before the cut closes where it did, and one that closes
before the cut would have closed in the whole text.
-/

namespace ScriptSyntax

open Text

namespace Lexeme

/-- Nothing closes less than no text at all. -/
theorem closesNoMore_nil (old : List Char) : ClosesNoMore [] old where
  slash := nofun
  star := nofun
  comment := nofun
  regex := by
    rintro inBrackets ⟨⟩

/-- What closes in a text closes there with anything behind the text. -/
theorem Closes.append_right {tail? : List Char → Option Nat} {closer : Char}
    (hcloses : Closes tail? closer) {text : List Char} {length : Nat}
    (hlength : tail? text = some length) (right : List Char) :
    tail? (text ++ right) = some length := by
  have hpart : tail? (text ++ []) = some length := by rwa [List.append_nil]
  exact hcloses.append hpart (hcloses.le hlength) right

/-- What a property ends in the whole text ends in the part before a cut. -/
theorem head?_ends_cut {property : Char → Bool} {between right : List Char}
    (hends : ∀ character ∈ (between ++ right).head?, property character = false) :
    ∀ character ∈ between.head?, property character = false := by
  intro character hcharacter
  obtain ⟨others, rfl⟩ := List.head?_eq_some_iff.mp hcharacter
  exact hends character rfl

/-- A lexeme is as long when the text is cut off at its end or behind it. -/
theorem measure_cut {category : LexemeClass} {text between right : List Char}
    (htext : 0 < text.length)
    (hown : category.measure (text ++ (between ++ right)) = text.length) :
    category.measure (text ++ between) = text.length := by
  have hlocal {measure : List Char → Nat} (hmeasure : Local measure)
      (hown : measure (text ++ (between ++ right)) = text.length) :
      measure (text ++ between) = text.length := by
    rw [← List.append_assoc] at hown
    have hinside : measure (text ++ between ++ right) ≤ (text ++ between).length := by
      rw [hown, List.length_append]
      exact Nat.le_add_right ..
    exact (hmeasure.cut hinside).trans hown
  cases category with
  | blank =>
      have hends := head?_ends_cut (head?_of_runLength hown)
      exact (runLength_append (Nat.le_of_eq hown) hends).trans hown
  | lineComment =>
      obtain ⟨body, -, hbody⟩ := exists_lineComment_body htext hown
      have hends := head?_ends_cut (head?_of_runLength hbody)
      exact lineCommentLength_append htext hown (by simpa using hends)
  | blockComment => exact blockCommentLength_append htext hown between
  | regex =>
      obtain ⟨body, flags, -, -, -, -, hflags⟩ := exists_regex_body htext hown
      exact regexLength_append htext hown (head?_ends_cut (head?_of_runLength hflags))
  | number => exact hlocal local_numberLength hown
  | string => exact stringLength_append htext hown between
  | word => exact hlocal local_wordLength hown
  | punctuation => exact hlocal local_punctuationLength hown
  | operator => exact hlocal local_operatorLength hown

theorem regexLength_cut_eq_zero {left right : List Char}
    (hzero : regexLength (left ++ right) = 0) : regexLength left = 0 := by
  refine Nat.eq_zero_of_not_pos fun hpos => ?_
  obtain ⟨rest, tail, rfl, hslash, htail, -⟩ := regexLength_pos hpos
  have hwhole := (closes_regexTail? false).append_right htail right
  have hhead : (rest ++ right).head? ≠ some '/' := by
    cases rest with
    | nil => cases htail
    | cons first rest => exact hslash
  rw [List.cons_append, regexLength_cons hhead, hwhole] at hzero
  simp at hzero

theorem stringLength_cut_eq_zero {left right : List Char}
    (hzero : stringLength (left ++ right) = 0) : stringLength left = 0 := by
  refine Nat.eq_zero_of_not_pos fun hpos => ?_
  obtain ⟨quote, rest, tail, hquote, rfl, htail, -⟩ := stringLength_pos hpos
  have hwhole := (closes_stringTail? (ne_backslash_of_isQuote hquote)).append_right htail right
  rw [List.cons_append, stringLength_cons hquote, hwhole] at hzero
  cases hzero

/-- A class that has no lexeme at the head of a text has none there when the text
is cut off. -/
theorem measure_cut_eq_zero {category : LexemeClass} {left right : List Char}
    (hzero : category.measure (left ++ right) = 0) : category.measure left = 0 := by
  have hlocal {measure : List Char → Nat} (hmeasure : Local measure)
      (hzero : measure (left ++ right) = 0) : measure left = 0 :=
    (hmeasure.cut (hzero ▸ Nat.zero_le _)).trans hzero
  rcases Nat.eq_zero_or_pos left.length with hnil | hleft
  · obtain rfl := List.length_eq_zero_iff.mp hnil
    cases category <;> rfl
  cases category with
  | blank =>
      obtain ⟨first, others, rfl⟩ := List.exists_cons_of_ne_nil (List.ne_nil_of_length_pos hleft)
      simp only [LexemeClass.measure, List.cons_append, runLength_cons] at hzero ⊢
      split at hzero
      · cases hzero
      · simp [*]
  | lineComment =>
      have hnothing := lineCommentLength_append_eq_zero hleft hzero (closesNoMore_nil right).slash
      rwa [List.append_nil] at hnothing
  | blockComment =>
      have hnothing := blockCommentLength_append_eq_zero hleft hzero (closesNoMore_nil right)
      rwa [List.append_nil] at hnothing
  | regex => exact regexLength_cut_eq_zero hzero
  | number => exact hlocal local_numberLength hzero
  | string => exact stringLength_cut_eq_zero hzero
  | word => exact hlocal local_wordLength hzero
  | punctuation => exact hlocal local_punctuationLength hzero
  | operator => exact hlocal local_operatorLength hzero

/-- The first lexeme of a text is the first when the text is cut off behind it. -/
theorem first?_cut {admitted : Bool} {text between right : List Char} {lexeme : Lexeme}
    (hfirst : first? admitted (text ++ (between ++ right)) = some lexeme)
    (hlength : lexeme.length = text.length) : first? admitted (text ++ between) = some lexeme := by
  have htext : 0 < text.length := hlength ▸ lexeme.length_pos
  have hown : lexeme.category.measure (text ++ (between ++ right)) = text.length :=
    (measure_of_first? hfirst).trans hlength
  apply first?_congr hfirst
  · exact (measure_cut htext hown).trans hlength.symm
  · intro category hzero
    rw [← List.append_assoc] at hzero
    exact measure_cut_eq_zero hzero

/-- The step of a scanner over a lexeme, with the rest of the text cut somewhere
behind it. -/
theorem first?_of_drop_eq {admitted : Bool} {text front behind : List Char} {lexeme : Lexeme}
    (hfirst : first? admitted text = some lexeme)
    (hrest : text.drop lexeme.length = front ++ behind) :
    text = text.take lexeme.length ++ front ++ behind ∧
      first? admitted (text.take lexeme.length ++ front) = some lexeme ∧
        lexeme.length = (text.take lexeme.length).length := by
  have hwhole : text = text.take lexeme.length ++ (front ++ behind) := by
    rw [← hrest]
    exact (List.take_append_drop ..).symm
  have hlength : lexeme.length = (text.take lexeme.length).length :=
    (List.length_take_of_le (length_le_of_first? hfirst)).symm
  refine ⟨hwhole.trans (List.append_assoc ..).symm, ?_, hlength⟩
  exact first?_cut (by rwa [← hwhole]) hlength

end Lexeme

end ScriptSyntax

/-!
# Texts with escapes

In strings and in regular expressions a backslash takes the next character with
it.  A text is made of escapes and plain characters if every backslash that
starts an escape has its character inside the text; such a text ends outside any
escape.
-/

namespace ScriptSyntax.Lexeme

/-- A text of plain characters and escapes, of the given sorts. -/
inductive EscapedText (plain escaped : Char → Prop) : List Char → Prop
  | nil : EscapedText plain escaped []
  | plain {character : Char} {text : List Char} (hbackslash : character ≠ '\\')
      (hplain : plain character) (htext : EscapedText plain escaped text) :
      EscapedText plain escaped (character :: text)
  | escape {character : Char} {text : List Char} (hescaped : escaped character)
      (htext : EscapedText plain escaped text) :
      EscapedText plain escaped ('\\' :: character :: text)

/-- The text ends outside any escape. -/
abbrev EscapesWithin : List Char → Prop :=
  EscapedText (fun _ => True) (fun _ => True)

namespace EscapedText

variable {plain escaped : Char → Prop} {text : List Char}

theorem append (htext : EscapedText plain escaped text) {other : List Char}
    (hother : EscapedText plain escaped other) : EscapedText plain escaped (text ++ other) := by
  induction htext with
  | nil => exact hother
  | plain hbackslash hplain _ ih => exact .plain hbackslash hplain ih
  | escape hescaped _ ih => exact .escape hescaped ih

theorem of_forall (htext : ∀ character ∈ text, character ≠ '\\' ∧ plain character) :
    EscapedText plain escaped text := by
  induction text with
  | nil => exact .nil
  | cons character text ih =>
      obtain ⟨⟨hbackslash, hplain⟩, hothers⟩ := List.forall_mem_cons.mp htext
      exact .plain hbackslash hplain (ih hothers)

/-- What stands behind characters other than backslashes is again such a text. -/
theorem drop (htext : EscapedText plain escaped text) {count : Nat}
    (htaken : ∀ character ∈ text.take count, character ≠ '\\') :
    EscapedText plain escaped (text.drop count) := by
  induction count generalizing text with
  | zero => exact htext
  | succ count ih =>
      cases htext with
      | nil => exact .nil
      | plain _ _ hothers => exact ih hothers (List.forall_mem_cons.mp htaken).2
      | escape _ _ => exact absurd rfl (List.forall_mem_cons.mp htaken).1

/-- A character that is no backslash stands there as a plain one, or behind the
backslash of an escape. -/
theorem plain_or_escaped (htext : EscapedText plain escaped text) {front behind : List Char}
    {character : Char} (hparts : text = front ++ character :: behind)
    (hbackslash : character ≠ '\\') :
    plain character ∨
      escaped character ∧ ∃ whole, EscapesWithin whole ∧ front = whole ++ ['\\'] := by
  induction htext generalizing front with
  | nil => simp at hparts
  | @plain first text hfirst hplain _ ih =>
      cases front with
      | nil =>
          obtain ⟨rfl, -⟩ := List.cons.inj hparts
          exact .inl hplain
      | cons head front =>
          obtain ⟨rfl, hothers⟩ := List.cons.inj hparts
          refine (ih hothers).imp_right ?_
          rintro ⟨hescaped, whole, hwhole, rfl⟩
          exact ⟨hescaped, first :: whole, .plain hfirst trivial hwhole, rfl⟩
  | @escape first text hescaped _ ih =>
      match front, hparts with
      | [], hparts => exact absurd (List.cons.inj hparts).1.symm hbackslash
      | [head], hparts =>
          obtain ⟨rfl, hinner⟩ := List.cons.inj hparts
          obtain ⟨rfl, -⟩ := List.cons.inj hinner
          exact .inr ⟨hescaped, [], .nil, rfl⟩
      | head :: second :: front, hparts =>
          obtain ⟨rfl, hinner⟩ := List.cons.inj hparts
          obtain ⟨rfl, hothers⟩ := List.cons.inj hinner
          refine (ih hothers).imp_right ?_
          rintro ⟨hlater, whole, hwhole, rfl⟩
          exact ⟨hlater, '\\' :: first :: whole, .escape trivial hwhole, rfl⟩

end EscapedText

end ScriptSyntax.Lexeme

/-!
# Byte lengths

Offsets into a source count the bytes of its UTF-8 form.  Texts are handled as
lists of characters, so a length in bytes is a sum over the characters.
-/

namespace ScriptSyntax.Text

/-- Number of bytes of the UTF-8 form of a text. -/
def byteLength : List Char → Nat
  | [] => 0
  | character :: text => character.utf8Size + byteLength text

@[simp]
theorem byteLength_nil : byteLength [] = 0 := rfl

@[simp]
theorem byteLength_cons (character : Char) (text : List Char) :
    byteLength (character :: text) = character.utf8Size + byteLength text := rfl

@[simp]
theorem byteLength_append (left right : List Char) :
    byteLength (left ++ right) = byteLength left + byteLength right := by
  induction left with
  | nil => simp
  | cons character text ih => simp [ih, Nat.add_assoc]

/-- The text that remains after the given number of bytes, when these end
between two characters. -/
def dropBytes? : Nat → List Char → Option (List Char)
  | 0, text => some text
  | _ + 1, [] => none
  | bytes + 1, character :: text =>
      if character.utf8Size ≤ bytes + 1 then
        dropBytes? (bytes + 1 - character.utf8Size) text
      else
        none

theorem dropBytes?_byteLength_append (left right : List Char) :
    dropBytes? (byteLength left) (left ++ right) = some right := by
  induction left with
  | nil => simp [dropBytes?]
  | cons character text ih =>
      have hsize : 0 < character.utf8Size := Char.utf8Size_pos character
      obtain ⟨bytes, hbytes⟩ : ∃ bytes, byteLength (character :: text) = bytes + 1 :=
        ⟨byteLength (character :: text) - 1, by
          simp only [byteLength_cons]; omega⟩
      rw [hbytes, List.cons_append, dropBytes?]
      rw [byteLength_cons] at hbytes
      rw [if_pos (by omega), ← hbytes, Nat.add_sub_cancel_left, ih]

end ScriptSyntax.Text

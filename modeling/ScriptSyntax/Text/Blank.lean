/-!
# Blanks and line breaks

Blanks are the characters with the Unicode property `White_Space`.  Four of
them end a line: line feed, carriage return, line separator and paragraph
separator.
-/

namespace ScriptSyntax.Text

/-- A character that separates lexemes and belongs to none of them. -/
def isBlank (character : Char) : Bool :=
  let code := character.toNat
  (0x9 ≤ code && code ≤ 0xD) || code == 0x20 || code == 0x85 || code == 0xA0 ||
    code == 0x1680 || (0x2000 ≤ code && code ≤ 0x200A) || code == 0x2028 ||
    code == 0x2029 || code == 0x202F || code == 0x205F || code == 0x3000

/-- A character that ends a line. -/
def isLineBreak (character : Char) : Bool :=
  character == '\n' || character == '\r' || character == '\u2028' ||
    character == '\u2029'

/-- Some character of the text ends a line. -/
def hasLineBreak (text : List Char) : Bool :=
  text.any isLineBreak

theorem isBlank_of_isLineBreak {character : Char}
    (hbreak : isLineBreak character = true) : isBlank character = true := by
  simp only [isLineBreak, Bool.or_eq_true, beq_iff_eq] at hbreak
  rcases hbreak with ((rfl | rfl) | rfl) | rfl <;> decide

@[simp]
theorem hasLineBreak_append (left right : List Char) :
    hasLineBreak (left ++ right) = (hasLineBreak left || hasLineBreak right) := by
  simp [hasLineBreak]

/-- The text without the blanks at its end. -/
def trimEnd (text : List Char) : List Char :=
  (text.reverse.dropWhile isBlank).reverse

end ScriptSyntax.Text

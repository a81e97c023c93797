import ScriptSyntax.Text.Bytes

/-!
# Lines of a source

A source is cut after each line feed; the other line breaks stay inside their
line.  A byte position inside the source belongs to the line that holds the
byte, and the position just past the source belongs to the last line.
-/

namespace ScriptSyntax

open Text

/-- The lines of a text, each with the line feed that ends it. -/
def lines : List Char → List (List Char)
  | [] => []
  | character :: text =>
      if character = '\n' then
        [character] :: lines text
      else
        match lines text with
        | [] => [[character]]
        | line :: others => (character :: line) :: others

@[simp]
theorem lines_flatten (text : List Char) : (lines text).flatten = text := by
  induction text with
  | nil => rfl
  | cons character text ih =>
      rw [lines]
      split
      · simp [ih]
      · cases hlines : lines text with
        | nil => simp_all
        | cons line others => simp_all

/-- A line of a source with a place in it: the number counts from one, the
column counts bytes from the start of the line. -/
structure Location where
  number : Nat
  line : List Char
  column : Nat
  deriving DecidableEq

/-- The line that holds the byte at a position, the first line having the given
number. -/
def locateByte (number : Nat) : List (List Char) → Nat → Option Location
  | [], _ => none
  | line :: others, position =>
      if position < byteLength line then
        some ⟨number, line, position⟩
      else
        locateByte (number + 1) others (position - byteLength line)

/-- The place just past a source with the given lines. -/
def locateEnd (lines : List (List Char)) : Location :=
  let line := lines.getLast?.getD []
  ⟨max lines.length 1, line, byteLength line⟩

/-- The line at a byte position; none beyond the end of the source. -/
def locate? (source : String) (position : Nat) : Option Location :=
  let text := source.toList
  if byteLength text < position then
    none
  else
    some ((locateByte 1 (lines text) position).getD (locateEnd (lines text)))

end ScriptSyntax

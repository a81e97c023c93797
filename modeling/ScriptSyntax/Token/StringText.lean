/-!
# The text of a string literal

Between its quotes a string literal may hold escapes.  A backslash with a letter
stands for a control character, `\x` and `\u` take the hexadecimal digits that
follow (at most two and four), and a backslash before a line break makes both
vanish.  Any other escaped character stands for itself.
-/

namespace ScriptSyntax.StringText

def isHexDigit (character : Char) : Bool :=
  character.isDigit || ('a' ≤ character && character ≤ 'f') ||
    ('A' ≤ character && character ≤ 'F')

/-- The value of a hexadecimal digit. -/
def hexValue (digit : Char) : Nat :=
  if digit.isDigit then digit.toNat - '0'.toNat
  else if 'a' ≤ digit then digit.toNat - 'a'.toNat + 10
  else digit.toNat - 'A'.toNat + 10

/-- The character whose code point the digits write, if there is one. -/
def charOfHex? (digits : List Char) : Option Char :=
  let code := digits.foldl (fun value digit => 16 * value + hexValue digit) 0
  if digits ≠ [] ∧ code.isValidChar then some (Char.ofNat code) else none

/-- The hexadecimal digits at the head of a text, at most `limit` of them. -/
def leadingHex (limit : Nat) (text : List Char) : List Char :=
  (text.take limit).takeWhile isHexDigit

/-- What an escape stands for and how many characters after its letter belong
to it.  Digits that name no character are used up, and the letter stays. -/
def escape (letter : Char) (rest : List Char) : List Char × Nat :=
  match letter with
  | 'n' => (['\n'], 0)
  | 't' => (['\t'], 0)
  | 'r' => (['\r'], 0)
  | 'b' => (['\x08'], 0)
  | 'f' => (['\x0c'], 0)
  | 'v' => (['\x0b'], 0)
  | '0' => (['\x00'], 0)
  | 'x' =>
      let digits := leadingHex 2 rest
      ([(charOfHex? digits).getD 'x'], digits.length)
  | 'u' =>
      let digits := leadingHex 4 rest
      ([(charOfHex? digits).getD 'u'], digits.length)
  | '\n' | '\u2028' | '\u2029' => ([], 0)
  | '\r' => ([], if rest.head? = some '\n' then 1 else 0)
  | other => ([other], 0)

/-- The text that the body of a string literal stands for.  A backslash at the
very end is kept. -/
def decode (body : List Char) : List Char :=
  match body with
  | [] => []
  | ['\\'] => ['\\']
  | '\\' :: letter :: rest =>
      (escape letter rest).1 ++ decode (rest.drop (escape letter rest).2)
  | character :: rest => character :: decode rest
termination_by body.length
decreasing_by
  · simp only [List.length_drop, List.length_cons]; omega
  · simp

end ScriptSyntax.StringText

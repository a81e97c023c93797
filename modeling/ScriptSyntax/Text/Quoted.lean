import ScriptSyntax.Text.Visible

/-!
# Quoted text

The form in which messages show a piece of source: between double quotes, with
short escapes for the quote, the backslash and the common controls, and a
numeric escape for every other character that does not show.
-/

namespace ScriptSyntax.Text

/-- Lower-case hexadecimal digits without leading zeros. -/
def hexDigits (number : Nat) : List Char :=
  Nat.toDigits 16 number

/-- A character as it stands between the quotes. -/
def quotedChar (character : Char) : List Char :=
  match character with
  | '"' => ['\\', '"']
  | '\\' => ['\\', '\\']
  | '\n' => ['\\', 'n']
  | '\r' => ['\\', 'r']
  | '\t' => ['\\', 't']
  | '\x00' => ['\\', '0']
  | _ =>
      if isVisible character then
        [character]
      else
        ['\\', 'u', '\x7b'] ++ hexDigits character.toNat ++ ['\x7d']

/-- A text between double quotes, every character of it visible. -/
def quoted (text : String) : String :=
  String.ofList ('"' :: text.toList.flatMap quotedChar ++ ['"'])

end ScriptSyntax.Text

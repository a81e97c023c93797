import ScriptSyntax.Diagnostic.Basic
import ScriptSyntax.Text.Bytes
import ScriptSyntax.Token.Lexeme

/-!
# Scanning

The scanner takes lexeme after lexeme off a source.  A reader keeps what the
rest of the source does not show: the name of the source, the number of bytes
read so far, and whether a line break stands before the next token.
-/

namespace ScriptSyntax

open Text

/-- Where the scanner stands. -/
structure Reader where
  file : String
  offset : Nat := 0
  newlinePending : Bool := false
  deriving DecidableEq

namespace Reader

/-- The position of a byte of the source being read. -/
def position (reader : Reader) (byte : Nat) : Position :=
  .ofByte reader.file byte

/-- The span of the next bytes. -/
def span (reader : Reader) (bytes : Nat) : Span :=
  ⟨reader.position reader.offset, reader.position (reader.offset + bytes)⟩

def advance (reader : Reader) (bytes : Nat) : Reader :=
  { reader with offset := reader.offset + bytes }

/-- Whether a line break is pending; asking clears it. -/
def takeNewline (reader : Reader) : Bool × Reader :=
  (reader.newlinePending, { reader with newlinePending := false })

/-- Nothing of the source is left. -/
def atEnd (reader : Reader) (source : String) : Bool :=
  byteLength source.toList ≤ reader.offset

/-- What is left of the source, unless the reader stands beyond its end or
inside a character. -/
def remainder? (reader : Reader) (source : String) : Option String :=
  (dropBytes? reader.offset source.toList).map String.ofList

/-- Passes over blanks, noting their line breaks. -/
def skip (reader : Reader) (blanks : List Char) : Reader :=
  { reader with
    offset := reader.offset + byteLength blanks
    newlinePending := reader.newlinePending || hasLineBreak blanks }

/-- The token of the given text, which starts where the reader stands. -/
def token (reader : Reader) (kind : Token.Kind) (value : String)
    (text : List Char) : Token :=
  { kind, value
    span := reader.span (byteLength text)
    newlineBefore := reader.newlinePending }

/-- Passes over the text of a token.  A block comment counts as a line break
before the next token if it holds one. -/
def pass (reader : Reader) (kind : Token.Kind) (text : List Char) : Reader :=
  { reader with
    offset := reader.offset + byteLength text
    newlinePending := kind == .blockComment && hasLineBreak text }

/-- The token at the end of the source. -/
def endToken (reader : Reader) : Token :=
  .endOfInput (reader.span 0) reader.newlinePending

/-- A text that starts no lexeme but opens a literal is unterminated. -/
def opensLiteral : List Char → Bool
  | '/' :: '*' :: _ => true
  | '"' :: _ => true
  | '\'' :: _ => true
  | _ => false

/-- The diagnostic for a text that starts no lexeme. -/
def failure (reader : Reader) (text : List Char) : Diagnostic :=
  let cause :=
    if opensLiteral text then
      Cause.unterminated (String.ofList (text.take 8))
    else
      Cause.unrecognised (String.ofList (text.take 1))
  ⟨cause, reader.position reader.offset⟩

end Reader

/-- The last token that is no comment, once one more token is read. -/
def Token.significant (previous : Option Token) (token : Token) : Option Token :=
  if token.isComment then previous else some token

/-- The tokens of a text, the end token last.  `previous` is the last token
before the text that is no comment. -/
def scan (reader : Reader) (previous : Option Token) :
    List Char → Except Diagnostic (List Token)
  | [] => .ok [reader.endToken]
  | head :: tail =>
      match Lexeme.first? (previous.all Token.admitsRegex) (head :: tail) with
      | none => .error (reader.failure (head :: tail))
      | some lexeme =>
          let taken := (head :: tail).take lexeme.length
          let rest := (head :: tail).drop lexeme.length
          match lexeme.kind? taken with
          | none => scan (reader.skip taken) previous rest
          | some kind =>
              let token := reader.token kind (lexeme.value taken) taken
              (scan (reader.pass kind taken) (token.significant previous) rest).map
                (token :: ·)
termination_by text => text.length
decreasing_by
  all_goals
    have hlength := lexeme.length_pos
    simp only [List.length_drop, List.length_cons]
    omega

/-- The name of a source that was given none. -/
def unnamedSource : String :=
  "<input>"

/-- The tokens of a source, the end token last. -/
def tokenize (source file : String) : Except Diagnostic (List Token) :=
  scan { file } none source.toList

end ScriptSyntax

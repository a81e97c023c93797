import ScriptSyntax.Text.Blank
import ScriptSyntax.Token.StringText
import ScriptSyntax.Token.Vocabulary

/-!
# Lexemes

A source is read as a sequence of lexemes: runs of blanks and the texts of
tokens.  For each class of lexemes a measure gives the number of characters of
the lexeme at the head of a text, zero when none stands there.  Where several
classes fit, the first in `LexemeClass.inOrder` is taken, so a slash is tried
as a comment, then as a regular expression, and last as an operator.
-/

namespace ScriptSyntax

open Text

/-- The classes of lexemes. -/
inductive LexemeClass
  | blank
  | lineComment
  | blockComment
  | regex
  | number
  | string
  | word
  | punctuation
  | operator
  deriving DecidableEq

namespace Lexeme

/-- Characters up to and including the first `*/`. -/
def commentTail? : List Char → Option Nat
  | [] => none
  | '*' :: '/' :: _ => some 2
  | _ :: rest => (commentTail? rest).map (· + 1)

/-- Line feed and carriage return, which end a line comment and may not stand
in a string or a regular expression. -/
def isLineEnd (character : Char) : Bool :=
  character == '\n' || character == '\r'

/-- Characters up to and including the slash that closes a regular expression.
Inside brackets a slash closes nothing; a backslash takes the next character
with it, unless that is a line feed. -/
def regexTail? (inBrackets : Bool) : List Char → Option Nat
  | [] => none
  | ['\\'] => none
  | '\\' :: escaped :: rest =>
      if escaped = '\n' then none
      else (regexTail? inBrackets rest).map (· + 2)
  | character :: rest =>
      if isLineEnd character then none
      else if inBrackets then (regexTail? (character != ']') rest).map (· + 1)
      else if character = '/' then some 1
      else (regexTail? (character == '[') rest).map (· + 1)

/-- Characters up to and including the quote that closes a string. -/
def stringTail? (quote : Char) : List Char → Option Nat
  | [] => none
  | ['\\'] => none
  | '\\' :: _ :: rest => (stringTail? quote rest).map (· + 2)
  | character :: rest =>
      if character = quote then some 1
      else if isLineEnd character then none
      else (stringTail? quote rest).map (· + 1)

def isWordStart (character : Char) : Bool :=
  character.isAlpha || character == '_' || character == '$'

def isWordPart (character : Char) : Bool :=
  isWordStart character || character.isDigit

/-- Length of the run of characters with a property at the head of a text. -/
def runLength (property : Char → Bool) (text : List Char) : Nat :=
  (text.takeWhile property).length

def lineCommentLength : List Char → Nat
  | '/' :: '/' :: rest => runLength (fun character => !isLineEnd character) rest + 2
  | _ => 0

def blockCommentLength : List Char → Nat
  | '/' :: '*' :: rest => ((commentTail? rest).map (· + 2)).getD 0
  | _ => 0

/-- A regular expression has at least one character between its slashes and may
have letters after them. -/
def regexLength : List Char → Nat
  | '/' :: '/' :: _ => 0
  | '/' :: rest =>
      match regexTail? false rest with
      | none => 0
      | some tail => tail + 1 + runLength Char.isAlpha (rest.drop tail)
  | _ => 0

def hexLength : List Char → Nat
  | '0' :: mark :: rest =>
      let digits := runLength StringText.isHexDigit rest
      if (mark == 'x' || mark == 'X') && digits != 0 then digits + 2 else 0
  | _ => 0

/-- Digits with an optional fraction, or a point and digits. -/
def mantissaLength (text : List Char) : Nat :=
  let whole := runLength Char.isDigit text
  match text.drop whole with
  | '.' :: rest =>
      let fraction := runLength Char.isDigit rest
      if whole = 0 ∧ fraction = 0 then 0 else whole + 1 + fraction
  | _ => whole

/-- A letter `e`, an optional sign, and digits. -/
def exponentLength : List Char → Nat
  | mark :: rest =>
      let sign := if rest.head? = some '+' ∨ rest.head? = some '-' then 1 else 0
      let digits := runLength Char.isDigit (rest.drop sign)
      if (mark == 'e' || mark == 'E') && digits != 0 then 1 + sign + digits else 0
  | [] => 0

def decimalLength (text : List Char) : Nat :=
  match mantissaLength text with
  | 0 => 0
  | mantissa => mantissa + exponentLength (text.drop mantissa)

def numberLength (text : List Char) : Nat :=
  match hexLength text with
  | 0 => decimalLength text
  | length => length

def stringLength : List Char → Nat
  | '"' :: rest => ((stringTail? '"' rest).map (· + 1)).getD 0
  | '\'' :: rest => ((stringTail? '\'' rest).map (· + 1)).getD 0
  | _ => 0

def wordLength : List Char → Nat
  | [] => 0
  | character :: rest =>
      if isWordStart character then runLength isWordPart rest + 1 else 0

def punctuationLength : List Char → Nat
  | [] => 0
  | character :: _ => if character ∈ Token.punctuationMarks then 1 else 0

/-- The first operator of the table that the text starts with. -/
def operatorLength (text : List Char) : Nat :=
  match Token.symbolOperators.find? fun symbol => symbol.toList.isPrefixOf text with
  | none => 0
  | some symbol => symbol.toList.length

end Lexeme

namespace LexemeClass

/-- The classes in the order in which they are tried. -/
def inOrder : List LexemeClass :=
  [.blank, .lineComment, .blockComment, .regex, .number, .string, .word,
    .punctuation, .operator]

/-- Number of characters of the lexeme of a class at the head of a text. -/
def measure : LexemeClass → List Char → Nat
  | .blank => Lexeme.runLength isBlank
  | .lineComment => Lexeme.lineCommentLength
  | .blockComment => Lexeme.blockCommentLength
  | .regex => Lexeme.regexLength
  | .number => Lexeme.numberLength
  | .string => Lexeme.stringLength
  | .word => Lexeme.wordLength
  | .punctuation => Lexeme.punctuationLength
  | .operator => Lexeme.operatorLength

end LexemeClass

/-- A lexeme at the head of a text: its class and its length. -/
structure Lexeme where
  category : LexemeClass
  length : Nat
  length_pos : 0 < length

namespace Lexeme

/-- The lexeme of the given class at the head of a text. -/
def ofClass? (category : LexemeClass) (text : List Char) : Option Lexeme :=
  if hlength : 0 < category.measure text then some ⟨category, _, hlength⟩ else none

/-- The lexeme at the head of a text.  Whether a regular expression may stand
there is for the tokens before it to say. -/
def first? (regexAdmitted : Bool) (text : List Char) : Option Lexeme :=
  LexemeClass.inOrder.findSome? fun category =>
    if category = .regex ∧ !regexAdmitted then none else ofClass? category text

/-- The kind of the token with the given text; blanks make none. -/
def kind? (lexeme : Lexeme) (text : List Char) : Option Token.Kind :=
  match lexeme.category with
  | .blank => none
  | .lineComment => some .lineComment
  | .blockComment => some .blockComment
  | .regex => some .regex
  | .number => some .number
  | .string => some .string
  | .word => some (.ofWord (String.ofList text))
  | .punctuation => some .punctuation
  | .operator => some .operator

/-- The value of the token with the given text: the decoded body of a string,
and otherwise the text. -/
def value (lexeme : Lexeme) (text : List Char) : String :=
  match lexeme.category with
  | .string => String.ofList (StringText.decode text.tail.dropLast)
  | _ => String.ofList text

end Lexeme

end ScriptSyntax

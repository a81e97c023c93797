import ScriptSyntax.Token.Basic

/-!
# Words and operators with a meaning

The reserved words, the symbols of the language, and the roles operators play
in expressions.  Roles are a matter of the token's value, but only tokens of
kind operator have them.
-/

namespace ScriptSyntax.Token

/-- Reserved words that structure statements or stand for fixed values. -/
def keywords : List String :=
  ["break", "case", "catch", "continue", "debugger", "default", "do", "else",
    "finally", "for", "function", "if", "return", "switch", "throw", "try",
    "var", "while", "with", "true", "false", "null", "this"]

/-- Reserved words that are operators. -/
def wordOperators : List String :=
  ["new", "in", "instanceof", "typeof", "void", "delete"]

/-- Keywords that stand for a value and are read as names. -/
def valueKeywords : List String :=
  ["true", "false", "null", "this"]

/-- The kind of a word. -/
def Kind.ofWord (word : String) : Kind :=
  if word ∈ keywords then
    .keyword
  else if word ∈ wordOperators then
    .operator
  else
    .identifier

/-- The characters that are punctuation. -/
def punctuationMarks : List Char :=
  ['\x7b', '\x7d', '(', ')', '[', ']', ';', ',', ':', '.']

/-- The operators written in symbols, longer ones before their beginnings. -/
def symbolOperators : List String :=
  [">>>=", "===", "!==", ">>>", "<<=", ">>=", "++", "--", "+=", "-=", "*=", "/=",
    "%=", "&=", "|=", "^=", "&&", "||", "==", "!=", "<=", ">=", "<<", ">>", "-",
    "+", "*", "/", "%", "&", "|", "^", "!", "~", "<", ">", "=", "?"]

/-- How tightly a binary operator holds its operands, loosest first.  The lowest
level is below every operator. -/
inductive Binding
  | lowest
  | logicalOr
  | logicalAnd
  | bitwiseOr
  | bitwiseXor
  | bitwiseAnd
  | equality
  | relational
  | shift
  | additive
  | multiplicative
  deriving DecidableEq

namespace Binding

/-- Place in the order from loosest to tightest. -/
def rank : Binding → Nat
  | .lowest => 0
  | .logicalOr => 1
  | .logicalAnd => 2
  | .bitwiseOr => 3
  | .bitwiseXor => 4
  | .bitwiseAnd => 5
  | .equality => 6
  | .relational => 7
  | .shift => 8
  | .additive => 9
  | .multiplicative => 10

instance : LE Binding where
  le left right := left.rank ≤ right.rank

instance : LT Binding where
  lt left right := left.rank < right.rank

instance (left right : Binding) : Decidable (left ≤ right) :=
  inferInstanceAs (Decidable (left.rank ≤ right.rank))

instance (left right : Binding) : Decidable (left < right) :=
  inferInstanceAs (Decidable (left.rank < right.rank))

/-- The name of a level in reports. -/
def name : Binding → String
  | .lowest => "Default"
  | .logicalOr => "LogicalOr"
  | .logicalAnd => "LogicalAnd"
  | .bitwiseOr => "BitwiseOr"
  | .bitwiseXor => "BitwiseXor"
  | .bitwiseAnd => "BitwiseAnd"
  | .equality => "Equality"
  | .relational => "Relational"
  | .shift => "Shift"
  | .additive => "Additive"
  | .multiplicative => "Multiplicative"

/-- The level of a binary operator, by its text. -/
def ofOperator (operator : String) : Binding :=
  if operator = "||" then .logicalOr
  else if operator = "&&" then .logicalAnd
  else if operator = "|" then .bitwiseOr
  else if operator = "^" then .bitwiseXor
  else if operator = "&" then .bitwiseAnd
  else if operator ∈ ["==", "===", "!=", "!=="] then .equality
  else if operator ∈ ["<", ">", "<=", ">=", "in", "instanceof"] then .relational
  else if operator ∈ ["<<", ">>", ">>>"] then .shift
  else if operator ∈ ["+", "-"] then .additive
  else if operator ∈ ["*", "/", "%"] then .multiplicative
  else .lowest

theorem lowest_le (level : Binding) : Binding.lowest ≤ level :=
  Nat.zero_le level.rank

end Binding

/-- The level at which the token binds as a binary operator. -/
def binding (token : Token) : Binding :=
  if token.kind = .operator then .ofOperator token.value else .lowest

def prefixOperators : List String :=
  ["typeof", "void", "delete", "--", "++", "!", "~", "-", "+"]

def postfixOperators : List String :=
  ["--", "++"]

def assignmentOperators : List String :=
  ["=", "+=", "-=", "*=", "/=", "%=", "<<=", ">>=", ">>>=", "&=", "^=", "|="]

/-- The token may stand before its operand. -/
def isPrefix (token : Token) : Bool :=
  token.kind == .operator && prefixOperators.contains token.value

/-- The token may stand after its operand. -/
def isPostfix (token : Token) : Bool :=
  token.kind == .operator && postfixOperators.contains token.value

def isAssignment (token : Token) : Bool :=
  token.kind == .operator && assignmentOperators.contains token.value

/-- The token is a keyword that stands for a value. -/
def isValueKeyword (token : Token) : Bool :=
  token.kind == .keyword && valueKeywords.contains token.value

/-- The token is an operator spelled with ASCII letters only. -/
def isWordOperator (token : Token) : Bool :=
  token.kind == .operator && token.value.toList.all Char.isAlpha

/-- The token may name a member after a dot. -/
def isMemberName (token : Token) : Bool :=
  token.kind == .identifier || token.kind == .keyword || token.isWordOperator

/-- The token may name a property of an object literal. -/
def isPropertyName (token : Token) : Bool :=
  token.isMemberName || token.kind == .string || token.kind == .number

/-- A slash after the token opens a regular expression rather than divides. -/
def admitsRegex (token : Token) : Bool :=
  match token.kind with
  | .identifier | .number | .string | .regex => false
  | .punctuation => !([")", "]", "\x7d"].contains token.value)
  | .keyword => !(valueKeywords.contains token.value)
  | .operator => !(postfixOperators.contains token.value)
  | .lineComment | .blockComment | .eof => true

end ScriptSyntax.Token

import ScriptSyntax.Source.Span

/-!
# Tokens

A token is a classified piece of source.  The value of a string is its decoded
text, the value of every other token is the text it was read from.  Kinds and
values are independent: a token list given by a caller may pair any kind with
any value.
-/

namespace ScriptSyntax

namespace Token

/-- What a token is. -/
inductive Kind
  | lineComment
  | blockComment
  | operator
  | keyword
  | punctuation
  | number
  | string
  | regex
  | identifier
  | eof
  deriving DecidableEq

/-- The name of a kind in reports. -/
def Kind.name : Kind → String
  | .lineComment => "LineComment"
  | .blockComment => "BlockComment"
  | .operator => "Operator"
  | .keyword => "Keyword"
  | .punctuation => "Punctuation"
  | .number => "Number"
  | .string => "String"
  | .regex => "RegEx"
  | .identifier => "Identifier"
  | .eof => "EOF"

/-- All kinds. -/
def Kind.all : List Kind :=
  [.lineComment, .blockComment, .operator, .keyword, .punctuation, .number,
    .string, .regex, .identifier, .eof]

end Token

/-- A piece of source with its kind.  `newlineBefore` tells whether a line break
stands between the token and the one before it. -/
structure Token where
  kind : Token.Kind
  value : String
  span : Span
  newlineBefore : Bool := false
  deriving DecidableEq

namespace Token

/-- The token has the given kind and value. -/
def is (token : Token) (kind : Kind) (value : String) : Bool :=
  token.kind == kind && token.value == value

def isPunctuation (token : Token) (value : String) : Bool :=
  token.is .punctuation value

def isKeyword (token : Token) (value : String) : Bool :=
  token.is .keyword value

def isOperator (token : Token) (value : String) : Bool :=
  token.is .operator value

def isComment (token : Token) : Bool :=
  token.kind == .lineComment || token.kind == .blockComment

def isEnd (token : Token) : Bool :=
  token.kind == .eof

/-- The same token as an identifier, for words that serve as plain names. -/
def asName (token : Token) : Token :=
  { token with kind := .identifier }

/-- The token that marks the end of the input. -/
def endOfInput (span : Span) (newlineBefore : Bool) : Token :=
  { kind := .eof, value := "EOF", span, newlineBefore }

/-- Two lines of text that show kind and value. -/
def description (token : Token) : String :=
  "Token \x7b\nkind: " ++ token.kind.name ++ ",\nvalue: " ++ token.value ++ "\x7d"

/-- The line of a token in a listing: only names and literals show their
value. -/
def listing (token : Token) : String :=
  match token.kind with
  | .string | .identifier | .number | .regex =>
      token.kind.name ++ " (" ++ token.value ++ ")"
  | _ => token.kind.name ++ " ()"

theorem is_iff (token : Token) (kind : Kind) (value : String) :
    token.is kind value = true ↔ token.kind = kind ∧ token.value = value := by
  simp [is]

@[simp]
theorem asName_kind (token : Token) : token.asName.kind = .identifier := rfl

@[simp]
theorem asName_value (token : Token) : token.asName.value = token.value := rfl

@[simp]
theorem asName_span (token : Token) : token.asName.span = token.span := rfl

end Token

end ScriptSyntax

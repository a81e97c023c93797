import ScriptSyntax.Text.Quoted
import ScriptSyntax.Token.Basic

/-!
# Diagnostics

Reading a source fails for one of three causes: a character that starts no
lexeme, a literal that is never closed, or a token the grammar does not admit.
A diagnostic is a cause with the position it points at.
-/

namespace ScriptSyntax

/-- What the grammar had to say about a token it could not use. -/
inductive Reason
  /-- No statement starts with the token. -/
  | unexpectedToken
  /-- A statement was due where the input ends. -/
  | unexpectedEnd
  /-- One piece of punctuation, or one of several, was due. -/
  | expected (punctuation : String)
  | expectedKeyword (word : String)
  | expectedName
  | expectedIdentifier
  | expectedOperand
  | expectedParameter
  | expectedFunctionName
  | expectedCatchName
  | expectedCatchOrFinally
  /-- The input ends inside a list of parameters. -/
  | unterminatedParameters
  /-- The left side of an assignment is no place to store a value. -/
  | notAssignable
  /-- More nested constructs than the grammar was unfolded for. -/
  | outOfDepth
  /-- A node that has to be there is not in the tree. -/
  | missingNode (id : Nat)
  /-- A reason given by the caller. -/
  | stated (text : String)
  deriving DecidableEq

/-- The wording of a reason. -/
def Reason.text : Reason → String
  | .unexpectedToken => "unexpected token"
  | .unexpectedEnd => "unexpected end of input"
  | .expected punctuation => "expected " ++ punctuation
  | .expectedKeyword word => "expected keyword " ++ word
  | .expectedName => "expected name"
  | .expectedIdentifier => "expected identifier"
  | .expectedOperand => "expected atom for expression"
  | .expectedParameter => "expected parameter name"
  | .expectedFunctionName => "expected function name"
  | .expectedCatchName => "expected name with catch clause"
  | .expectedCatchOrFinally => "expected catch or finally clause"
  | .unterminatedParameters => "unterminated lambda list"
  | .notAssignable => "left-hand-side is not assignable"
  | .outOfDepth => "constructs nested too deeply"
  | .missingNode id => "node #" ++ Nat.repr id ++ " is not part of this tree"
  | .stated text => text

/-- Why a source could not be read, with the text at fault. -/
inductive Cause
  | unrecognised (text : String)
  | unterminated (text : String)
  | syntactic (found : String) (reason : Reason)
  deriving DecidableEq

namespace Cause

/-- The name of the class of failures. -/
def name : Cause → String
  | .unrecognised _ => "UnrecognisedToken"
  | .unterminated _ => "UnterminatedLiteral"
  | .syntactic _ _ => "SyntaxError"

/-- The text at fault. -/
def found : Cause → String
  | .unrecognised text => text
  | .unterminated text => text
  | .syntactic found _ => found

/-- What went wrong, in a few words. -/
def reasonText : Cause → String
  | .unrecognised _ => "unrecognised token"
  | .unterminated _ => "unterminated literal"
  | .syntactic _ reason => reason.text

/-- The remark shown beside the name of the failure. -/
def tip? : Cause → Option String
  | .unrecognised _ => none
  | .unterminated text =>
      some ("Literal starting with `" ++ text ++ "` is never closed")
  | .syntactic found reason => some (reason.text ++ ", found `" ++ found ++ "`")

/-- The message of the cause, the text at fault in quotes. -/
def message : Cause → String
  | .unrecognised text => "unrecognised token: " ++ Text.quoted text
  | .unterminated text => "unterminated literal: " ++ Text.quoted text
  | .syntactic found reason =>
      "syntax error (" ++ reason.text ++ "): " ++ Text.quoted found

end Cause

/-- A cause of failure and the position it points at. -/
structure Diagnostic where
  cause : Cause
  position : Position
  deriving DecidableEq

/-- The message of the cause followed by the position. -/
def Diagnostic.message (diagnostic : Diagnostic) : String :=
  diagnostic.cause.message ++ " at " ++ diagnostic.position.file ++ ":" ++
    Nat.repr diagnostic.position.offset.toNat

/-- How a diagnostic refers to a token: by its value, except that the end of
the input is named as such. -/
def Token.shown (token : Token) : String :=
  if token.isEnd then "end of input" else token.value

/-- The diagnostic for a token that the grammar does not admit. -/
def Token.unexpected (token : Token) (reason : Reason) : Diagnostic :=
  ⟨.syntactic token.shown reason, token.span.start⟩

end ScriptSyntax

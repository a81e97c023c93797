import ScriptSyntax.Parse.Grammar

/-!
# Blocks and functions

Functions stand among statements and among operands.  Their body is a block, a
list of statements in braces.
-/

namespace ScriptSyntax.Production

open Parse

/-- Statements in braces. -/
def block (grammar : Grammar) : Parse NodeId := do
  let first ← expectPunctuation "\x7b"
  let statements ← grammar.statements .block
  let last ← advance
  add (.block first statements last)

/-- Names of parameters up to the closing parenthesis, with commas between
them. -/
def parameters (grammar : Grammar) : Parse (List Token) := do
  let token ← current
  if token.isPunctuation ")" then
    return []
  else if token.isEnd then
    refuse .unterminatedParameters
  else
    let name ← expectIdentifier .expectedParameter
    separator ")"
    return name :: (← grammar.parameters)

/-- A function from its first token on.  Only a literal may lack a name, which
is noticed once the body has been read. -/
def function (grammar : Grammar) (role : FunctionRole) : Parse NodeId := do
  let first ← advance
  let name ← accept? fun token => token.kind == .identifier
  let _ ← expectPunctuation "("
  let parameters ← grammar.parameters
  let _ ← advance
  let body ← block grammar
  if role = .definition ∧ name = none then
    throw (first.unexpected .expectedFunctionName)
  else
    add (.function role first name parameters body)

end ScriptSyntax.Production

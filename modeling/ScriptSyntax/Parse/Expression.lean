import ScriptSyntax.Parse.Function

/-!
# Productions of expressions

From the loosest to the tightest: commas, assignments, conditionals, binary
operations by level, operands with their suffixes.  Operations of one level
associate to the left, commas and assignments to the right.
-/

namespace ScriptSyntax.Production

open Parse

/-- What the first token of an operand opens. -/
inductive OperandStart
  | newObject
  | unary
  | function
  | valueKeyword
  | leaf (kind : Leaf)
  | parenthesis
  | bracket
  | brace
  | refused
  deriving DecidableEq

/-- The operand that a token opens. -/
def OperandStart.of (token : Token) : OperandStart :=
  match token.kind with
  | .operator =>
      if token.value = "new" then .newObject
      else if token.isPrefix then .unary
      else .refused
  | .keyword =>
      if token.value = "function" then .function
      else if token.isValueKeyword then .valueKeyword
      else .refused
  | .identifier => .leaf .name
  | .number => .leaf .number
  | .string => .leaf .string
  | .regex => .leaf .regex
  | .punctuation =>
      if token.value = "(" then .parenthesis
      else if token.value = "[" then .bracket
      else if token.value = "\x7b" then .brace
      else .refused
  | .lineComment | .blockComment | .eof => .refused

/-- An expression in parentheses. -/
def parenthesized (grammar : Grammar) : Parse NodeId := do
  let first ← expectPunctuation "("
  let inner ← grammar.expression true
  let _ ← eatComments
  let last ← expectPunctuation ")"
  add (.parenthesized first inner last)

def array (grammar : Grammar) : Parse NodeId := do
  let first ← advance
  let elements ← grammar.items "]"
  let last ← advance
  add (.array first elements last)

/-- A name, a colon and a value. -/
def property (grammar : Grammar) : Parse NodeId := do
  let name ← expect Token.isPropertyName .expectedName
  let _ ← expectPunctuation ":"
  let value ← grammar.expression false
  add (.property name.asName value)

/-- Properties up to the closing brace, with commas between them; a comma may
stand after the last. -/
def properties (grammar : Grammar) : Parse (List NodeId) := do
  let _ ← eatComments
  if (← current).isPunctuation "\x7d" then
    return []
  else
    let first ← property grammar
    let _ ← eatComments
    separator "\x7d"
    return first :: (← grammar.properties)

/-- An object literal, annotated with the comment before it. -/
def object (grammar : Grammar) (comment : Option Token) : Parse NodeId := do
  let first ← advance
  let properties ← grammar.properties
  let last ← advance
  add (.object first comment properties last)

/-- A list of arguments in parentheses. -/
def arguments (grammar : Grammar) : Parse NodeId := do
  let first ← advance
  let expressions ← grammar.items ")"
  let last ← advance
  add (.exprList first expressions last)

/-- The first list of arguments after the callee belongs to `new`, so the callee
itself has no calls. -/
def newObject (grammar : Grammar) : Parse NodeId := do
  let first ← advance
  let callee ← grammar.operand false
  let arguments ←
    if (← current).isPunctuation "(" then
      pure (some (← arguments grammar))
    else
      pure none
  let object ← add (.newObject first callee arguments)
  grammar.suffixes object true

/-- An operand with what follows it.  The last comment before an object literal
is kept with it; other comments are passed over. -/
def operand (grammar : Grammar) (calls : Bool) : Parse NodeId := do
  let comment ← eatComments
  let token ← current
  match OperandStart.of token with
  | .newObject => newObject grammar
  | .unary =>
      let _ ← advance
      let inner ← grammar.operand calls
      add (.unaryBefore token inner)
  | .function => grammar.suffixes (← function grammar .literal) true
  | .valueKeyword =>
      let _ ← advance
      grammar.suffixes (← add (.leaf .name token.asName)) calls
  | .leaf kind =>
      let _ ← advance
      grammar.suffixes (← add (.leaf kind token)) calls
  | .parenthesis => grammar.suffixes (← parenthesized grammar) calls
  | .bracket => grammar.suffixes (← array grammar) calls
  | .brace => grammar.suffixes (← object grammar comment) calls
  | .refused => refuse .expectedOperand

/-- What follows an operand.  Calls and operators after the operand are taken
only if admitted, and such an operator has to stand on the operand's line. -/
def suffixes (grammar : Grammar) (target : NodeId) (calls : Bool) : Parse NodeId := do
  let token ← current
  if token.isPunctuation "." then
    let _ ← advance
    let name ← expect Token.isMemberName .expectedName
    let member ← add (.leaf .name name.asName)
    grammar.suffixes (← add (.binary target token member)) calls
  else if token.isPunctuation "[" then
    let _ ← advance
    let index ← grammar.expression true
    let last ← expectPunctuation "]"
    grammar.suffixes (← add (.subscript target index last)) calls
  else if calls && token.isPunctuation "(" then
    let _ ← advance
    let items ← grammar.items ")"
    let last ← advance
    grammar.suffixes (← add (.application target items last)) calls
  else if calls && token.isPostfix && !token.newlineBefore then
    let _ ← advance
    add (.unaryAfter target token)
  else
    return target

/-- Binary operations that bind tighter than the floor, after their first
operand. -/
def operations (grammar : Grammar) (left : NodeId) (floor : Token.Binding) :
    Parse NodeId := do
  let level := (← current).binding
  if level ≤ floor then
    return left
  else
    let operator ← advance
    let first ← grammar.operand true
    let right ← grammar.operations first level
    let joined ← add (.binary left operator right)
    grammar.operations joined floor

def conditional (grammar : Grammar) : Parse NodeId := do
  let first ← operand grammar true
  let test ← grammar.operations first .lowest
  if (← current).isOperator "?" then
    let _ ← advance
    let consequent ← grammar.assignment
    let _ ← expectPunctuation ":"
    let alternate ← grammar.assignment
    add (.conditional test consequent alternate)
  else
    return test

def assignment (grammar : Grammar) : Parse NodeId := do
  let left ← conditional grammar
  if !(← current).isAssignment then
    return left
  else if (← node left).shape.isAssignable then
    let operator ← advance
    let right ← grammar.assignment
    add (.binary left operator right)
  else
    refuse .notAssignable

def expression (grammar : Grammar) (commas : Bool) : Parse NodeId := do
  let first ← assignment grammar
  if commas && (← current).isPunctuation "," then
    let comma ← advance
    let rest ← grammar.expression true
    add (.binary first comma rest)
  else
    return first

/-- Expressions up to the closing mark, with commas between them; a comma may
stand after the last. -/
def items (grammar : Grammar) (closing : String) : Parse (List NodeId) := do
  let _ ← eatComments
  if (← current).isPunctuation closing then
    return []
  else
    let first ← expression grammar false
    let _ ← eatComments
    separator closing
    return first :: (← grammar.items closing)

end ScriptSyntax.Production

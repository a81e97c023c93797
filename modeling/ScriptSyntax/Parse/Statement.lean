import ScriptSyntax.Parse.Expression

/-!
# Productions of statements

The first token, and for a label the second, decides what statement is read.
-/

namespace ScriptSyntax.Production

open Parse

/-- What the first tokens of a statement open. -/
inductive Opening
  | comment
  | labelled
  | expression
  | block
  | empty
  | jump (kind : Jump)
  | caseLabel
  | debugger
  | defaultLabel
  | doWhile
  | forLoop
  | function
  | ifElse
  | returns
  | switch
  | throws
  | tryCatch
  | varStatement
  | whileLoop
  | withScope
  | refused (reason : Reason)
  deriving DecidableEq

namespace Opening

/-- The statement that a keyword opens. -/
def ofKeyword (labels : Bool) (word : String) : Opening :=
  match word with
  | "break" => .jump .breaks
  | "case" => if labels then .caseLabel else .refused .unexpectedToken
  | "continue" => .jump .continues
  | "debugger" => .debugger
  | "default" => if labels then .defaultLabel else .refused .unexpectedToken
  | "do" => .doWhile
  | "for" => .forLoop
  | "function" => .function
  | "if" => .ifElse
  | "return" => .returns
  | "switch" => .switch
  | "throw" => .throws
  | "try" => .tryCatch
  | "var" => .varStatement
  | "while" => .whileLoop
  | "with" => .withScope
  | _ =>
      if Token.valueKeywords.contains word then .expression
      else .refused .unexpectedToken

/-- The statement that a punctuation mark opens. -/
def ofPunctuation (mark : String) : Opening :=
  match mark with
  | "\x7b" => .block
  | "(" => .expression
  | "[" => .expression
  | ";" => .empty
  | _ => .refused .unexpectedToken

/-- The statement that a token opens, given the token after it. -/
def of (labels : Bool) (token next : Token) : Opening :=
  match token.kind with
  | .lineComment | .blockComment => .comment
  | .identifier => if next.isPunctuation ":" then .labelled else .expression
  | .number | .string | .regex | .operator => .expression
  | .punctuation => ofPunctuation token.value
  | .keyword => ofKeyword labels token.value
  | .eof => .refused .unexpectedEnd

end Opening

def comment : Parse NodeId := do
  add (.leaf .comment (← advance))

def labelled (grammar : Grammar) : Parse NodeId := do
  let label ← advance
  let _ ← advance
  let statement ← grammar.statement false
  add (.labelled label statement)

def expressionStatement (grammar : Grammar) : Parse NodeId := do
  let value ← expression grammar true
  let semicolon ← endStatement grammar.semicolons
  add (.expression value semicolon)

def emptyStatement : Parse NodeId := do
  add (.expression none (some (← advance)))

/-- A jump may name a label.  Where semicolons are inserted the name has to stand
on the line of the keyword. -/
def jump (grammar : Grammar) (kind : Jump) : Parse NodeId := do
  let first ← advance
  let label ← accept? fun token =>
    token.kind == .identifier &&
      (!token.newlineBefore || grammar.semicolons == .required)
  let semicolon ← endStatement grammar.semicolons
  add (.jump kind first label semicolon)

def caseLabel (grammar : Grammar) : Parse NodeId := do
  let first ← advance
  let test ← grammar.expression true
  let last ← expectPunctuation ":"
  add (.caseLabel first test last)

def defaultLabel : Parse NodeId := do
  let first ← advance
  let last ← expectPunctuation ":"
  add (.defaultLabel first last)

def debugger (grammar : Grammar) : Parse NodeId := do
  let first ← advance
  let semicolon ← endStatement grammar.semicolons
  add (.debugger first semicolon)

def doWhile (grammar : Grammar) : Parse NodeId := do
  let first ← advance
  let body ← grammar.statement false
  let _ ← expectKeyword "while"
  let condition ← parenthesized grammar
  let semicolon ← endStatement grammar.semicolons
  add (.doWhile first body condition semicolon)

/-- The rest of a loop over the names in an object, from its variable on. -/
def forIn (grammar : Grammar) (first : Token) (varToken : Option Token) :
    Parse NodeId := do
  let name ← advance
  let _ ← advance
  let object ← grammar.expression true
  let _ ← expectPunctuation ")"
  let body ← grammar.statement false
  add (.forIn first varToken name object body)

/-- What a loop does before its first round: declare variables after `var`, and
evaluate an expression otherwise. -/
def loopInit (grammar : Grammar) (varToken : Option Token) :
    Parse (LoopInit NodeId) := do
  if varToken.isSome then
    return .declarations (← grammar.declarations)
  else
    return .expression (← grammar.expression true)

/-- The rest of a loop with three clauses, from the first clause on. -/
def forClauses (grammar : Grammar) (first : Token) (varToken : Option Token) :
    Parse NodeId := do
  let init ← readUnless (fun token => token.isPunctuation ";") (loopInit grammar varToken)
  let _ ← expectPunctuation ";"
  let test ← readUnless (fun token => token.isPunctuation ";") (grammar.expression true)
  let _ ← expectPunctuation ";"
  let step ← readUnless (fun token => token.isPunctuation ")") (grammar.expression true)
  let _ ← expectPunctuation ")"
  let body ← grammar.statement false
  add (.forLoop first varToken init test step body)

/-- An identifier directly before `in` makes a loop over the names in an
object. -/
def forLoop (grammar : Grammar) : Parse NodeId := do
  let first ← advance
  let _ ← expectPunctuation "("
  let varToken ← accept? fun token => token.isKeyword "var"
  if (← current).kind == .identifier && (← next).isOperator "in" then
    forIn grammar first varToken
  else
    forClauses grammar first varToken

def ifElse (grammar : Grammar) : Parse NodeId := do
  let first ← advance
  let condition ← parenthesized grammar
  let thenBranch ← grammar.statement false
  let elseBranch ←
    readAfter? (fun token => token.isKeyword "else") (grammar.statement false)
  add (.ifElse first condition thenBranch elseBranch)

/-- A value belongs to `return` only if it starts on the same line, where
semicolons are inserted. -/
def returns (grammar : Grammar) : Parse NodeId := do
  let first ← advance
  let cursor ← cursor
  if cursor.atSemicolon then
    let semicolon ← endStatement grammar.semicolons
    add (.returns first none semicolon)
  else if grammar.semicolons == .inserted && cursor.atLineEnd then
    add (.returns first none none)
  else
    let value ← grammar.expression true
    let semicolon ← endStatement grammar.semicolons
    add (.returns first value semicolon)

def switch (grammar : Grammar) : Parse NodeId := do
  let first ← advance
  let discriminant ← parenthesized grammar
  let _ ← expectPunctuation "\x7b"
  let cases ← grammar.statements .switch
  let last ← advance
  add (.switch first discriminant cases last)

def throws (grammar : Grammar) : Parse NodeId := do
  let first ← advance
  let value ← grammar.expression true
  let semicolon ← endStatement grammar.semicolons
  add (.throws first value semicolon)

/-- The name and the body of a handler. -/
def handler (grammar : Grammar) : Parse (Token × NodeId) := do
  let _ ← expectPunctuation "("
  let name ← expectIdentifier .expectedCatchName
  let _ ← expectPunctuation ")"
  let body ← grammar.statement false
  return (name, body)

def tryCatch (grammar : Grammar) : Parse NodeId := do
  let first ← advance
  let body ← grammar.statement false
  let handler ← readAfter? (fun token => token.isKeyword "catch") (handler grammar)
  let finalizer ←
    readAfter? (fun token => token.isKeyword "finally") (grammar.statement false)
  if handler.isNone && finalizer.isNone then
    refuse .expectedCatchOrFinally
  else
    add (.tryCatch first body handler finalizer)

/-- The name of a variable and its optional value. -/
def declaration (grammar : Grammar) : Parse NodeId := do
  let name ← expectIdentifier .expectedIdentifier
  let initializer ←
    readAfter? (fun token => token.isOperator "=") (grammar.expression false)
  add (.declaration name initializer)

/-- Declarations with commas between them. -/
def declarations (grammar : Grammar) : Parse (List NodeId) := do
  let _ ← eatComments
  let first ← declaration grammar
  if (← current).isPunctuation "," then
    let _ ← advance
    return first :: (← grammar.declarations)
  else
    return [first]

def varStatement (grammar : Grammar) : Parse NodeId := do
  let first ← advance
  let declarations ← grammar.declarations
  let semicolon ← endStatement grammar.semicolons
  add (.varStatement first declarations semicolon)

def whileLoop (grammar : Grammar) : Parse NodeId := do
  let first ← advance
  let condition ← parenthesized grammar
  let body ← grammar.statement false
  add (.whileLoop first condition body)

def withScope (grammar : Grammar) : Parse NodeId := do
  let first ← advance
  let object ← parenthesized grammar
  let body ← grammar.statement false
  add (.withScope first object body)

def statement (grammar : Grammar) (labels : Bool) : Parse NodeId := do
  match Opening.of labels (← current) (← next) with
  | .comment => comment
  | .labelled => labelled grammar
  | .expression => expressionStatement grammar
  | .block => block grammar
  | .empty => emptyStatement
  | .jump kind => jump grammar kind
  | .caseLabel => caseLabel grammar
  | .debugger => debugger grammar
  | .defaultLabel => defaultLabel
  | .doWhile => doWhile grammar
  | .forLoop => forLoop grammar
  | .function => function grammar .definition
  | .ifElse => ifElse grammar
  | .returns => returns grammar
  | .switch => switch grammar
  | .throws => throws grammar
  | .tryCatch => tryCatch grammar
  | .varStatement => varStatement grammar
  | .whileLoop => whileLoop grammar
  | .withScope => withScope grammar
  | .refused reason => refuse reason

/-- Statements up to the token that closes the enclosure. -/
def statements (grammar : Grammar) (enclosure : Enclosure) : Parse (List NodeId) := do
  if enclosure.closedBy (← current) then
    return []
  else
    let first ← statement grammar enclosure.admitsLabels
    return first :: (← grammar.statements enclosure)

/-- All statements up to the end of the input, under one root. -/
def program (grammar : Grammar) : Parse NodeId := do
  let body ← statements grammar .program
  add (.root body (← current))

end ScriptSyntax.Production

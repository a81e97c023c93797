import ScriptSyntax.Diagnostic.Basic
import ScriptSyntax.Parse.Cursor
import ScriptSyntax.Tree.Draft

/-!
# Sessions

A session is a cursor over the tokens and the tree made so far.  A reader acts
on a session and gives a result or a diagnostic; what it passed and what it made
before a failure stays.
-/

namespace ScriptSyntax

/-- A cursor over the tokens and the tree made so far. -/
structure Session where
  cursor : Cursor
  tree : Tree
  deriving DecidableEq

/-- The session before the first token, with an empty tree. -/
def Session.start (tokens : List Token) : Session :=
  ⟨.ofTokens tokens, .empty⟩

/-- What reads a construct in a session. -/
abbrev Parse := EStateM Diagnostic Session

namespace Parse

/-- The cursor of the session. -/
def cursor : Parse Cursor := do
  return (← get).cursor

/-- The token under the cursor. -/
def current : Parse Token := do
  return (← cursor).current

/-- The token after the one under the cursor. -/
def next : Parse Token := do
  return (← cursor).next

/-- Moves the cursor. -/
def move (step : Cursor → Cursor) : Parse Unit :=
  modify fun session => { session with cursor := step session.cursor }

/-- Passes the token under the cursor. -/
def advance : Parse Token := do
  let token ← current
  move Cursor.advance
  return token

/-- Fails at the token under the cursor. -/
def refuse {Result : Type} (reason : Reason) : Parse Result := do
  throw ((← current).unexpected reason)

/-- Passes a token that satisfies a test, or fails. -/
def expect (test : Token → Bool) (reason : Reason) : Parse Token := do
  if test (← current) then advance else refuse reason

def expectPunctuation (mark : String) : Parse Token :=
  expect (fun token => token.isPunctuation mark) (.expected mark)

def expectKeyword (word : String) : Parse Token :=
  expect (fun token => token.isKeyword word) (.expectedKeyword word)

def expectIdentifier (reason : Reason) : Parse Token :=
  expect (fun token => token.kind == .identifier) reason

/-- Passes a token that satisfies a test, if it is under the cursor. -/
def accept? (test : Token → Bool) : Parse (Option Token) := do
  if test (← current) then return some (← advance) else return none

/-- Passes the comments at the cursor and gives the last of them. -/
def eatComments : Parse (Option Token) := do
  let comment := (← cursor).comment?
  move Cursor.skipComments
  return comment

/-- Adds a node to the tree. -/
def add (draft : Draft) : Parse NodeId :=
  modifyGet fun session =>
    let (id, tree) := session.tree.add draft
    (id, { session with tree })

/-- Looks up a node that has to be there. -/
def node (id : NodeId) : Parse Node := do
  match (← get).tree.get id with
  | .ok node => return node
  | .error unknown => refuse (.missingNode unknown.id)

/-- Reads a construct unless the token under the cursor satisfies a test. -/
def readUnless {Result : Type} (test : Token → Bool) (reader : Parse Result) :
    Parse (Option Result) := do
  if test (← current) then return none else return some (← reader)

/-- Reads a construct if the token under the cursor satisfies a test; that token
is passed first. -/
def readAfter? {Result : Type} (test : Token → Bool) (reader : Parse Result) :
    Parse (Option Result) := do
  if test (← current) then
    let _ ← advance
    return some (← reader)
  else
    return none

end Parse

/-- Whether a semicolon has to be written at the end of a statement, or is
supplied at the end of a line, before a closing brace and at the end of the
input. -/
inductive Semicolons
  | required
  | inserted
  deriving DecidableEq

namespace Parse

/-- Ends a statement and gives the semicolon that was written.  Block comments
before it on the same line are passed. -/
def endStatement (semicolons : Semicolons) : Parse (Option Token) := do
  let cursor ← cursor
  if cursor.atSemicolon then
    move Cursor.skipBlockComments
    return some (← advance)
  else
    match semicolons with
    | .required => return some (← expectPunctuation ";")
    | .inserted =>
        if cursor.atLineEnd then return none else refuse (.expected ";")

end Parse

end ScriptSyntax

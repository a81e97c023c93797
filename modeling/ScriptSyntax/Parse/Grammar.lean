import ScriptSyntax.Parse.Session
import ScriptSyntax.Token.Vocabulary

/-!
# Grammars

The productions of the language refer to each other in circles.  A grammar is a
table of readers for the constructs that a production may refer to; a production
is a reader over a grammar.  Each production passes at least one token before it
turns to the grammar, so a table that is unfolded once for each token, and once
more, never runs out.

Productions that read lists end with the rest of the list, which is a construct
of its own.
-/

namespace ScriptSyntax

/-- What encloses a list of statements. -/
inductive Enclosure
  | program
  | block
  | switch
  deriving DecidableEq

namespace Enclosure

/-- The token ends the list of statements. -/
def closedBy (enclosure : Enclosure) (token : Token) : Bool :=
  match enclosure with
  | .program => token.isEnd
  | .block | .switch => token.isPunctuation "\x7d"

/-- The list may hold the labels of a switch. -/
def admitsLabels : Enclosure → Bool
  | .switch => true
  | .program | .block => false

end Enclosure

/-- Readers for the constructs that productions refer to. -/
structure Grammar where
  /-- How statements end. -/
  semicolons : Semicolons
  /-- A statement; labels of a switch count as statements if admitted. -/
  statement (labels : Bool) : Parse NodeId
  /-- Statements up to the token that closes the enclosure. -/
  statements (enclosure : Enclosure) : Parse (List NodeId)
  /-- Names of parameters up to the closing parenthesis. -/
  parameters : Parse (List Token)
  /-- Declarations of variables, one or more. -/
  declarations : Parse (List NodeId)
  /-- An expression, in which commas join expressions if admitted. -/
  expression (commas : Bool) : Parse NodeId
  /-- An expression without commas outside of brackets. -/
  assignment : Parse NodeId
  /-- An operand with what follows it; calls belong to it if admitted. -/
  operand (calls : Bool) : Parse NodeId
  /-- Binary operations that bind tighter than a level, after their first
  operand. -/
  operations (left : NodeId) (floor : Token.Binding) : Parse NodeId
  /-- Members, subscripts, calls and operators after an operand. -/
  suffixes (target : NodeId) (calls : Bool) : Parse NodeId
  /-- Expressions up to the closing mark. -/
  items (closing : String) : Parse (List NodeId)
  /-- Properties up to the closing brace. -/
  properties : Parse (List NodeId)

/-- The grammar that reads nothing. -/
def Grammar.exhausted (semicolons : Semicolons) : Grammar where
  semicolons
  statement _ := Parse.refuse .outOfDepth
  statements _ := Parse.refuse .outOfDepth
  parameters := Parse.refuse .outOfDepth
  declarations := Parse.refuse .outOfDepth
  expression _ := Parse.refuse .outOfDepth
  assignment := Parse.refuse .outOfDepth
  operand _ := Parse.refuse .outOfDepth
  operations _ _ := Parse.refuse .outOfDepth
  suffixes _ _ := Parse.refuse .outOfDepth
  items _ := Parse.refuse .outOfDepth
  properties := Parse.refuse .outOfDepth

namespace Production

/-- Passes the comma after an item of a list, or stops at the closing mark. -/
def separator (closing : String) : Parse Unit := do
  let token ← Parse.current
  if token.isPunctuation "," then
    let _ ← Parse.advance
  else if !token.isPunctuation closing then
    Parse.refuse (.expected (", or " ++ closing))

end Production

end ScriptSyntax

import ScriptSyntax.Tree.Basic

/-!
# Drafts of nodes

A draft is a shape with the two pieces of source at its edges.  There is one way
to draft each construct, from the tokens and nodes it was read from: it reaches
from the first of them to the last, so an optional last piece is given by the
pieces that may come before it.
-/

namespace ScriptSyntax

/-- A piece of source at the edge of a construct: given outright, or covered by
a node. -/
inductive Edge
  | piece (span : Span)
  | node (id : NodeId)
  deriving DecidableEq

namespace Edge

def token (token : Token) : Edge :=
  .piece token.span

/-- The edge of something that stands nowhere. -/
def nowhere : Edge :=
  .piece .null

/-- The optional node, or else the other edge. -/
def nodeOr (id : Option NodeId) (other : Edge) : Edge :=
  (id.map Edge.node).getD other

/-- The optional token, or else the other edge. -/
def tokenOr (optional : Option Token) (other : Edge) : Edge :=
  (optional.map Edge.token).getD other

/-- The source of an edge in a tree. -/
def span (tree : Tree) : Edge → Span
  | .piece span => span
  | .node id => tree.span id

end Edge

/-- A node to be made: its shape and its edges. -/
structure Draft where
  shape : Shape NodeId
  first : Edge
  last : Edge
  deriving DecidableEq

/-- The source that the draft covers in a tree. -/
def Draft.span (draft : Draft) (tree : Tree) : Span :=
  .between (draft.first.span tree) (draft.last.span tree)

/-- Adds the drafted node to the tree. -/
def Tree.add (tree : Tree) (draft : Draft) : NodeId × Tree :=
  tree.insert draft.shape (draft.span tree)

namespace Draft

/-- A program covers its statements; an empty one stands at the end token. -/
def root (statements : List NodeId) (endToken : Token) : Draft :=
  ⟨.root statements, .nodeOr statements.head? (.token endToken),
    .nodeOr statements.getLast? (.token endToken)⟩

def block (first : Token) (statements : List NodeId) (last : Token) : Draft :=
  ⟨.block statements, .token first, .token last⟩

def leaf (kind : Leaf) (token : Token) : Draft :=
  ⟨.leaf kind token, .token token, .token token⟩

def labelled (label : Token) (statement : NodeId) : Draft :=
  ⟨.labelled label statement, .token label, .node statement⟩

def debugger (first : Token) (semicolon : Option Token) : Draft :=
  ⟨.debugger, .token first, .tokenOr semicolon (.token first)⟩

def doWhile (first : Token) (body condition : NodeId) (semicolon : Option Token) :
    Draft :=
  ⟨.doWhile body condition, .token first, .tokenOr semicolon (.node condition)⟩

def returns (first : Token) (value : Option NodeId) (semicolon : Option Token) :
    Draft :=
  ⟨.returns value, .token first, .tokenOr semicolon (.nodeOr value (.token first))⟩

def throws (first : Token) (value : NodeId) (semicolon : Option Token) : Draft :=
  ⟨.throws value, .token first, .tokenOr semicolon (.node value)⟩

def varStatement (first : Token) (declarations : List NodeId)
    (semicolon : Option Token) : Draft :=
  ⟨.varStatement declarations, .token first,
    .tokenOr semicolon (.nodeOr declarations.getLast? (.token first))⟩

def declaration (name : Token) (initializer : Option NodeId) : Draft :=
  ⟨.declaration name initializer, .token name, .nodeOr initializer (.token name)⟩

def whileLoop (first : Token) (condition body : NodeId) : Draft :=
  ⟨.whileLoop condition body, .token first, .node body⟩

def withScope (first : Token) (object body : NodeId) : Draft :=
  ⟨.withScope object body, .token first, .node body⟩

/-- An expression, a lone semicolon, or both; with neither it stands nowhere. -/
def expression (value : Option NodeId) (semicolon : Option Token) : Draft :=
  ⟨.expression value, .nodeOr value (.tokenOr semicolon .nowhere),
    .tokenOr semicolon (.nodeOr value .nowhere)⟩

def jump (kind : Jump) (first : Token) (label semicolon : Option Token) : Draft :=
  ⟨.jump kind label, .token first,
    .tokenOr semicolon (.tokenOr label (.token first))⟩

def forIn (first : Token) (varToken : Option Token) (name : Token)
    (object body : NodeId) : Draft :=
  ⟨.forIn varToken name object body, .token first, .node body⟩

def forLoop (first : Token) (varToken : Option Token)
    (init : Option (LoopInit NodeId)) (test step : Option NodeId) (body : NodeId) :
    Draft :=
  ⟨.forLoop varToken init test step body, .token first, .node body⟩

def function (role : FunctionRole) (first : Token) (name : Option Token)
    (parameters : List Token) (body : NodeId) : Draft :=
  ⟨.function role name parameters body, .token first, .node body⟩

def ifElse (first : Token) (condition thenBranch : NodeId)
    (elseBranch : Option NodeId) : Draft :=
  ⟨.ifElse condition thenBranch elseBranch, .token first,
    .nodeOr elseBranch (.node thenBranch)⟩

def switch (first : Token) (discriminant : NodeId) (cases : List NodeId)
    (last : Token) : Draft :=
  ⟨.switch discriminant cases, .token first, .token last⟩

def caseLabel (first : Token) (test : NodeId) (last : Token) : Draft :=
  ⟨.caseLabel test, .token first, .token last⟩

def defaultLabel (first last : Token) : Draft :=
  ⟨.defaultLabel, .token first, .token last⟩

def tryCatch (first : Token) (body : NodeId) (handler : Option (Token × NodeId))
    (finalizer : Option NodeId) : Draft :=
  ⟨.tryCatch body handler finalizer, .token first,
    .nodeOr finalizer (.nodeOr (handler.map Prod.snd) (.node body))⟩

def parenthesized (first : Token) (expression : NodeId) (last : Token) : Draft :=
  ⟨.parenthesized expression, .token first, .token last⟩

def conditional (test consequent alternate : NodeId) : Draft :=
  ⟨.conditional test consequent alternate, .node test, .node alternate⟩

def newObject (first : Token) (callee : NodeId) (arguments : Option NodeId) : Draft :=
  ⟨.newObject callee arguments, .token first, .nodeOr arguments (.node callee)⟩

def unaryBefore (operator : Token) (operand : NodeId) : Draft :=
  ⟨.unary .before operator operand, .token operator, .node operand⟩

def unaryAfter (operand : NodeId) (operator : Token) : Draft :=
  ⟨.unary .after operator operand, .node operand, .token operator⟩

def binary (left : NodeId) (operator : Token) (right : NodeId) : Draft :=
  ⟨.binary left operator right, .node left, .node right⟩

def exprList (first : Token) (expressions : List NodeId) (last : Token) : Draft :=
  ⟨.exprList expressions, .token first, .token last⟩

def application (callee : NodeId) (arguments : List NodeId) (last : Token) : Draft :=
  ⟨.application callee arguments, .node callee, .token last⟩

def subscript (object index : NodeId) (last : Token) : Draft :=
  ⟨.subscript object index, .node object, .token last⟩

def array (first : Token) (elements : List NodeId) (last : Token) : Draft :=
  ⟨.array elements, .token first, .token last⟩

def object (first : Token) (comment : Option Token) (properties : List NodeId)
    (last : Token) : Draft :=
  ⟨.object comment properties, .token first, .token last⟩

def property (name : Token) (value : NodeId) : Draft :=
  ⟨.property name value, .token name, .node value⟩

end Draft

end ScriptSyntax

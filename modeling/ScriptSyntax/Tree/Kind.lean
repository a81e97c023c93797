import ScriptSyntax.Tree.Shape

/-!
# Kinds of nodes

The kind of a node is its shape without tokens and references.  Walks choose
what to do by kind, and reports name nodes by it.
-/

namespace ScriptSyntax

/-- The forty kinds of nodes. -/
inductive NodeKind
  | root
  | block
  | comment
  | labelled
  | debugger
  | doWhile
  | returns
  | throws
  | varStatement
  | whileLoop
  | withScope
  | expression
  | breaks
  | continues
  | forIn
  | forLoop
  | functionDefinition
  | ifElse
  | switch
  | caseLabel
  | defaultLabel
  | tryCatch
  | parenthesized
  | conditional
  | newObject
  | unaryBefore
  | unaryAfter
  | binary
  | exprList
  | application
  | subscript
  | array
  | object
  | functionLiteral
  | name
  | number
  | string
  | regex
  | declaration
  | property
  deriving DecidableEq

namespace NodeKind

/-- All kinds, in the order in which reports list them. -/
def all : List NodeKind :=
  [.root, .block, .comment, .labelled, .debugger, .doWhile, .returns, .throws,
    .varStatement, .whileLoop, .withScope, .expression, .breaks, .continues, .forIn,
    .forLoop, .functionDefinition, .ifElse, .switch, .caseLabel, .defaultLabel,
    .tryCatch, .parenthesized, .conditional, .newObject, .unaryBefore, .unaryAfter,
    .binary, .exprList, .application, .subscript, .array, .object, .functionLiteral,
    .name, .number, .string, .regex, .declaration, .property]

/-- The name of a kind in reports. -/
def text : NodeKind → String
  | .root => "Root"
  | .block => "Block"
  | .comment => "Comment"
  | .labelled => "Label"
  | .debugger => "Debugger"
  | .doWhile => "Do"
  | .returns => "Return"
  | .throws => "Throw"
  | .varStatement => "Var"
  | .whileLoop => "While"
  | .withScope => "With"
  | .expression => "ExpressionStatement"
  | .breaks => "Break"
  | .continues => "Continue"
  | .forIn => "ForIn"
  | .forLoop => "For"
  | .functionDefinition => "FunctionDef"
  | .ifElse => "If"
  | .switch => "Switch"
  | .caseLabel => "Case"
  | .defaultLabel => "Default"
  | .tryCatch => "Try"
  | .parenthesized => "Parenthesized"
  | .conditional => "Conditional"
  | .newObject => "New"
  | .unaryBefore => "UnaryPrefix"
  | .unaryAfter => "UnaryPostfix"
  | .binary => "BinaryOp"
  | .exprList => "ExprList"
  | .application => "Application"
  | .subscript => "Subscript"
  | .array => "Array"
  | .object => "Object"
  | .functionLiteral => "FunctionLiteral"
  | .name => "Name"
  | .number => "Number"
  | .string => "String"
  | .regex => "RegEx"
  | .declaration => "LexicalVariable"
  | .property => "Property"

end NodeKind

/-- The kind of a leaf. -/
def Leaf.nodeKind : Leaf → NodeKind
  | .comment => .comment
  | .name => .name
  | .number => .number
  | .string => .string
  | .regex => .regex

/-- The kind of a shape. -/
def Shape.kind {Ref : Type} : Shape Ref → NodeKind
  | .root _ => .root
  | .block _ => .block
  | .leaf kind _ => kind.nodeKind
  | .labelled _ _ => .labelled
  | .debugger => .debugger
  | .doWhile _ _ => .doWhile
  | .returns _ => .returns
  | .throws _ => .throws
  | .varStatement _ => .varStatement
  | .whileLoop _ _ => .whileLoop
  | .withScope _ _ => .withScope
  | .expression _ => .expression
  | .jump .breaks _ => .breaks
  | .jump .continues _ => .continues
  | .forIn _ _ _ _ => .forIn
  | .forLoop _ _ _ _ _ => .forLoop
  | .function .definition _ _ _ => .functionDefinition
  | .function .literal _ _ _ => .functionLiteral
  | .ifElse _ _ _ => .ifElse
  | .switch _ _ => .switch
  | .caseLabel _ => .caseLabel
  | .defaultLabel => .defaultLabel
  | .tryCatch _ _ _ => .tryCatch
  | .parenthesized _ => .parenthesized
  | .conditional _ _ _ => .conditional
  | .newObject _ _ => .newObject
  | .unary .before _ _ => .unaryBefore
  | .unary .after _ _ => .unaryAfter
  | .binary _ _ _ => .binary
  | .exprList _ => .exprList
  | .application _ _ => .application
  | .subscript _ _ => .subscript
  | .array _ => .array
  | .object _ _ => .object
  | .declaration _ _ => .declaration
  | .property _ _ => .property

end ScriptSyntax

import ScriptSyntax.Token.Vocabulary

/-!
# Shapes of nodes

A shape says what a node is and which nodes stand below it.  It is polymorphic
in the references to those nodes, so that the references can be listed, replaced
and renumbered without a word about the tokens beside them.  The slots of a
shape are its references in source order.
-/

namespace ScriptSyntax

/-- Shapes that hold a token and nothing else. -/
inductive Leaf
  | comment
  | name
  | number
  | string
  | regex
  deriving DecidableEq

/-- Statements that leave or restart an enclosing statement. -/
inductive Jump
  | breaks
  | continues
  deriving DecidableEq

/-- The side of its operand on which a unary operator stands. -/
inductive Side
  | before
  | after
  deriving DecidableEq

/-- Functions are statements or values. -/
inductive FunctionRole
  | definition
  | literal
  deriving DecidableEq

/-- What a loop does before its first round. -/
inductive LoopInit (Ref : Type)
  | declarations (entries : List Ref)
  | expression (value : Ref)
  deriving DecidableEq

/-- What a node is, with references to the nodes below it. -/
inductive Shape (Ref : Type)
  | root (statements : List Ref)
  | block (statements : List Ref)
  | leaf (kind : Leaf) (token : Token)
  | labelled (label : Token) (statement : Ref)
  | debugger
  | doWhile (body condition : Ref)
  | returns (value : Option Ref)
  | throws (value : Ref)
  | varStatement (declarations : List Ref)
  | whileLoop (condition body : Ref)
  | withScope (object body : Ref)
  | expression (value : Option Ref)
  | jump (kind : Jump) (label : Option Token)
  | forIn (varToken : Option Token) (name : Token) (object body : Ref)
  | forLoop (varToken : Option Token) (init : Option (LoopInit Ref))
      (test step : Option Ref) (body : Ref)
  | function (role : FunctionRole) (name : Option Token) (parameters : List Token)
      (body : Ref)
  | ifElse (condition thenBranch : Ref) (elseBranch : Option Ref)
  | switch (discriminant : Ref) (cases : List Ref)
  | caseLabel (test : Ref)
  | defaultLabel
  | tryCatch (body : Ref) (handler : Option (Token × Ref)) (finalizer : Option Ref)
  | parenthesized (expression : Ref)
  | conditional (test consequent alternate : Ref)
  | newObject (callee : Ref) (arguments : Option Ref)
  | unary (side : Side) (operator : Token) (operand : Ref)
  | binary (left : Ref) (operator : Token) (right : Ref)
  | exprList (expressions : List Ref)
  | application (callee : Ref) (arguments : List Ref)
  | subscript (object index : Ref)
  | array (elements : List Ref)
  | object (comment : Option Token) (properties : List Ref)
  | declaration (name : Token) (initializer : Option Ref)
  | property (name : Token) (value : Ref)
  deriving DecidableEq

variable {Ref Other : Type}

/-- References of the start of a loop. -/
def LoopInit.children : LoopInit Ref → List Ref
  | .declarations entries => entries
  | .expression value => [value]

/-- Replaces the references of the start of a loop, given their positions. -/
def LoopInit.mapIdx (f : Nat → Ref → Other) : LoopInit Ref → LoopInit Other
  | .declarations entries => .declarations (entries.mapIdx f)
  | .expression value => .expression (f 0 value)

@[simp]
theorem LoopInit.children_mapIdx (f : Nat → Ref → Other) (init : LoopInit Ref) :
    (init.mapIdx f).children = init.children.mapIdx f := by
  cases init <;> simp [children, mapIdx]

namespace Shape

/-- References of an optional start of a loop. -/
def initChildren (init : Option (LoopInit Ref)) : List Ref :=
  (init.map LoopInit.children).getD []

/-- The slots of a shape: the references to the nodes below it, in source
order. -/
def children : Shape Ref → List Ref
  | .root statements => statements
  | .block statements => statements
  | .leaf _ _ => []
  | .labelled _ statement => [statement]
  | .debugger => []
  | .doWhile body condition => [body, condition]
  | .returns value => value.toList
  | .throws value => [value]
  | .varStatement declarations => declarations
  | .whileLoop condition body => [condition, body]
  | .withScope scope body => [scope, body]
  | .expression value => value.toList
  | .jump _ _ => []
  | .forIn _ _ source body => [source, body]
  | .forLoop _ init test step body =>
      initChildren init ++ test.toList ++ step.toList ++ [body]
  | .function _ _ _ body => [body]
  | .ifElse condition thenBranch elseBranch =>
      condition :: thenBranch :: elseBranch.toList
  | .switch discriminant cases => discriminant :: cases
  | .caseLabel test => [test]
  | .defaultLabel => []
  | .tryCatch body handler finalizer =>
      body :: ((handler.map Prod.snd).toList ++ finalizer.toList)
  | .parenthesized inner => [inner]
  | .conditional test consequent alternate => [test, consequent, alternate]
  | .newObject callee arguments => callee :: arguments.toList
  | .unary _ _ operand => [operand]
  | .binary left _ right => [left, right]
  | .exprList expressions => expressions
  | .application callee arguments => callee :: arguments
  | .subscript target index => [target, index]
  | .array elements => elements
  | .object _ properties => properties
  | .declaration _ initializer => initializer.toList
  | .property _ value => [value]

/-- Replaces every reference, given the position of its slot. -/
def mapIdx (f : Nat → Ref → Other) : Shape Ref → Shape Other
  | .root statements => .root (statements.mapIdx f)
  | .block statements => .block (statements.mapIdx f)
  | .leaf kind token => .leaf kind token
  | .labelled label statement => .labelled label (f 0 statement)
  | .debugger => .debugger
  | .doWhile body condition => .doWhile (f 0 body) (f 1 condition)
  | .returns value => .returns (value.map (f 0))
  | .throws value => .throws (f 0 value)
  | .varStatement declarations => .varStatement (declarations.mapIdx f)
  | .whileLoop condition body => .whileLoop (f 0 condition) (f 1 body)
  | .withScope scope body => .withScope (f 0 scope) (f 1 body)
  | .expression value => .expression (value.map (f 0))
  | .jump kind label => .jump kind label
  | .forIn varToken name source body =>
      .forIn varToken name (f 0 source) (f 1 body)
  | .forLoop varToken init test step body =>
      let testSlot := (initChildren init).length
      let stepSlot := testSlot + test.toList.length
      let bodySlot := stepSlot + step.toList.length
      .forLoop varToken (init.map (LoopInit.mapIdx f)) (test.map (f testSlot))
        (step.map (f stepSlot)) (f bodySlot body)
  | .function role name parameters body => .function role name parameters (f 0 body)
  | .ifElse condition thenBranch elseBranch =>
      .ifElse (f 0 condition) (f 1 thenBranch) (elseBranch.map (f 2))
  | .switch discriminant cases =>
      .switch (f 0 discriminant) (cases.mapIdx fun slot => f (slot + 1))
  | .caseLabel test => .caseLabel (f 0 test)
  | .defaultLabel => .defaultLabel
  | .tryCatch body handler finalizer =>
      .tryCatch (f 0 body) (handler.map fun clause => (clause.1, f 1 clause.2))
        (finalizer.map (f (1 + handler.toList.length)))
  | .parenthesized inner => .parenthesized (f 0 inner)
  | .conditional test consequent alternate =>
      .conditional (f 0 test) (f 1 consequent) (f 2 alternate)
  | .newObject callee arguments => .newObject (f 0 callee) (arguments.map (f 1))
  | .unary side operator operand => .unary side operator (f 0 operand)
  | .binary left operator right => .binary (f 0 left) operator (f 1 right)
  | .exprList expressions => .exprList (expressions.mapIdx f)
  | .application callee arguments =>
      .application (f 0 callee) (arguments.mapIdx fun slot => f (slot + 1))
  | .subscript target index => .subscript (f 0 target) (f 1 index)
  | .array elements => .array (elements.mapIdx f)
  | .object comment properties => .object comment (properties.mapIdx f)
  | .declaration name initializer => .declaration name (initializer.map (f 0))
  | .property name value => .property name (f 0 value)

@[simp]
theorem initChildren_map (f : Nat → Ref → Other) (init : Option (LoopInit Ref)) :
    initChildren (init.map (LoopInit.mapIdx f)) = (initChildren init).mapIdx f := by
  cases init <;> simp [initChildren]

/-- Replacing the references of a shape replaces those in its slots. -/
@[simp]
theorem children_mapIdx (f : Nat → Ref → Other) (shape : Shape Ref) :
    (shape.mapIdx f).children = shape.children.mapIdx f := by
  cases shape with
  | returns value => cases value <;> rfl
  | expression value => cases value <;> rfl
  | forLoop varToken init test step body =>
      cases test <;> cases step <;>
        simp [children, mapIdx, List.mapIdx_append, Nat.add_comm 1, Nat.add_assoc]
  | ifElse condition thenBranch elseBranch => cases elseBranch <;> rfl
  | switch discriminant cases => simp [children, mapIdx, List.mapIdx_cons]
  | tryCatch body handler finalizer => cases handler <;> cases finalizer <;> rfl
  | newObject callee arguments => cases arguments <;> rfl
  | application callee arguments => simp [children, mapIdx, List.mapIdx_cons]
  | declaration name initializer => cases initializer <;> rfl
  | _ => rfl

/-- Replaces every reference. -/
def map (f : Ref → Other) (shape : Shape Ref) : Shape Other :=
  shape.mapIdx fun _ => f

/-- Writes a reference into one slot. -/
def setChild (shape : Shape Ref) (slot : Nat) (child : Ref) : Shape Ref :=
  shape.mapIdx fun index current => if index = slot then child else current

/-- The shape is that of a whole program. -/
def isRoot : Shape Ref → Bool
  | .root _ => true
  | _ => false

/-- The access of a member is a binary operation with a dot. -/
def isMemberAccess : Shape Ref → Bool
  | .binary _ operator _ => operator.isPunctuation "."
  | _ => false

/-- The shape names a place that a value can be stored in. -/
def isAssignable : Shape Ref → Bool
  | .leaf .name _ => true
  | .subscript _ _ => true
  | shape => shape.isMemberAccess

end Shape

end ScriptSyntax

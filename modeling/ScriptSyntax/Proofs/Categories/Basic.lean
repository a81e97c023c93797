import ScriptSyntax.Tree.Kind

/-!
# Categories of nodes

References carry no types, so nothing but the productions keeps a statement from
standing where an expression belongs.  Each slot of a shape demands a category of
nodes.  The categories of expressions are those of the levels of the grammar, from
whole expressions down to what a suffix may follow.
-/

namespace ScriptSyntax

namespace NodeKind

/-- The kinds of statements.  The labels of a switch are none. -/
def isStatement : NodeKind → Bool
  | .block | .comment | .labelled | .debugger | .doWhile | .returns | .throws
  | .varStatement | .whileLoop | .withScope | .expression | .breaks | .continues
  | .forIn | .forLoop | .functionDefinition | .ifElse | .switch | .tryCatch => true
  | _ => false

/-- The labels of a switch. -/
def isLabel : NodeKind → Bool
  | .caseLabel | .defaultLabel => true
  | _ => false

/-- The kinds of expressions.  A list of arguments is none. -/
def isExpression : NodeKind → Bool
  | .parenthesized | .conditional | .newObject | .unaryBefore | .unaryAfter | .binary
  | .application | .subscript | .array | .object | .functionLiteral | .name | .number
  | .string | .regex => true
  | _ => false

end NodeKind

namespace Token

variable {token : Token}

theorem not_isPunctuation_of_isPunctuation {mark other : String}
    (htoken : token.isPunctuation mark = true) (hother : mark ≠ other) :
    token.isPunctuation other = false := by
  simp only [isPunctuation, is, Bool.and_eq_true, beq_iff_eq] at htoken
  simp [isPunctuation, is, htoken.2, hother]

/-- Only operators bind. -/
theorem kind_of_lt_binding {level : Binding} (htoken : level < token.binding) :
    token.kind = .operator := by
  unfold binding at htoken
  split at htoken
  · assumption
  · exact absurd htoken (Nat.not_lt_zero level.rank)

theorem not_isPunctuation_of_lt_binding {level : Binding} (htoken : level < token.binding)
    (mark : String) : token.isPunctuation mark = false := by
  simp [isPunctuation, is, kind_of_lt_binding htoken]

theorem not_isPunctuation_of_isAssignment (htoken : token.isAssignment = true)
    (mark : String) : token.isPunctuation mark = false := by
  simp only [isAssignment, Bool.and_eq_true, beq_iff_eq] at htoken
  simp [isPunctuation, is, htoken.1]

/-- Assignments do not bind their operands by level. -/
theorem not_isAssignment_of_lt_binding {level : Binding} (htoken : level < token.binding) :
    token.isAssignment = false := by
  have hbinding : ∀ word ∈ assignmentOperators, Binding.ofOperator word = .lowest := by decide
  rw [← Bool.not_eq_true]
  intro hassignment
  simp only [isAssignment, Bool.and_eq_true, List.contains_iff_mem] at hassignment
  rw [binding, if_pos (kind_of_lt_binding htoken), hbinding _ hassignment.2] at htoken
  exact Nat.not_lt_zero level.rank htoken

end Token

namespace Shape

variable {Ref : Type}

/-- Two expressions with a comma between them. -/
def isComma : Shape Ref → Bool
  | .binary _ operator _ => operator.isPunctuation ","
  | _ => false

def isAssignment : Shape Ref → Bool
  | .binary _ operator _ => operator.isAssignment
  | _ => false

def isUnary (shape : Shape Ref) : Bool :=
  shape.kind == .unaryBefore || shape.kind == .unaryAfter

/-- The operator of a binary operation has a property. -/
def operates (test : Token → Bool) : Shape Ref → Bool
  | .binary _ operator _ => test operator
  | _ => false

theorem exists_binary_of_operates {test : Token → Bool} {shape : Shape Ref}
    (hshape : shape.operates test = true) :
    ∃ left operator right, shape = .binary left operator right ∧ test operator = true := by
  cases shape with
  | binary left operator right => exact ⟨left, operator, right, rfl, hshape⟩
  | _ => cases hshape

/-- An expression that no operator looser than a unary one makes: neither a
conditional nor a binary operation other than the access of a member. -/
def isAtomic (shape : Shape Ref) : Bool :=
  shape.kind.isExpression && shape.kind != .conditional &&
    (shape.kind != .binary || shape.isMemberAccess)

end Shape

/-- What a slot may demand of a node. -/
inductive Category
  | statement
  /-- A statement or a label of a switch. -/
  | clause
  | block
  | declaration
  | property
  | arguments
  | parenthesized
  | expression
  /-- An expression without a comma outside of brackets. -/
  | item
  /-- Operations down to a level. -/
  | atLeast (level : Token.Binding)
  /-- Operations that bind tighter than a level. -/
  | above (level : Token.Binding)
  | atom
  /-- What a suffix may follow. -/
  | target
  | name
  /-- What a value can be stored in. -/
  | place
  deriving DecidableEq

namespace Category

variable {Ref : Type}

/-- The shape is of the category. -/
def admits : Category → Shape Ref → Bool
  | .statement, shape => shape.kind.isStatement
  | .clause, shape => shape.kind.isStatement || shape.kind.isLabel
  | .block, shape => shape.kind == .block
  | .declaration, shape => shape.kind == .declaration
  | .property, shape => shape.kind == .property
  | .arguments, shape => shape.kind == .exprList
  | .parenthesized, shape => shape.kind == .parenthesized
  | .expression, shape => shape.kind.isExpression
  | .item, shape => shape.kind.isExpression && !shape.isComma
  | .atLeast level, shape =>
      shape.isAtomic || shape.operates fun operator => level ≤ operator.binding
  | .above level, shape =>
      shape.isAtomic || shape.operates fun operator => level < operator.binding
  | .atom, shape => shape.isAtomic
  | .target, shape => shape.isAtomic && !shape.isUnary
  | .name, shape => shape.kind == .name
  | .place, shape => shape.isAssignable

/-- One demand for several references. -/
def each (category : Category) (refs : List Ref) : List (Ref × Category) :=
  refs.map (·, category)

@[simp]
theorem flatMap_singleton (category : Category) (refs : List Ref) :
    (refs.flatMap fun ref => [(ref, category)]) = category.each refs :=
  List.map_eq_flatMap.symm

/-- What an operator demands of its left operand. -/
def ofLeft (operator : Token) : Category :=
  if operator.isPunctuation "." then .target
  else if operator.isPunctuation "," then .item
  else if operator.isAssignment then .place
  else .atLeast operator.binding

/-- What an operator demands of its right operand. -/
def ofRight (operator : Token) : Category :=
  if operator.isPunctuation "." then .name
  else if operator.isPunctuation "," then .expression
  else if operator.isAssignment then .item
  else .above operator.binding

theorem operands_of_member {operator : Token} (hdot : operator.isPunctuation "." = true) :
    ofLeft operator = .target ∧ ofRight operator = .name := by
  simp [ofLeft, ofRight, hdot]

theorem operands_of_comma {operator : Token} (hcomma : operator.isPunctuation "," = true) :
    ofLeft operator = .item ∧ ofRight operator = .expression := by
  have hdot : operator.isPunctuation "." = false :=
    Token.not_isPunctuation_of_isPunctuation hcomma (by decide)
  simp [ofLeft, ofRight, hdot, hcomma]

theorem operands_of_assignment {operator : Token} (hassignment : operator.isAssignment = true) :
    ofLeft operator = .place ∧ ofRight operator = .item := by
  simp [ofLeft, ofRight, hassignment, Token.not_isPunctuation_of_isAssignment hassignment]

theorem operands_of_lt_binding {operator : Token} {level : Token.Binding}
    (hlevel : level < operator.binding) :
    ofLeft operator = .atLeast operator.binding ∧ ofRight operator = .above operator.binding := by
  simp [ofLeft, ofRight, Token.not_isPunctuation_of_lt_binding hlevel,
    Token.not_isAssignment_of_lt_binding hlevel]

/-! ## Categories within others -/

theorem statement_of_block (shape : Shape Ref) (hshape : block.admits shape = true) :
    statement.admits shape = true := by
  have hkind : shape.kind = .block := beq_iff_eq.mp hshape
  simp [admits, hkind, NodeKind.isStatement]

theorem clause_of_statement (shape : Shape Ref) (hshape : statement.admits shape = true) :
    clause.admits shape = true :=
  Bool.or_eq_true_iff.mpr (.inl hshape)

theorem expression_of_item (shape : Shape Ref) (hshape : item.admits shape = true) :
    expression.admits shape = true :=
  (Bool.and_eq_true_iff.mp hshape).1

theorem atom_of_target (shape : Shape Ref) (hshape : target.admits shape = true) :
    atom.admits shape = true :=
  (Bool.and_eq_true_iff.mp hshape).1

theorem target_of_parenthesized (shape : Shape Ref)
    (hshape : parenthesized.admits shape = true) : target.admits shape = true := by
  have hkind : shape.kind = .parenthesized := beq_iff_eq.mp hshape
  simp [admits, Shape.isAtomic, Shape.isUnary, hkind, NodeKind.isExpression]

theorem atLeast_of_atom (level : Token.Binding) (shape : Shape Ref)
    (hshape : atom.admits shape = true) : (atLeast level).admits shape = true :=
  Bool.or_eq_true_iff.mpr (.inl hshape)

theorem above_of_atom (level : Token.Binding) (shape : Shape Ref)
    (hshape : atom.admits shape = true) : (above level).admits shape = true :=
  Bool.or_eq_true_iff.mpr (.inl hshape)

theorem operates_mono {first second : Token → Bool} {shape : Shape Ref}
    (htest : ∀ operator, first operator = true → second operator = true)
    (hshape : shape.operates first = true) : shape.operates second = true := by
  obtain ⟨left, operator, right, rfl, hoperator⟩ := Shape.exists_binary_of_operates hshape
  exact htest operator hoperator

theorem atLeast_of_atLeast {level lower : Token.Binding} (hlower : lower ≤ level)
    (shape : Shape Ref) (hshape : (atLeast level).admits shape = true) :
    (atLeast lower).admits shape = true := by
  refine Bool.or_eq_true_iff.mpr ((Bool.or_eq_true_iff.mp hshape).imp_right ?_)
  apply operates_mono
  intro operator hoperator
  exact decide_eq_true (Nat.le_trans hlower (of_decide_eq_true hoperator))

theorem above_of_atLeast {level lower : Token.Binding} (hlower : lower < level)
    (shape : Shape Ref) (hshape : (atLeast level).admits shape = true) :
    (above lower).admits shape = true := by
  refine Bool.or_eq_true_iff.mpr ((Bool.or_eq_true_iff.mp hshape).imp_right ?_)
  apply operates_mono
  intro operator hoperator
  exact decide_eq_true (Nat.lt_of_lt_of_le hlower (of_decide_eq_true hoperator))

theorem item_of_atom (shape : Shape Ref) (hshape : atom.admits shape = true) :
    item.admits shape = true := by
  unfold admits Shape.isAtomic at hshape
  simp only [Bool.and_eq_true] at hshape
  refine Bool.and_eq_true_iff.mpr ⟨hshape.1.1, ?_⟩
  cases shape with
  | binary left operator right =>
      have hmember : operator.isPunctuation "." = true := hshape.2
      have hcomma : operator.isPunctuation "," = false :=
        Token.not_isPunctuation_of_isPunctuation hmember (by decide)
      simp [Shape.isComma, hcomma]
  | _ => rfl

theorem item_of_above (level : Token.Binding) (shape : Shape Ref)
    (hshape : (above level).admits shape = true) : item.admits shape = true := by
  rcases Bool.or_eq_true_iff.mp hshape with hatom | hoperates
  · exact item_of_atom shape hatom
  · obtain ⟨left, operator, right, rfl, hlevel⟩ := Shape.exists_binary_of_operates hoperates
    simp [admits, Shape.isComma, Shape.kind, NodeKind.isExpression,
      Token.not_isPunctuation_of_lt_binding (of_decide_eq_true hlevel)]

end Category

variable {Ref : Type}

def LoopInit.demands : LoopInit Ref → List (Ref × Category)
  | .declarations entries => Category.declaration.each entries
  | .expression value => [(value, .expression)]

namespace Shape

/-- The category that each slot demands, in the order of the slots. -/
def demands : Shape Ref → List (Ref × Category)
  | .root statements => Category.statement.each statements
  | .block statements => Category.statement.each statements
  | .leaf _ _ => []
  | .labelled _ statement => [(statement, .statement)]
  | .debugger => []
  | .doWhile body condition => [(body, .statement), (condition, .parenthesized)]
  | .returns value => Category.expression.each value.toList
  | .throws value => [(value, .expression)]
  | .varStatement declarations => Category.declaration.each declarations
  | .whileLoop condition body => [(condition, .parenthesized), (body, .statement)]
  | .withScope scope body => [(scope, .parenthesized), (body, .statement)]
  | .expression value => Category.expression.each value.toList
  | .jump _ _ => []
  | .forIn _ _ source body => [(source, .expression), (body, .statement)]
  | .forLoop _ init test step body =>
      init.toList.flatMap LoopInit.demands ++ Category.expression.each test.toList ++
        Category.expression.each step.toList ++ [(body, .statement)]
  | .function _ _ _ body => [(body, .block)]
  | .ifElse condition thenBranch elseBranch =>
      (condition, .parenthesized) :: (thenBranch, .statement) ::
        Category.statement.each elseBranch.toList
  | .switch discriminant cases =>
      (discriminant, .parenthesized) :: Category.clause.each cases
  | .caseLabel test => [(test, .expression)]
  | .defaultLabel => []
  | .tryCatch body handler finalizer =>
      (body, .statement) ::
        Category.statement.each ((handler.map Prod.snd).toList ++ finalizer.toList)
  | .parenthesized inner => [(inner, .expression)]
  | .conditional test consequent alternate =>
      [(test, .above .lowest), (consequent, .item), (alternate, .item)]
  | .newObject callee arguments =>
      (callee, .atom) :: Category.arguments.each arguments.toList
  | .unary .before _ operand => [(operand, .atom)]
  | .unary .after _ operand => [(operand, .target)]
  | .binary left operator right => [(left, .ofLeft operator), (right, .ofRight operator)]
  | .exprList expressions => Category.item.each expressions
  | .application callee arguments => (callee, .target) :: Category.item.each arguments
  | .subscript target index => [(target, .target), (index, .expression)]
  | .array elements => Category.item.each elements
  | .object _ properties => Category.property.each properties
  | .declaration _ initializer => Category.item.each initializer.toList
  | .property _ value => [(value, .item)]

/-- What a shape satisfies apart from its slots: declarations declare something, a
function that is a statement has a name, something follows a tried statement, and an
operator is one. -/
def isProper : Shape Ref → Bool
  | .varStatement declarations => !declarations.isEmpty
  | .function .definition name _ _ => name.isSome
  | .tryCatch _ handler finalizer => handler.isSome || finalizer.isSome
  | .binary _ operator _ =>
      operator.isPunctuation "." || operator.isPunctuation "," || operator.isAssignment ||
        decide (Token.Binding.lowest < operator.binding)
  | _ => true

/-- Every slot has its demand. -/
theorem map_fst_demands (shape : Shape Ref) :
    shape.demands.map Prod.fst = shape.children := by
  have heach : ∀ (category : Category) (refs : List Ref),
      (category.each refs).map Prod.fst = refs := by
    intro category refs
    rw [Category.each, List.map_map]
    exact List.map_id refs
  cases shape with
  | forLoop varToken init test step body =>
      cases init with
      | none => simp [demands, children, initChildren, heach]
      | some init =>
          cases init <;>
            simp [demands, children, initChildren, LoopInit.demands, LoopInit.children, heach]
  | unary side operator operand => cases side <;> rfl
  | _ => simp [demands, children, heach]

end Shape

end ScriptSyntax

import ScriptSyntax.Proofs.Categories.Statement

/-!
# Levels of expressions

One shape serves the access of members, the operations of all levels, assignments and
commas, so the level of an expression is to be read off its operator.  In the tree of a
program every operand is of the level that its operator leaves to it: no parentheses are
missing around any of them.
-/

namespace ScriptSyntax

namespace Shape

variable {Ref : Type}

/-- A binary operation whose operator binds at least as tight as a level. -/
def BindsAtLeast (level : Token.Binding) (shape : Shape Ref) : Prop :=
  ∃ left operator right, shape = .binary left operator right ∧ level ≤ operator.binding

/-- A binary operation whose operator binds tighter than a level. -/
def BindsAbove (level : Token.Binding) (shape : Shape Ref) : Prop :=
  ∃ left operator right, shape = .binary left operator right ∧ level < operator.binding

/-- Neither a comma nor an assignment nor a conditional. -/
def isTight (shape : Shape Ref) : Bool :=
  !shape.isComma && !shape.isAssignment && shape.kind != .conditional

/-- The slots of arguments, of elements, and of the values of properties and
variables. -/
def itemSlots : Shape Ref → List Ref
  | .exprList expressions => expressions
  | .application _ arguments => arguments
  | .array elements => elements
  | .declaration _ initializer => initializer.toList
  | .property _ value => [value]
  | _ => []

/-- The slots before a suffix: what a member or an element is taken from, what is
called, and what an operator stands after. -/
def targetSlots : Shape Ref → List Ref
  | .unary .after _ operand => [operand]
  | .binary left operator _ => if operator.isPunctuation "." then [left] else []
  | .application callee _ => [callee]
  | .subscript target _ => [target]
  | _ => []

end Shape

namespace Tree

/-- The number is that of a node whose shape has a property. -/
def Shaped (tree : Tree) (id : Nat) (property : Shape NodeId → Prop) : Prop :=
  ∃ shape, tree.shape? id = some shape ∧ property shape

/-- Every operand is of a level that its operator leaves to it. -/
structure WellLevelled (tree : Tree) : Prop where
  operators : ∀ id left operator right, tree.shape? id = some (.binary left operator right) →
    operator.isPunctuation "." = true ∨ operator.isPunctuation "," = true ∨
      operator.isAssignment = true ∨ Token.Binding.lowest < operator.binding
  operations : ∀ id left operator right, tree.shape? id = some (.binary left operator right) →
    Token.Binding.lowest < operator.binding →
      (tree.Shaped left fun shape =>
        shape.isAtomic = true ∨ shape.BindsAtLeast operator.binding) ∧
      (tree.Shaped right fun shape =>
        shape.isAtomic = true ∨ shape.BindsAbove operator.binding) ∧
      (tree.Shaped left fun shape => shape.isTight = true) ∧
      tree.Shaped right fun shape => shape.isTight = true
  assignments : ∀ id left operator right, tree.shape? id = some (.binary left operator right) →
    operator.isAssignment = true →
      (tree.Shaped left fun shape => shape.isAssignable = true) ∧
      tree.Shaped right fun shape => shape.isComma = false
  conditionals : ∀ id test consequent alternate,
    tree.shape? id = some (.conditional test consequent alternate) →
      (tree.Shaped test fun shape => shape.isTight = true) ∧
      (tree.Shaped consequent fun shape => shape.isComma = false) ∧
      tree.Shaped alternate fun shape => shape.isComma = false
  commas : ∀ id left operator right, tree.shape? id = some (.binary left operator right) →
    operator.isPunctuation "," = true → tree.Shaped left fun shape => shape.isComma = false
  items : ∀ id shape, tree.shape? id = some shape → ∀ ref ∈ shape.itemSlots,
    tree.Shaped ref fun below => below.isComma = false
  operands : ∀ id operator operand, tree.shape? id = some (.unary .before operator operand) →
    tree.Shaped operand fun shape => shape.isAtomic = true
  targets : ∀ id shape, tree.shape? id = some shape → ∀ ref ∈ shape.targetSlots,
    tree.Shaped ref fun below => below.isAtomic = true ∧ below.isUnary = false

end Tree

/-! ## What categories say of levels -/

namespace Category

variable {Ref : Type} {shape : Shape Ref}

theorem bindsAtLeast_of_atLeast {level : Token.Binding}
    (hshape : (atLeast level).admits shape = true) :
    shape.isAtomic = true ∨ shape.BindsAtLeast level := by
  refine (Bool.or_eq_true_iff.mp hshape).imp_right fun hoperates => ?_
  obtain ⟨left, operator, right, rfl, hoperator⟩ := Shape.exists_binary_of_operates hoperates
  exact ⟨left, operator, right, rfl, of_decide_eq_true hoperator⟩

theorem bindsAbove_of_above {level : Token.Binding}
    (hshape : (above level).admits shape = true) :
    shape.isAtomic = true ∨ shape.BindsAbove level := by
  refine (Bool.or_eq_true_iff.mp hshape).imp_right fun hoperates => ?_
  obtain ⟨left, operator, right, rfl, hoperator⟩ := Shape.exists_binary_of_operates hoperates
  exact ⟨left, operator, right, rfl, of_decide_eq_true hoperator⟩

theorem isTight_of_above {level : Token.Binding} (hshape : (above level).admits shape = true) :
    shape.isTight = true := by
  have hcomma : shape.isComma = false := by
    simpa using (Bool.and_eq_true_iff.mp (item_of_above level shape hshape)).2
  rcases bindsAbove_of_above hshape with hatomic | ⟨left, operator, right, rfl, hlevel⟩
  · simp only [Shape.isAtomic, Bool.and_eq_true, bne_iff_ne] at hatomic
    have hassignment : shape.isAssignment = false := by
      cases shape with
      | binary left operator right =>
          have hdot : operator.isPunctuation "." = true := by
            simpa [Shape.kind, Shape.isMemberAccess] using hatomic.2
          rw [← Bool.not_eq_true]
          intro hassignment
          rw [Token.not_isPunctuation_of_isAssignment hassignment] at hdot
          cases hdot
      | _ => rfl
    simp [Shape.isTight, hcomma, hassignment, hatomic.1.2]
  · simp [Shape.isTight, hcomma, Shape.isAssignment, Shape.kind,
      Token.not_isAssignment_of_lt_binding hlevel]

theorem not_isComma_of_item (hshape : item.admits shape = true) : shape.isComma = false := by
  simpa using (Bool.and_eq_true_iff.mp hshape).2

end Category

namespace Shape

variable {Ref : Type} {shape : Shape Ref} {ref : Ref}

theorem item_mem_demands (href : ref ∈ shape.itemSlots) : (ref, .item) ∈ shape.demands := by
  cases shape <;> simp_all [itemSlots, demands, Category.each]

theorem target_mem_demands (href : ref ∈ shape.targetSlots) :
    (ref, .target) ∈ shape.demands := by
  cases shape with
  | unary side operator operand => cases side <;> simp_all [targetSlots, demands]
  | binary left operator right =>
      by_cases hdot : operator.isPunctuation "." = true
      · simp_all [targetSlots, demands, Category.ofLeft]
      · simp [targetSlots, hdot] at href
  | _ => simp_all [targetSlots, demands]

end Shape

namespace Tree.Conforms

variable {tree : Tree} (hconforms : tree.Conforms) {id : Nat}
include hconforms

theorem shaped_of_demand {shape : Shape NodeId} (hshape : tree.shape? id = some shape)
    {ref : Nat} {category : Category} (hdemand : (ref, category) ∈ shape.demands)
    {property : Shape NodeId → Prop}
    (hproperty : ∀ below, category.admits below = true → property below) :
    tree.Shaped ref property := by
  obtain ⟨below, hbelow, hadmits⟩ := (hconforms id shape hshape).2 _ hdemand
  exact ⟨below, hbelow, hproperty below hadmits⟩

/-- What the operands of a binary node satisfy. -/
theorem shaped_left {left right : NodeId} {operator : Token}
    (hshape : tree.shape? id = some (.binary left operator right)) {category : Category}
    (hcategory : Category.ofLeft operator = category) {property : Shape NodeId → Prop}
    (hproperty : ∀ below, category.admits below = true → property below) :
    tree.Shaped left property :=
  hconforms.shaped_of_demand hshape (hcategory ▸ List.mem_cons_self) hproperty

theorem shaped_right {left right : NodeId} {operator : Token}
    (hshape : tree.shape? id = some (.binary left operator right)) {category : Category}
    (hcategory : Category.ofRight operator = category) {property : Shape NodeId → Prop}
    (hproperty : ∀ below, category.admits below = true → property below) :
    tree.Shaped right property :=
  hconforms.shaped_of_demand hshape
    (hcategory ▸ List.mem_cons_of_mem _ List.mem_cons_self) hproperty

end Tree.Conforms

/-- In the tree of a program operands are of the levels that their operators leave to
them. -/
theorem operands_well_levelled {semicolons : Semicolons} {tokens : List Token} {tree : Tree}
    (hparse : parse semicolons tokens = .ok tree) : tree.WellLevelled := by
  have hconforms := conforms_of_parse hparse
  constructor
  case operators =>
    intro id left operator right hshape
    simpa [Shape.isProper, or_assoc] using (hconforms id _ hshape).1
  case operations =>
    intro id left operator right hshape hlevel
    obtain ⟨hleft, hright⟩ := Category.operands_of_lt_binding hlevel
    refine ⟨?_, ?_, ?_, ?_⟩
    · exact hconforms.shaped_left hshape hleft fun _ => Category.bindsAtLeast_of_atLeast
    · exact hconforms.shaped_right hshape hright fun _ => Category.bindsAbove_of_above
    · exact hconforms.shaped_left hshape hleft fun below hbelow =>
        Category.isTight_of_above (Category.above_of_atLeast hlevel below hbelow)
    · exact hconforms.shaped_right hshape hright fun _ => Category.isTight_of_above
  case assignments =>
    intro id left operator right hshape hassignment
    obtain ⟨hleft, hright⟩ := Category.operands_of_assignment hassignment
    exact ⟨hconforms.shaped_left hshape hleft fun _ hbelow => hbelow,
      hconforms.shaped_right hshape hright fun _ => Category.not_isComma_of_item⟩
  case conditionals =>
    intro id test consequent alternate hshape
    refine ⟨?_, ?_, ?_⟩
    · exact hconforms.shaped_of_demand hshape List.mem_cons_self fun _ =>
        Category.isTight_of_above
    · exact hconforms.shaped_of_demand hshape (List.mem_cons_of_mem _ List.mem_cons_self)
        fun _ => Category.not_isComma_of_item
    · exact hconforms.shaped_of_demand hshape
        (List.mem_cons_of_mem _ (List.mem_cons_of_mem _ List.mem_cons_self))
        fun _ => Category.not_isComma_of_item
  case commas =>
    intro id left operator right hshape hcomma
    exact hconforms.shaped_left hshape (Category.operands_of_comma hcomma).1
      fun _ => Category.not_isComma_of_item
  case items =>
    intro id shape hshape ref href
    exact hconforms.shaped_of_demand hshape (Shape.item_mem_demands href)
      fun _ => Category.not_isComma_of_item
  case operands =>
    intro id operator operand hshape
    exact hconforms.shaped_of_demand hshape List.mem_cons_self fun _ hbelow => hbelow
  case targets =>
    intro id shape hshape ref href
    apply hconforms.shaped_of_demand hshape (Shape.target_mem_demands href)
    intro below hbelow
    obtain ⟨hatomic, hunary⟩ := Bool.and_eq_true_iff.mp hbelow
    exact ⟨hatomic, by simpa using hunary⟩

/-- In `x = a - b - c * d` the first difference is the left operand of the second, and the
product its right one. -/
theorem operands_well_levelled_difference :
    let tokens : List Token := [.plain .identifier "x", .plain .operator "=",
      .plain .identifier "a", .plain .operator "-", .plain .identifier "b",
      .plain .operator "-", .plain .identifier "c", .plain .operator "*",
      .plain .identifier "d"]
    ∃ tree, parse .inserted tokens = .ok tree ∧ tree.children 8 = [4, 7] ∧
      tree.children 9 = [1, 8] ∧ tree.WellLevelled := by
  intro tokens
  have hok : (parse .inserted tokens).isOk = true := by decide +kernel
  obtain ⟨tree, hparse⟩ := exists_parse hok
  have hfacts : ((parse .inserted tokens).toOption.map fun tree =>
      (tree.children 8, tree.children 9)) = some ([4, 7], [1, 8]) := by
    decide +kernel
  simp only [hparse, Except.toOption, Option.map_some, Option.some.injEq, Prod.mk.injEq]
    at hfacts
  exact ⟨tree, hparse, hfacts.1, hfacts.2, operands_well_levelled hparse⟩

end ScriptSyntax

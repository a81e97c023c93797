import ScriptSyntax.Proofs.Categories.Statement
import ScriptSyntax.Proofs.Growth

/-!
# Sorts of slots

The slots of a shape are of a few sorts, by the kinds of nodes that stand in them.  The
categories that slots demand are finer, so the tree of a program is well sorted because
it conforms.  That a kind stands in no other slot needs one thing more: every node of
the tree of a program but the last is in a slot.
-/

namespace ScriptSyntax

namespace Shape

variable {Ref : Type}

/-- The slots of statements. -/
def statementSlots : Shape Ref → List Ref
  | .root statements => statements
  | .block statements => statements
  | .labelled _ statement => [statement]
  | .doWhile body _ => [body]
  | .whileLoop _ body => [body]
  | .withScope _ body => [body]
  | .forIn _ _ _ body => [body]
  | .forLoop _ _ _ _ body => [body]
  | .ifElse _ thenBranch elseBranch => thenBranch :: elseBranch.toList
  | .tryCatch body handler finalizer =>
      body :: ((handler.map Prod.snd).toList ++ finalizer.toList)
  | _ => []

/-- The slots of conditions, of objects that are scopes, and of what a switch looks
at. -/
def conditionSlots : Shape Ref → List Ref
  | .doWhile _ condition => [condition]
  | .whileLoop condition _ => [condition]
  | .withScope scope _ => [scope]
  | .ifElse condition _ _ => [condition]
  | .switch discriminant _ => [discriminant]
  | _ => []

/-- The expression that a loop starts with. -/
def initExpression : Option (LoopInit Ref) → List Ref
  | some (.expression value) => [value]
  | _ => []

/-- The slots of expressions, those of conditions among them. -/
def expressionSlots : Shape Ref → List Ref
  | .doWhile _ condition => [condition]
  | .whileLoop condition _ => [condition]
  | .withScope scope _ => [scope]
  | .ifElse condition _ _ => [condition]
  | .switch discriminant _ => [discriminant]
  | .returns value => value.toList
  | .throws value => [value]
  | .expression value => value.toList
  | .forIn _ _ source _ => [source]
  | .forLoop _ init test step _ => initExpression init ++ test.toList ++ step.toList
  | .caseLabel test => [test]
  | .parenthesized inner => [inner]
  | .conditional test consequent alternate => [test, consequent, alternate]
  | .newObject callee _ => [callee]
  | .unary _ _ operand => [operand]
  | .binary left _ right => [left, right]
  | .exprList expressions => expressions
  | .application callee arguments => callee :: arguments
  | .subscript target index => [target, index]
  | .array elements => elements
  | .declaration _ initializer => initializer.toList
  | .property _ value => [value]
  | _ => []

end Shape

namespace Tree

/-- The kind of the node with a number, if there is one. -/
def kind? (tree : Tree) (id : NodeId) : Option NodeKind :=
  (tree.shape? id).map Shape.kind

/-- Every slot holds a node of a kind that belongs there, and kinds that belong to one
sort of slots stand in no other. -/
structure WellSorted (tree : Tree) : Prop where
  statements : ∀ id shape, tree.shape? id = some shape → ∀ ref ∈ shape.statementSlots,
    ∃ kind, tree.kind? ref = some kind ∧ kind.isStatement = true
  expressions : ∀ id shape, tree.shape? id = some shape → ∀ ref ∈ shape.expressionSlots,
    ∃ kind, tree.kind? ref = some kind ∧ kind.isExpression = true
  conditions : ∀ id shape, tree.shape? id = some shape → ∀ ref ∈ shape.conditionSlots,
    tree.kind? ref = some .parenthesized
  switch_cases : ∀ id discriminant cases,
    tree.shape? id = some (.switch discriminant cases) → ∀ ref ∈ cases,
      ∃ kind, tree.kind? ref = some kind ∧ (kind.isStatement = true ∨ kind.isLabel = true)
  /-- A label of a switch is in no slot but one for the cases of a switch. -/
  labels_in_switch : ∀ id shape, tree.shape? id = some shape → ∀ ref ∈ shape.children,
    ∀ kind, tree.kind? ref = some kind → kind.isLabel = true →
      ∃ discriminant cases, shape = .switch discriminant cases ∧ ref ∈ cases
  /-- Every label of a switch is in such a slot. -/
  labels_held : ∀ id kind, tree.kind? id = some kind → kind.isLabel = true →
    ∃ holder discriminant cases, tree.shape? holder = some (.switch discriminant cases) ∧
      id ∈ cases
  function_bodies : ∀ id role name parameters body,
    tree.shape? id = some (.function role name parameters body) → tree.kind? body = some .block
  definitions_named : ∀ id name parameters body,
    tree.shape? id = some (.function .definition name parameters body) → name ≠ none
  definitions_no_expressions : ∀ id shape, tree.shape? id = some shape →
    ∀ ref ∈ shape.expressionSlots, tree.kind? ref ≠ some .functionDefinition
  literals_expressions : ∀ id shape, tree.shape? id = some shape → ∀ ref ∈ shape.children,
    tree.kind? ref = some .functionLiteral → ref ∈ shape.expressionSlots
  var_declarations : ∀ id declarations,
    tree.shape? id = some (.varStatement declarations) → declarations ≠ [] ∧
      ∀ ref ∈ declarations, tree.kind? ref = some .declaration
  loop_declarations : ∀ id varToken declarations test step body,
    tree.shape? id =
        some (.forLoop varToken (some (.declarations declarations)) test step body) →
      ∀ ref ∈ declarations, tree.kind? ref = some .declaration
  object_properties : ∀ id comment properties,
    tree.shape? id = some (.object comment properties) →
      ∀ ref ∈ properties, tree.kind? ref = some .property
  new_arguments : ∀ id callee arguments,
    tree.shape? id = some (.newObject callee (some arguments)) →
      tree.kind? arguments = some .exprList
  member_names : ∀ id left operator right,
    tree.shape? id = some (.binary left operator right) → operator.isPunctuation "." = true →
      tree.kind? right = some .name
  tries_followed : ∀ id body handler finalizer,
    tree.shape? id = some (.tryCatch body handler finalizer) → handler ≠ none ∨ finalizer ≠ none
  root_only : ∀ id, tree.kind? id = some .root ↔ id = tree.rootId
  root_unheld : ∀ id, tree.rootId ∉ tree.children id

end Tree

/-! ## Slots and demands -/

namespace Category

variable {Ref : Type} {category : Category} {shape : Shape Ref} {kind : NodeKind}

/-- A category of expressions. -/
def isExpressive : Category → Bool
  | .parenthesized | .expression | .item | .atLeast _ | .above _ | .atom | .target | .name
  | .place => true
  | _ => false

/-- The kinds that a category is about. -/
def concerns : Category → NodeKind → Bool
  | .statement, kind => kind.isStatement
  | .clause, kind => kind.isStatement || kind.isLabel
  | .block, kind => kind == .block
  | .declaration, kind => kind == .declaration
  | .property, kind => kind == .property
  | .arguments, kind => kind == .exprList
  | _, kind => kind.isExpression

theorem concerns_of_admits (hadmits : category.admits shape = true) :
    category.concerns shape.kind = true := by
  have hatomic : shape.isAtomic = true → shape.kind.isExpression = true := fun hshape =>
    (Bool.and_eq_true_iff.mp (Bool.and_eq_true_iff.mp hshape).1).1
  have hoperates : ∀ test, shape.operates test = true → shape.kind.isExpression = true := by
    intro test hshape
    obtain ⟨left, operator, right, rfl, -⟩ := Shape.exists_binary_of_operates hshape
    rfl
  cases category with
  | parenthesized => rw [beq_iff_eq.mp hadmits]; rfl
  | item => exact (Bool.and_eq_true_iff.mp hadmits).1
  | atLeast level => exact (Bool.or_eq_true_iff.mp hadmits).elim hatomic (hoperates _)
  | above level => exact (Bool.or_eq_true_iff.mp hadmits).elim hatomic (hoperates _)
  | atom => exact hatomic hadmits
  | target => exact hatomic (Bool.and_eq_true_iff.mp hadmits).1
  | name => rw [beq_iff_eq.mp hadmits]; rfl
  | place =>
      cases shape with
      | leaf kind token =>
          cases kind with
          | name => rfl
          | _ => cases hadmits
      | subscript target index => rfl
      | binary left operator right => rfl
      | _ => cases hadmits
  | _ => exact hadmits

theorem isExpression_of_concerns (hconcerns : category.concerns kind = true)
    (hcategory : category.isExpressive = true) : kind.isExpression = true := by
  cases category <;> first | exact hconcerns | cases hcategory

/-- Only categories of expressions are about expressions. -/
theorem isExpressive_of_concerns (hconcerns : category.concerns kind = true)
    (hkind : kind.isExpression = true) : category.isExpressive = true := by
  cases kind <;> cases hkind <;> cases category <;> first | rfl | cases hconcerns

/-- Only the cases of a switch may be labels. -/
theorem eq_clause_of_concerns (hconcerns : category.concerns kind = true)
    (hkind : kind.isLabel = true) : category = .clause := by
  cases kind <;> cases hkind <;> cases category <;> first | rfl | cases hconcerns

theorem not_concerns_root : category.concerns .root = false := by
  cases category <;> rfl

theorem isExpressive_ofLeft (operator : Token) : (ofLeft operator).isExpressive = true := by
  grind [ofLeft, isExpressive]

theorem isExpressive_ofRight (operator : Token) : (ofRight operator).isExpressive = true := by
  grind [ofRight, isExpressive]

end Category

namespace Shape

variable {Ref : Type}

/-- The references of the demands with a property. -/
def demanding (test : Category → Bool) (demands : List (Ref × Category)) : List Ref :=
  (demands.filter fun demand => test demand.2).map Prod.fst

variable {test : Category → Bool} {ref : Ref}

theorem mem_demanding {demands : List (Ref × Category)} :
    ref ∈ demanding test demands ↔
      ∃ category, test category = true ∧ (ref, category) ∈ demands := by
  simp [demanding, and_comm]

@[simp]
theorem demanding_nil : demanding test ([] : List (Ref × Category)) = [] :=
  rfl

@[simp]
theorem demanding_cons (category : Category) (demands : List (Ref × Category)) :
    demanding test ((ref, category) :: demands) =
      if test category then ref :: demanding test demands else demanding test demands := by
  unfold demanding
  rw [List.filter_cons]
  split <;> rfl

@[simp]
theorem demanding_append (first second : List (Ref × Category)) :
    demanding test (first ++ second) = demanding test first ++ demanding test second := by
  simp [demanding]

@[simp]
theorem demanding_each (category : Category) (refs : List Ref) :
    demanding test (category.each refs) = if test category then refs else [] := by
  induction refs with
  | nil => simp [Category.each]
  | cons ref refs ih =>
      rw [Category.each, List.map_cons, demanding_cons]
      rw [Category.each] at ih
      rw [ih]
      split <;> rfl

theorem statement_mem_demands {shape : Shape Ref} (href : ref ∈ shape.statementSlots) :
    (ref, .statement) ∈ shape.demands := by
  cases shape with
  | forLoop varToken init test step body =>
      rw [List.mem_singleton.mp href, demands]
      exact List.mem_append_right _ List.mem_cons_self
  | _ => simp_all [statementSlots, demands, Category.each]

theorem parenthesized_mem_demands {shape : Shape Ref} (href : ref ∈ shape.conditionSlots) :
    (ref, .parenthesized) ∈ shape.demands := by
  cases shape <;> simp_all [conditionSlots, demands]

/-- The slots of expressions are those that demand a category of expressions. -/
theorem expressionSlots_eq (shape : Shape Ref) :
    shape.expressionSlots = demanding Category.isExpressive shape.demands := by
  cases shape with
  | forLoop varToken init test step body =>
      cases init with
      | none => simp [expressionSlots, initExpression, demands, Category.isExpressive]
      | some init =>
          cases init <;>
            simp [expressionSlots, initExpression, demands, LoopInit.demands,
              Category.isExpressive]
  | unary side operator operand => cases side <;> rfl
  | binary left operator right =>
      simp [expressionSlots, demands, Category.isExpressive_ofLeft,
        Category.isExpressive_ofRight]
  | _ => simp [expressionSlots, demands, Category.isExpressive]

theorem mem_cases_of_clause {shape : Shape Ref} (href : (ref, .clause) ∈ shape.demands) :
    ∃ discriminant cases, shape = .switch discriminant cases ∧ ref ∈ cases := by
  cases shape with
  | switch discriminant cases =>
      exact ⟨discriminant, cases, rfl, by simpa [demands, Category.each] using href⟩
  | forLoop varToken init test step body =>
      cases init with
      | none => simp [demands, Category.each] at href
      | some init => cases init <;> simp [demands, LoopInit.demands, Category.each] at href
  | unary side operator operand => cases side <;> simp [demands] at href
  | binary left operator right =>
      have hleft := Category.isExpressive_ofLeft operator
      have hright := Category.isExpressive_ofRight operator
      simp only [demands, List.mem_cons, Prod.mk.injEq, List.not_mem_nil, or_false] at href
      rcases href with ⟨-, heq⟩ | ⟨-, heq⟩
      · rw [← heq] at hleft
        cases hleft
      · rw [← heq] at hright
        cases hright
  | _ => simp [demands, Category.each] at href

end Shape

/-! ## Trees of programs -/

namespace Tree

variable {tree : Tree}

theorem Admits.exists_kind {id : Nat} {category : Category}
    (hadmits : tree.Admits id category) :
    ∃ kind, tree.kind? id = some kind ∧ category.concerns kind = true := by
  obtain ⟨shape, hshape, hcategory⟩ := hadmits
  exact ⟨shape.kind, by rw [Tree.kind?, hshape]; rfl, Category.concerns_of_admits hcategory⟩

namespace Conforms

variable (hconforms : tree.Conforms) {id : Nat} {shape : Shape NodeId}
include hconforms

/-- What stands in a slot that demands a kind. -/
theorem kind?_of_demand (hshape : tree.shape? id = some shape) {ref : Nat}
    {category : Category} (hdemand : (ref, category) ∈ shape.demands) {kind : NodeKind}
    (hkind : ∀ below : Shape NodeId, category.admits below = (below.kind == kind)) :
    tree.kind? ref = some kind := by
  obtain ⟨below, hbelow, hadmits⟩ := (hconforms id shape hshape).2 _ hdemand
  rw [hkind, beq_iff_eq] at hadmits
  rw [Tree.kind?, hbelow, Option.map_some, hadmits]

/-- What stands in a slot is of a kind that the slot's category is about. -/
theorem exists_demand (hshape : tree.shape? id = some shape) {ref : Nat}
    (href : ref ∈ shape.children) {kind : NodeKind} (hkind : tree.kind? ref = some kind) :
    ∃ category, (ref, category) ∈ shape.demands ∧ category.concerns kind = true := by
  rw [← Shape.map_fst_demands] at href
  obtain ⟨⟨found, category⟩, hdemand, rfl⟩ := List.mem_map.mp href
  obtain ⟨other, hother, hconcerns⟩ := ((hconforms id shape hshape).2 _ hdemand).exists_kind
  rw [hother] at hkind
  obtain rfl := Option.some.inj hkind
  exact ⟨category, hdemand, hconcerns⟩

theorem isExpression_of_mem (hshape : tree.shape? id = some shape) {ref : Nat}
    (href : ref ∈ shape.expressionSlots) :
    ∃ kind, tree.kind? ref = some kind ∧ kind.isExpression = true := by
  rw [Shape.expressionSlots_eq] at href
  obtain ⟨category, hexpressive, hdemand⟩ := Shape.mem_demanding.mp href
  obtain ⟨kind, hkind, hconcerns⟩ := ((hconforms id shape hshape).2 _ hdemand).exists_kind
  exact ⟨kind, hkind, Category.isExpression_of_concerns hconcerns hexpressive⟩

theorem mem_cases_of_isLabel (hshape : tree.shape? id = some shape) {ref : Nat}
    (href : ref ∈ shape.children) {kind : NodeKind} (hkind : tree.kind? ref = some kind)
    (hlabel : kind.isLabel = true) :
    ∃ discriminant cases, shape = .switch discriminant cases ∧ ref ∈ cases := by
  obtain ⟨category, hdemand, hconcerns⟩ := hconforms.exists_demand hshape href hkind
  obtain rfl := Category.eq_clause_of_concerns hconcerns hlabel
  exact Shape.mem_cases_of_clause hdemand

end Conforms

end Tree

/-- The root of a program is the only node of its kind, and is in no slot. -/
theorem root_of_parse {semicolons : Semicolons} {tokens : List Token} {tree : Tree}
    (hparse : parse semicolons tokens = .ok tree) :
    tree.kind? tree.rootId = some .root ∧ ∀ id, tree.rootId ∉ tree.children id := by
  obtain ⟨hgrown, hroot⟩ := grown_of_parse hparse
  constructor
  · obtain ⟨body, after, -, -, rfl⟩ := trace_of_parse hparse
    rw [Tree.kind?]
    exact congrArg (Option.map Shape.kind) (Tree.shape?_insert_self ..)
  · rw [hroot]
    exact (hgrown.free tree.size List.mem_cons_self).not_mem

/-- Every other node is in a slot. -/
theorem exists_slot_of_parse {semicolons : Semicolons} {tokens : List Token} {tree : Tree}
    (hparse : parse semicolons tokens = .ok tree) {id : Nat} {kind : NodeKind}
    (hkind : tree.kind? id = some kind) (hroot : id ≠ tree.rootId) :
    ∃ (holder : Nat) (shape : Shape NodeId), tree.shape? holder = some shape ∧
      id ∈ shape.children := by
  obtain ⟨shape, hshape, -⟩ := Option.map_eq_some_iff.mp hkind
  obtain ⟨node, hnode, -⟩ := Option.map_eq_some_iff.mp hshape
  have hpos : 0 < id := by
    cases id with
    | zero => cases hnode
    | succ index => exact Nat.succ_pos index
  obtain ⟨holder, hheld⟩ :=
    heldBy_of_parse hparse hpos (Tree.le_size_of_find?_eq_some hnode) hroot
  have hmem := hheld.mem_children
  rw [Tree.children_eq] at hmem
  cases hholder : tree.shape? holder with
  | none => simp [hholder] at hmem
  | some above => exact ⟨holder, above, hholder, by simpa [hholder] using hmem⟩

/-- The tree of a program is well sorted. -/
theorem slots_well_sorted {semicolons : Semicolons} {tokens : List Token} {tree : Tree}
    (hparse : parse semicolons tokens = .ok tree) : tree.WellSorted := by
  have hconforms := conforms_of_parse hparse
  obtain ⟨hroot, hunheld⟩ := root_of_parse hparse
  constructor
  case statements =>
    intro id shape hshape ref href
    exact ((hconforms id shape hshape).2 _ (Shape.statement_mem_demands href)).exists_kind
  case expressions =>
    intro id shape hshape ref href
    exact hconforms.isExpression_of_mem hshape href
  case conditions =>
    intro id shape hshape ref href
    exact hconforms.kind?_of_demand hshape (Shape.parenthesized_mem_demands href) fun _ => rfl
  case switch_cases =>
    intro id discriminant cases hshape ref href
    obtain ⟨kind, hkind, hconcerns⟩ := ((hconforms id _ hshape).2 (ref, .clause)
      (List.mem_cons_of_mem _ (List.mem_map_of_mem href))).exists_kind
    exact ⟨kind, hkind, Bool.or_eq_true_iff.mp hconcerns⟩
  case labels_in_switch =>
    intro id shape hshape ref href kind hkind hlabel
    exact hconforms.mem_cases_of_isLabel hshape href hkind hlabel
  case labels_held =>
    intro id kind hkind hlabel
    have hne : id ≠ tree.rootId := by
      rintro rfl
      rw [hroot] at hkind
      obtain rfl := Option.some.inj hkind
      cases hlabel
    obtain ⟨holder, shape, hshape, href⟩ := exists_slot_of_parse hparse hkind hne
    obtain ⟨discriminant, cases, rfl, hcases⟩ :=
      hconforms.mem_cases_of_isLabel hshape href hkind hlabel
    exact ⟨holder, discriminant, cases, hshape, hcases⟩
  case function_bodies =>
    intro id role name parameters body hshape
    exact hconforms.kind?_of_demand hshape List.mem_cons_self fun _ => rfl
  case definitions_named =>
    intro id name parameters body hshape
    exact Option.isSome_iff_ne_none.mp (hconforms id _ hshape).1
  case definitions_no_expressions =>
    intro id shape hshape ref href hdefinition
    obtain ⟨kind, hkind, hexpression⟩ := hconforms.isExpression_of_mem hshape href
    rw [hdefinition] at hkind
    obtain rfl := Option.some.inj hkind
    cases hexpression
  case literals_expressions =>
    intro id shape hshape ref href hkind
    obtain ⟨category, hdemand, hconcerns⟩ := hconforms.exists_demand hshape href hkind
    rw [Shape.expressionSlots_eq]
    exact Shape.mem_demanding.mpr
      ⟨category, Category.isExpressive_of_concerns hconcerns rfl, hdemand⟩
  case var_declarations =>
    intro id declarations hshape
    have hproper := (hconforms id _ hshape).1
    refine ⟨by simpa [Shape.isProper] using hproper, fun ref href => ?_⟩
    exact hconforms.kind?_of_demand hshape (List.mem_map_of_mem href) fun _ => rfl
  case loop_declarations =>
    intro id varToken declarations test step body hshape ref href
    have hdemand : (ref, .declaration) ∈
        (Shape.forLoop varToken (some (.declarations declarations)) test step body).demands := by
      simp [Shape.demands, LoopInit.demands, Category.each, href]
    exact hconforms.kind?_of_demand hshape hdemand fun _ => rfl
  case object_properties =>
    intro id comment properties hshape ref href
    exact hconforms.kind?_of_demand hshape (List.mem_map_of_mem href) fun _ => rfl
  case new_arguments =>
    intro id callee arguments hshape
    exact hconforms.kind?_of_demand hshape (List.mem_cons_of_mem _ List.mem_cons_self) fun _ => rfl
  case member_names =>
    intro id left operator right hshape hdot
    have hdemand : (right, .name) ∈ (Shape.binary left operator right).demands := by
      simp [Shape.demands, Category.ofRight, hdot]
    exact hconforms.kind?_of_demand hshape hdemand fun _ => rfl
  case tries_followed =>
    intro id body handler finalizer hshape
    have hproper := (hconforms id _ hshape).1
    simpa [Shape.isProper, Option.isSome_iff_ne_none] using hproper
  case root_only =>
    intro id
    constructor
    · intro hkind
      apply Decidable.byContradiction
      intro hne
      obtain ⟨holder, shape, hshape, href⟩ := exists_slot_of_parse hparse hkind hne
      obtain ⟨category, -, hconcerns⟩ := hconforms.exists_demand hshape href hkind
      rw [Category.not_concerns_root] at hconcerns
      cases hconcerns
    · rintro rfl
      exact hroot
  case root_unheld => exact hunheld

/-- In `switch (a) { case b: new f(function () { }) }` the label is among the cases, and the
function among the arguments of `new`. -/
theorem slots_well_sorted_switch :
    let tokens : List Token := [.plain .keyword "switch", .plain .punctuation "(",
      .plain .identifier "a", .plain .punctuation ")", .plain .punctuation "\x7b",
      .plain .keyword "case", .plain .identifier "b", .plain .punctuation ":",
      .plain .operator "new", .plain .identifier "f", .plain .punctuation "(",
      .plain .keyword "function", .plain .punctuation "(", .plain .punctuation ")",
      .plain .punctuation "\x7b", .plain .punctuation "\x7d", .plain .punctuation ")",
      .plain .punctuation "\x7d"]
    ∃ tree, parse .inserted tokens = .ok tree ∧
      tree.ids.map tree.kind? = [.name, .parenthesized, .name, .caseLabel, .name, .block,
        .functionLiteral, .exprList, .newObject, .expression, .switch, .root].map some ∧
      tree.WellSorted := by
  intro tokens
  have hok : (parse .inserted tokens).isOk = true := by decide +kernel
  obtain ⟨tree, hparse⟩ := exists_parse hok
  have hfacts : ((parse .inserted tokens).toOption.map fun tree =>
      tree.ids.map tree.kind?) = some ([.name, .parenthesized, .name, .caseLabel, .name, .block,
        .functionLiteral, .exprList, .newObject, .expression, .switch, .root].map some) := by
    decide +kernel
  simp only [hparse, Except.toOption, Option.map_some, Option.some.injEq] at hfacts
  exact ⟨tree, hparse, hfacts, slots_well_sorted hparse⟩

end ScriptSyntax

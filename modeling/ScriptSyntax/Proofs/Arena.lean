import ScriptSyntax.Tree.Draft

/-!
# Trees under insertion

What an insertion does to the nodes that are there: their shapes and spans stay,
and a node without a parent gets one if the new node refers to it.  A tree in
which nodes refer to earlier nodes only can be folded from below; the fold of a
node depends on nothing but the shapes in and below it.
-/

namespace ScriptSyntax

/-- The node after another one referred to it. -/
def Node.adoptedBy (node : Node) (parent : NodeId) : Node :=
  { node with parent := node.parent.or (some parent) }

@[simp]
theorem Node.adoptedBy_adoptedBy (node : Node) (parent : NodeId) :
    (node.adoptedBy parent).adoptedBy parent = node.adoptedBy parent := by
  cases hparent : node.parent <;> simp [adoptedBy, hparent]

namespace Tree

/-- The shape of a node. -/
def shape? (tree : Tree) (id : NodeId) : Option (Shape NodeId) :=
  (tree.find? id).map Node.shape

theorem children_eq (tree : Tree) (id : NodeId) :
    tree.children id = ((tree.shape? id).map Shape.children).getD [] := by
  rw [children, shape?, Option.map_map]
  rfl

theorem find?_eq_none_of_size_lt (tree : Tree) {id : Nat} (hid : tree.size < id) :
    tree.find? id = none := by
  cases id with
  | zero => rfl
  | succ index => exact Array.getElem?_eq_none (Nat.le_of_lt_succ hid)

theorem le_size_of_find?_eq_some {tree : Tree} {id : Nat} {node : Node}
    (hnode : tree.find? id = some node) : id ≤ tree.size := by
  apply Nat.le_of_not_lt
  intro hid
  rw [find?_eq_none_of_size_lt tree hid] at hnode
  cases hnode

/-- Every number from one up to the size is that of a node. -/
theorem exists_find? (tree : Tree) {id : Nat} (hpos : 0 < id) (hid : id ≤ tree.size) :
    ∃ node, tree.find? id = some node := by
  cases id with
  | zero => cases hpos
  | succ index => exact ⟨tree.nodes[index], Array.getElem?_eq_getElem hid⟩

theorem mem_ids {tree : Tree} {id : Nat} : id ∈ tree.ids ↔ 0 < id ∧ id ≤ tree.size := by
  rw [ids, List.mem_range'_1]
  omega

theorem mem_ids_iff_find? {tree : Tree} {id : Nat} :
    id ∈ tree.ids ↔ ∃ node, tree.find? id = some node := by
  rw [mem_ids]
  constructor
  · rintro ⟨hpos, hle⟩
    exact exists_find? tree hpos hle
  · rintro ⟨node, hnode⟩
    refine ⟨?_, le_size_of_find?_eq_some hnode⟩
    cases id with
    | zero => cases hnode
    | succ index => exact Nat.succ_pos index

theorem find?_modify (tree : Tree) (id other : NodeId) (change : Node → Node) :
    (tree.modify id change).find? other =
      if other = id then (tree.find? other).map change else tree.find? other := by
  cases id with
  | zero => cases other <;> rfl
  | succ index =>
      cases other with
      | zero => simp [find?]
      | succ position =>
          by_cases hposition : position = index
          · simp [modify, find?, Array.getElem?_modify, hposition]
          · have hindex : index ≠ position := fun heq => hposition heq.symm
            simp [modify, find?, Array.getElem?_modify, hposition, hindex]

theorem root_modify (tree : Tree) (id : NodeId) (change : Node → Node) :
    (tree.modify id change).root = tree.root := by
  cases id <;> rfl

theorem root_adoptAll (tree : Tree) (parent : NodeId) (children : List NodeId) :
    (tree.adoptAll parent children).root = tree.root := by
  induction children generalizing tree with
  | nil => rfl
  | cons child children ih => exact (ih (tree.adopt parent child)).trans (root_modify tree child _)

theorem find?_adoptAll (tree : Tree) (parent : NodeId) (children : List NodeId)
    (id : NodeId) :
    (tree.adoptAll parent children).find? id =
      if id ∈ children then (tree.find? id).map (Node.adoptedBy · parent)
      else tree.find? id := by
  induction children generalizing tree with
  | nil => rfl
  | cons child children ih =>
      have hadopt : tree.adoptAll parent (child :: children) =
          (tree.modify child (Node.adoptedBy · parent)).adoptAll parent children := rfl
      rw [hadopt, ih, find?_modify]
      by_cases hchild : id = child
      · simp only [hchild, List.mem_cons, true_or, if_true]
        split
        · cases tree.find? child <;> simp
        · rfl
      · simp only [List.mem_cons, hchild, false_or, if_false]

/-- The new node. -/
theorem find?_insert_self (tree : Tree) (shape : Shape NodeId) (span : Span) :
    (tree.insert shape span).2.find? (tree.size + 1) = some ⟨span, none, shape⟩ := by
  have hsize : tree.size = (tree.adoptAll (tree.size + 1) shape.children).nodes.size :=
    (size_adoptAll tree (tree.size + 1) shape.children).symm
  simp only [insert, find?]
  rw [Array.getElem?_push, if_pos hsize]

/-- The nodes that were there: those below the new node are adopted. -/
theorem find?_insert_of_le (tree : Tree) (shape : Shape NodeId) (span : Span)
    {id : Nat} (hid : id ≤ tree.size) :
    (tree.insert shape span).2.find? id =
      if id ∈ shape.children then (tree.find? id).map (Node.adoptedBy · (tree.size + 1))
      else tree.find? id := by
  rw [← find?_adoptAll]
  cases id with
  | zero => rfl
  | succ index =>
      have hsize : tree.size = (tree.adoptAll (tree.size + 1) shape.children).nodes.size :=
        (size_adoptAll tree (tree.size + 1) shape.children).symm
      simp only [insert, find?]
      rw [Array.getElem?_push, if_neg (by omega)]

theorem shape?_insert_self (tree : Tree) (shape : Shape NodeId) (span : Span) :
    (tree.insert shape span).2.shape? (tree.size + 1) = some shape := by
  simp [shape?, find?_insert_self]

theorem shape?_insert_of_le (tree : Tree) (shape : Shape NodeId) (span : Span)
    {id : Nat} (hid : id ≤ tree.size) :
    (tree.insert shape span).2.shape? id = tree.shape? id := by
  rw [shape?, find?_insert_of_le tree shape span hid, shape?]
  split
  · cases tree.find? id <;> rfl
  · rfl

/-- A node is there before an insertion, or it is the new one. -/
theorem shape?_insert_cases {tree : Tree} {shape found : Shape NodeId} {span : Span} {id : Nat}
    (hfound : (tree.insert shape span).2.shape? id = some found) :
    tree.shape? id = some found ∨ id = tree.size + 1 ∧ found = shape := by
  obtain ⟨node, hnode, -⟩ := Option.map_eq_some_iff.mp hfound
  have hid := le_size_of_find?_eq_some hnode
  rw [size_insert] at hid
  rcases Nat.lt_or_eq_of_le hid with hlt | rfl
  · rw [shape?_insert_of_le tree shape span (Nat.le_of_lt_succ hlt)] at hfound
    exact .inl hfound
  · rw [shape?_insert_self] at hfound
    exact .inr ⟨rfl, (Option.some.inj hfound).symm⟩

theorem span_insert_self (tree : Tree) (shape : Shape NodeId) (span : Span) :
    (tree.insert shape span).2.span (tree.size + 1) = span := by
  simp [Tree.span, find?_insert_self]

theorem span_insert_of_le (tree : Tree) (shape : Shape NodeId) (span : Span)
    {id : Nat} (hid : id ≤ tree.size) :
    (tree.insert shape span).2.span id = tree.span id := by
  rw [Tree.span, find?_insert_of_le tree shape span hid, Tree.span]
  split
  · cases tree.find? id <;> rfl
  · rfl

/-- The nodes of one tree are nodes of the other, with the same shapes. -/
def PartOf (tree whole : Tree) : Prop :=
  ∀ id shape, tree.shape? id = some shape → whole.shape? id = some shape

theorem PartOf.refl (tree : Tree) : tree.PartOf tree :=
  fun _ _ hshape => hshape

theorem PartOf.trans {first second third : Tree} (hfirst : first.PartOf second)
    (hsecond : second.PartOf third) : first.PartOf third :=
  fun id shape hshape => hsecond id shape (hfirst id shape hshape)

theorem partOf_insert (tree : Tree) (shape : Shape NodeId) (span : Span) :
    tree.PartOf (tree.insert shape span).2 := by
  intro id found hfound
  obtain ⟨node, hnode, rfl⟩ := Option.map_eq_some_iff.mp hfound
  rw [shape?_insert_of_le tree shape span (le_size_of_find?_eq_some hnode)]
  exact hfound

/-- The nodes of one tree are nodes of the other, with the same shapes and spans. -/
def StandsIn (tree whole : Tree) : Prop :=
  ∀ id node, tree.find? id = some node →
    ∃ later, whole.find? id = some later ∧ later.shape = node.shape ∧ later.span = node.span

theorem StandsIn.refl (tree : Tree) : tree.StandsIn tree :=
  fun _ node hnode => ⟨node, hnode, rfl, rfl⟩

theorem StandsIn.trans {first second third : Tree} (hfirst : first.StandsIn second)
    (hsecond : second.StandsIn third) : first.StandsIn third := by
  intro id node hnode
  obtain ⟨later, hlater, hshape, hspan⟩ := hfirst id node hnode
  obtain ⟨last, hlast, hlastshape, hlastspan⟩ := hsecond id later hlater
  exact ⟨last, hlast, hlastshape.trans hshape, hlastspan.trans hspan⟩

theorem StandsIn.shape?_eq {tree whole : Tree} (hstands : tree.StandsIn whole) {id : NodeId}
    {shape : Shape NodeId} (hshape : tree.shape? id = some shape) :
    whole.shape? id = some shape := by
  obtain ⟨node, hnode, rfl⟩ := Option.map_eq_some_iff.mp hshape
  obtain ⟨later, hlater, hsame, -⟩ := hstands id node hnode
  rw [shape?, hlater, Option.map_some, hsame]

theorem StandsIn.span_eq {tree whole : Tree} (hstands : tree.StandsIn whole) {id : Nat}
    (hid : id ≤ tree.size) : whole.span id = tree.span id := by
  rcases Nat.eq_zero_or_pos id with rfl | hpos
  · rfl
  · obtain ⟨node, hnode⟩ := exists_find? tree hpos hid
    obtain ⟨later, hlater, -, hspan⟩ := hstands id node hnode
    simp [Tree.span, hnode, hlater, hspan]

theorem standsIn_insert (tree : Tree) (shape : Shape NodeId) (span : Span) :
    tree.StandsIn (tree.insert shape span).2 := by
  intro id node hnode
  rw [find?_insert_of_le tree shape span (le_size_of_find?_eq_some hnode), hnode]
  split
  · exact ⟨_, rfl, rfl, rfl⟩
  · exact ⟨node, rfl, rfl, rfl⟩

/-- Nodes refer to earlier nodes only. -/
def Ordered (tree : Tree) : Prop :=
  ∀ (id : Nat) shape, tree.shape? id = some shape →
    ∀ child : Nat, child ∈ shape.children → child < id

theorem Ordered.insert {tree : Tree} (hordered : tree.Ordered) {shape : Shape NodeId}
    (hshape : ∀ child : Nat, child ∈ shape.children → child ≤ tree.size) (span : Span) :
    (tree.insert shape span).2.Ordered := by
  intro id found hfound child hchild
  obtain ⟨node, hnode, -⟩ := Option.map_eq_some_iff.mp hfound
  have hid := le_size_of_find?_eq_some hnode
  rw [size_insert] at hid
  rcases Nat.lt_or_eq_of_le hid with hlt | rfl
  · rw [shape?_insert_of_le tree shape span (Nat.le_of_lt_succ hlt)] at hfound
    exact hordered id found hfound child hchild
  · rw [shape?_insert_self] at hfound
    cases hfound
    exact Nat.lt_succ_of_le (hshape child hchild)

/-- A property of all numbers, from below: of those without a node, and of each
node once the nodes below it have it. -/
theorem Ordered.induct {tree : Tree} (hordered : tree.Ordered) {motive : Nat → Prop}
    (unknown : ∀ id, tree.shape? id = none → motive id)
    (node : ∀ id shape, tree.shape? id = some shape →
      (∀ child ∈ shape.children, motive child) → motive id)
    (id : Nat) : motive id := by
  induction id using Nat.strongRecOn with
  | ind id ih =>
      cases hshape : tree.shape? id with
      | none => exact unknown id hshape
      | some shape =>
          apply node id shape hshape
          intro child hchild
          exact ih child (hordered id shape hshape child hchild)

section Fold

variable {Result : Type}

/-- The result of a node from the results of the nodes below it, going down at
most `limit` nodes. -/
def foldWithin (tree : Tree) (unknown : Result)
    (combine : NodeId → Shape NodeId → (NodeId → Result) → Result) :
    (limit : Nat) → NodeId → Result
  | 0, _ => unknown
  | limit + 1, id =>
      match tree.shape? id with
      | none => unknown
      | some shape => combine id shape (tree.foldWithin unknown combine limit)

/-- The result of a node from the results of the nodes below it.  No path down a
tree without cycles has more nodes than the tree. -/
def fold (tree : Tree) (unknown : Result)
    (combine : NodeId → Shape NodeId → (NodeId → Result) → Result) (id : NodeId) :
    Result :=
  tree.foldWithin unknown combine tree.size id

/-- The result of a node depends on those of its children only. -/
def Local (combine : NodeId → Shape NodeId → (NodeId → Result) → Result) : Prop :=
  ∀ (id : Nat) shape first second,
    (∀ child : Nat, child ∈ shape.children → first child = second child) →
    combine id shape first = combine id shape second

variable {tree : Tree} {unknown : Result}
variable {combine : NodeId → Shape NodeId → (NodeId → Result) → Result}

theorem foldWithin_of_le (hordered : tree.Ordered) (hlocal : Local combine)
    {id limit : Nat} (hid : id ≤ limit) :
    tree.foldWithin unknown combine limit id = tree.foldWithin unknown combine id id := by
  induction id using Nat.strongRecOn generalizing limit with
  | ind id ih =>
      cases limit with
      | zero => rw [Nat.le_zero.mp hid]
      | succ limit =>
          cases id with
          | zero => rfl
          | succ index =>
              simp only [foldWithin]
              split
              · rfl
              · rename_i shape hshape
                apply hlocal
                intro child hchild
                have hlt := hordered _ _ hshape child hchild
                rw [ih child hlt (by omega : child ≤ limit),
                  ih child hlt (by omega : child ≤ index)]

theorem fold_of_unknown {id : Nat} (hshape : tree.shape? id = none) :
    tree.fold unknown combine id = unknown := by
  unfold fold
  cases tree.size with
  | zero => rfl
  | succ limit => rw [foldWithin, hshape]

/-- The equation of the fold. -/
theorem fold_eq (hordered : tree.Ordered) (hlocal : Local combine) {id : Nat}
    {shape : Shape NodeId} (hshape : tree.shape? id = some shape) :
    tree.fold unknown combine id = combine id shape (tree.fold unknown combine) := by
  obtain ⟨node, hnode, -⟩ := Option.map_eq_some_iff.mp hshape
  have hid := le_size_of_find?_eq_some hnode
  cases id with
  | zero => cases hnode
  | succ index =>
      rw [fold, foldWithin_of_le hordered hlocal hid]
      simp only [foldWithin, hshape]
      apply hlocal
      intro child hchild
      have hlt := hordered _ _ hshape child hchild
      rw [fold, foldWithin_of_le hordered hlocal (by omega : child ≤ index),
        foldWithin_of_le hordered hlocal (by omega : child ≤ tree.size)]

/-- The fold of a node stays the same as nodes are added. -/
theorem fold_eq_of_partOf {whole : Tree} (hwhole : whole.Ordered) (hpart : tree.PartOf whole)
    (hordered : tree.Ordered) (hlocal : Local combine) {id : Nat} (hid : id ≤ tree.size) :
    whole.fold unknown combine id = tree.fold unknown combine id := by
  induction id using hordered.induct with
  | unknown id hshape =>
      cases id with
      | zero => rw [fold_of_unknown rfl, fold_of_unknown rfl]
      | succ index =>
          obtain ⟨node, hnode⟩ := exists_find? tree (Nat.succ_pos index) hid
          simp [shape?, hnode] at hshape
  | node id shape hshape ih =>
      rw [fold_eq hwhole hlocal (hpart id shape hshape), fold_eq hordered hlocal hshape]
      apply hlocal
      intro child hchild
      have hbelow : child < id := hordered id shape hshape child hchild
      exact ih child hchild (Nat.le_trans (Nat.le_of_lt hbelow) hid)

end Fold

end Tree

end ScriptSyntax

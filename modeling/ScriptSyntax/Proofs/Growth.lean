import ScriptSyntax.Proofs.Trace.Statement
import ScriptSyntax.Proofs.Traversal

/-!
# Growth of a tree

A reader adds a forest on top of the tree that it finds.  The nodes that were
there stay as they are; the new nodes refer to new nodes only; the roots of the
forest are the nodes among the parts that are left over, and every other new node
hangs in one slot of one node, its parent.  A node is made after those below it,
so the new numbers in increasing order are the post-order of the forest.

An insertion keeps this up as long as the slots of the new node are the last
roots, which is what a trace asks of the parts that a node takes up.
-/

namespace ScriptSyntax

namespace Tree

/-- The node hangs in exactly one slot of the tree, and that is a slot of its
parent. -/
structure HeldBy (tree : Tree) (child parent : Nat) : Prop where
  parent_eq : tree.parent child = some parent
  count_eq : (tree.children parent).count child = 1
  unique : ∀ other, child ∈ tree.children other → other = parent

/-- The node hangs nowhere. -/
structure Free (tree : Tree) (id : Nat) : Prop where
  parent_eq : tree.parent id = none
  not_mem : ∀ other, id ∉ tree.children other

/-- A forest with the given roots was added to a tree. -/
structure Grown (before : Tree) (roots : List NodeId) (after : Tree) : Prop where
  size_le : before.size ≤ after.size
  kept : ∀ id : Nat, id ≤ before.size → after.find? id = before.find? id
  fresh : ∀ (id : Nat) shape, before.size < id → after.shape? id = some shape →
    ∀ child : Nat, child ∈ shape.children → before.size < child ∧ child < id
  nodup : roots.Nodup
  new : ∀ root : Nat, root ∈ roots → before.size < root ∧ root ≤ after.size
  free : ∀ root : Nat, root ∈ roots → after.Free root
  held : ∀ child : Nat, before.size < child → child ≤ after.size → child ∉ roots →
    ∃ parent, after.HeldBy child parent
  postorder : roots.flatMap after.postorder =
    List.range' (before.size + 1) (after.size - before.size)

theorem Grown.refl (tree : Tree) : tree.Grown [] tree where
  size_le := Nat.le_refl _
  kept _ _ := rfl
  fresh id shape hid hshape := by
    obtain ⟨node, hnode, -⟩ := Option.map_eq_some_iff.mp hshape
    have hle := le_size_of_find?_eq_some hnode
    omega
  nodup := List.nodup_nil
  new _ hroot := nomatch hroot
  free _ hroot := nomatch hroot
  held child hlt hle := by omega
  postorder := by simp

variable {before after : Tree} {roots taken : List NodeId}

theorem Grown.ordered (hgrown : before.Grown roots after) (hordered : before.Ordered) :
    after.Ordered := by
  intro id shape hshape child hchild
  by_cases hid : id ≤ before.size
  · have hold : before.shape? id = some shape := by
      rw [shape?, ← hgrown.kept id hid]
      exact hshape
    exact hordered id shape hold child hchild
  · exact (hgrown.fresh id shape (by omega) hshape child hchild).2

/-- A node refers to earlier nodes only. -/
theorem Ordered.lt_of_mem_children {tree : Tree} (hordered : tree.Ordered) {id child : Nat}
    (hchild : child ∈ tree.children id) : child < id := by
  rw [children_eq] at hchild
  cases hshape : tree.shape? id with
  | none => simp [hshape] at hchild
  | some shape =>
      rw [hshape] at hchild
      exact hordered id shape hshape child hchild

theorem le_size_of_mem_children {tree : Tree} {id child : Nat}
    (hchild : child ∈ tree.children id) : id ≤ tree.size := by
  apply Nat.le_of_not_lt
  intro hid
  rw [children, find?_eq_none_of_size_lt tree hid] at hchild
  cases hchild

theorem children_insert_self (tree : Tree) (shape : Shape NodeId) (span : Span) :
    (tree.insert shape span).2.children (tree.size + 1) = shape.children := by
  rw [children_eq, shape?_insert_self]
  rfl

theorem children_insert_of_le (tree : Tree) (shape : Shape NodeId) (span : Span)
    {id : Nat} (hid : id ≤ tree.size) :
    (tree.insert shape span).2.children id = tree.children id := by
  rw [children_eq, shape?_insert_of_le tree shape span hid, ← children_eq]

/-- After an insertion a node is referred to by the new node and by those that
referred to it before. -/
theorem mem_children_insert_iff (tree : Tree) (shape : Shape NodeId) (span : Span)
    (id child : Nat) :
    child ∈ (tree.insert shape span).2.children id ↔
      id = tree.size + 1 ∧ child ∈ shape.children ∨ child ∈ tree.children id := by
  rcases Nat.lt_trichotomy id (tree.size + 1) with hlt | rfl | hgt
  · rw [children_insert_of_le tree shape span (Nat.le_of_lt_succ hlt)]
    constructor
    · exact fun hchild => .inr hchild
    · rintro (⟨heq, -⟩ | hchild)
      · omega
      · exact hchild
  · rw [children_insert_self]
    constructor
    · exact fun hchild => .inl ⟨rfl, hchild⟩
    · rintro (⟨-, hchild⟩ | hchild)
      · exact hchild
      · have hle := le_size_of_mem_children hchild
        omega
  · constructor
    · intro hchild
      have hle := le_size_of_mem_children hchild
      rw [size_insert] at hle
      omega
    · rintro (⟨heq, -⟩ | hchild)
      · omega
      · have hle := le_size_of_mem_children hchild
        omega

/-- A node that hangs nowhere stays so unless the new node refers to it. -/
theorem Free.insert {tree : Tree} {id : Nat} (hfree : tree.Free id) (hid : id ≤ tree.size)
    {shape : Shape NodeId} (hshape : id ∉ shape.children) (span : Span) :
    (tree.insert shape span).2.Free id where
  parent_eq := by
    rw [parent, find?_insert_of_le tree shape span hid, if_neg hshape]
    exact hfree.parent_eq
  not_mem other := by
    rw [mem_children_insert_iff]
    rintro (⟨-, hchild⟩ | hchild)
    · exact hshape hchild
    · exact hfree.not_mem other hchild

/-- The new node becomes the parent of a node that had none. -/
theorem parent_insert_of_eq_none {tree : Tree} {id : Nat} (hnone : tree.parent id = none)
    (hpos : 0 < id) (hid : id ≤ tree.size) {shape : Shape NodeId} (hshape : id ∈ shape.children)
    (span : Span) : (tree.insert shape span).2.parent id = some (tree.size + 1) := by
  obtain ⟨node, hnode⟩ := exists_find? tree hpos hid
  have hparent : node.parent = none := by
    rwa [parent, hnode] at hnone
  rw [parent, find?_insert_of_le tree shape span hid, if_pos hshape, hnode]
  simp [Node.adoptedBy, hparent]

/-- The new node takes a node that hung nowhere. -/
theorem Free.insert_held {tree : Tree} {id : Nat} (hfree : tree.Free id) (hpos : 0 < id)
    (hid : id ≤ tree.size) {shape : Shape NodeId} (hshape : id ∈ shape.children)
    (hnodup : shape.children.Nodup) (span : Span) :
    (tree.insert shape span).2.HeldBy id (tree.size + 1) where
  parent_eq := parent_insert_of_eq_none hfree.parent_eq hpos hid hshape span
  count_eq := by
    rw [children_insert_self, hnodup.count, if_pos hshape]
  unique other hother := by
    rcases (mem_children_insert_iff ..).mp hother with ⟨heq, -⟩ | hchild
    · exact heq
    · exact absurd hchild (hfree.not_mem other)

theorem HeldBy.mem_children {tree : Tree} {child parent : Nat}
    (hheld : tree.HeldBy child parent) : child ∈ tree.children parent := by
  apply List.count_pos_iff.mp
  rw [hheld.count_eq]
  exact Nat.one_pos

/-- A node that hangs in a slot stays there unless the new node refers to it. -/
theorem HeldBy.insert {tree : Tree} {id holder : Nat} (hheld : tree.HeldBy id holder)
    (hid : id ≤ tree.size) {shape : Shape NodeId} (hshape : id ∉ shape.children)
    (span : Span) : (tree.insert shape span).2.HeldBy id holder where
  parent_eq := by
    rw [parent, find?_insert_of_le tree shape span hid, if_neg hshape]
    exact hheld.parent_eq
  count_eq := by
    rw [children_insert_of_le tree shape span (le_size_of_mem_children hheld.mem_children)]
    exact hheld.count_eq
  unique other hother := by
    rcases (mem_children_insert_iff ..).mp hother with ⟨-, hchild⟩ | hchild
    · exact absurd hchild hshape
    · exact hheld.unique other hchild

/-- The post-orders of the nodes that were there stay the same. -/
theorem postorder_insert_of_le {tree : Tree} (hordered : tree.Ordered)
    {shape : Shape NodeId} (hshape : ∀ child : Nat, child ∈ shape.children → child ≤ tree.size)
    (span : Span) {id : Nat} (hid : id ≤ tree.size) :
    (tree.insert shape span).2.postorder id = tree.postorder id :=
  fold_eq_of_partOf (hordered.insert hshape span) (partOf_insert tree shape span) hordered
    postorder_local hid

/-- An insertion turns the last roots of the forest into one. -/
theorem Grown.insert (hgrown : before.Grown (roots ++ taken) after)
    (hordered : before.Ordered) {shape : Shape NodeId} (hshape : shape.children = taken)
    (span : Span) :
    before.Grown (roots ++ [after.size + 1]) (after.insert shape span).2 := by
  subst hshape
  have hnew := hgrown.new
  have hfree := hgrown.free
  obtain ⟨hroots, hchildren, hdisjoint⟩ := List.nodup_append.mp hgrown.nodup
  have hle := hgrown.size_le
  have hroot : ∀ root : Nat, root ∈ roots → root ∉ shape.children :=
    fun root hmem hchild => hdisjoint root hmem root hchild rfl
  constructor
  case size_le =>
    rw [size_insert]
    omega
  case kept =>
    intro id hid
    have hchild : id ∉ shape.children := by
      intro hmem
      have := (hnew id (List.mem_append_right roots hmem)).1
      omega
    rw [find?_insert_of_le after shape span (by omega), if_neg hchild]
    exact hgrown.kept id hid
  case fresh =>
    intro id found hid hfound child hchild
    by_cases hold : id ≤ after.size
    · rw [shape?_insert_of_le after shape span hold] at hfound
      exact hgrown.fresh id found hid hfound child hchild
    · have hchildren : child ∈ (after.insert shape span).2.children id := by
        rw [children_eq, hfound]
        exact hchild
      rcases (mem_children_insert_iff ..).mp hchildren with ⟨heq, hmem⟩ | hmem
      · have := hnew child (List.mem_append_right roots hmem)
        omega
      · have := le_size_of_mem_children hmem
        omega
  case nodup =>
    apply List.nodup_append.mpr
    refine ⟨hroots, List.nodup_cons.mpr ⟨List.not_mem_nil, List.nodup_nil⟩, ?_⟩
    intro root hmem other hother heq
    obtain rfl := List.mem_singleton.mp hother
    have hle := (hnew root (List.mem_append_left _ hmem)).2
    rw [heq] at hle
    exact Nat.not_succ_le_self after.size hle
  case new =>
    intro root hmem
    rw [size_insert]
    rcases List.mem_append.mp hmem with hmem | hmem
    · have := hnew root (List.mem_append_left _ hmem)
      omega
    · have : root = after.size + 1 := List.mem_singleton.mp hmem
      omega
  case free =>
    intro root hmem
    rcases List.mem_append.mp hmem with hmem | hmem
    · have hin := List.mem_append_left shape.children hmem
      exact (hfree root hin).insert (hnew root hin).2 (hroot root hmem) span
    · obtain rfl := List.mem_singleton.mp hmem
      constructor
      · simp [parent, find?_insert_self]
      · intro other hother
        rcases (mem_children_insert_iff ..).mp hother with ⟨-, hchild⟩ | hchild
        · have := (hnew _ (List.mem_append_right roots hchild)).2
          omega
        · have := (hgrown.ordered hordered).lt_of_mem_children hchild
          have := le_size_of_mem_children hchild
          omega
  case held =>
    intro child hlt hchild hnot
    rw [size_insert] at hchild
    have hsize : child ≠ after.size + 1 := by
      rintro rfl
      exact hnot (List.mem_append_right roots (List.mem_singleton.mpr rfl))
    by_cases hmem : child ∈ shape.children
    · have hin := List.mem_append_right roots hmem
      exact ⟨_, (hfree child hin).insert_held (by omega) (by omega) hmem hchildren span⟩
    · have hroots : child ∉ roots ++ shape.children := by
        intro hin
        rcases List.mem_append.mp hin with hin | hin
        · exact hnot (List.mem_append_left _ hin)
        · exact hmem hin
      obtain ⟨holder, hheld⟩ := hgrown.held child hlt (by omega) hroots
      exact ⟨holder, hheld.insert (by omega) hmem span⟩
  case postorder =>
    have hafter := hgrown.ordered hordered
    have hsmall : ∀ child : Nat, child ∈ shape.children → child ≤ after.size :=
      fun child hchild => (hnew child (List.mem_append_right roots hchild)).2
    have hkept : (roots ++ shape.children).flatMap (after.insert shape span).2.postorder =
        (roots ++ shape.children).flatMap after.postorder := by
      rw [List.flatMap_def, List.flatMap_def]
      congr 1
      apply List.map_congr_left
      intro root hroot
      exact postorder_insert_of_le hafter hsmall span (hnew root hroot).2
    have hself := postorder_eq (hafter.insert hsmall span) (shape?_insert_self after shape span)
    have hnext : after.size + 1 = before.size + 1 + (after.size - before.size) := by omega
    have hcount : after.size + 1 - before.size = after.size - before.size + 1 := by omega
    rw [List.flatMap_append, List.flatMap_singleton, hself, ← List.append_assoc,
      ← List.flatMap_append, hkept, hgrown.postorder, size_insert, hcount, List.range'_concat,
      Nat.one_mul, ← hnext]

end Tree

/-- The slots of a drafted node are the nodes among the parts that it covers. -/
theorem Draft.Covers.children_eq {draft : Draft} {parts : List (Part NodeId)}
    (hcovers : draft.Covers parts) : draft.shape.children = Part.refs parts := by
  rw [← Shape.layout_refs]
  exact (Part.refs_eq_of_gists_eq hcovers.gists).symm

/-- Along a trace the tree grows by a forest whose roots are the nodes left
over. -/
theorem Trace.grown {start session : Session} {parts : List (Part NodeId)}
    (htrace : Trace start parts session) (hordered : start.tree.Ordered) :
    start.tree.Grown (Part.refs parts) session.tree := by
  induction htrace with
  | start => exact Tree.Grown.refl start.tree
  | shift _ _ ih => simpa [Session.passed] using ih
  | skip _ _ ih => exact ih
  | @comment parts session _ _ ih =>
      have hgrown : start.tree.Grown (Part.refs parts ++ []) session.tree := by
        rwa [List.append_nil]
      rw [Part.refs_append]
      exact hgrown.insert hordered rfl _
  | reduce _ hcovers ih =>
      rw [Part.refs_append] at ih ⊢
      exact ih.insert hordered hcovers.children_eq _

theorem Tree.empty_ordered : Tree.empty.Ordered := by
  intro id shape hshape
  cases id <;> cases hshape

/-- The tree of a program is a forest with one root, its last node. -/
theorem grown_of_parse {semicolons : Semicolons} {tokens : List Token} {tree : Tree}
    (hparse : parse semicolons tokens = .ok tree) :
    Tree.empty.Grown [tree.size] tree ∧ tree.rootId = tree.size := by
  obtain ⟨body, after, htrace, -, rfl⟩ := trace_of_parse hparse
  have hgrown : Tree.empty.Grown ([] ++ body) after.tree := by
    simpa [Part.many, Session.start] using htrace.grown Tree.empty_ordered
  have hsize : (after.grown (.root body after.cursor.current)).tree.size =
      after.tree.size + 1 := Tree.size_insert ..
  rw [hsize]
  exact ⟨hgrown.insert Tree.empty_ordered rfl _, rfl⟩

/-- Every node of a program but its root is in a slot. -/
theorem heldBy_of_parse {semicolons : Semicolons} {tokens : List Token} {tree : Tree}
    (hparse : parse semicolons tokens = .ok tree) {id : Nat} (hpos : 0 < id)
    (hid : id ≤ tree.size) (hroot : id ≠ tree.rootId) : ∃ parent, tree.HeldBy id parent := by
  obtain ⟨hgrown, heq⟩ := grown_of_parse hparse
  rw [heq] at hroot
  exact hgrown.held id hpos hid fun hmem => hroot (List.mem_singleton.mp hmem)

end ScriptSyntax

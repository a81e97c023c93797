import ScriptSyntax.Proofs.Editing.Coherence

/-!
# Nodes above a node

A walk goes down by the slots, and the nodes above a node are found by the links to
parents.  In the tree of a program the two agree: the nodes above what a slot holds are
the holder and the nodes above that.
-/

namespace ScriptSyntax

namespace Tree

/-- The nodes above a node, the nearest first. -/
def ancestors (tree : Tree) (id : NodeId) : List NodeId :=
  (tree.lineage id).tail

/-- What is known of the links in the tree of a program: slots hold earlier nodes, a node
in a slot has the holder as its parent, and every node is in or below the root, which has
no parent. -/
structure Planted (tree : Tree) : Prop where
  ordered : tree.Ordered
  rooted : tree.Rooted
  parent_eq : ∀ holder child, tree.Holds holder child → tree.parent child = some holder
  root_free : tree.parent tree.rootId = none
  whole : tree.postorder tree.rootId = tree.ids

theorem planted_of_parse {semicolons : Semicolons} {tokens : List Token} {tree : Tree}
    (hparse : parse semicolons tokens = .ok tree) : tree.Planted := by
  obtain ⟨hgrown, hroot⟩ := grown_of_parse hparse
  have hordered := hgrown.ordered empty_ordered
  have hcoherent : tree.Coherent fun _ => False := coherent_of_parse hparse
  have hfree := hgrown.free tree.size List.mem_cons_self
  constructor
  case ordered => exact hordered
  case rooted => exact hcoherent.rooted
  case parent_eq =>
    intro holder child hholds
    have hchild := (hcoherent.known holder child hholds).resolve_right not_false
    obtain ⟨hpos, hle⟩ := mem_ids.mp hchild
    have hne : child ≠ tree.rootId := by
      rintro rfl
      rw [hroot] at hholds
      exact hfree.not_mem holder hholds
    obtain ⟨parent, hheld⟩ := heldBy_of_parse hparse hpos hle hne
    rw [hheld.unique holder hholds]
    exact hheld.parent_eq
  case root_free =>
    rw [hroot]
    exact hfree.parent_eq
  case whole =>
    have hwhole := hgrown.postorder
    rw [List.flatMap_singleton] at hwhole
    rw [hroot]
    exact hwhole

variable {tree : Tree}

theorem lineage_eq_cons (hrooted : tree.Rooted) (id : NodeId) :
    tree.lineage id = id :: tree.ancestors id := by
  rw [ancestors, lineage_eq hrooted, List.tail_cons]

namespace Planted

/-- Above the root there is nothing. -/
theorem ancestors_root (hplanted : tree.Planted) : tree.ancestors tree.rootId = [] := by
  rw [ancestors, lineage_eq hplanted.rooted, hplanted.root_free]
  rfl

/-- Above a node in a slot are the holder and what is above that. -/
theorem ancestors_eq_cons (hplanted : tree.Planted) {holder child : NodeId}
    (hholds : tree.Holds holder child) :
    tree.ancestors child = holder :: tree.ancestors holder := by
  rw [ancestors, lineage_eq hplanted.rooted, hplanted.parent_eq holder child hholds,
    ← lineage_eq_cons hplanted.rooted]
  rfl

end Planted

theorem mem_ids_of_shape? {id : NodeId} {shape : Shape NodeId}
    (hshape : tree.shape? id = some shape) : id ∈ tree.ids := by
  obtain ⟨node, hnode, -⟩ := Option.map_eq_some_iff.mp hshape
  exact mem_ids_iff_find?.mpr ⟨node, hnode⟩

theorem holds_of_mem_children {id child : NodeId} {shape : Shape NodeId}
    (hshape : tree.shape? id = some shape) (hchild : child ∈ shape.children) :
    tree.Holds id child := by
  rw [Holds, children_eq, hshape]
  exact hchild

end Tree

end ScriptSyntax

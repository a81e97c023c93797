import ScriptSyntax.Proofs.Editing.Linked
import ScriptSyntax.Proofs.Traversal

/-!
# Pre-order

A walk enters a node before the nodes below it.  In a linked part the nodes that it enters are
given by recursion, and they depend on the slots in this part only.
-/

namespace ScriptSyntax.Tree

open Relation

/-- The nodes in and below a node, in the order in which a walk enters them. -/
def preorder (tree : Tree) (id : NodeId) : List NodeId :=
  (tree.recordedEvents [.before] id).map Event.id

/-- A node is entered first, then what its slots hold, one after another. -/
theorem Ordered.preorder_eq {tree : Tree} (hordered : tree.Ordered) {id : Nat}
    {shape : Shape NodeId} (hshape : tree.shape? id = some shape) :
    tree.preorder id = id :: shape.children.flatMap tree.preorder := by
  have hbelow : (shape.children.flatMap (tree.recordedEvents [.before])).map Event.id =
      shape.children.flatMap tree.preorder := List.map_flatMap ..
  rw [preorder, recordedEvents_eq hordered _ hshape, eventsAround, List.map_append,
    List.map_append, hbelow]
  simp [Event.recorded]

/-- The nodes that are entered are those that are left. -/
theorem Ordered.preorder_perm {tree : Tree} (hordered : tree.Ordered) (id : Nat) :
    (tree.preorder id).Perm (tree.postorder id) := by
  induction id using hordered.induct with
  | unknown id hshape =>
    rw [preorder, recordedEvents_of_unknown _ hshape, postorder_of_unknown hshape]
    exact .nil
  | node id shape hshape ih =>
      rw [hordered.preorder_eq hshape, postorder_eq hordered hshape]
      have hbelow := List.Perm.flatMap_left shape.children ih
      exact (hbelow.cons id).trans (List.perm_append_singleton id _).symm

/-- The nodes that are entered by a walk that goes down at most `limit` nodes. -/
def preorderWithin (tree : Tree) : (limit : Nat) → NodeId → List NodeId
  | 0, _ => []
  | limit + 1, id =>
      if id ∈ tree.ids then id :: (tree.children id).flatMap (tree.preorderWithin limit) else []

variable {tree other : Tree} {spared : Nat → Prop} {top id : Nat}

theorem map_id_foldWithin_before (tree : Tree) (limit : Nat) (id : NodeId) :
    (tree.foldWithin [] (eventsAround [.before]) limit id).map Event.id =
      tree.preorderWithin limit id := by
  induction limit generalizing id with
  | zero => rfl
  | succ limit ih =>
      rw [foldWithin, preorderWithin, shape?]
      cases hnode : tree.find? id with
      | none =>
          have hid : id ∉ tree.ids := by
            rw [mem_ids_iff_find?, hnode]
            rintro ⟨_, ⟨⟩⟩
          rw [if_neg hid]
          rfl
      | some node =>
          have hchildren : tree.children id = node.shape.children := by rw [children, hnode]; rfl
          have hbelow : (fun child => (tree.foldWithin [] (eventsAround [.before]) limit
              child).map Event.id) = tree.preorderWithin limit := funext ih
          rw [if_pos (mem_ids_iff_find?.mpr ⟨node, hnode⟩), hchildren, ← hbelow]
          simp [eventsAround, Event.recorded, List.map_flatMap]

theorem preorder_eq_within (tree : Tree) (id : NodeId) :
    tree.preorder id = tree.preorderWithin tree.size id := by
  rw [preorder, recordedEvents_eq_fold, fold, map_id_foldWithin_before]

theorem preorderWithin_of_not_mem (hid : id ∉ tree.ids) (limit : Nat) :
    tree.preorderWithin limit id = [] := by
  cases limit with
  | zero => rfl
  | succ limit => exact if_neg hid

/-- Only what is below a node is entered. -/
theorem reaches_of_mem_preorder {entered : Nat} (hentered : entered ∈ tree.preorder id) :
    tree.Reaches id entered := by
  rw [preorder_eq_within] at hentered
  generalize tree.size = limit at hentered
  induction limit generalizing id with
  | zero => cases hentered
  | succ limit ih =>
      rw [preorderWithin] at hentered
      split at hentered
      · rcases List.mem_cons.mp hentered with rfl | hentered
        · exact .refl
        · obtain ⟨child, hholds, hbelow⟩ := List.mem_flatMap.mp hentered
          exact (ih hbelow).head hholds
      · cases hentered

/-- What is entered depends on the slots in and below the node only. -/
theorem preorder_congr (hsize : other.size = tree.size)
    (hchildren : ∀ id, tree.Reaches top id → other.children id = tree.children id) :
    other.preorder top = tree.preorder top := by
  have hids : other.ids = tree.ids := by rw [ids, hsize, ids]
  rw [preorder_eq_within, preorder_eq_within, hsize]
  generalize tree.size = limit
  induction limit generalizing top with
  | zero => rfl
  | succ limit ih =>
      rw [preorderWithin, preorderWithin, hids, hchildren top .refl]
      split
      · congr 1
        apply List.flatMap_congr
        intro child hchild
        exact ih fun id hreaches => hchildren id (hreaches.head hchild)
      · rfl

/-- In a linked part a node is entered before what is entered from its children. -/
theorem Linked.preorder_eq (hlinked : tree.Linked spared top) (hreaches : tree.Reaches top id)
    (hid : id ∈ tree.ids) :
    tree.preorder id = id :: (tree.children id).flatMap tree.preorder := by
  obtain ⟨height, hfalls, hsize, hpos⟩ := hlinked.exists_height
  have hsettles : ∀ first second id, tree.Reaches top id → height id ≤ first →
      height id ≤ second → tree.preorderWithin first id = tree.preorderWithin second id := by
    intro first
    induction first with
    | zero =>
        intro second id _ hzero _
        have hunknown : id ∉ tree.ids := fun hid => Nat.not_lt_of_le hzero (hpos id hid)
        rw [preorderWithin_of_not_mem hunknown, preorderWithin_of_not_mem hunknown]
    | succ first ih =>
        intro second id hreaches hfirst hsecond
        by_cases hid : id ∈ tree.ids
        · cases second with
          | zero => exact absurd (hpos id hid) (Nat.not_lt_of_le hsecond)
          | succ second =>
              rw [preorderWithin, preorderWithin, if_pos hid, if_pos hid]
              congr 1
              apply List.flatMap_congr
              intro child hchild
              have hlt := hfalls id child hreaches hchild
              exact ih second child (hreaches.tail hchild) (by omega) (by omega)
        · rw [preorderWithin_of_not_mem hid, preorderWithin_of_not_mem hid]
  rw [preorder_eq_within, hsettles tree.size (tree.size + 1) id hreaches (hsize id)
    (Nat.le_succ_of_le (hsize id)), preorderWithin, if_pos hid]
  congr 1
  apply List.flatMap_congr
  intro child _
  rw [preorder_eq_within]

end ScriptSyntax.Tree

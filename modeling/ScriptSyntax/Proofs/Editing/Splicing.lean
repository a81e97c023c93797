import Mathlib.Data.Option.Basic
import ScriptSyntax.Proofs.Editing.Descent

/-!
# What a splice does

A splice writes one slot, the first that holds the node that gives way, and sets
the parents of two nodes.  The node that holds the slot is neither the new node nor
below it, so nothing in and below the new node changes, and every way down in the
tree after the splice is one of the tree before it or leads through the slot.
-/

namespace ScriptSyntax

open Relation

/-- Writing a reference into a slot. -/
theorem Shape.children_setChild {Ref : Type} (shape : Shape Ref) (slot : Nat) (child : Ref) :
    (shape.setChild slot child).children = shape.children.set slot child := by
  rw [setChild, children_mapIdx]
  apply List.ext_getElem?
  intro index
  rw [List.getElem?_mapIdx, List.getElem?_set]
  by_cases hindex : slot = index
  · subst hindex
    by_cases hslot : slot < shape.children.length
    · simp [hslot]
    · simp [hslot]
  · simp [hindex, Ne.symm hindex]

namespace Tree

theorem children_setChild (tree : Tree) (holder slot child id : Nat) :
    (tree.setChild holder slot child).children id =
      if id = holder then (tree.children holder).set slot child else tree.children id := by
  unfold setChild children
  rw [find?_modify]
  split
  · rename_i heq
    subst heq
    cases tree.find? id <;> simp [Shape.children_setChild]
  · rfl

theorem parent_setChild (tree : Tree) (holder slot child id : Nat) :
    (tree.setChild holder slot child).parent id = tree.parent id := by
  unfold setChild parent
  rw [find?_modify]
  split
  · cases tree.find? id <;> rfl
  · rfl

theorem children_setParent (tree : Tree) (child : Nat) (parent : Option NodeId) (id : Nat) :
    (tree.setParent child parent).children id = tree.children id := by
  unfold setParent children
  rw [find?_modify]
  split
  · cases tree.find? id <;> rfl
  · rfl

theorem parent_setParent (tree : Tree) {child : Nat} (hchild : child ∈ tree.ids)
    (parent : Option NodeId) (id : Nat) :
    (tree.setParent child parent).parent id = if id = child then parent else tree.parent id := by
  unfold setParent Tree.parent
  rw [find?_modify]
  split
  · rename_i heq
    subst heq
    obtain ⟨node, hnode⟩ := mem_ids_iff_find?.mp hchild
    simp [hnode]
  · rfl

/-- A search for a holder looks at the slots only. -/
theorem holder?_congr {first second : Tree} (hsize : first.size = second.size)
    (hchildren : ∀ id, first.children id = second.children id) (top target : NodeId) :
    first.holder? top target = second.holder? top target := by
  unfold holder?
  rw [hsize]
  generalize second.size = limit
  induction limit generalizing top with
  | zero => rfl
  | succ limit ih =>
      have hbelow : first.holderWithin? target limit = second.holderWithin? target limit :=
        funext ih
      rw [holderWithin?, holderWithin?, hchildren, hbelow]

/-- The first tree became the second as the new node took the place of the old one
in a slot of a node. -/
structure Spliced (tree : Tree) (old new holder slot : Nat) (after : Tree) : Prop where
  old_ne_new : old ≠ new
  new_mem : new ∈ tree.ids
  new_ne_root : new ≠ tree.rootId
  parent_new : tree.parent new = none
  parent_old : tree.parent old = some holder
  not_reaches : ¬tree.Reaches new holder
  slot_old : (tree.children holder)[slot]? = some old
  size_eq : after.size = tree.size
  root_eq : after.root = tree.root
  children_eq : ∀ id, after.children id =
    if id = holder then (tree.children holder).set slot new else tree.children id
  parent_after_new : after.parent new = some holder
  parent_after_old : after.parent old = after.holder? new old
  parent_after : ∀ id, id ≠ old → id ≠ new → after.parent id = tree.parent id

theorem detached_of_isDetached {tree : Tree} {id : NodeId} (hdetached : tree.isDetached id = true) :
    id ∈ tree.ids ∧ id ≠ tree.rootId ∧ tree.parent id = none := by
  simp only [isDetached, Bool.and_eq_true, bne_iff_ne, ne_eq] at hdetached
  obtain ⟨hroot, hany⟩ := hdetached
  cases hnode : tree.find? id with
  | none => simp [hnode] at hany
  | some node =>
      have hid : id ∈ tree.ids := mem_ids_iff_find?.mpr ⟨node, hnode⟩
      refine ⟨hid, ?_, ?_⟩
      · intro heq
        unfold rootId at heq
        cases hcase : tree.root with
        | none =>
            rw [hcase] at heq
            subst heq
            exact absurd (mem_ids.mp hid).1 (by simp)
        | some root =>
            rw [hcase] at heq hroot
            subst heq
            exact hroot rfl
      · simpa [parent, hnode] using hany

/-- A node is the first of its own line. -/
theorem isAncestor_self (tree : Tree) (id : NodeId) : tree.isAncestor id id = true := by
  simp [isAncestor, lineage, chain]

theorem rises_of_mem_chain {tree : Tree} {limit : Nat} {ancestor id : NodeId}
    (hmem : ancestor ∈ tree.chain limit id) : ReflTransGen tree.Rises id ancestor := by
  induction limit generalizing id with
  | zero => cases hmem
  | succ limit ih =>
      rcases List.mem_cons.mp hmem with rfl | hmem
      · exact .refl
      · cases hparent : tree.parent id with
        | none =>
            rw [hparent] at hmem
            cases hmem
        | some above =>
            rw [hparent] at hmem
            exact (ih hmem).head hparent

/-- The way up from a node meets its ancestors. -/
theorem rises_of_isAncestor {tree : Tree} {ancestor id : NodeId}
    (hancestor : tree.isAncestor ancestor id = true) : ReflTransGen tree.Rises id ancestor :=
  rises_of_mem_chain (List.contains_iff_mem.mp hancestor)

/-- The splice into the first slot that has the old node. -/
theorem spliced_of_slot {tree : Tree} {old new holder slot : Nat} (hne : old ≠ new)
    (hdetached : tree.isDetached new = true) (hparent : tree.parent old = some holder)
    (hreaches : ¬tree.Reaches new holder) (hslot : (tree.children holder).idxOf? old = some slot) :
    tree.Spliced old new holder slot
      (((tree.setChild holder slot new).setParent new (some holder)).setParent old
        ((tree.setChild holder slot new).holder? new old)) := by
  obtain ⟨hnew, hroot, hnone⟩ := detached_of_isDetached hdetached
  obtain ⟨hlength, hold, -⟩ := List.idxOf?_eq_some_iff.mp hslot
  have hids : ∀ id, id ∈ (tree.setChild holder slot new).ids ↔ id ∈ tree.ids := by
    intro id
    rw [mem_ids, mem_ids, setChild, size_modify]
  have hmem : old ∈ ((tree.setChild holder slot new).setParent new (some holder)).ids := by
    rw [mem_ids, setParent, size_modify, ← mem_ids, hids]
    exact mem_ids_of_parent hparent
  constructor
  case old_ne_new => exact hne
  case new_mem => exact hnew
  case new_ne_root => exact hroot
  case parent_new => exact hnone
  case parent_old => exact hparent
  case not_reaches => exact hreaches
  case slot_old => rw [List.getElem?_eq_getElem hlength, hold]
  case size_eq => simp only [setParent, setChild, size_modify]
  case root_eq => simp only [setParent, setChild, root_modify]
  case children_eq =>
    intro id
    rw [children_setParent, children_setParent, children_setChild]
  case parent_after_new =>
    rw [parent_setParent _ hmem, if_neg hne.symm, parent_setParent _ ((hids new).mpr hnew),
      if_pos rfl]
  case parent_after_old =>
    rw [parent_setParent _ hmem, if_pos rfl]
    apply holder?_congr
    · simp only [setParent, size_modify]
    · intro id
      rw [children_setParent, children_setParent]
  case parent_after =>
    intro id hid hother
    rw [parent_setParent _ hmem, if_neg hid, parent_setParent _ ((hids new).mpr hnew),
      if_neg hother, parent_setChild]

/-- A splice that is not refused. -/
theorem spliced_of_replace? {tree after : Tree} {old new : NodeId} (hacyclic : tree.Acyclic)
    (hreplace : tree.replace? old new = some after) :
    ∃ holder slot, tree.Spliced old new holder slot after := by
  unfold replace? at hreplace
  simp only [Option.bind_eq_bind, Option.bind_eq_some_iff, Option.guard_eq_some',
    Bool.and_eq_true, decide_eq_true_eq, Option.isNone_iff_eq_none, Bool.not_eq_true'] at hreplace
  obtain ⟨-, ⟨hne, hdetached⟩, holder, hparent, -, ⟨hholder, hancestor⟩, slot, hslot, hafter⟩ :=
    hreplace
  obtain rfl := Option.some.inj hafter
  have hreaches : ¬tree.Reaches new holder := by
    intro hreaches
    rcases reflTransGen_iff_eq_or_transGen.mp hreaches with heq | hbelow
    · rw [heq, isAncestor_self] at hancestor
      cases hancestor
    · exact (holder?_eq_none_iff hacyclic).mp hholder hbelow
  exact ⟨holder, slot, spliced_of_slot hne hdetached hparent hreaches hslot⟩

namespace Spliced

variable {tree after : Tree} {old new holder slot : Nat}

theorem slot_lt (hspliced : tree.Spliced old new holder slot after) :
    slot < (tree.children holder).length :=
  (List.getElem?_eq_some_iff.mp hspliced.slot_old).1

theorem rootId_eq (hspliced : tree.Spliced old new holder slot after) :
    after.rootId = tree.rootId := by
  rw [rootId, hspliced.root_eq, rootId]

theorem children_of_ne (hspliced : tree.Spliced old new holder slot after) {id : Nat}
    (hid : id ≠ holder) : after.children id = tree.children id := by
  rw [hspliced.children_eq, if_neg hid]

theorem children_holder (hspliced : tree.Spliced old new holder slot after) :
    after.children holder = (tree.children holder).set slot new := by
  rw [hspliced.children_eq, if_pos rfl]

/-- The slot is the only one that is new. -/
theorem holds_of_after (hspliced : tree.Spliced old new holder slot after) {id child : Nat}
    (hholds : after.Holds id child) : tree.Holds id child ∨ id = holder ∧ child = new := by
  unfold Holds at hholds ⊢
  by_cases hid : id = holder
  · subst hid
    rw [hspliced.children_holder] at hholds
    rcases List.mem_or_eq_of_mem_set hholds with hmem | heq
    · exact .inl hmem
    · exact .inr ⟨rfl, heq⟩
  · rw [hspliced.children_of_ne hid] at hholds
    exact .inl hholds

theorem holds_new (hspliced : tree.Spliced old new holder slot after) :
    after.Holds holder new := by
  unfold Holds
  rw [hspliced.children_holder]
  exact List.mem_set hspliced.slot_lt new

/-- Every slot but the one of the old node stays. -/
theorem holds_after (hspliced : tree.Spliced old new holder slot after) {id child : Nat}
    (hchild : child ≠ old) (hholds : tree.Holds id child) : after.Holds id child := by
  unfold Holds at hholds ⊢
  by_cases hid : id = holder
  · subst hid
    obtain ⟨index, hindex⟩ := List.mem_iff_getElem?.mp hholds
    have hslot : slot ≠ index := by
      rintro rfl
      rw [hspliced.slot_old] at hindex
      exact hchild (Option.some.inj hindex).symm
    rw [hspliced.children_holder]
    exact List.mem_iff_getElem?.mpr ⟨index, by rw [List.getElem?_set, if_neg hslot, hindex]⟩
  · rwa [hspliced.children_of_ne hid]

/-- Nothing changes in and below the new node. -/
theorem children_below_new (hspliced : tree.Spliced old new holder slot after) {id : Nat}
    (hreaches : tree.Reaches new id) : after.children id = tree.children id := by
  apply hspliced.children_of_ne
  rintro rfl
  exact hspliced.not_reaches hreaches

theorem reaches_new_iff (hspliced : tree.Spliced old new holder slot after) {id : Nat} :
    after.Reaches new id ↔ tree.Reaches new id :=
  reaches_congr fun _ => hspliced.children_below_new

/-- A way down after the splice is one from before it, or leads through the
slot. -/
theorem transGen_of_after (hspliced : tree.Spliced old new holder slot after) {top id : Nat}
    (hbelow : TransGen after.Holds top id) :
    TransGen tree.Holds top id ∨ tree.Reaches top holder ∧ tree.Reaches new id := by
  induction hbelow with
  | single hholds =>
      rcases hspliced.holds_of_after hholds with hholds | ⟨rfl, rfl⟩
      · exact .inl (.single hholds)
      · exact .inr ⟨.refl, .refl⟩
  | tail _ hholds ih =>
      rcases hspliced.holds_of_after hholds with hholds | ⟨rfl, rfl⟩
      · rcases ih with hbelow | ⟨htop, hnew⟩
        · exact .inl (hbelow.tail hholds)
        · exact .inr ⟨htop, hnew.tail hholds⟩
      · rcases ih with hbelow | ⟨htop, -⟩
        · exact .inr ⟨hbelow.to_reflTransGen, .refl⟩
        · exact .inr ⟨htop, .refl⟩

theorem acyclic (hspliced : tree.Spliced old new holder slot after) (hacyclic : tree.Acyclic) :
    after.Acyclic := by
  intro id hcycle
  rcases hspliced.transGen_of_after hcycle with hcycle | ⟨hholder, hnew⟩
  · exact hacyclic id hcycle
  · exact hspliced.not_reaches (hnew.trans hholder)

/-- The old node is left below its holder inside the new node. -/
theorem parent_after_old_eq_some (hspliced : tree.Spliced old new holder slot after) {inner : Nat}
    (hparent : after.parent old = some inner) :
    tree.Reaches new inner ∧ tree.Holds inner old := by
  rw [hspliced.parent_after_old] at hparent
  obtain ⟨hreaches, hholds⟩ := reaches_of_holder? hparent
  have hinner := hspliced.reaches_new_iff.mp hreaches
  unfold Holds at hholds
  rw [hspliced.children_below_new hinner] at hholds
  exact ⟨hinner, hholds⟩

end Spliced

end Tree

end ScriptSyntax

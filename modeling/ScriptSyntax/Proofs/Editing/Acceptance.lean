import ScriptSyntax.Proofs.Editing.Coherence

/-!
# When a splice is accepted

A splice is refused after two searches: one down from the new node, and one up from the node
that holds the slot.  Where the parent of a node always has it in a slot, the second search
finds nothing that the first does not, and the slot to be written is always there.  So apart
from what can be read off the two nodes a splice is refused for one reason only, that it would
put a node below itself.  A splice that is refused changes nothing; one that is accepted
changes one slot and two parents.
-/

namespace ScriptSyntax

open Relation

namespace Shape

variable {Ref Other Third : Type}

theorem map_mapIdx (f : Nat → Ref → Other) (g : Other → Third) (shape : Shape Ref) :
    (shape.mapIdx f).map g = shape.mapIdx fun slot ref => g (f slot ref) := by
  cases shape with
  | forLoop varToken init test step body =>
      rcases init with - | - | - <;> cases test <;> cases step <;>
        simp [map, mapIdx, LoopInit.mapIdx, initChildren, LoopInit.children, Function.comp_def]
  | tryCatch body handler finalizer => cases handler <;> cases finalizer <;> rfl
  | returns value => cases value <;> rfl
  | expression value => cases value <;> rfl
  | ifElse condition thenBranch elseBranch => cases elseBranch <;> rfl
  | newObject callee arguments => cases arguments <;> rfl
  | declaration name initializer => cases initializer <;> rfl
  | _ => simp [map, mapIdx, Function.comp_def]

/-- A shape without its references: what is left are its form and its tokens. -/
def frame (shape : Shape Ref) : Shape Unit :=
  shape.map fun _ => ()

/-- Writing a reference into a slot leaves the form and the tokens as they are. -/
theorem frame_setChild (shape : Shape Ref) (slot : Nat) (child : Ref) :
    (shape.setChild slot child).frame = shape.frame := by
  rw [frame, setChild, map_mapIdx, frame, map]

end Shape

namespace Tree

/-- The form of a node and its tokens. -/
def frame? (tree : Tree) (id : NodeId) : Option (Shape Unit) :=
  (tree.shape? id).map Shape.frame

/-- The new node may be put where the old one is. -/
structure MayReplace (tree : Tree) (old new : NodeId) : Prop where
  ne : old ≠ new
  new_mem : new ∈ tree.ids
  new_free : tree.parent new = none
  new_ne_root : new ≠ tree.rootId
  apart : ∃ holder, tree.parent old = some holder ∧ holder ≠ new ∧ ¬tree.Reaches new holder

/-- Nothing but a slot and the parents of two nodes has changed: the slot is the first in the
parent of the old node that has it, the new node is below this parent, and the old one is left
where the new part has it, if anywhere. -/
structure Rewired (tree : Tree) (old new : NodeId) (after : Tree) : Prop where
  root_eq : after.root = tree.root
  size_eq : after.size = tree.size
  span_eq : ∀ id, after.span id = tree.span id
  frame_eq : ∀ id, after.frame? id = tree.frame? id
  slot : ∃ holder slot, tree.parent old = some holder ∧
    (tree.children holder).idxOf? old = some slot ∧
    (∀ id, after.children id =
      if id = holder then (tree.children holder).set slot new else tree.children id) ∧
    after.parent new = some holder
  old_held : ∀ inner, after.parent old = some inner →
    after.Reaches new inner ∧ after.Holds inner old
  old_free : after.parent old = none → ∀ inner, after.Reaches new inner → ¬after.Holds inner old
  parent_eq : ∀ id, id ≠ old → id ≠ new → after.parent id = tree.parent id

variable {tree after : Tree} {old new holder : NodeId} {never : Nat → Prop}

theorem isDetached_iff {id : NodeId} :
    tree.isDetached id = true ↔ id ∈ tree.ids ∧ id ≠ tree.rootId ∧ tree.parent id = none := by
  refine ⟨detached_of_isDetached, ?_⟩
  rintro ⟨hid, hroot, hparent⟩
  obtain ⟨node, hnode⟩ := mem_ids_iff_find?.mp hid
  have hne : tree.root ≠ some id := by
    intro heq
    rw [rootId, heq] at hroot
    exact hroot rfl
  have hnone : node.parent = none := by rwa [parent, hnode] at hparent
  simp [isDetached, hne, hnode, hnone]

/-! ## Slots and parents only -/

theorem span_setParent (tree : Tree) (child : NodeId) (parent : Option NodeId) (id : NodeId) :
    (tree.setParent child parent).span id = tree.span id := by
  rw [setParent, span, find?_modify, span]
  split
  · cases tree.find? id <;> rfl
  · rfl

theorem span_setChild (tree : Tree) (holder : NodeId) (slot : Nat) (child id : NodeId) :
    (tree.setChild holder slot child).span id = tree.span id := by
  rw [setChild, span, find?_modify, span]
  split
  · cases tree.find? id <;> rfl
  · rfl

theorem frame?_setParent (tree : Tree) (child : NodeId) (parent : Option NodeId) (id : NodeId) :
    (tree.setParent child parent).frame? id = tree.frame? id := by
  rw [setParent, frame?, shape?, find?_modify, frame?, shape?]
  split
  · cases tree.find? id <;> rfl
  · rfl

theorem frame?_setChild (tree : Tree) (holder : NodeId) (slot : Nat) (child id : NodeId) :
    (tree.setChild holder slot child).frame? id = tree.frame? id := by
  rw [setChild, frame?, shape?, find?_modify, frame?, shape?]
  split
  · cases tree.find? id <;> simp [Shape.frame_setChild]
  · rfl

/-! ## Splices in coherent trees -/

/-- The way up from a node leads to nodes that have it below them. -/
theorem Coherent.reaches_of_rises (hcoherent : tree.Coherent never) {id above : Nat}
    (hrises : ReflTransGen tree.Rises id above) : tree.Reaches above id := by
  induction hrises with
  | refl => exact .refl
  | tail _ hrises ih => exact ih.head (hcoherent.parent_holds _ _ hrises)

/-- The search up from the holder finds nothing that is not below the new node. -/
theorem Coherent.not_isAncestor (hcoherent : tree.Coherent never)
    (hreaches : ¬tree.Reaches new holder) : tree.isAncestor new holder = false := by
  rw [Bool.eq_false_iff]
  intro hancestor
  exact hreaches (hcoherent.reaches_of_rises (rises_of_isAncestor hancestor))

/-- A splice that may be made is made. -/
theorem Coherent.replace?_eq (hcoherent : tree.Coherent never) (hmay : tree.MayReplace old new) :
    ∃ holder slot, tree.parent old = some holder ∧ (tree.children holder).idxOf? old = some slot ∧
      ¬tree.Reaches new holder ∧ tree.replace? old new =
        some (((tree.setChild holder slot new).setParent new (some holder)).setParent old
          ((tree.setChild holder slot new).holder? new old)) := by
  obtain ⟨holder, hparent, hne, hreaches⟩ := hmay.apart
  have hdetached := isDetached_iff.mpr ⟨hmay.new_mem, hmay.new_ne_root, hmay.new_free⟩
  have hsearch : tree.holder? new holder = none := by
    rw [holder?_eq_none_iff hcoherent.acyclic]
    exact fun hbelow => hreaches hbelow.to_reflTransGen
  obtain ⟨slot, hslot⟩ : ∃ slot, (tree.children holder).idxOf? old = some slot := by
    rw [← Option.isSome_iff_exists, List.isSome_idxOf?]
    exact hcoherent.parent_holds old holder hparent
  refine ⟨holder, slot, hparent, hslot, hreaches, ?_⟩
  simp [replace?, hmay.ne, hdetached, hparent, hsearch, hcoherent.not_isAncestor hreaches, hslot]

/-- A splice that is made may be made. -/
theorem Coherent.mayReplace_of_replace? (hcoherent : tree.Coherent never)
    (hreplace : tree.replace? old new = some after) : tree.MayReplace old new := by
  obtain ⟨holder, slot, hspliced⟩ := spliced_of_replace? hcoherent.acyclic hreplace
  refine ⟨hspliced.old_ne_new, hspliced.new_mem, hspliced.parent_new, hspliced.new_ne_root,
    holder, hspliced.parent_old, ?_, hspliced.not_reaches⟩
  rintro rfl
  exact hspliced.not_reaches .refl

theorem Coherent.rewired_of_replace? (hcoherent : tree.Coherent never)
    (hreplace : tree.replace? old new = some after) : tree.Rewired old new after := by
  have hmay := hcoherent.mayReplace_of_replace? hreplace
  obtain ⟨holder, slot, hparent, hslot, hreaches, hafter⟩ := hcoherent.replace?_eq hmay
  have hspliced := spliced_of_slot hmay.ne
    (isDetached_iff.mpr ⟨hmay.new_mem, hmay.new_ne_root, hmay.new_free⟩) hparent hreaches hslot
  rw [hreplace, Option.some.injEq] at hafter
  rw [← hafter] at hspliced
  constructor
  case root_eq => exact hspliced.root_eq
  case size_eq => exact hspliced.size_eq
  case span_eq =>
    intro id
    rw [hafter, span_setParent, span_setParent, span_setChild]
  case frame_eq =>
    intro id
    rw [hafter, frame?_setParent, frame?_setParent, frame?_setChild]
  case slot =>
    exact ⟨holder, slot, hparent, hslot, hspliced.children_eq, hspliced.parent_after_new⟩
  case old_held =>
    intro inner hinner
    rw [hspliced.parent_after_old] at hinner
    exact reaches_of_holder? hinner
  case old_free =>
    intro hnone inner hinner hholds
    rw [hspliced.parent_after_old, holder?_eq_none_iff (hspliced.acyclic hcoherent.acyclic)]
      at hnone
    exact hnone (.tail' hinner hholds)
  case parent_eq => exact hspliced.parent_after

end Tree

/-- At every point of every session a replacement is made exactly if the two nodes differ, the
new one is in the tree, below nothing and not the root, and the parent of the old one is neither
the new node nor below it; otherwise nothing changes.  If it is made, one slot and the parents
of the two nodes change, and nothing else. -/
theorem replace_succeeds_iff_and_rewires {start : Tree} (hstart : start.Initial)
    {edits : List Edit} (hgrounded : start.Grounded edits) (count : Nat) (old new : NodeId) :
    (((start.after edits count).replace? old new).isSome = true ↔
      (start.after edits count).MayReplace old new) ∧
    (¬(start.after edits count).MayReplace old new →
      (start.after edits count).replace? old new = none ∧
        (Edit.replace old new).apply (start.after edits count) = start.after edits count) ∧
    ∀ after, (start.after edits count).replace? old new = some after →
      (Edit.replace old new).apply (start.after edits count) = after ∧
        (start.after edits count).Rewired old new after := by
  have hcoherent := Tree.coherent_of_grounded hstart hgrounded count
  have hiff : ((start.after edits count).replace? old new).isSome = true ↔
      (start.after edits count).MayReplace old new := by
    rw [Option.isSome_iff_exists]
    constructor
    · rintro ⟨after, hreplace⟩
      exact hcoherent.mayReplace_of_replace? hreplace
    · intro hmay
      obtain ⟨_, _, _, _, _, hreplace⟩ := hcoherent.replace?_eq hmay
      exact ⟨_, hreplace⟩
  refine ⟨hiff, ?_, ?_⟩
  · intro hrefused
    have hnone := Option.not_isSome_iff_eq_none.mp (mt hiff.mp hrefused)
    exact ⟨hnone, Edit.apply_replace_of_none hnone⟩
  · intro after hreplace
    exact ⟨Edit.apply_replace_of_some hreplace, hcoherent.rewired_of_replace? hreplace⟩

/-- In the program `x` a sum is made of the negated name, twice: the sum may take the place of
the name, which is then below its first operand, but the operand may not. -/
theorem replace_succeeds_iff_and_rewires_doubled :
    let edits : List Edit :=
      [.make (.unaryBefore (.plain .operator "!") 1), .make (.binary 4 (.plain .operator "+") 4)]
    ∃ start after, parse .inserted [.plain .identifier "x"] = .ok start ∧ start.Initial ∧
      start.Grounded edits ∧ ¬(start.after edits 2).MayReplace 1 4 ∧
      (start.after edits 2).MayReplace 1 5 ∧ (start.after edits 2).replace? 1 5 = some after ∧
      (start.after edits 2).Rewired 1 5 after := by
  intro edits
  have hok : (parse .inserted [.plain .identifier "x"]).isOk = true := by decide +kernel
  obtain ⟨start, hparse⟩ := exists_parse hok
  have hfacts : ((parse .inserted [.plain .identifier "x"]).toOption.map fun start =>
      ([0, 1].map fun count => (start.after edits count).size,
        [4, 5].map fun new => ((start.after edits 2).replace? 1 new).isSome)) =
      some ([3, 4], [false, true]) := by
    decide +kernel
  simp only [hparse, Except.toOption, Option.map_some, Option.some.injEq, Prod.mk.injEq,
    List.map_cons, List.cons.injEq] at hfacts
  obtain ⟨⟨hzero, hone, -⟩, hrefused, hmade, -⟩ := hfacts
  have hstart : start.Initial := .inr ⟨_, _, hparse⟩
  have hgrounded : start.Grounded edits := by
    intro count edit hedit ref href
    rcases count with _ | _ | count
    · cases hedit
      obtain rfl := List.mem_singleton.mp href
      exact .inl (Tree.mem_ids.mpr ⟨by decide, by omega⟩)
    · cases hedit
      obtain rfl : ref = 4 := by simpa [Edit.references, Draft.binary, Shape.children] using href
      exact .inl (Tree.mem_ids.mpr ⟨by decide, hone.symm.le⟩)
    · cases hedit
  obtain ⟨after, hafter⟩ := Option.isSome_iff_exists.mp hmade
  have hsum := replace_succeeds_iff_and_rewires hstart hgrounded 2 1 5
  have hoperand := replace_succeeds_iff_and_rewires hstart hgrounded 2 1 4
  refine ⟨start, after, hparse, hstart, hgrounded, ?_, hsum.1.mp hmade, hafter,
    (hsum.2.2 after hafter).2⟩
  rw [← hoperand.1, hrefused]
  exact Bool.false_ne_true

end ScriptSyntax

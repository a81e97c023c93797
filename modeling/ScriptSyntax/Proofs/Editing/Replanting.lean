import ScriptSyntax.Proofs.Editing.Grafting
import ScriptSyntax.Proofs.Editing.Preorder

/-!
# Splices in the pre-order

A node of the program is replaced by one that brings along a linked part of its own, which
is apart from the program or wrapped around the node that gives way.  Then the replacement
is not refused, and the pre-order of the program shows it as a splice: the segment of the
node that gives way becomes the pre-order of the new node, and all else stays.  The program
is a linked part again.
-/

namespace ScriptSyntax.Tree

open Relation

/-- What is above the root by links to parents has it, or what is below it, in a slot. -/
def Anchored (tree : Tree) : Prop :=
  ∀ id holder, ReflTransGen tree.Rises tree.rootId id →
    tree.parent id = some holder → tree.Holds holder id

/-- Above a root without a parent there is nothing. -/
theorem anchored_of_parent_eq_none {tree : Tree} (hroot : tree.parent tree.rootId = none) :
    tree.Anchored := by
  intro id holder hup hparent
  obtain rfl | ⟨above, hrises, -⟩ := hup.cases_head
  · rw [hroot] at hparent
    cases hparent
  · rw [Rises, hroot] at hrises
    cases hrises

/-- After every step of every session the root is anchored. -/
theorem anchored_after {start : Tree} (hstart : start.Initial) {edits : List Edit}
    (hgrounded : start.Grounded edits) (count : Nat) : (start.after edits count).Anchored :=
  fun id holder _ => (coherent_of_grounded hstart hgrounded count).parent_holds id holder

/-- A node of the program that can give way to another: both the program and what the new
node brings along are linked parts, and what they share is what is below the old node, if the
new one is put around it. -/
structure Replantable (tree : Tree) (old new : Nat) : Prop where
  program : tree.Linked (fun _ => False) tree.rootId
  anchored : tree.Anchored
  old_mem : old ∈ tree.ids
  old_live : tree.Live old
  old_ne_root : old ≠ tree.rootId
  detached : tree.isDetached new = true
  /-- The link of the old node to its parent may lead out of the new part. -/
  part : tree.Linked (fun id => id = old) new
  shared : ∀ id ∈ tree.ids, tree.Reaches new id → tree.Live id →
    tree.Reaches new old ∧ tree.Reaches old id

variable {tree after : Tree} {old new holder slot : Nat}

namespace Spliced

theorem mem_ids_iff (hspliced : tree.Spliced old new holder slot after) {id : Nat} :
    id ∈ after.ids ↔ id ∈ tree.ids := by
  rw [mem_ids, mem_ids, hspliced.size_eq]

/-- The old node stands in the slot that is written and in no other of the program. -/
theorem not_holds_old_of_hungBy (hspliced : tree.Spliced old new holder slot after)
    (hhung : tree.HungBy tree.Live old holder) {id : Nat} (hid : tree.Live id) :
    ¬after.Holds id old := by
  intro hholds
  have heq : id = holder := by
    rcases hspliced.holds_of_after hholds with hbefore | ⟨heq, -⟩
    · exact hhung.unique id hid hbefore
    · exact heq
  subst heq
  have hslot := (List.getElem?_eq_some_iff.mp hspliced.slot_old).2
  have hcount : (after.children id).count old = 0 := by
    rw [hspliced.children_holder, List.count_set hspliced.slot_lt, hslot, hhung.count_eq]
    simp [hspliced.old_ne_new.symm]
  exact List.count_eq_zero.mp hcount hholds

/-- The slots before and behind the one that is written stay. -/
theorem exists_slots (hspliced : tree.Spliced old new holder slot after) :
    ∃ before behind, tree.children holder = before ++ old :: behind ∧
      after.children holder = before ++ new :: behind := by
  have hlength := hspliced.slot_lt
  have hold : (tree.children holder)[slot] = old :=
    (List.getElem?_eq_some_iff.mp hspliced.slot_old).2
  refine ⟨(tree.children holder).take slot, (tree.children holder).drop (slot + 1), ?_, ?_⟩
  · rw [← hold, List.getElem_cons_drop, List.take_append_drop]
  · rw [hspliced.children_holder, List.set_eq_take_append_cons_drop, if_pos hlength]

end Spliced

namespace Replantable

variable (hreplant : tree.Replantable old new)

include hreplant

theorem exists_holder :
    ∃ holder, tree.HungBy tree.Live old holder ∧ tree.parent old = some holder := by
  obtain ⟨holder, hhung, hparent⟩ :=
    hreplant.program.hung old hreplant.old_mem hreplant.old_live hreplant.old_ne_root
  exact ⟨holder, hhung, hparent not_false⟩

theorem not_live_new : ¬tree.Live new := by
  obtain ⟨hnew, hroot, hnone⟩ := detached_of_isDetached hreplant.detached
  intro hlive
  obtain ⟨holder, -, hparent⟩ := hreplant.program.hung new hnew hlive hroot
  rw [hparent not_false] at hnone
  cases hnone

theorem old_ne_new : old ≠ new := by
  rintro rfl
  exact hreplant.not_live_new hreplant.old_live

/-- The new part does not have the node with the slot that is written. -/
theorem not_reaches_holder (hhung : tree.HungBy tree.Live old holder) :
    ¬tree.Reaches new holder := by
  intro hreaches
  have hbelow := (hreplant.shared holder (mem_ids_of_holds hhung.holds) hreaches hhung.inside).2
  exact hreplant.program.not_reaches hhung.inside hhung.holds hbelow

/-- Links to parents lead from the program to nodes that have it, or a part of it, below
them. -/
theorem reaches_of_rises {start above : Nat} (hstart : tree.Live start)
    (hrises : ReflTransGen tree.Rises start above) :
    tree.Reaches above start ∧ (tree.Live above ∨ ReflTransGen tree.Rises tree.rootId above) := by
  induction hrises with
  | refl => exact ⟨.refl, .inl hstart⟩
  | @tail id above _ hrise ih =>
      have hroot : ReflTransGen tree.Rises tree.rootId id →
          tree.Holds above id ∧ ReflTransGen tree.Rises tree.rootId above :=
        fun hup => ⟨hreplant.anchored id above hup hrise, hup.tail hrise⟩
      have hstep : tree.Holds above id ∧
          (tree.Live above ∨ ReflTransGen tree.Rises tree.rootId above) := by
        rcases ih.2 with hlive | hup
        · by_cases hid : id = tree.rootId
          · subst hid
            exact (hroot .refl).imp_right .inr
          · obtain ⟨holder, hhung, hparent⟩ :=
              hreplant.program.hung id (mem_ids_of_parent hrise) hlive hid
            have hsame : tree.parent id = some above := hrise
            rw [hparent not_false] at hsame
            cases hsame
            exact ⟨hhung.holds, .inl hhung.inside⟩
        · exact (hroot hup).imp_right .inr
      exact ⟨ih.1.head hstep.1, hstep.2⟩

/-- The new node is not above the node with the slot. -/
theorem isAncestor_eq_false (hhung : tree.HungBy tree.Live old holder) :
    tree.isAncestor new holder = false := by
  rw [Bool.eq_false_iff]
  intro hancestor
  have hup := rises_of_isAncestor hancestor
  exact hreplant.not_reaches_holder hhung (hreplant.reaches_of_rises hhung.inside hup).1

/-- What leads to a node below the old one is below the old one too. -/
theorem reaches_old_of_holds {id child : Nat} (hchild : child ∈ tree.ids) (hid : tree.Live id)
    (hholds : tree.Holds id child) (hreaches : tree.Reaches old child) (hne : child ≠ old) :
    tree.Reaches old id := by
  rcases hreaches.cases_tail with heq | ⟨between, hbetween, hlast⟩
  · exact absurd heq hne
  · obtain rfl := hreplant.program.holder_unique hchild hid hholds
      (hreplant.old_live.trans hbetween) hlast
    exact hbetween

/-- The replacement is not refused. -/
theorem exists_spliced :
    ∃ after holder slot, tree.replace? old new = some after ∧
      tree.Spliced old new holder slot after ∧ tree.HungBy tree.Live old holder := by
  obtain ⟨holder, hhung, hparent⟩ := hreplant.exists_holder
  have hreaches := hreplant.not_reaches_holder hhung
  have hsearch : tree.holder? new holder = none := by
    cases hfound : tree.holder? new holder with
    | none => rfl
    | some inner =>
        obtain ⟨hinner, hholds⟩ := reaches_of_holder? hfound
        exact absurd (hinner.tail hholds) hreaches
  obtain ⟨slot, hslot⟩ : ∃ slot, (tree.children holder).idxOf? old = some slot := by
    rw [← Option.isSome_iff_exists, List.isSome_idxOf?]
    exact hhung.holds
  refine ⟨_, holder, slot, ?_,
    spliced_of_slot hreplant.old_ne_new hreplant.detached hparent hreaches hslot, hhung⟩
  simp [replace?, hreplant.old_ne_new, hreplant.detached, hparent, hsearch,
    hreplant.isAncestor_eq_false hhung, hslot]

section After

/-! In this section the new node has taken the place of the old one. -/

variable (hspliced : tree.Spliced old new holder slot after)

include hspliced

/-- The holder of the old node inside the new part becomes its parent. -/
theorem parent_after_old_of_reaches (hwrapped : tree.Reaches new old) :
    ∃ inner, tree.HungBy (tree.Reaches new) old inner ∧ after.parent old = some inner := by
  obtain ⟨inner, hinner, -⟩ :=
    hreplant.part.hung old hreplant.old_mem hwrapped hspliced.old_ne_new
  refine ⟨inner, hinner, ?_⟩
  have hlinked : after.Linked (fun _ => True) new := by
    constructor
    · intro id hid hholds
      rw [hspliced.reaches_new_iff] at hid
      exact hreplant.part.unheld id hid ((hspliced.holds_below_new hid).mp hholds)
    · intro id hid hreaches hne
      rw [hspliced.reaches_new_iff] at hreaches
      obtain ⟨top, htop, -⟩ := hreplant.part.hung id
        ((hspliced.mem_ids_iff).mp hid) hreaches hne
      refine ⟨top, ⟨hspliced.reaches_new_iff.mpr htop.inside, ?_, ?_⟩, fun hfalse =>
        absurd trivial hfalse⟩
      · rw [hspliced.children_below_new htop.inside]
        exact htop.count_eq
      · intro other hother hholds
        rw [hspliced.reaches_new_iff] at hother
        exact htop.unique other hother ((hspliced.holds_below_new hother).mp hholds)
  have hbelow : TransGen after.Holds new old :=
    .tail' (hspliced.reaches_new_iff.mpr hinner.inside)
      ((hspliced.holds_below_new hinner.inside).mpr hinner.holds)
  obtain ⟨found, hfound⟩ := hlinked.exists_holder? hbelow
  rw [← hspliced.parent_after_old] at hfound
  obtain ⟨hreaches, hholds⟩ := hspliced.parent_after_old_eq_some hfound
  rw [hfound, hinner.unique found hreaches hholds]

variable (hhung : tree.HungBy tree.Live old holder)

include hhung

/-- After the splice the nodes of the program are those that are not below the old node, and
the new node with what is below it. -/
theorem live_after_iff {id : Nat} (hid : id ∈ tree.ids) :
    after.Live id ↔ tree.Live id ∧ ¬tree.Reaches old id ∨ tree.Reaches new id := by
  have hholder := hhung.inside
  have hnotHolder : ¬tree.Reaches old holder :=
    hreplant.program.not_reaches hholder hhung.holds
  have hkept : ∀ {id}, tree.Live id → ¬tree.Reaches old id → after.Live id := by
    intro id hreaches
    unfold Live
    rw [hspliced.rootId_eq]
    induction hreaches with
    | refl => exact fun _ => .refl
    | @tail between child _ hholds ih =>
        intro hnot
        have hchild : child ≠ old := by
          rintro rfl
          exact hnot .refl
        exact (ih fun hbetween => hnot (hbetween.tail hholds)).tail
          (hspliced.holds_after hchild hholds)
  constructor
  · intro hreaches
    unfold Live at hreaches
    rw [hspliced.rootId_eq] at hreaches
    induction hreaches with
    | refl => exact .inl ⟨.refl, fun hreturn => hnotHolder (hreturn.trans hholder)⟩
    | @tail between child _ hholds ih =>
        rcases hspliced.holds_of_after hholds with hbefore | ⟨-, rfl⟩
        · rcases ih (mem_ids_of_holds hbefore) with ⟨hbetween, hnot⟩ | hnew
          · refine .inl ⟨hbetween.tail hbefore, fun hreaches => ?_⟩
            by_cases hchild : child = old
            · subst hchild
              exact hspliced.not_holds_old_of_hungBy hhung hbetween hholds
            · exact hnot (hreplant.reaches_old_of_holds hid hbetween hbefore
                hreaches hchild)
          · exact .inr (hnew.tail hbefore)
        · exact .inr .refl
  · rintro (⟨hlive, hnot⟩ | hnew)
    · exact hkept hlive hnot
    · exact ((hkept hholder hnotHolder).tail hspliced.holds_new).trans
        (hspliced.reaches_new_iff.mpr hnew)

/-- Nothing of the program holds its root after the splice. -/
theorem unheld_after {id : Nat} (hlive : after.Live id) : ¬after.Holds id tree.rootId := by
  intro hholds
  rcases hspliced.holds_of_after hholds with hbefore | ⟨-, heq⟩
  · have hid := mem_ids_of_holds hbefore
    rcases (hreplant.live_after_iff hspliced hhung hid).mp hlive with ⟨hlive, -⟩ | hnew
    · exact hreplant.program.unheld id hlive hbefore
    · exact hspliced.not_reaches_root hhung.inside (hnew.tail hbefore)
  · exact hspliced.new_ne_root heq.symm

/-- What stays of the program hangs where it hung. -/
theorem hungBy_of_stays {id : Nat} (hid : id ∈ tree.ids) (hlive : tree.Live id)
    (hroot : id ≠ tree.rootId) (hold : ¬tree.Reaches old id) (hnew : ¬tree.Reaches new id) :
    ∃ top, after.HungBy after.Live id top ∧ after.parent id = some top := by
  have hneOld : id ≠ old := by
    rintro rfl
    exact hold .refl
  have hneNew : id ≠ new := by
    rintro rfl
    exact hnew .refl
  obtain ⟨top, htop, hparent⟩ := hreplant.program.hung id hid hlive hroot
  refine ⟨top, ⟨?_, ?_, ?_⟩, ?_⟩
  · rw [hreplant.live_after_iff hspliced hhung (mem_ids_of_holds htop.holds)]
    exact .inl ⟨htop.inside, fun hbelow => hold (hbelow.tail htop.holds)⟩
  · rw [hspliced.count_after hneOld hneNew]
    exact htop.count_eq
  · intro other hother hholds
    have hbefore := hspliced.holds_of_after_of_ne hneNew hholds
    rcases (hreplant.live_after_iff hspliced hhung (mem_ids_of_holds hbefore)).mp hother with
      ⟨hother, -⟩ | hother
    · exact htop.unique other hother hbefore
    · exact absurd (hother.tail hbefore) hnew
  · rw [hspliced.parent_after id hneOld hneNew]
    exact hparent not_false

/-- The new node hangs in the slot that was written. -/
theorem hungBy_new : after.HungBy after.Live new holder := by
  have hnot := hreplant.not_live_new
  refine ⟨?_, ?_, ?_⟩
  · rw [hreplant.live_after_iff hspliced hhung (mem_ids_of_holds hhung.holds)]
    exact .inl ⟨hhung.inside, hreplant.program.not_reaches hhung.inside hhung.holds⟩
  · have hslot := (List.getElem?_eq_some_iff.mp hspliced.slot_old).2
    have hzero : (tree.children holder).count new = 0 :=
      List.count_eq_zero.mpr fun hholds => hnot (hhung.inside.tail hholds)
    rw [hspliced.children_holder, List.count_set hspliced.slot_lt, hslot, hzero]
    simp [hspliced.old_ne_new]
  · intro other hother hholds
    rcases hspliced.holds_of_after hholds with hbefore | ⟨heq, -⟩
    · rcases (hreplant.live_after_iff hspliced hhung (mem_ids_of_holds hbefore)).mp hother with
        ⟨hother, -⟩ | hother
      · exact absurd (hother.tail hbefore) hnot
      · exact absurd hbefore (hreplant.part.unheld other hother)
    · exact heq

/-- What the new node brings along hangs where it hung. -/
theorem hungBy_of_brought {id : Nat} (hid : id ∈ tree.ids) (hreaches : tree.Reaches new id)
    (hnew : id ≠ new) :
    ∃ top, after.HungBy after.Live id top ∧ after.parent id = some top := by
  obtain ⟨top, htop, hparent⟩ := hreplant.part.hung id hid hreaches hnew
  refine ⟨top, ⟨?_, ?_, ?_⟩, ?_⟩
  · rw [hreplant.live_after_iff hspliced hhung (mem_ids_of_holds htop.holds)]
    exact .inr htop.inside
  · rw [hspliced.children_below_new htop.inside]
    exact htop.count_eq
  · intro other hother hholds
    have hbefore := hspliced.holds_of_after_of_ne hnew hholds
    rcases (hreplant.live_after_iff hspliced hhung (mem_ids_of_holds hbefore)).mp hother with
      ⟨hother, hnot⟩ | hother
    · -- Only what is below the old node is shared, and of its holders none is left.
      have hbelow := (hreplant.shared id hid hreaches (hother.tail hbefore)).2
      by_cases hold : id = old
      · subst hold
        exact absurd hholds (hspliced.not_holds_old_of_hungBy hhung hother)
      · exact absurd (hreplant.reaches_old_of_holds hid hother hbefore hbelow hold)
          hnot
    · exact htop.unique other hother hbefore
  · by_cases hold : id = old
    · subst hold
      obtain ⟨inner, hinner, hfound⟩ :=
        hreplant.parent_after_old_of_reaches hspliced hreaches
      rw [hfound, hinner.unique top htop.inside htop.holds]
    · rw [hspliced.parent_after id hold hnew]
      exact hparent hold

/-- The program is a linked part again. -/
theorem linked_after : after.Linked (fun _ => False) after.rootId := by
  constructor
  · intro id hlive
    rw [hspliced.rootId_eq]
    exact hreplant.unheld_after hspliced hhung hlive
  · intro id hid hlive hroot
    rw [hspliced.rootId_eq] at hroot
    rw [hspliced.mem_ids_iff] at hid
    have hresult : ∃ top, after.HungBy after.Live id top ∧ after.parent id = some top := by
      by_cases hbrought : tree.Reaches new id
      · by_cases hnew : id = new
        · subst hnew
          exact ⟨holder, hreplant.hungBy_new hspliced hhung, hspliced.parent_after_new⟩
        · exact hreplant.hungBy_of_brought hspliced hhung hid hbrought hnew
      · rcases (hreplant.live_after_iff hspliced hhung hid).mp hlive with ⟨hlive, hold⟩ | hnew
        · exact hreplant.hungBy_of_stays hspliced hhung hid hlive hroot hold hbrought
        · exact absurd hnew hbrought
    obtain ⟨top, htop, hparent⟩ := hresult
    exact ⟨top, htop, fun _ => hparent⟩

/-- If one child of a node leads to the old node, the pre-order of the node changes with that
of the child. -/
theorem segment_of_child {id child other : Nat} {before behind : List Nat} (hlive : tree.Live id)
    (hchild : tree.Reaches child old) (hbefore : tree.children id = before ++ child :: behind)
    (hafter : after.children id = before ++ other :: behind)
    (hsegment : ∃ front back, tree.preorder child = front ++ tree.preorder old ++ back ∧
      old ∉ front ∧ after.preorder other = front ++ tree.preorder new ++ back) :
    ∃ front back, tree.preorder id = front ++ tree.preorder old ++ back ∧ old ∉ front ∧
      after.preorder id = front ++ tree.preorder new ++ back := by
  have hholds : tree.Holds id child := by
    unfold Holds
    rw [hbefore]
    exact List.mem_append_right _ List.mem_cons_self
  have hid := mem_ids_of_holds hholds
  have hnot : ¬tree.Reaches old id := fun hup =>
    hreplant.program.not_reaches hlive hholds (hchild.trans hup)
  have hliveAfter : after.Live id :=
    (hreplant.live_after_iff hspliced hhung hid).mpr (.inl ⟨hlive, hnot⟩)
  -- The child stands in one slot only, so what is below the others is apart from it.
  have hcount := (hreplant.program.hungBy (mem_ids_of_reaches hchild hreplant.old_mem) hlive
    hholds).1.count_eq
  rw [hbefore, List.count_append, List.count_cons_self] at hcount
  have hapart : ∀ sibling ∈ before ++ behind, ¬tree.Reaches sibling old := by
    intro sibling hsibling
    have hne : child ≠ sibling := by
      rintro rfl
      have hpos := List.count_pos_iff.mpr hsibling
      rw [List.count_append] at hpos
      omega
    have hheld : tree.Holds id sibling := by
      unfold Holds
      rw [hbefore]
      rcases List.mem_append.mp hsibling with hmem | hmem
      · exact List.mem_append_left _ hmem
      · exact List.mem_append_right _ (List.mem_cons_of_mem _ hmem)
    exact hreplant.program.not_reaches_sibling hlive hholds hheld hne hreplant.old_mem hchild
  have hkept : ∀ sibling ∈ before ++ behind, after.preorder sibling = tree.preorder sibling := by
    intro sibling hsibling
    apply preorder_congr hspliced.size_eq
    intro below hbelow
    apply hspliced.children_of_ne
    rintro rfl
    exact hapart sibling hsibling (hbelow.tail hhung.holds)
  have hfront : before.flatMap after.preorder = before.flatMap tree.preorder :=
    List.flatMap_congr fun sibling hsibling => hkept sibling (List.mem_append_left _ hsibling)
  have hback : behind.flatMap after.preorder = behind.flatMap tree.preorder :=
    List.flatMap_congr fun sibling hsibling => hkept sibling (List.mem_append_right _ hsibling)
  obtain ⟨front, back, hold, hmem, hnew⟩ := hsegment
  refine ⟨id :: before.flatMap tree.preorder ++ front, back ++ behind.flatMap tree.preorder,
    ?_, ?_, ?_⟩
  · rw [hreplant.program.preorder_eq hlive hid, hbefore, List.flatMap_append, List.flatMap_cons,
      hold]
    simp only [List.cons_append, List.append_assoc]
  · intro hentered
    rcases List.mem_append.mp hentered with hentered | hentered
    · rcases List.mem_cons.mp hentered with rfl | hentered
      · exact hnot .refl
      · obtain ⟨sibling, hsibling, hbelow⟩ := List.mem_flatMap.mp hentered
        exact hapart sibling (List.mem_append_left _ hsibling) (reaches_of_mem_preorder hbelow)
    · exact hmem hentered
  · have hlinked := hreplant.linked_after hspliced hhung
    rw [hlinked.preorder_eq hliveAfter (hspliced.mem_ids_iff.mpr hid),
      hafter, List.flatMap_append, List.flatMap_cons, hnew, hfront, hback]
    simp only [List.cons_append, List.append_assoc]

/-- On the way down to the slot that is written the pre-order changes in one segment. -/
theorem exists_segment {id : Nat} (hlive : tree.Live id) (hdown : tree.Reaches id holder) :
    ∃ front back, tree.preorder id = front ++ tree.preorder old ++ back ∧ old ∉ front ∧
      after.preorder id = front ++ tree.preorder new ++ back := by
  induction hdown using ReflTransGen.head_induction_on with
  | refl =>
      obtain ⟨before, behind, hbefore, hafter⟩ := hspliced.exists_slots
      refine hreplant.segment_of_child hspliced hhung hlive .refl hbefore hafter
        ⟨[], [], ?_, List.not_mem_nil, ?_⟩
      · rw [List.nil_append, List.append_nil]
      · rw [List.nil_append, List.append_nil]
        exact preorder_congr hspliced.size_eq fun _ => hspliced.children_below_new
  | @head id child hholds hdown ih =>
      obtain ⟨before, behind, hbefore⟩ := List.append_of_mem hholds
      have hne : id ≠ holder := by
        rintro rfl
        exact hreplant.program.not_reaches hlive hholds hdown
      have hafter := hspliced.children_of_ne hne
      rw [hbefore] at hafter
      exact hreplant.segment_of_child hspliced hhung hlive (hdown.tail hhung.holds) hbefore hafter
        (ih (hlive.tail hholds))

end After

end Replantable

/-- Replacing a node by one that can be put in its place succeeds, and is a splice of the
pre-order: the segment of the old node becomes the pre-order of the new one.  The program is a
linked part again, and the parent of the old node is its holder inside the new part, or none
if the new node is not put around it. -/
theorem replace_splices_preorder {tree : Tree} {old new : Nat}
    (hreplant : tree.Replantable old new) :
    ∃ after, tree.replace? old new = some after ∧
      (∃ front back, tree.preorder tree.rootId = front ++ tree.preorder old ++ back ∧
        old ∉ front ∧ after.preorder after.rootId = front ++ tree.preorder new ++ back) ∧
      after.Linked (fun _ => False) after.rootId ∧
      (tree.Reaches new old → ∃ holder, tree.HungBy (tree.Reaches new) old holder ∧
        after.parent old = some holder) ∧
      (¬tree.Reaches new old → after.parent old = none) := by
  obtain ⟨after, holder, slot, hreplace, hspliced, hhung⟩ := hreplant.exists_spliced
  refine ⟨after, hreplace, ?_, hreplant.linked_after hspliced hhung,
    hreplant.parent_after_old_of_reaches hspliced, ?_⟩
  · rw [hspliced.rootId_eq]
    exact hreplant.exists_segment hspliced hhung .refl hhung.inside
  · intro hapart
    cases hparent : after.parent old with
    | none => rfl
    | some inner =>
        obtain ⟨hreaches, hholds⟩ := hspliced.parent_after_old_eq_some hparent
        exact absurd (hreaches.tail hholds) hapart

end ScriptSyntax.Tree

namespace ScriptSyntax

/-- In the program `x; y;` the first name is put under an operator, where it stands. -/
theorem replace_splices_preorder_wrapped :
    let tokens : List Token := [.plain .identifier "x", .plain .punctuation ";",
      .plain .identifier "y", .plain .punctuation ";"]
    let draft : Draft := .unaryBefore (.plain .operator "!") 1
    ∃ start, parse .inserted tokens = .ok start ∧ (start.add draft).2.Replantable 1 6 ∧
      ∃ after, (start.add draft).2.replace? 1 6 = some after ∧
        after.Linked (fun _ => False) after.rootId ∧ after.parent 1 = some 6 ∧
        after.preorder after.rootId = [5, 2, 6, 1, 4, 3] := by
  intro tokens draft
  have hok : (parse .inserted tokens).isOk = true := by decide +kernel
  obtain ⟨start, hparse⟩ := exists_parse hok
  have hslots : ((parse .inserted tokens).toOption.map fun start =>
      let tree := (start.add draft).2
      (tree.size, tree.rootId, [1, 2, 3, 4, 5, 6].map tree.children)) =
      some (6, 5, [[], [1], [], [3], [2, 4], [1]]) := by
    decide +kernel
  have hlinks : ((parse .inserted tokens).toOption.map fun start =>
      let tree := (start.add draft).2
      ([1, 2, 3, 4, 5].map tree.parent, tree.isDetached 6)) =
      some ([some 2, some 5, some 4, some 5, none], true) := by
    decide +kernel
  have horders : ((parse .inserted tokens).toOption.map fun start =>
      let tree := (start.add draft).2
      [5, 6, 1].map tree.preorder) = some [[5, 2, 1, 4, 3], [6, 1], [1]] := by
    decide +kernel
  simp only [hparse, Except.toOption, Option.map_some, Option.some.injEq, Prod.mk.injEq,
    List.map_cons, List.map_nil, List.cons.injEq, and_true] at hslots hlinks horders
  obtain ⟨hsize, hroot, hone, htwo, hthree, hfour, hfive, hsix⟩ := hslots
  obtain ⟨⟨honeUp, htwoUp, hthreeUp, hfourUp, hfiveUp⟩, hdetached⟩ := hlinks
  obtain ⟨hprogram, hnew, hold⟩ := horders
  refine ⟨start, hparse, ?_⟩
  generalize (start.add draft).2 = tree at *
  have hlive : ∀ {id}, tree.Live id → id ∈ [5, 4, 3, 2, 1] :=
    Tree.mem_of_reaches (by simp [hone, htwo, hthree, hfour, hfive]) (by simp [hroot])
  have hbelow : ∀ {id}, tree.Reaches 6 id → id ∈ [6, 1] :=
    Tree.mem_of_reaches (by simp [hone, hsix]) (by simp)
  have hliveTwo : tree.Live 2 := .single (by simp [Tree.Holds, hroot, hfive])
  have hliveOne : tree.Live 1 := hliveTwo.tail (by simp [Tree.Holds, htwo])
  have hwrapped : tree.Holds 6 1 := by simp [Tree.Holds, hsix]
  have hprogramLinks : ∀ {holder child}, tree.Live holder → tree.Holds holder child →
      (holder, child) ∈ [(5, 2), (5, 4), (4, 3), (2, 1)] := by
    intro holder child hholder hchild
    have hmem := hlive hholder
    simp only [List.mem_cons, List.not_mem_nil, or_false] at hmem
    rcases hmem with rfl | rfl | rfl | rfl | rfl <;> simp_all [Tree.Holds]
  have hpartLinks : ∀ {holder child}, tree.Reaches 6 holder → tree.Holds holder child →
      (holder, child) ∈ [(6, 1)] := by
    intro holder child hholder hchild
    rcases List.mem_pair.mp (hbelow hholder) with rfl | rfl <;> simp_all [Tree.Holds]
  have hreplant : tree.Replantable 1 6 := by
    constructor
    case program =>
      exact Tree.linked_of_links hprogramLinks (by decide) (by simp [hroot])
        (by simp [hfive, hfour, htwo]) (by simp [honeUp, htwoUp, hthreeUp, hfourUp])
    case anchored => exact Tree.anchored_of_parent_eq_none (by rw [hroot, hfiveUp])
    case old_mem => exact Tree.mem_ids.mpr ⟨by decide, by omega⟩
    case old_live => exact hliveOne
    case old_ne_root =>
      rw [hroot]
      decide
    case detached => exact hdetached
    case part =>
      exact Tree.linked_of_links hpartLinks (by decide) (by decide) (by simp [hsix]) (by simp)
    case shared =>
      intro id _ hid hshared
      rcases List.mem_pair.mp (hbelow hid) with rfl | rfl
      · exact absurd (hlive hshared) (by decide)
      · exact ⟨.single hwrapped, .refl⟩
  obtain ⟨after, hreplace, ⟨front, back, hbefore, hmem, hafter⟩, hlinked, hparent, -⟩ :=
    Tree.replace_splices_preorder hreplant
  obtain ⟨inner, hinner, hinnerUp⟩ := hparent (.single hwrapped)
  have hsixInner : 6 = inner := hinner.unique 6 .refl hwrapped
  rw [hroot, hprogram, hold, List.append_assoc] at hbefore
  have hsplit : [5, 2] ++ 1 :: [4, 3] = front ++ 1 :: back := hbefore
  obtain ⟨hfront, -, hback⟩ :=
    (List.append_cons_inj_of_notMem (by decide) (by decide)).mp hsplit
  refine ⟨hreplant, after, hreplace, hlinked, ?_, ?_⟩
  · rw [hinnerUp, ← hsixInner]
  · rw [hafter, hnew, ← hfront, ← hback]
    rfl

end ScriptSyntax

import ScriptSyntax.Proofs.Editing.Standing

/-!
# When splices keep the program a tree

A new node may refer to nodes that hang elsewhere, and a splice moves the new node
and the node that gives way only.  So the program need not stay a tree: a node that
the new node wraps is found in two places if it stays where it was, and has its old
parent if that goes.  What is spliced in must be a tree of its own, save for the
parent of the node that gives way, and must share no node with what is left of the
program.  That is exactly the condition: with it the program stays a tree, without
it the program is none afterwards.
-/

namespace ScriptSyntax

open Relation

namespace Tree

/-- What a node brings along if it takes the place of another: a tree, in which only
the other node may have a parent outside, and which shares nodes with the program only
below the other node. -/
structure Graftable (tree : Tree) (old new : Nat) : Prop where
  apart : ∀ id, tree.Reaches new id → tree.Live id → tree.Reaches old id
  hung : ∀ id, tree.Reaches new id → id ≠ new →
    ∃ holder, tree.HungBy (tree.Reaches new) id holder ∧ (id = old ∨ tree.parent id = some holder)

/-- Every reference that a new node is given is to a node that is there. -/
def Supplied (start : Tree) (edits : List Edit) : Prop :=
  ∀ count edit, edits[count]? = some edit → ∀ ref ∈ edit.references,
    ref ∈ (start.after edits count).ids

end Tree

/-- The change is one that leaves the program a tree: a new root is put on trees, and
what is spliced into the program can be grafted. -/
def Edit.Fits (tree : Tree) : Edit → Prop
  | .make draft => draft.shape.isRoot = true → tree.Rootable draft.shape.children
  | .replace old new => (tree.replace? old new).isSome = true → tree.Live old →
      old ≠ tree.rootId → tree.Graftable old new

namespace Tree

variable {never : Nat → Prop} {tree after : Tree}

/-! ## Splices -/

namespace Spliced

variable {old new holder slot : Nat}

theorem not_live_new (hspliced : tree.Spliced old new holder slot after)
    (hlive : tree.LiveTree) : ¬tree.Live new := by
  intro hnew
  obtain ⟨parent, -, hparent⟩ := hlive new hnew hspliced.new_ne_root
  rw [hspliced.parent_new] at hparent
  cases hparent

/-- A splice outside of the program does not touch it. -/
theorem liveTree_of_not_live (hspliced : tree.Spliced old new holder slot after)
    (hlive : tree.LiveTree) (hholder : ¬tree.Live holder) : after.LiveTree := by
  unfold LiveTree
  rw [hspliced.rootId_eq]
  apply hlive.transfer
  · intro id hreaches
    apply hspliced.children_of_ne
    rintro rfl
    exact hholder hreaches
  · intro id hreaches hid
    apply hspliced.parent_after
    · rintro rfl
      obtain ⟨parent, hhung, hparent⟩ := hlive id hreaches hid
      rw [hspliced.parent_old] at hparent
      obtain rfl := Option.some.inj hparent
      exact hholder hhung.inside
    · rintro rfl
      exact hspliced.not_live_new hlive hreaches

/-- What leads to a node below the old one is below the old one too. -/
theorem reaches_old_of_holds (hcoherent : tree.Coherent never) (hlive : tree.LiveTree)
    (hold : tree.Live old) {id child : Nat} (hid : tree.Live id) (hholds : tree.Holds id child)
    (hreaches : tree.Reaches old child) (hchild : child ≠ old) : tree.Reaches old id := by
  rcases hreaches.cases_tail with heq | ⟨between, hbetween, hholder⟩
  · exact absurd heq hchild
  · have hhung := (hlive.hungBy hcoherent.acyclic hid hholds).1
    obtain rfl := hhung.unique between (hold.trans hbetween) hholder
    exact hbetween

/-- The number of slots of a node that hold another one stays, the old and the new
node apart. -/
theorem count_after (hspliced : tree.Spliced old new holder slot after) {child : Nat}
    (hold : child ≠ old) (hnew : child ≠ new) (id : Nat) :
    (after.children id).count child = (tree.children id).count child := by
  by_cases hid : id = holder
  · subst hid
    have hslot := (List.getElem?_eq_some_iff.mp hspliced.slot_old).2
    rw [hspliced.children_holder, List.count_set hspliced.slot_lt, hslot]
    simp [hold.symm, hnew.symm]
  · rw [hspliced.children_of_ne hid]

/-- A slot of the program that holds a node other than the new one is one from before
the splice. -/
theorem holds_of_after_of_ne (hspliced : tree.Spliced old new holder slot after) {id child : Nat}
    (hchild : child ≠ new) (hholds : after.Holds id child) : tree.Holds id child := by
  rcases hspliced.holds_of_after hholds with hbefore | ⟨-, heq⟩
  · exact hbefore
  · exact absurd heq hchild

/-- The slots below the new node are those from before the splice. -/
theorem holds_below_new (hspliced : tree.Spliced old new holder slot after) {id child : Nat}
    (hreaches : tree.Reaches new id) : after.Holds id child ↔ tree.Holds id child := by
  unfold Holds
  rw [hspliced.children_below_new hreaches]

/-- The parent that is found for the old node inside the new one is its holder
there. -/
theorem parent_old_of_hungBy (hspliced : tree.Spliced old new holder slot after)
    (hacyclic : tree.Acyclic) {top : Nat} (hhung : tree.HungBy (tree.Reaches new) old top) :
    after.parent old = some top := by
  cases hparent : after.parent old with
  | none =>
      rw [hspliced.parent_after_old, holder?_eq_none_iff (hspliced.acyclic hacyclic)] at hparent
      have hbelow : TransGen after.Holds new old :=
        .tail' (hspliced.reaches_new_iff.mpr hhung.inside)
          ((hspliced.holds_below_new hhung.inside).mpr hhung.holds)
      exact absurd hbelow hparent
  | some inner =>
      obtain ⟨hreaches, hholds⟩ := hspliced.parent_after_old_eq_some hparent
      rw [hhung.unique inner hreaches hholds]

/-- The root is not below what is spliced into the program. -/
theorem not_reaches_root (hspliced : tree.Spliced old new holder slot after)
    (hholder : tree.Live holder) : ¬tree.Reaches new tree.rootId :=
  fun hreaches => hspliced.not_reaches (hreaches.trans hholder)

section Inside

/-! In this section the slot belongs to the program. -/

variable (hspliced : tree.Spliced old new holder slot after) (hcoherent : tree.Coherent never)
variable (hlive : tree.LiveTree) (hholder : tree.Live holder)
include hspliced hcoherent hlive hholder

theorem hungBy_old : tree.HungBy tree.Live old holder :=
  (hlive.hungBy hcoherent.acyclic hholder
    (hcoherent.parent_holds old holder hspliced.parent_old)).1

/-- The old node stands in the slot that is written and in no other of the program. -/
theorem not_holds_old {id : Nat} (hid : tree.Live id) : ¬after.Holds id old := by
  have hhung := hspliced.hungBy_old hcoherent hlive hholder
  intro hholds
  have heq : id = holder := by
    rcases hspliced.holds_of_after hholds with hbefore | ⟨heq, -⟩
    · exact hhung.unique id hid hbefore
    · exact heq
  subst heq
  have hslot := (List.getElem?_eq_some_iff.mp hspliced.slot_old).2
  have hcount : (after.children id).count old = 0 := by
    rw [hspliced.children_holder, List.count_set hspliced.slot_lt, hslot, hhung.count_eq]
    simp [hspliced.old_ne_new.symm]
  exact List.count_eq_zero.mp hcount hholds

/-- After the splice the program is what is not below the old node, and the new node
with what is below it. -/
theorem live_after_iff (id : Nat) :
    after.Live id ↔ tree.Live id ∧ ¬tree.Reaches old id ∨ tree.Reaches new id := by
  have hold := (hcoherent.parent_holds old holder hspliced.parent_old)
  have hliveOld : tree.Live old := hholder.tail hold
  have hnotHolder : ¬tree.Reaches old holder := hcoherent.acyclic.not_reaches hold
  have hkept : ∀ {id}, tree.Live id → ¬tree.Reaches old id → after.Live id := by
    intro id hreaches
    unfold Live
    rw [hspliced.rootId_eq]
    induction hreaches with
    | refl => exact fun _ => .refl
    | @tail between child _ hholds ih =>
        intro hnot
        have hchild : child ≠ old := by
          rintro rfl
          exact hnot .refl
        exact (ih fun hbetween => hnot (hbetween.tail hholds)).tail
          (hspliced.holds_after hchild hholds)
  constructor
  · intro hreaches
    unfold Live at hreaches
    rw [hspliced.rootId_eq] at hreaches
    induction hreaches with
    | refl => exact .inl ⟨.refl, fun hreturn => hnotHolder (hreturn.trans hholder)⟩
    | @tail between child _ hholds ih =>
        rcases ih with ⟨hbetween, hnot⟩ | hnew
        · rcases hspliced.holds_of_after hholds with hbefore | ⟨-, rfl⟩
          · refine .inl ⟨hbetween.tail hbefore, fun hreaches => ?_⟩
            by_cases hchild : child = old
            · subst hchild
              exact hspliced.not_holds_old hcoherent hlive hholder hbetween hholds
            · exact hnot (reaches_old_of_holds hcoherent hlive hliveOld hbetween hbefore hreaches
                hchild)
          · exact .inr .refl
        · right
          unfold Holds at hholds
          rw [hspliced.children_below_new hnew] at hholds
          exact hnew.tail hholds
  · rintro (⟨hid, hnot⟩ | hnew)
    · exact hkept hid hnot
    · exact ((hkept hholder hnotHolder).tail hspliced.holds_new).trans
        (hspliced.reaches_new_iff.mpr hnew)

/-- What stays of the program hangs where it hung. -/
theorem hungBy_of_stays {id : Nat} (hid : tree.Live id) (hroot : id ≠ tree.rootId)
    (hold : ¬tree.Reaches old id) (hnew : ¬tree.Reaches new id) :
    ∃ top, after.HungBy after.Live id top ∧ after.parent id = some top := by
  have hneOld : id ≠ old := by
    rintro rfl
    exact hold .refl
  have hneNew : id ≠ new := by
    rintro rfl
    exact hnew .refl
  obtain ⟨top, hhung, hparent⟩ := hlive id hid hroot
  refine ⟨top, ⟨?_, ?_, ?_⟩, ?_⟩
  · rw [hspliced.live_after_iff hcoherent hlive hholder]
    exact .inl ⟨hhung.inside, fun htop => hold (htop.tail hhung.holds)⟩
  · rw [hspliced.count_after hneOld hneNew]
    exact hhung.count_eq
  · intro other hother hholds
    have hbefore := hspliced.holds_of_after_of_ne hneNew hholds
    rcases (hspliced.live_after_iff hcoherent hlive hholder _).mp hother with ⟨hother, -⟩ | hother
    · exact hhung.unique other hother hbefore
    · exact absurd (hother.tail hbefore) hnew
  · rw [hspliced.parent_after id hneOld hneNew]
    exact hparent

/-- The new node hangs in the slot that was written. -/
theorem hungBy_new : after.HungBy after.Live new holder := by
  have hnot := hspliced.not_live_new hlive
  have hold := hcoherent.parent_holds old holder hspliced.parent_old
  refine ⟨?_, ?_, ?_⟩
  · rw [hspliced.live_after_iff hcoherent hlive hholder]
    exact .inl ⟨hholder, hcoherent.acyclic.not_reaches hold⟩
  · have hslot := (List.getElem?_eq_some_iff.mp hspliced.slot_old).2
    have hzero : (tree.children holder).count new = 0 :=
      List.count_eq_zero.mpr fun hholds => hnot (hholder.tail hholds)
    rw [hspliced.children_holder, List.count_set hspliced.slot_lt, hslot, hzero]
    simp [hspliced.old_ne_new]
  · intro other hother hholds
    rcases hspliced.holds_of_after hholds with hbefore | ⟨heq, -⟩
    · rcases (hspliced.live_after_iff hcoherent hlive hholder _).mp hother with ⟨hother, -⟩ | hother
      · exact absurd (hother.tail hbefore) hnot
      · exact absurd hother (hcoherent.acyclic.not_reaches hbefore)
    · exact heq

/-- What the new node brings along hangs where it hung. -/
theorem hungBy_of_brought (hgraftable : tree.Graftable old new) {id : Nat}
    (hid : tree.Reaches new id) (hnew : id ≠ new) :
    ∃ top, after.HungBy after.Live id top ∧ after.parent id = some top := by
  have hliveOld : tree.Live old :=
    hholder.tail (hcoherent.parent_holds old holder hspliced.parent_old)
  obtain ⟨top, hhung, hparent⟩ := hgraftable.hung id hid hnew
  refine ⟨top, ⟨?_, ?_, ?_⟩, ?_⟩
  · rw [hspliced.live_after_iff hcoherent hlive hholder]
    exact .inr hhung.inside
  · rw [hspliced.children_below_new hhung.inside]
    exact hhung.count_eq
  · intro other hother hholds
    have hbefore := hspliced.holds_of_after_of_ne hnew hholds
    have hside := (hspliced.live_after_iff hcoherent hlive hholder _).mp hother
    rcases hside with ⟨hother, hnot⟩ | hother
    · -- Only what is below the old node is shared, and of its holders none is left.
      have hshared := hgraftable.apart id hid (hother.tail hbefore)
      by_cases hold : id = old
      · subst hold
        exact absurd hholds (hspliced.not_holds_old hcoherent hlive hholder hother)
      · exact absurd (reaches_old_of_holds hcoherent hlive hliveOld hother hbefore hshared hold)
          hnot
    · exact hhung.unique other hother hbefore
  · by_cases hold : id = old
    · subst hold
      exact hspliced.parent_old_of_hungBy hcoherent.acyclic hhung
    · rw [hspliced.parent_after id hold hnew]
      exact hparent.resolve_left hold

/-- What can be grafted leaves the program a tree. -/
theorem liveTree_of_graftable (hgraftable : tree.Graftable old new) : after.LiveTree := by
  intro id hid hroot
  rw [hspliced.rootId_eq] at hroot
  by_cases hbrought : tree.Reaches new id
  · by_cases hnew : id = new
    · subst hnew
      exact ⟨holder, hspliced.hungBy_new hcoherent hlive hholder, hspliced.parent_after_new⟩
    · exact hspliced.hungBy_of_brought hcoherent hlive hholder hgraftable hbrought hnew
  · rcases (hspliced.live_after_iff hcoherent hlive hholder _).mp hid with ⟨hid, hold⟩ | hnew
    · exact hspliced.hungBy_of_stays hcoherent hlive hholder hid hroot hold hbrought
    · exact absurd hnew hbrought

/-- What is left of the program and what is spliced in share no node, if the program is
a tree afterwards. -/
theorem not_shared (hafter : after.LiveTree) {id : Nat} (hid : tree.Live id)
    (hold : ¬tree.Reaches old id) : ¬tree.Reaches new id := by
  -- Of a first shared node on the way down from the root both holders are left.
  induction hid with
  | refl => exact hspliced.not_reaches_root hholder
  | @tail between child hbetween hholds ih =>
      have hstays : ¬tree.Reaches old between := fun hreaches => hold (hreaches.tail hholds)
      have hapart := ih hstays
      intro hshared
      rcases hshared.cases_tail with rfl | ⟨inner, hinner, hinnerHolds⟩
      · exact hspliced.not_live_new hlive (hbetween.tail hholds)
      · have hchild : child ≠ old := by
          rintro rfl
          exact hold .refl
        have hfirst := hspliced.holds_after hchild hholds
        have hsecond := (hspliced.holds_below_new hinner).mpr hinnerHolds
        have hlives := hspliced.live_after_iff hcoherent hlive hholder
        have hhung := (hafter.hungBy (hspliced.acyclic hcoherent.acyclic)
          ((hlives _).mpr (.inl ⟨hbetween, hstays⟩)) hfirst).1
        obtain rfl := hhung.unique inner ((hlives _).mpr (.inr hinner)) hsecond
        exact hapart hinner

/-- What leaves the program a tree can be grafted. -/
theorem graftable_of_liveTree (hafter : after.LiveTree) : tree.Graftable old new where
  apart id hid hshared := by
    by_contra hold
    exact hspliced.not_shared hcoherent hlive hholder hafter hshared hold hid
  hung id hid hnew := by
    have hlives : ∀ {id}, tree.Reaches new id → after.Live id := fun hid =>
      (hspliced.live_after_iff hcoherent hlive hholder _).mpr (.inr hid)
    rcases hid.cases_tail with heq | ⟨inner, hinner, hholds⟩
    · exact absurd heq hnew
    · obtain ⟨hhung, hparent⟩ := hafter.hungBy (hspliced.acyclic hcoherent.acyclic)
        (hlives hinner) ((hspliced.holds_below_new hinner).mpr hholds)
      refine ⟨inner, ⟨hinner, ?_, ?_⟩, ?_⟩
      · rw [← hspliced.children_below_new hinner]
        exact hhung.count_eq
      · intro other hother hbefore
        exact hhung.unique other (hlives hother) ((hspliced.holds_below_new hother).mpr hbefore)
      · by_cases hold : id = old
        · exact .inl hold
        · rw [hspliced.parent_after id hold hnew] at hparent
          exact .inr hparent

/-- A splice into the program leaves it a tree exactly if what is spliced in can be
grafted. -/
theorem liveTree_iff : after.LiveTree ↔ tree.Graftable old new :=
  ⟨hspliced.graftable_of_liveTree hcoherent hlive hholder,
    hspliced.liveTree_of_graftable hcoherent hlive hholder⟩

end Inside

end Spliced

/-! ## Sessions -/

/-- A change leaves the program a tree exactly if it fits. -/
theorem LiveTree.apply_iff (hlive : tree.LiveTree) (hcoherent : tree.Coherent fun _ => False)
    (hroot : tree.rootId ≤ tree.size) {edit : Edit}
    (hgiven : ∀ ref ∈ edit.references, ref ∈ tree.ids) :
    (edit.apply tree).LiveTree ↔ edit.Fits tree := by
  cases edit with
  | make draft =>
      unfold Edit.apply Edit.Fits add
      by_cases hshape : draft.shape.isRoot = true
      · unfold LiveTree
        rw [rootId_insert, if_pos hshape, hcoherent.treeBelow_insert_iff hgiven]
        exact (imp_iff_right hshape).symm
      · exact iff_of_true (hlive.insert hcoherent hroot hshape (draft.span tree))
          fun hisRoot => absurd hisRoot hshape
  | replace old new =>
      rw [Edit.Fits]
      cases hreplace : tree.replace? old new with
      | none =>
          rw [Edit.apply_replace_of_none hreplace]
          exact iff_of_true hlive nofun
      | some after =>
          obtain ⟨holder, slot, hspliced⟩ := spliced_of_replace? hcoherent.acyclic hreplace
          have hholds := hcoherent.parent_holds old holder hspliced.parent_old
          rw [Edit.apply_replace_of_some hreplace]
          by_cases hholder : tree.Live holder
          · rw [hspliced.liveTree_iff hcoherent hlive hholder]
            have hold : tree.Live old := hholder.tail hholds
            have hne : old ≠ tree.rootId := hcoherent.acyclic.ne_of_holds hholder hholds
            exact ⟨fun hgraftable _ _ _ => hgraftable, fun hfits => hfits rfl hold hne⟩
          · refine iff_of_true (hspliced.liveTree_of_not_live hlive hholder) fun _ hold hne => ?_
            obtain ⟨parent, hhung, hparent⟩ := hlive old hold hne
            rw [hspliced.parent_old] at hparent
            obtain rfl := Option.some.inj hparent
            exact absurd hhung.inside hholder

theorem rootId_apply_le (hacyclic : tree.Acyclic) (hroot : tree.rootId ≤ tree.size)
    (edit : Edit) : (edit.apply tree).rootId ≤ (edit.apply tree).size := by
  cases edit with
  | make draft =>
      unfold Edit.apply add
      rw [rootId_insert, size_insert]
      split
      · exact Nat.le_refl _
      · exact Nat.le_succ_of_le hroot
  | replace old new =>
      cases hreplace : tree.replace? old new with
      | none => rwa [Edit.apply_replace_of_none hreplace]
      | some after =>
          obtain ⟨holder, slot, hspliced⟩ := spliced_of_replace? hacyclic hreplace
          rwa [Edit.apply_replace_of_some hreplace, hspliced.rootId_eq, hspliced.size_eq]

/-- A session that makes one node and splices it in. -/
theorem supplied_make_replace {draft : Draft} {old new : NodeId}
    (hdraft : ∀ ref ∈ draft.shape.children, ref ∈ tree.ids) :
    tree.Supplied [.make draft, .replace old new] := by
  intro count edit hedit ref href
  rcases count with _ | _ | count
  · cases hedit
    exact hdraft ref href
  · cases hedit
    cases href
  · cases hedit

theorem liveTree_of_parse {semicolons : Semicolons} {tokens : List Token}
    (hparse : parse semicolons tokens = .ok tree) : tree.LiveTree := by
  have hcoherent : tree.Coherent fun _ => False := coherent_of_parse hparse
  intro id hreaches hne
  rcases hreaches.cases_tail with heq | ⟨parent, hparent, hholds⟩
  · exact absurd heq hne
  · have hid := (hcoherent.known parent id hholds).resolve_right not_false
    obtain ⟨hpos, hle⟩ := mem_ids.mp hid
    obtain ⟨holder, hheld⟩ := heldBy_of_parse hparse hpos hle hne
    obtain rfl := hheld.unique parent hholds
    exact ⟨parent, ⟨hparent, hheld.count_eq, fun other _ hother => hheld.unique other hother⟩,
      hheld.parent_eq⟩

end Tree

/-- A session that is given nodes only leaves the program a tree at all times exactly if
each of its changes fits. -/
theorem live_tree_iff_edits_fit {semicolons : Semicolons} {tokens : List Token} {start : Tree}
    (hparse : parse semicolons tokens = .ok start) {edits : List Edit}
    (hsupplied : start.Supplied edits) :
    (∀ count, (start.after edits count).LiveTree) ↔
      ∀ count (edit : Edit), edits[count]? = some edit → edit.Fits (start.after edits count) := by
  have hcoherent : ∀ count, (start.after edits count).Coherent fun _ => False :=
    Tree.coherent_after (.inr ⟨semicolons, tokens, hparse⟩)
      (fun count edit hedit ref href => .inl (hsupplied count edit hedit ref href))
      fun _ _ _ => not_false
  have hroot : ∀ count,
      (start.after edits count).rootId ≤ (start.after edits count).size := by
    intro count
    induction count with
    | zero => exact (grown_of_parse hparse).2.le
    | succ count ih =>
        cases hedit : edits[count]? with
        | none => rwa [Tree.after_succ_of_none hedit]
        | some edit =>
            rw [Tree.after_succ hedit]
            exact Tree.rootId_apply_le (hcoherent count).acyclic ih edit
  constructor
  · intro hlive count edit hedit
    rw [← (hlive count).apply_iff (hcoherent count) (hroot count) (hsupplied count edit hedit),
      ← Tree.after_succ hedit]
    exact hlive (count + 1)
  · intro hfits count
    induction count with
    | zero => exact Tree.liveTree_of_parse hparse
    | succ count ih =>
        cases hedit : edits[count]? with
        | none => rwa [Tree.after_succ_of_none hedit]
        | some edit =>
            rw [Tree.after_succ hedit,
              ih.apply_iff (hcoherent count) (hroot count) (hsupplied count edit hedit)]
            exact hfits count edit hedit

/-- In the program `x; y;` the first name is wrapped, and the wrapper is spliced in where
the name was. -/
theorem live_tree_iff_edits_fit_wrapped :
    let tokens : List Token := [.plain .identifier "x", .plain .punctuation ";",
      .plain .identifier "y", .plain .punctuation ";"]
    let edits : List Edit := [.make (.unaryBefore (.plain .operator "!") 1), .replace 1 6]
    ∃ start, parse .inserted tokens = .ok start ∧ start.Supplied edits ∧
      (start.after edits 2).children 2 = [6] ∧ ∀ count, (start.after edits count).LiveTree := by
  intro tokens edits
  have hok : (parse .inserted tokens).isOk = true := by decide +kernel
  obtain ⟨start, hparse⟩ := exists_parse hok
  have hfacts : ((parse .inserted tokens).toOption.map fun start =>
      (start.size, [1, 2, 3, 4, 5, 6].map (start.after edits 1).children,
        (start.after edits 1).rootId, (start.after edits 2).children 2)) =
      some (5, [[], [1], [], [3], [2, 4], [1]], 5, [6]) := by
    decide +kernel
  simp only [hparse, Except.toOption, Option.map_some, Option.some.injEq, Prod.mk.injEq,
    List.map_cons, List.map_nil, List.cons.injEq, and_true] at hfacts
  obtain ⟨hsize, ⟨hone, htwo, hthree, hfour, hfive, hsix⟩, hroot, hwrapped⟩ := hfacts
  have hsupplied : start.Supplied edits := Tree.supplied_make_replace fun ref href => by
    obtain rfl := List.mem_singleton.mp href
    exact Tree.mem_ids.mpr ⟨by decide, by omega⟩
  refine ⟨start, hparse, hsupplied, hwrapped,
    (live_tree_iff_edits_fit hparse hsupplied).mpr fun count edit hedit => ?_⟩
  rcases count with _ | _ | count
  · cases hedit
    intro hisRoot
    cases hisRoot
  · cases hedit
    intro _ _ _
    have hbelow : ∀ {id}, (start.after edits 1).Reaches 6 id → id ∈ [6, 1] :=
      Tree.mem_of_reaches (by simp [hone, hsix]) (by simp)
    have hlive : ∀ {id}, (start.after edits 1).Live id → id ∈ [5, 4, 3, 2, 1] :=
      Tree.mem_of_reaches (by simp [hone, htwo, hthree, hfour, hfive]) (by simp [hroot])
    constructor
    case apart =>
      intro id hid hshared
      rcases List.mem_pair.mp (hbelow hid) with rfl | rfl
      · exact absurd (hlive hshared) (by decide)
      · exact .refl
    case hung =>
      intro id hid hne
      rcases List.mem_pair.mp (hbelow hid) with rfl | rfl
      · exact absurd rfl hne
      · refine ⟨6, ⟨.refl, by rw [hsix]; rfl, ?_⟩, .inl rfl⟩
        intro other hother hholds
        rcases List.mem_pair.mp (hbelow hother) with rfl | rfl
        · rfl
        · simp [Tree.Holds, hone] at hholds
  · cases hedit

/-- In the program `x; y;` the first name is wrapped, and the wrapper is spliced in where
the second name was: the first name then stands in two slots of the program. -/
theorem wrapper_spliced_elsewhere_shares_node :
    let tokens : List Token := [.plain .identifier "x", .plain .punctuation ";",
      .plain .identifier "y", .plain .punctuation ";"]
    let edits : List Edit := [.make (.unaryBefore (.plain .operator "!") 1), .replace 3 6]
    ∃ start, parse .inserted tokens = .ok start ∧ start.Supplied edits ∧
      ¬(start.after edits 2).LiveTree := by
  intro tokens edits
  have hok : (parse .inserted tokens).isOk = true := by decide +kernel
  obtain ⟨start, hparse⟩ := exists_parse hok
  have hfacts : ((parse .inserted tokens).toOption.map fun start =>
      (start.size, [2, 4, 5, 6].map (start.after edits 2).children,
        (start.after edits 2).rootId)) =
      some (5, [[1], [6], [2, 4], [1]], 5) := by
    decide +kernel
  simp only [hparse, Except.toOption, Option.map_some, Option.some.injEq, Prod.mk.injEq,
    List.map_cons, List.map_nil, List.cons.injEq, and_true] at hfacts
  obtain ⟨hsize, ⟨htwo, hfour, hfive, hsix⟩, hroot⟩ := hfacts
  refine ⟨start, hparse, ?_, ?_⟩
  · apply Tree.supplied_make_replace
    intro ref href
    obtain rfl := List.mem_singleton.mp href
    exact Tree.mem_ids.mpr ⟨by decide, by omega⟩
  · intro hlive
    have hlives : ∀ {holder child}, (start.after edits 2).Live holder →
        child ∈ (start.after edits 2).children holder → (start.after edits 2).Live child :=
      fun hholder hchild => hholder.tail hchild
    have hliveFive : (start.after edits 2).Live 5 := by
      rw [← hroot]
      exact .refl
    have hliveTwo := hlives hliveFive (by rw [hfive]; decide : 2 ∈ _)
    have hliveSix := hlives (hlives hliveFive (by rw [hfive]; decide : 4 ∈ _))
      (by rw [hfour]; decide : 6 ∈ _)
    have hheldTwo : (start.after edits 2).Holds 2 1 := by
      simp [Tree.Holds, htwo]
    have hheldSix : (start.after edits 2).Holds 6 1 := by
      simp [Tree.Holds, hsix]
    obtain ⟨holder, hhung, -⟩ := hlive 1 (hliveTwo.tail hheldTwo) (by rw [hroot]; decide)
    have htwoEq := hhung.unique 2 hliveTwo hheldTwo
    have hsixEq := hhung.unique 6 hliveSix hheldSix
    omega

end ScriptSyntax

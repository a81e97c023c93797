import Mathlib.Data.Finset.Card
import Mathlib.Data.Finset.Range
import Mathlib.Logic.Relation
import ScriptSyntax.Proofs.Growth
import ScriptSyntax.Tree.Splice

/-!
# Descents that end

Nothing in a tree keeps a reference from pointing back to a node above it.  Where
none does, every node has a height: the number of nodes in and below it.  Heights
fall along references and are at most the size of the tree, so a function that
goes down at most that far goes down as far as there is anything, and satisfies
the equation of the function without a limit.  The same holds of the way up, along
the links to parents.
-/

namespace ScriptSyntax

open Relation

/-- Without cycles, and with finitely many numbers that lead on, the count of the
numbers in reach falls along the relation. -/
theorem exists_height {leads : Nat → Nat → Prop} {size : Nat}
    (hacyclic : ∀ id, ¬TransGen leads id id)
    (hleads : ∀ id next, leads id next → 0 < id ∧ id ≤ size) :
    ∃ height : Nat → Nat, (∀ id next, leads id next → height next < height id) ∧
      (∀ id, height id ≤ size) ∧ ∀ id, 0 < id → id ≤ size → 0 < height id := by
  classical
  let reached (id : Nat) : Finset Nat :=
    (Finset.range size).filter fun index => ReflTransGen leads id (index + 1)
  have hself : ∀ id, 0 < id → id ≤ size → id - 1 ∈ reached id := by
    intro id hpos hle
    simp only [reached, Finset.mem_filter, Finset.mem_range, Nat.sub_add_cancel hpos]
    exact ⟨by omega, .refl⟩
  refine ⟨fun id => (reached id).card, ?_, ?_, ?_⟩
  · intro id next hnext
    obtain ⟨hpos, hle⟩ := hleads id next hnext
    apply Finset.card_lt_card
    refine (Finset.ssubset_iff_of_subset ?_).mpr ⟨id - 1, hself id hpos hle, ?_⟩
    · intro index hindex
      simp only [reached, Finset.mem_filter] at hindex ⊢
      exact ⟨hindex.1, hindex.2.head hnext⟩
    · simp only [reached, Finset.mem_filter, Nat.sub_add_cancel hpos, not_and]
      intro _ hreturn
      exact hacyclic id (.head' hnext hreturn)
  · intro id
    calc
      (reached id).card ≤ (Finset.range size).card := Finset.card_filter_le _ _
      _ = size := Finset.card_range size
  · intro id hpos hle
    exact Finset.card_pos.mpr ⟨id - 1, hself id hpos hle⟩

/-- A function that goes on at most a number of times gives the same result for
all numbers from the height on. -/
theorem settles_of_height {Value : Type} {leads : Nat → Nat → Prop} {height : Nat → Nat}
    (hheight : ∀ id next, leads id next → height next < height id)
    {within : Nat → Nat → Value}
    (hzero : ∀ id limit, height id = 0 → within limit id = within 0 id)
    (hstep : ∀ id first second, (∀ next, leads id next → within first next = within second next) →
      within (first + 1) id = within (second + 1) id)
    {id first second : Nat} (hfirst : height id ≤ first) (hsecond : height id ≤ second) :
    within first id = within second id := by
  induction hrank : height id using Nat.strongRecOn generalizing id first second with
  | ind rank ih =>
      cases first with
      | zero => exact (hzero id second (Nat.le_zero.mp hfirst)).symm
      | succ first =>
          cases second with
          | zero => exact hzero id _ (Nat.le_zero.mp hsecond)
          | succ second =>
              apply hstep
              intro next hleads
              have hlt := hheight id next hleads
              exact ih (height next) (hrank ▸ hlt) (by omega) (by omega) rfl

namespace Walk

/-! A visit depends on the visits below the node only. -/

variable {visit other : NodeId → Walk → Walk}

theorem visitAll_congr {ids : List NodeId} (hvisit : ∀ id ∈ ids, visit id = other id)
    (walk : Walk) : walk.visitAll visit ids = walk.visitAll other ids := by
  induction ids generalizing walk with
  | nil => rfl
  | cons id ids ih =>
      have hhead : visit id = other id := hvisit id List.mem_cons_self
      have htail := ih fun next hnext => hvisit next (List.mem_cons_of_mem id hnext)
      simp only [visitAll, List.foldl_cons] at htail ⊢
      rw [hhead, htail]

theorem act_congr {children : List NodeId} (hvisit : ∀ id ∈ children, visit id = other id)
    (event : Event) (walk : Walk) (action : Action) :
    act visit event children walk action = act other event children walk action := by
  cases action with
  | descend => exact visitAll_congr hvisit walk
  | first =>
      apply visitAll_congr
      intro id hid
      exact hvisit id (List.mem_of_mem_head? (by simpa using hid))
  | reverse =>
      apply visitAll_congr
      intro id hid
      exact hvisit id (List.mem_reverse.mp hid)
  | record | skip | reset | take => rfl

theorem perform_congr {children : List NodeId}
    (hvisit : ∀ id ∈ children, visit id = other id) (event : Event) (actions : List Action)
    (walk : Walk) :
    walk.perform visit event children actions = walk.perform other event children actions := by
  have hact : act visit event children = act other event children := by
    funext walk action
    exact act_congr hvisit event walk action
  rw [perform, hact, perform]

theorem visitNode_congr {node : Node}
    (hvisit : ∀ id ∈ node.shape.children, visit id = other id) (id : NodeId) (walk : Walk) :
    walk.visitNode visit id node = walk.visitNode other id node := by
  have hdescend : ∀ entered : Walk,
      entered.descend visit node.shape.kind id node.shape.children =
        entered.descend other node.shape.kind id node.shape.children := by
    intro entered
    unfold descend
    split
    · exact visitAll_congr hvisit entered
    · rfl
    · exact perform_congr hvisit _ _ entered
  unfold visitNode
  dsimp only
  rw [perform_congr hvisit, hdescend, perform_congr hvisit]

end Walk

namespace Tree

/-- The node has the other one in a slot. -/
def Holds (tree : Tree) (holder child : Nat) : Prop :=
  child ∈ tree.children holder

/-- The other node is the node or stands below it. -/
def Reaches (tree : Tree) : Nat → Nat → Prop :=
  ReflTransGen tree.Holds

/-- No node stands below itself. -/
def Acyclic (tree : Tree) : Prop :=
  ∀ id, ¬TransGen tree.Holds id id

/-- The other node is the parent of the node. -/
def Rises (tree : Tree) (child parent : Nat) : Prop :=
  tree.parent child = some parent

/-- No node stands above itself. -/
def Rooted (tree : Tree) : Prop :=
  ∀ id, ¬TransGen tree.Rises id id

theorem mem_ids_of_holds {tree : Tree} {holder child : Nat} (hholds : tree.Holds holder child) :
    holder ∈ tree.ids := by
  rw [mem_ids_iff_find?]
  unfold Holds children at hholds
  cases hnode : tree.find? holder with
  | none => simp [hnode] at hholds
  | some node => exact ⟨node, rfl⟩

theorem mem_ids_of_parent {tree : Tree} {child parent : Nat}
    (hparent : tree.parent child = some parent) : child ∈ tree.ids := by
  rw [mem_ids_iff_find?]
  unfold Tree.parent at hparent
  cases hnode : tree.find? child with
  | none => simp [hnode] at hparent
  | some node => exact ⟨node, rfl⟩

/-- What is below a node depends on the slots in and below it only. -/
theorem reaches_congr {first second : Tree} {top : Nat}
    (hchildren : ∀ id, first.Reaches top id → second.children id = first.children id) {id : Nat} :
    second.Reaches top id ↔ first.Reaches top id := by
  constructor
  · intro hreaches
    induction hreaches with
    | refl => exact .refl
    | tail _ hholds ih =>
        unfold Holds at hholds
        rw [hchildren _ ih] at hholds
        exact ih.tail hholds
  · intro hreaches
    induction hreaches with
    | refl => exact .refl
    | tail hreaches hholds ih =>
        unfold Holds at hholds
        rw [← hchildren _ hreaches] at hholds
        exact ih.tail hholds

/-- In a tree without cycles heights fall along references. -/
theorem Acyclic.exists_height {tree : Tree} (hacyclic : tree.Acyclic) :
    ∃ height : Nat → Nat,
      (∀ holder child, tree.Holds holder child → height child < height holder) ∧
      (∀ id, height id ≤ tree.size) ∧ ∀ id, height id = 0 → tree.find? id = none := by
  obtain ⟨height, hfalls, hsize, hpos⟩ := ScriptSyntax.exists_height hacyclic
    fun _ _ hholds => mem_ids.mp (mem_ids_of_holds hholds)
  refine ⟨height, hfalls, hsize, ?_⟩
  intro id hzero
  cases hnode : tree.find? id with
  | none => rfl
  | some node =>
      obtain ⟨hid, hle⟩ := mem_ids.mp (mem_ids_iff_find?.mpr ⟨node, hnode⟩)
      have hheight := hpos id hid hle
      omega

/-- A node does not stand below the nodes in its slots. -/
theorem Acyclic.not_reaches {tree : Tree} (hacyclic : tree.Acyclic) {holder child : Nat}
    (hholds : tree.Holds holder child) : ¬tree.Reaches child holder :=
  fun hreaches => hacyclic holder (.head' hholds hreaches)

theorem holderWithin?_of_le {tree : Tree} (hacyclic : tree.Acyclic) (target : NodeId)
    {limit : Nat} (hlimit : tree.size ≤ limit) (top : NodeId) :
    tree.holderWithin? target limit top = tree.holder? top target := by
  obtain ⟨height, hheight, hsize, hzero⟩ := hacyclic.exists_height
  apply settles_of_height hheight _ _ (Nat.le_trans (hsize top) hlimit) (hsize top)
  · intro id limit hid
    cases limit with
    | zero => rfl
    | succ limit => simp [holderWithin?, children, hzero id hid]
  · intro holder first second hnext
    have hbelow : (tree.children holder).reverse.map (tree.holderWithin? target first) =
        (tree.children holder).reverse.map (tree.holderWithin? target second) := by
      apply List.map_congr_left
      intro child hchild
      exact hnext child (List.mem_reverse.mp hchild)
    have hmap : ∀ limit,
        (tree.children holder).reverse.findSome? (tree.holderWithin? target limit) =
          ((tree.children holder).reverse.map (tree.holderWithin? target limit)).findSome? id :=
      fun limit => by rw [List.findSome?_map, Function.id_comp]
    simp only [holderWithin?, hmap, hbelow]

/-- The search for a holder goes down to the end. -/
theorem holder?_eq {tree : Tree} (hacyclic : tree.Acyclic) (top target : NodeId) :
    tree.holder? top target =
      if (tree.children top).contains target then some top
      else (tree.children top).reverse.findSome? (tree.holder? · target) := by
  rw [← holderWithin?_of_le hacyclic target (Nat.le_succ tree.size) top]
  rfl

theorem visitWithin_of_le {tree : Tree} (hacyclic : tree.Acyclic) {limit : Nat}
    (hlimit : tree.size ≤ limit) (id : NodeId) :
    tree.visitWithin limit id = tree.visit id := by
  obtain ⟨height, hheight, hsize, hzero⟩ := hacyclic.exists_height
  apply settles_of_height hheight _ _ (Nat.le_trans (hsize id) hlimit) (hsize id)
  · intro id limit hid
    funext walk
    cases limit with
    | zero => rfl
    | succ limit => simp [visitWithin, hzero id hid]
  · intro id first second hnext
    funext walk
    simp only [visitWithin]
    cases hnode : tree.find? id with
    | none => rfl
    | some node =>
        apply Walk.visitNode_congr
        intro child hchild
        apply hnext
        simpa [Holds, children, hnode] using hchild

/-- A walk goes down to the end. -/
theorem visit_eq {tree : Tree} (hacyclic : tree.Acyclic) (id : NodeId) (walk : Walk) :
    tree.visit id walk =
      match tree.find? id with
      | none => walk
      | some node => walk.visitNode tree.visit id node := by
  rw [← visitWithin_of_le hacyclic (Nat.le_succ tree.size) id]
  rfl

/-- The way up from a node goes on to the end. -/
theorem lineage_eq {tree : Tree} (hrooted : tree.Rooted) (id : NodeId) :
    tree.lineage id = id :: ((tree.parent id).map tree.lineage).getD [] := by
  obtain ⟨height, hheight, hsize, -⟩ := ScriptSyntax.exists_height hrooted
    fun _ _ hrises => mem_ids.mp (mem_ids_of_parent hrises)
  have hfalls : ∀ child parent, tree.Rises child parent → height parent + 1 < height child + 1 :=
    fun child parent hrises => Nat.succ_lt_succ (hheight child parent hrises)
  have hid := hsize id
  have hsettles : tree.chain (tree.size + 2) id = tree.chain (tree.size + 1) id := by
    apply settles_of_height hfalls _ _ (by omega) (by omega)
    · intro child limit hzero
      cases hzero
    · intro child first second hnext
      simp only [chain]
      cases hparent : tree.parent child with
      | none => rfl
      | some parent => rw [Option.map_some, Option.map_some, hnext parent hparent]
  exact hsettles.symm

/-- A node that is found to hold the target does so in or below the top. -/
theorem reaches_of_holder? {tree : Tree} {top target holder : NodeId}
    (hholder : tree.holder? top target = some holder) :
    tree.Reaches top holder ∧ tree.Holds holder target := by
  unfold holder? at hholder
  generalize tree.size = limit at hholder
  induction limit generalizing top with
  | zero => cases hholder
  | succ limit ih =>
      rw [holderWithin?] at hholder
      split at hholder
      · rename_i hcontains
        cases hholder
        exact ⟨.refl, List.contains_iff_mem.mp hcontains⟩
      · obtain ⟨child, hchild, hfound⟩ := List.exists_of_findSome?_eq_some hholder
        obtain ⟨hreaches, htarget⟩ := ih hfound
        exact ⟨hreaches.head (List.mem_reverse.mp hchild), htarget⟩

/-- No holder is found just if the target does not stand below the top. -/
theorem holder?_eq_none_iff {tree : Tree} (hacyclic : tree.Acyclic) {top target : NodeId} :
    tree.holder? top target = none ↔ ¬TransGen tree.Holds top target := by
  constructor
  · intro hnone hbelow
    induction hbelow using TransGen.head_induction_on with
    | single hholds =>
        have hcontains := List.contains_iff_mem.mpr hholds
        rw [holder?_eq hacyclic, if_pos hcontains] at hnone
        cases hnone
    | head hholds _ ih =>
        rw [holder?_eq hacyclic] at hnone
        split at hnone
        · cases hnone
        · exact ih (List.findSome?_eq_none_iff.mp hnone _ (List.mem_reverse.mpr hholds))
  · intro hbelow
    cases hholder : tree.holder? top target with
    | none => rfl
    | some holder =>
        obtain ⟨hreaches, hholds⟩ := reaches_of_holder? hholder
        exact absurd (TransGen.tail' hreaches hholds) hbelow

end Tree

end ScriptSyntax

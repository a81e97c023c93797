import ScriptSyntax.Proofs.Editing.Coherence

/-!
# Programs that are trees

What is below the root is the program.  It is a tree if each of its nodes hangs in one
slot of the program, and that is a slot of its parent.  A new node that is no root
stands outside of the program.  A new root makes a program of what it is put on, and
that is a tree exactly if it is put on trees that stand apart and hang below nothing.
-/

namespace ScriptSyntax

open Relation

namespace Tree

/-- The node is the root or below it. -/
def Live (tree : Tree) (id : Nat) : Prop :=
  tree.Reaches tree.rootId id

/-- Of the nodes of a part, the holder alone has the node in a slot, and only in
one. -/
structure HungBy (tree : Tree) (part : Nat → Prop) (id holder : Nat) : Prop where
  inside : part holder
  count_eq : (tree.children holder).count id = 1
  unique : ∀ other, part other → tree.Holds other id → other = holder

/-- Every node below the top hangs in exactly one slot there, and that is a slot of
its parent. -/
def TreeBelow (tree : Tree) (top : Nat) : Prop :=
  ∀ id, tree.Reaches top id → id ≠ top →
    ∃ holder, tree.HungBy (tree.Reaches top) id holder ∧ tree.parent id = some holder

/-- The program is a tree. -/
def LiveTree (tree : Tree) : Prop :=
  tree.TreeBelow tree.rootId

/-- The node is one of the tops or below one. -/
def Below (tree : Tree) (tops : List Nat) (id : Nat) : Prop :=
  ∃ top ∈ tops, tree.Reaches top id

/-- What a new root can be put on: trees that stand apart from each other and hang
below nothing. -/
structure Rootable (tree : Tree) (tops : List Nat) : Prop where
  nodup : tops.Nodup
  free : ∀ top ∈ tops, tree.parent top = none
  unheld : ∀ top ∈ tops, ∀ holder, tree.Below tops holder → ¬tree.Holds holder top
  hung : ∀ id, tree.Below tops id → id ∉ tops →
    ∃ holder, tree.HungBy (tree.Below tops) id holder ∧ tree.parent id = some holder

variable {tree after : Tree} {top : Nat}

theorem HungBy.holds {part : Nat → Prop} {id holder : Nat}
    (hhung : tree.HungBy part id holder) :
    tree.Holds holder id := by
  apply List.count_pos_iff.mp
  rw [hhung.count_eq]
  exact Nat.one_pos

/-- Below a node without cycles nothing holds it. -/
theorem Acyclic.ne_of_holds (hacyclic : tree.Acyclic) {holder child : Nat}
    (hreaches : tree.Reaches top holder) (hholds : tree.Holds holder child) : child ≠ top := by
  rintro rfl
  exact hacyclic.not_reaches hholds hreaches

/-- In a tree a node has one holder, its parent. -/
theorem TreeBelow.hungBy (htree : tree.TreeBelow top) (hacyclic : tree.Acyclic)
    {holder child : Nat} (hreaches : tree.Reaches top holder) (hholds : tree.Holds holder child) :
    tree.HungBy (tree.Reaches top) child holder ∧ tree.parent child = some holder := by
  obtain ⟨parent, hhung, hparent⟩ :=
    htree child (hreaches.tail hholds) (hacyclic.ne_of_holds hreaches hholds)
  obtain rfl := hhung.unique holder hreaches hholds
  exact ⟨hhung, hparent⟩

/-- A tree stays one if its slots and parents stay. -/
theorem TreeBelow.transfer (htree : tree.TreeBelow top)
    (hchildren : ∀ id, tree.Reaches top id → after.children id = tree.children id)
    (hparent : ∀ id, tree.Reaches top id → id ≠ top → after.parent id = tree.parent id) :
    after.TreeBelow top := by
  intro id hreaches hid
  rw [reaches_congr hchildren] at hreaches
  obtain ⟨holder, hhung, hholder⟩ := htree id hreaches hid
  refine ⟨holder, ⟨?_, ?_, ?_⟩, ?_⟩
  · rw [reaches_congr hchildren]
    exact hhung.inside
  · rw [hchildren holder hhung.inside]
    exact hhung.count_eq
  · intro other hother hholds
    rw [reaches_congr hchildren] at hother
    unfold Holds at hholds
    rw [hchildren other hother] at hholds
    exact hhung.unique other hother hholds
  · rw [hparent id hreaches hid]
    exact hholder

/-- No way down leads out of a list of nodes that has their children too. -/
theorem mem_of_reaches {ids : List Nat} (hclosed : ∀ id ∈ ids, ∀ child ∈ tree.children id,
    child ∈ ids) (htop : top ∈ ids) {id : Nat} (hreaches : tree.Reaches top id) : id ∈ ids := by
  induction hreaches with
  | refl => exact htop
  | tail _ hholds ih => exact hclosed _ ih _ hholds

/-! ## New nodes -/

theorem rootId_insert (tree : Tree) (shape : Shape NodeId) (span : Span) :
    (tree.insert shape span).2.rootId =
      if shape.isRoot = true then tree.size + 1 else tree.rootId := by
  unfold insert rootId
  dsimp only
  split
  · rfl
  · rw [root_adoptAll]

/-- A new node that is no root stands outside of the program. -/
theorem LiveTree.insert (hlive : tree.LiveTree) (hcoherent : tree.Coherent fun _ => False)
    (hroot : tree.rootId ≤ tree.size) {shape : Shape NodeId} (hshape : shape.isRoot ≠ true)
    (span : Span) : (tree.insert shape span).2.LiveTree := by
  unfold LiveTree
  rw [rootId_insert, if_neg hshape]
  apply hlive.transfer
  · intro id hreaches
    apply children_insert_of_le
    rcases hreaches.cases_tail with rfl | ⟨holder, -, hholds⟩
    · exact hroot
    · rcases hcoherent.known holder id hholds with hid | hfalse
      · exact (mem_ids.mp hid).2
      · exact hfalse.elim
  · intro id hreaches hid
    obtain ⟨holder, -, hparent⟩ := hlive id hreaches hid
    rw [parent_insert_of_eq_some hparent, hparent]

section Roots

variable {shape : Shape NodeId}

/-- The slots of the nodes that were there stay. -/
theorem holds_insert_of_mem {id : Nat} (hid : id ∈ tree.ids) (span : Span) {child : Nat} :
    (tree.insert shape span).2.Holds id child ↔ tree.Holds id child := by
  unfold Holds
  rw [children_insert_of_le tree shape span (mem_ids.mp hid).2]

theorem Coherent.mem_ids_of_below (hcoherent : tree.Coherent fun _ => False)
    (hshape : ∀ ref ∈ shape.children, ref ∈ tree.ids) {id : Nat}
    (hbelow : tree.Below shape.children id) : id ∈ tree.ids := by
  obtain ⟨top, htop, hreaches⟩ := hbelow
  rcases hreaches.cases_tail with rfl | ⟨holder, -, hholds⟩
  · exact hshape id htop
  · exact (hcoherent.known holder id hholds).resolve_right not_false

/-- What the new node and the nodes below it are. -/
theorem reaches_insert_iff (tree : Tree) (shape : Shape NodeId) (span : Span) (id : Nat) :
    (tree.insert shape span).2.Reaches (tree.size + 1) id ↔
      id = tree.size + 1 ∨ tree.Below shape.children id := by
  constructor
  · intro hreaches
    induction hreaches with
    | refl => exact .inl rfl
    | tail _ hholds ih =>
        right
        rcases (holds_insert_iff ..).mp hholds with ⟨-, hchild⟩ | hholds
        · exact ⟨_, hchild, .refl⟩
        · rcases ih with rfl | ⟨top, htop, hreaches⟩
          · have hle := (mem_ids.mp (mem_ids_of_holds hholds)).2
            omega
          · exact ⟨top, htop, hreaches.tail hholds⟩
  · rintro (rfl | ⟨top, htop, hreaches⟩)
    · exact .refl
    · apply ReflTransGen.head ((holds_insert_iff ..).mpr (.inl ⟨rfl, htop⟩))
      exact ReflTransGen.mono (fun holder child hholds => (holds_insert_iff ..).mpr (.inr hholds))
        top id hreaches

/-- What hangs below the tops hangs there below the new node. -/
theorem hungBy_insert_iff {id holder : Nat} (hid : id ∉ shape.children)
    (hholder : holder ∈ tree.ids) (span : Span) :
    (tree.insert shape span).2.HungBy ((tree.insert shape span).2.Reaches (tree.size + 1)) id
        holder ↔
      tree.HungBy (tree.Below shape.children) id holder := by
  have hreaches := reaches_insert_iff tree shape span
  have hne : holder ≠ tree.size + 1 := by
    have hle := (mem_ids.mp hholder).2
    omega
  have hholds : ∀ other, (tree.insert shape span).2.Holds other id ↔ tree.Holds other id := by
    intro other
    rw [holds_insert_iff]
    exact or_iff_right fun hnew => hid hnew.2
  constructor
  · intro hhung
    refine ⟨((hreaches holder).mp hhung.inside).resolve_left hne, ?_, ?_⟩
    · rw [← children_insert_of_le tree shape span (mem_ids.mp hholder).2]
      exact hhung.count_eq
    · intro other hother hbefore
      exact hhung.unique other ((hreaches other).mpr (.inr hother)) ((hholds other).mpr hbefore)
  · intro hhung
    refine ⟨(hreaches holder).mpr (.inr hhung.inside), ?_, ?_⟩
    · rw [children_insert_of_le tree shape span (mem_ids.mp hholder).2]
      exact hhung.count_eq
    · intro other hother hafter
      rw [hholds] at hafter
      rcases (hreaches other).mp hother with rfl | hbelow
      · have hle := (mem_ids.mp (mem_ids_of_holds hafter)).2
        omega
      · exact hhung.unique other hbelow hafter

theorem Coherent.treeBelow_insert (hcoherent : tree.Coherent fun _ => False)
    (hshape : ∀ ref ∈ shape.children, ref ∈ tree.ids) (span : Span)
    (hrootable : tree.Rootable shape.children) :
    (tree.insert shape span).2.TreeBelow (tree.size + 1) := by
  have hreaches := reaches_insert_iff tree shape span
  intro id hid hne
  have hbelow := ((hreaches id).mp hid).resolve_left hne
  by_cases htop : id ∈ shape.children
  · obtain ⟨hpos, hle⟩ := mem_ids.mp (hshape id htop)
    refine ⟨tree.size + 1, ⟨.refl, ?_, ?_⟩, ?_⟩
    · rw [children_insert_self, hrootable.nodup.count, if_pos htop]
    · intro other hother hholds
      rcases (hreaches other).mp hother with heq | hother
      · exact heq
      · rw [holds_insert_of_mem (hcoherent.mem_ids_of_below hshape hother)] at hholds
        exact absurd hholds (hrootable.unheld id htop other hother)
    · exact parent_insert_of_eq_none (hrootable.free id htop) hpos hle htop span
  · obtain ⟨holder, hhung, hparent⟩ := hrootable.hung id hbelow htop
    have hholder := hcoherent.mem_ids_of_below hshape hhung.inside
    exact ⟨holder, (hungBy_insert_iff htop hholder span).mpr hhung,
      parent_insert_of_eq_some hparent shape span⟩

theorem Coherent.rootable_of_treeBelow (hcoherent : tree.Coherent fun _ => False)
    (hshape : ∀ ref ∈ shape.children, ref ∈ tree.ids) {span : Span}
    (htree : (tree.insert shape span).2.TreeBelow (tree.size + 1)) :
    tree.Rootable shape.children := by
  have hreaches := reaches_insert_iff tree shape span
  have hinserted := hcoherent.insert not_false (fun ref href => .inl (hshape ref href)) span
  have hacyclic := hinserted.acyclic
  have hnew : tree.size + 1 ∉ tree.ids := by
    intro hid
    have hle := (mem_ids.mp hid).2
    omega
  have htops : ∀ top ∈ shape.children,
      (tree.insert shape span).2.HungBy ((tree.insert shape span).2.Reaches (tree.size + 1)) top
          (tree.size + 1) ∧
        (tree.insert shape span).2.parent top = some (tree.size + 1) := fun top htop =>
    htree.hungBy hacyclic .refl ((holds_insert_iff ..).mpr (.inl ⟨rfl, htop⟩))
  constructor
  case nodup =>
    rw [List.nodup_iff_count]
    intro top
    by_cases htop : top ∈ shape.children
    · rw [← children_insert_self tree shape span, (htops top htop).1.count_eq]
    · rw [List.count_eq_zero.mpr htop]
      exact Nat.zero_le 1
  case free =>
    intro top htop
    cases hparent : tree.parent top with
    | none => rfl
    | some holder =>
        have hkept := parent_insert_of_eq_some hparent shape span
        rw [(htops top htop).2] at hkept
        obtain rfl := Option.some.inj hkept
        exact absurd (mem_ids_of_holds (hcoherent.parent_holds top _ hparent)) hnew
  case unheld =>
    intro top htop holder hbelow hholds
    have hheld : (tree.insert shape span).2.Holds holder top :=
      (holds_insert_iff ..).mpr (.inr hholds)
    obtain rfl := (htops top htop).1.unique holder ((hreaches holder).mpr (.inr hbelow)) hheld
    exact hnew (mem_ids_of_holds hholds)
  case hung =>
    intro id hbelow htop
    have hid : id ≠ tree.size + 1 := by
      rintro rfl
      exact hnew (hcoherent.mem_ids_of_below hshape hbelow)
    obtain ⟨holder, hhung, hparent⟩ := htree id ((hreaches id).mpr (.inr hbelow)) hid
    have hholder : holder ∈ tree.ids := by
      rcases (holds_insert_iff ..).mp hhung.holds with ⟨-, hchild⟩ | hholds
      · exact absurd hchild htop
      · exact mem_ids_of_holds hholds
    refine ⟨holder, (hungBy_insert_iff htop hholder span).mp hhung, ?_⟩
    rcases parent_of_insert hparent with hbefore | ⟨-, hchild⟩
    · exact hbefore
    · exact absurd hchild htop

/-- A new root makes a tree of what it is put on exactly if that is made of trees. -/
theorem Coherent.treeBelow_insert_iff (hcoherent : tree.Coherent fun _ => False)
    (hshape : ∀ ref ∈ shape.children, ref ∈ tree.ids) (span : Span) :
    (tree.insert shape span).2.TreeBelow (tree.size + 1) ↔ tree.Rootable shape.children :=
  ⟨hcoherent.rootable_of_treeBelow hshape, hcoherent.treeBelow_insert hshape span⟩

end Roots

end Tree

end ScriptSyntax

import ScriptSyntax.Proofs.Editing.Standing

/-!
# Linked parts

What is below a node is a linked part if nothing in it holds the node, and every other node
of it hangs in one slot, which is a slot of its parent.  There may be anything else in the
tree, cycles included.  A linked part has no cycles, so what goes down in it comes to an
end, and of two nodes above a third one is above the other.
-/

namespace ScriptSyntax.Tree

open Relation

/-- Nothing below the top holds it, and every other node there hangs in exactly one slot.
That is a slot of its parent, unless the node is spared the link to it. -/
structure Linked (tree : Tree) (spared : Nat → Prop) (top : Nat) : Prop where
  unheld : ∀ holder, tree.Reaches top holder → ¬tree.Holds holder top
  hung : ∀ id ∈ tree.ids, tree.Reaches top id → id ≠ top →
    ∃ holder, tree.HungBy (tree.Reaches top) id holder ∧
      (¬spared id → tree.parent id = some holder)

variable {tree : Tree} {spared : Nat → Prop} {top id : Nat}

/-- Whatever leads to a node is a node. -/
theorem mem_ids_of_reaches {later : Nat} (hreaches : tree.Reaches id later)
    (hlater : later ∈ tree.ids) : id ∈ tree.ids := by
  rcases hreaches.cases_head with rfl | ⟨child, hholds, -⟩
  · exact hlater
  · exact mem_ids_of_holds hholds

/-- A part is linked if its links can be listed so that no node is held twice, nor the top. -/
theorem linked_of_links {links : List (Nat × Nat)}
    (hlinks : ∀ {holder child}, tree.Reaches top holder → tree.Holds holder child →
      (holder, child) ∈ links)
    (hnodup : (links.map Prod.snd).Nodup) (htop : top ∉ links.map Prod.snd)
    (hcount : ∀ link ∈ links, (tree.children link.1).count link.2 = 1)
    (hparent : ∀ link ∈ links, ¬spared link.2 → tree.parent link.2 = some link.1) :
    tree.Linked spared top := by
  constructor
  · intro holder hreaches hholds
    exact htop (List.mem_map_of_mem (hlinks hreaches hholds))
  · intro id _ hid hne
    obtain heq | ⟨holder, hholder, hchild⟩ := hid.cases_tail
    · exact absurd heq hne
    · have hlink := hlinks hholder hchild
      refine ⟨holder, ⟨hholder, hcount _ hlink, ?_⟩, hparent _ hlink⟩
      intro other hother hholds
      have hsame := List.inj_on_of_nodup_map hnodup (hlinks hother hholds) hlink rfl
      exact congrArg Prod.fst hsame

namespace Linked

variable (hlinked : tree.Linked spared top)

include hlinked

/-- A node that is held in the part has that holder only. -/
theorem hungBy {holder child : Nat} (hchild : child ∈ tree.ids)
    (hreaches : tree.Reaches top holder) (hholds : tree.Holds holder child) :
    tree.HungBy (tree.Reaches top) child holder ∧
      (¬spared child → tree.parent child = some holder) := by
  have hne : child ≠ top := by
    rintro rfl
    exact hlinked.unheld holder hreaches hholds
  obtain ⟨only, hhung, hparent⟩ := hlinked.hung child hchild (hreaches.tail hholds) hne
  obtain rfl := hhung.unique holder hreaches hholds
  exact ⟨hhung, hparent⟩

theorem holder_unique {first second child : Nat} (hchild : child ∈ tree.ids)
    (hfirst : tree.Reaches top first) (hfirstHolds : tree.Holds first child)
    (hsecond : tree.Reaches top second) (hsecondHolds : tree.Holds second child) :
    first = second :=
  (hlinked.hungBy hchild hsecond hsecondHolds).1.unique first hfirst hfirstHolds

/-- A way down that leads back would lead back to each node before it, up to the top. -/
theorem not_transGen (hreaches : tree.Reaches top id) : ¬TransGen tree.Holds id id := by
  induction hreaches with
  | refl =>
      intro hcycle
      obtain ⟨holder, hdown, hholds⟩ := TransGen.tail'_iff.mp hcycle
      exact hlinked.unheld holder hdown hholds
  | @tail holder id hreaches hholds ih =>
      intro hcycle
      obtain ⟨last, hdown, hlast⟩ := TransGen.tail'_iff.mp hcycle
      obtain ⟨first, hfirst, -⟩ := TransGen.head'_iff.mp hcycle
      obtain rfl := hlinked.holder_unique (mem_ids_of_holds hfirst) hreaches hholds
        ((hreaches.tail hholds).trans hdown) hlast
      exact ih (TransGen.head' hholds hdown)

/-- A node does not stand below what it holds. -/
theorem not_reaches {holder child : Nat} (hreaches : tree.Reaches top holder)
    (hholds : tree.Holds holder child) : ¬tree.Reaches child holder :=
  fun hback => hlinked.not_transGen hreaches (TransGen.head' hholds hback)

/-- Of two nodes above a node one is above the other. -/
theorem reaches_or_reaches {first second : Nat} (hfirst : tree.Reaches top first)
    (hsecond : tree.Reaches top second) (hid : id ∈ tree.ids) (hbelow : tree.Reaches first id)
    (hother : tree.Reaches second id) : tree.Reaches first second ∨ tree.Reaches second first := by
  induction hbelow with
  | refl => exact .inr hother
  | @tail holder id hbelow hholds ih =>
      rcases hother.cases_tail with rfl | ⟨last, hdown, hlast⟩
      · exact .inl (hbelow.tail hholds)
      · obtain rfl := hlinked.holder_unique hid (hfirst.trans hbelow) hholds
          (hsecond.trans hdown) hlast
        exact ih (mem_ids_of_holds hholds) hdown

/-- What is below a child of a node is not below another one. -/
theorem not_reaches_sibling {holder first second : Nat} (hholder : tree.Reaches top holder)
    (hfirst : tree.Holds holder first) (hsecond : tree.Holds holder second)
    (hne : first ≠ second) (hid : id ∈ tree.ids) (hbelow : tree.Reaches first id) :
    ¬tree.Reaches second id := by
  have hapart : ∀ {child other : Nat}, tree.Holds holder child → tree.Holds holder other →
      child ≠ other → other ∈ tree.ids → ¬tree.Reaches child other := by
    intro child other hchild hother hdifferent hmem hreaches
    rcases hreaches.cases_tail with rfl | ⟨last, hdown, hlast⟩
    · exact hdifferent rfl
    · obtain rfl := hlinked.holder_unique hmem hholder hother
        ((hholder.tail hchild).trans hdown) hlast
      exact hlinked.not_reaches hholder hchild hdown
  intro hother
  rcases hlinked.reaches_or_reaches (hholder.tail hfirst) (hholder.tail hsecond) hid hbelow
    hother with hreaches | hreaches
  · exact hapart hfirst hsecond hne (mem_ids_of_reaches hother hid) hreaches
  · exact hapart hsecond hfirst hne.symm (mem_ids_of_reaches hbelow hid) hreaches

/-- In a linked part heights fall along references. -/
theorem exists_height :
    ∃ height : Nat → Nat,
      (∀ holder child, tree.Reaches top holder → tree.Holds holder child →
        height child < height holder) ∧
      (∀ id, height id ≤ tree.size) ∧ ∀ id ∈ tree.ids, 0 < height id := by
  have hinside : ∀ {first last : Nat},
      TransGen (fun holder child => tree.Reaches top holder ∧ tree.Holds holder child) first
        last → tree.Reaches top first ∧ TransGen tree.Holds first last := by
    intro first last hdown
    induction hdown with
    | single hstep => exact ⟨hstep.1, .single hstep.2⟩
    | tail _ hstep ih => exact ⟨ih.1, ih.2.tail hstep.2⟩
  obtain ⟨height, hfalls, hsize, hpos⟩ := ScriptSyntax.exists_height
    (fun id hcycle => hlinked.not_transGen (hinside hcycle).1 (hinside hcycle).2)
    fun _ _ hstep => mem_ids.mp (mem_ids_of_holds hstep.2)
  refine ⟨height, fun holder child hreaches hholds => hfalls _ _ ⟨hreaches, hholds⟩, hsize, ?_⟩
  intro id hid
  exact hpos id (mem_ids.mp hid).1 (mem_ids.mp hid).2

/-- A search among the nodes of a linked part finds the holder that there is. -/
theorem exists_holder? {target : Nat} (hbelow : TransGen tree.Holds top target) :
    ∃ holder, tree.holder? top target = some holder := by
  obtain ⟨height, hfalls, hsize, -⟩ := hlinked.exists_height
  have hfound : ∀ limit id, tree.Reaches top id → height id ≤ limit →
      TransGen tree.Holds id target → tree.holderWithin? target limit id ≠ none := by
    intro limit
    induction limit with
    | zero =>
        intro id hreaches hlimit hdown
        obtain ⟨child, hholds, -⟩ := TransGen.head'_iff.mp hdown
        have hlt := hfalls id child hreaches hholds
        omega
    | succ limit ih =>
        intro id hreaches hlimit hdown
        rw [holderWithin?]
        split
        · exact Option.some_ne_none id
        · rename_i hcontains
          obtain ⟨child, hholds, hrest⟩ := TransGen.head'_iff.mp hdown
          rcases reflTransGen_iff_eq_or_transGen.mp hrest with rfl | hrest
          · exact absurd (List.contains_iff_mem.mpr hholds) hcontains
          · intro hnone
            have hlt := hfalls id child hreaches hholds
            exact ih child (hreaches.tail hholds) (by omega) hrest
              (List.findSome?_eq_none_iff.mp hnone child (List.mem_reverse.mpr hholds))
  exact Option.ne_none_iff_exists'.mp (hfound tree.size top .refl (hsize top) hbelow)

end Linked

end ScriptSyntax.Tree

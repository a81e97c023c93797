import ScriptSyntax.Proofs.Editing.Splicing

/-!
# Coherence under editing

Nodes are made of any references, and spliced wherever that is not refused.  Two
directions of links result, and they agree only in part: a node may stand in the
slots of several others, but its parent is always one of them.  Two things keep the
tree without cycles.  A new node has a number that no slot holds yet, if references
to numbers without a node were never meant to become nodes; and a splice is refused
if the node that holds the slot is the new node or stands below it.  So whatever
goes along the links comes to an end, after every step of every session.
-/

namespace ScriptSyntax

open Relation

/-- A change to a tree. -/
inductive Edit
  /-- A node is made. -/
  | make (draft : Draft)
  /-- A node takes the place of another, unless that is refused. -/
  | replace (old new : NodeId)
  deriving DecidableEq

namespace Edit

/-- The tree after a change. -/
def apply (tree : Tree) : Edit → Tree
  | .make draft => (tree.add draft).2
  | .replace old new => (tree.replace? old new).getD tree

/-- The references that a new node is given. -/
def references : Edit → List NodeId
  | .make draft => draft.shape.children
  | .replace _ _ => []

theorem apply_replace_of_some {tree after : Tree} {old new : NodeId}
    (hreplace : tree.replace? old new = some after) : (replace old new).apply tree = after := by
  simp [apply, hreplace]

theorem apply_replace_of_none {tree : Tree} {old new : NodeId}
    (hreplace : tree.replace? old new = none) : (replace old new).apply tree = tree := by
  simp [apply, hreplace]

end Edit

namespace Tree

/-- The tree after the first changes of a session. -/
def after (start : Tree) (edits : List Edit) (count : Nat) : Tree :=
  (edits.take count).foldl Edit.apply start

/-- The number is that of a node at no time of a session. -/
def Foreign (start : Tree) (edits : List Edit) (id : Nat) : Prop :=
  ∀ count, id ∉ (start.after edits count).ids

/-- Every reference that a new node is given is to a node that is there at the time,
or to one that is there at no time. -/
def Grounded (start : Tree) (edits : List Edit) : Prop :=
  ∀ count edit, edits[count]? = some edit → ∀ ref ∈ edit.references,
    ref ∈ (start.after edits count).ids ∨ start.Foreign edits ref

theorem after_succ {start : Tree} {edits : List Edit} {count : Nat} {edit : Edit}
    (hedit : edits[count]? = some edit) :
    start.after edits (count + 1) = edit.apply (start.after edits count) := by
  simp [after, List.take_add_one, hedit]

theorem after_succ_of_none {start : Tree} {edits : List Edit} {count : Nat}
    (hedit : edits[count]? = none) :
    start.after edits (count + 1) = start.after edits count := by
  simp [after, List.take_add_one, hedit]

/-- What links satisfy at all times: there is no way down from a node to itself,
the parent of a node holds it, and what a slot holds is a node or one of the numbers
that are never given. -/
structure Coherent (never : Nat → Prop) (tree : Tree) : Prop where
  acyclic : tree.Acyclic
  parent_holds : ∀ id holder, tree.parent id = some holder → tree.Holds holder id
  known : ∀ holder child, tree.Holds holder child → child ∈ tree.ids ∨ never child

/-! ## New nodes -/

theorem holds_insert_iff (tree : Tree) (shape : Shape NodeId) (span : Span) {id child : Nat} :
    (tree.insert shape span).2.Holds id child ↔
      id = tree.size + 1 ∧ child ∈ shape.children ∨ tree.Holds id child :=
  mem_children_insert_iff tree shape span id child

/-- A node that no slot holds closes no cycle. -/
theorem Acyclic.insert {tree : Tree} (hacyclic : tree.Acyclic) {shape : Shape NodeId}
    (hunheld : ∀ holder, ¬tree.Holds holder (tree.size + 1))
    (hshape : tree.size + 1 ∉ shape.children) (span : Span) :
    (tree.insert shape span).2.Acyclic := by
  have hnew : ∀ holder, ¬(tree.insert shape span).2.Holds holder (tree.size + 1) := by
    intro holder hholds
    rcases (holds_insert_iff ..).mp hholds with ⟨-, hchild⟩ | hholds
    · exact hshape hchild
    · exact hunheld holder hholds
  -- No way leads to the new node, so a way that starts elsewhere is an old one.
  have hold : ∀ {top id : Nat}, TransGen (tree.insert shape span).2.Holds top id →
      top = tree.size + 1 ∨ TransGen tree.Holds top id := by
    intro top id hbelow
    induction hbelow using TransGen.head_induction_on with
    | single hholds =>
        rcases (holds_insert_iff ..).mp hholds with ⟨heq, -⟩ | hholds
        · exact .inl heq
        · exact .inr (.single hholds)
    | head hholds _ ih =>
        rcases ih with rfl | hbelow
        · exact absurd hholds (hnew _)
        · rcases (holds_insert_iff ..).mp hholds with ⟨heq, -⟩ | hholds
          · exact .inl heq
          · exact .inr (.head hholds hbelow)
  intro id hcycle
  rcases hold hcycle with rfl | hcycle
  · obtain ⟨holder, -, hholds⟩ := TransGen.tail'_iff.mp hcycle
    exact hnew holder hholds
  · exact hacyclic id hcycle

/-- A node keeps its parent as others are made. -/
theorem parent_insert_of_eq_some {tree : Tree} {id holder : Nat}
    (hparent : tree.parent id = some holder) (shape : Shape NodeId) (span : Span) :
    (tree.insert shape span).2.parent id = some holder := by
  have hid := (mem_ids.mp (mem_ids_of_parent hparent)).2
  unfold parent at hparent ⊢
  rw [find?_insert_of_le tree shape span hid]
  split
  · cases hnode : tree.find? id with
    | none => simp [hnode] at hparent
    | some node =>
        rw [hnode, Option.bind_some] at hparent
        simp [Node.adoptedBy, hparent]
  · exact hparent

/-- A parent after an insertion was one before, or is the new node. -/
theorem parent_of_insert {tree : Tree} {shape : Shape NodeId} {span : Span} {id holder : Nat}
    (hparent : (tree.insert shape span).2.parent id = some holder) :
    tree.parent id = some holder ∨ holder = tree.size + 1 ∧ id ∈ shape.children := by
  have hid := (mem_ids.mp (mem_ids_of_parent hparent)).2
  rw [size_insert] at hid
  rcases Nat.lt_or_eq_of_le hid with hlt | rfl
  · unfold parent at hparent ⊢
    rw [find?_insert_of_le tree shape span (Nat.le_of_lt_succ hlt)] at hparent
    split at hparent
    · rename_i hchild
      cases hnode : tree.find? id with
      | none => simp [hnode] at hparent
      | some node =>
          rw [hnode] at hparent
          cases hold : node.parent with
          | none =>
              simp only [Option.map_some, Option.bind_some, Node.adoptedBy, hold,
                Option.none_or, Option.some.injEq] at hparent
              exact .inr ⟨hparent.symm, hchild⟩
          | some other =>
              left
              simpa [Node.adoptedBy, hold] using hparent
    · exact .inl hparent
  · simp [parent, find?_insert_self] at hparent

theorem mem_ids_insert {tree : Tree} {shape : Shape NodeId} {span : Span} {id : Nat}
    (hid : id ∈ tree.ids) : id ∈ (tree.insert shape span).2.ids := by
  rw [mem_ids] at hid ⊢
  rw [size_insert]
  omega

variable {never : Nat → Prop}

theorem Coherent.not_holds_succ {tree : Tree} (hcoherent : tree.Coherent never)
    (hnever : ¬never (tree.size + 1)) (holder : Nat) : ¬tree.Holds holder (tree.size + 1) := by
  intro hholds
  rcases hcoherent.known holder _ hholds with hid | hforeign
  · have hle := (mem_ids.mp hid).2
    omega
  · exact hnever hforeign

theorem Coherent.insert {tree : Tree} (hcoherent : tree.Coherent never)
    (hnever : ¬never (tree.size + 1)) {shape : Shape NodeId}
    (hshape : ∀ ref ∈ shape.children, ref ∈ tree.ids ∨ never ref) (span : Span) :
    (tree.insert shape span).2.Coherent never where
  acyclic := by
    apply hcoherent.acyclic.insert (hcoherent.not_holds_succ hnever)
    intro hself
    rcases hshape _ hself with hid | hforeign
    · have hle := (mem_ids.mp hid).2
      omega
    · exact hnever hforeign
  parent_holds id holder hparent := by
    rw [holds_insert_iff]
    rcases parent_of_insert hparent with hparent | ⟨heq, hchild⟩
    · exact .inr (hcoherent.parent_holds id holder hparent)
    · exact .inl ⟨heq, hchild⟩
  known holder child hholds := by
    have hknown : child ∈ tree.ids ∨ never child := by
      rcases (holds_insert_iff ..).mp hholds with ⟨-, hchild⟩ | hholds
      · exact hshape child hchild
      · exact hcoherent.known holder child hholds
    exact hknown.imp_left mem_ids_insert

/-! ## Splices -/

theorem Spliced.coherent {tree after : Tree} {old new holder slot : Nat}
    (hspliced : tree.Spliced old new holder slot after) (hcoherent : tree.Coherent never) :
    after.Coherent never where
  acyclic := hspliced.acyclic hcoherent.acyclic
  parent_holds id top hparent := by
    by_cases hold : id = old
    · subst hold
      obtain ⟨hreaches, hholds⟩ := hspliced.parent_after_old_eq_some hparent
      unfold Holds at hholds ⊢
      rwa [hspliced.children_below_new hreaches]
    · by_cases hnew : id = new
      · subst hnew
        rw [hspliced.parent_after_new] at hparent
        obtain rfl := Option.some.inj hparent
        exact hspliced.holds_new
      · rw [hspliced.parent_after id hold hnew] at hparent
        exact hspliced.holds_after hold (hcoherent.parent_holds id top hparent)
  known id child hholds := by
    have hids : after.ids = tree.ids := by rw [ids, ids, hspliced.size_eq]
    rw [hids]
    rcases hspliced.holds_of_after hholds with hholds | ⟨-, rfl⟩
    · exact hcoherent.known id child hholds
    · exact .inl hspliced.new_mem

/-- A change keeps links coherent. -/
theorem Coherent.apply {tree : Tree} (hcoherent : tree.Coherent never) {edit : Edit}
    (hgiven : ∀ ref ∈ edit.references, ref ∈ tree.ids ∨ never ref)
    (hnever : ∀ id ∈ (edit.apply tree).ids, ¬never id) : (edit.apply tree).Coherent never := by
  cases edit with
  | make draft =>
      apply hcoherent.insert _ hgiven
      apply hnever
      rw [mem_ids, Edit.apply, add, size_insert]
      omega
  | replace old new =>
      cases hreplace : tree.replace? old new with
      | none =>
          rw [Edit.apply_replace_of_none hreplace]
          exact hcoherent
      | some after =>
          obtain ⟨holder, slot, hspliced⟩ := spliced_of_replace? hcoherent.acyclic hreplace
          rw [Edit.apply_replace_of_some hreplace]
          exact hspliced.coherent hcoherent

/-! ## Where sessions start -/

theorem coherent_empty : Tree.empty.Coherent never := by
  have hchildren : ∀ id, Tree.empty.children id = [] := by
    intro id
    cases id <;> rfl
  have hholds : ∀ id child, ¬Tree.empty.Holds id child := by
    intro id child hholds
    unfold Holds at hholds
    rw [hchildren] at hholds
    cases hholds
  refine ⟨?_, ?_, ?_⟩
  · intro id hcycle
    obtain ⟨next, hnext, -⟩ := TransGen.head'_iff.mp hcycle
    exact hholds id next hnext
  · intro id holder hparent
    cases id <;> cases hparent
  · intro holder child hholder
    exact absurd hholder (hholds holder child)

theorem Ordered.acyclic {tree : Tree} (hordered : tree.Ordered) : tree.Acyclic := by
  have hlt : ∀ {top id : Nat}, TransGen tree.Holds top id → id < top := by
    intro top id hbelow
    induction hbelow with
    | single hholds => exact hordered.lt_of_mem_children hholds
    | tail _ hholds ih => exact Nat.lt_trans (hordered.lt_of_mem_children hholds) ih
  intro id hcycle
  exact Nat.lt_irrefl id (hlt hcycle)

theorem coherent_of_parse {semicolons : Semicolons} {tokens : List Token} {tree : Tree}
    (hparse : parse semicolons tokens = .ok tree) : tree.Coherent never := by
  obtain ⟨hgrown, -⟩ := grown_of_parse hparse
  refine ⟨(hgrown.ordered empty_ordered).acyclic, ?_, ?_⟩
  · intro id holder hparent
    obtain ⟨hpos, hle⟩ := mem_ids.mp (mem_ids_of_parent hparent)
    by_cases hroot : id ∈ [tree.size]
    · rw [(hgrown.free id hroot).parent_eq] at hparent
      cases hparent
    · obtain ⟨parent, hheld⟩ := hgrown.held id hpos hle hroot
      rw [hheld.parent_eq] at hparent
      obtain rfl := Option.some.inj hparent
      exact hheld.mem_children
  · intro holder child hholds
    obtain ⟨hpos, hle⟩ := mem_ids.mp (mem_ids_of_holds hholds)
    cases hshape : tree.shape? holder with
    | none => simp [Holds, children_eq, hshape] at hholds
    | some shape =>
        have hchild : child ∈ shape.children := by
          simpa [Holds, children_eq, hshape] using hholds
        have hnew := hgrown.fresh holder shape hpos hshape child hchild
        exact .inl (mem_ids.mpr ⟨hnew.1, Nat.le_trans (Nat.le_of_lt hnew.2) hle⟩)

/-- A session starts from nothing or from a program. -/
def Initial (tree : Tree) : Prop :=
  tree = .empty ∨ ∃ semicolons tokens, parse semicolons tokens = .ok tree

/-- Links are coherent after every step of a session that makes none of the numbers
without a node into nodes. -/
theorem coherent_after {start : Tree} (hstart : start.Initial) {edits : List Edit}
    (hgiven : ∀ count edit, edits[count]? = some edit → ∀ ref ∈ edit.references,
      ref ∈ (start.after edits count).ids ∨ never ref)
    (hnever : ∀ count, ∀ id ∈ (start.after edits count).ids, ¬never id) (count : Nat) :
    (start.after edits count).Coherent never := by
  induction count with
  | zero =>
      rcases hstart with rfl | ⟨semicolons, tokens, hparse⟩
      · exact coherent_empty
      · exact coherent_of_parse hparse
  | succ count ih =>
      cases hedit : edits[count]? with
      | none =>
          rw [after_succ_of_none hedit]
          exact ih
      | some edit =>
          rw [after_succ hedit]
          apply ih.apply (hgiven count edit hedit)
          rw [← after_succ hedit]
          exact hnever (count + 1)

/-- Links are coherent after every step of a grounded session. -/
theorem coherent_of_grounded {start : Tree} (hstart : start.Initial) {edits : List Edit}
    (hgrounded : start.Grounded edits) (count : Nat) :
    (start.after edits count).Coherent (start.Foreign edits) :=
  coherent_after hstart hgrounded (fun count _ hid hforeign => hforeign count hid) count

/-! ## Ways that end -/

/-- Whatever goes along the links of a tree comes to an end: the ways down and up are
well-founded, and the searches and walks that go a limited way satisfy the equations
of those without a limit. -/
structure Terminating (tree : Tree) : Prop where
  down : WellFounded fun child holder => tree.Holds holder child
  up : WellFounded fun parent child => tree.Rises child parent
  lineage_eq : ∀ id, tree.lineage id = id :: ((tree.parent id).map tree.lineage).getD []
  holder?_eq : ∀ top target, tree.holder? top target =
    if (tree.children top).contains target then some top
    else (tree.children top).reverse.findSome? (tree.holder? · target)
  visit_eq : ∀ id walk, tree.visit id walk =
    match tree.find? id with
    | none => walk
    | some node => walk.visitNode tree.visit id node

theorem Coherent.rooted {tree : Tree} (hcoherent : tree.Coherent never) : tree.Rooted := by
  intro id hcycle
  have hdown : TransGen (Function.swap tree.Holds) id id :=
    TransGen.mono (fun child parent hrises => hcoherent.parent_holds child parent hrises) id id
      hcycle
  exact hcoherent.acyclic id (transGen_swap.mp hdown)

theorem Coherent.terminating {tree : Tree} (hcoherent : tree.Coherent never) :
    tree.Terminating where
  down := by
    obtain ⟨height, hheight, -⟩ := hcoherent.acyclic.exists_height
    exact Subrelation.wf (fun hholds => hheight _ _ hholds) (measure height).wf
  up := by
    obtain ⟨height, hheight, -⟩ := ScriptSyntax.exists_height hcoherent.rooted
      fun _ _ hrises => mem_ids.mp (mem_ids_of_parent hrises)
    exact Subrelation.wf (fun hrises => hheight _ _ hrises) (measure height).wf
  lineage_eq := Tree.lineage_eq hcoherent.rooted
  holder?_eq := Tree.holder?_eq hcoherent.acyclic
  visit_eq := Tree.visit_eq hcoherent.acyclic

end Tree

/-- After every step of every session no node stands below itself, the parent of a
node has it in a slot, so no node stands above itself, and whatever goes along the
links comes to an end. -/
theorem edits_keep_links_acyclic {start : Tree} (hstart : start.Initial) {edits : List Edit}
    (hgrounded : start.Grounded edits) (count : Nat) :
    (start.after edits count).Acyclic ∧
    (∀ id holder, (start.after edits count).parent id = some holder →
      id ∈ (start.after edits count).children holder) ∧
    (start.after edits count).Rooted ∧
    (start.after edits count).Terminating := by
  have hcoherent := Tree.coherent_of_grounded hstart hgrounded count
  exact ⟨hcoherent.acyclic, hcoherent.parent_holds, hcoherent.rooted, hcoherent.terminating⟩

/-- In the program `x` the name is wrapped in a sum whose other operand is no node,
and the sum is spliced in where the name was. -/
theorem edits_keep_links_acyclic_wrapped :
    let edits : List Edit := [
      .make (.unaryBefore (.plain .operator "!") 1),
      .make (.binary 4 (.plain .operator "+") 99),
      .replace 1 5]
    ∃ start, parse .inserted [.plain .identifier "x"] = .ok start ∧ start.Initial ∧
      start.Grounded edits ∧ (start.after edits 3).children 2 = [5] ∧
      (start.after edits 3).parent 1 = some 4 ∧ (start.after edits 3).Terminating := by
  intro edits
  have hok : (parse .inserted [.plain .identifier "x"]).isOk = true := by decide +kernel
  obtain ⟨start, hparse⟩ := exists_parse hok
  have hfacts : ((parse .inserted [.plain .identifier "x"]).toOption.map fun start =>
      ([0, 1, 2, 3].map fun count => (start.after edits count).size,
        (start.after edits 3).children 2, (start.after edits 3).parent 1)) =
      some ([3, 4, 5, 5], [5], some 4) := by
    decide +kernel
  simp only [hparse, Except.toOption, Option.map_some, Option.some.injEq, Prod.mk.injEq,
    List.map_cons, List.cons.injEq] at hfacts
  obtain ⟨⟨hzero, hone, htwo, hthree, -⟩, hchildren, hparent⟩ := hfacts
  have hstart : start.Initial := .inr ⟨_, _, hparse⟩
  have hsize : ∀ count, (start.after edits count).size ≤ 5 := by
    intro count
    match count with
    | 0 => omega
    | 1 => omega
    | 2 => omega
    | count + 3 =>
        have hlast : start.after edits (count + 3) = start.after edits 3 := by
          simp [Tree.after, edits]
        rw [hlast, hthree]
  have hgrounded : start.Grounded edits := by
    intro count edit hedit ref href
    match count with
    | 0 =>
        cases hedit
        obtain rfl := List.mem_singleton.mp href
        exact .inl (Tree.mem_ids.mpr ⟨by decide, by omega⟩)
    | 1 =>
        cases hedit
        rcases List.mem_cons.mp href with rfl | href
        · exact .inl (Tree.mem_ids.mpr ⟨by decide, by omega⟩)
        · obtain rfl := List.mem_singleton.mp href
          right
          intro later hid
          have hle := (Tree.mem_ids.mp hid).2
          have hlater := hsize later
          omega
    | 2 =>
        cases hedit
        cases href
    | count + 3 => cases hedit
  exact ⟨start, hparse, hstart, hgrounded, hchildren, hparent,
    (edits_keep_links_acyclic hstart hgrounded 3).2.2.2⟩

end ScriptSyntax

import ScriptSyntax.Proofs.Walks.Ancestry

/-!
# Walks that leave out descents

A walk that leaves out the descent at nodes of some kinds misses the nodes below them and
no others.  It goes down by the slots, while what is above a node is found by the links to
parents; in the tree of a program these are the same links, so the nodes missed are those
above which there is a node of one of the kinds.
-/

namespace ScriptSyntax

/-- Records every node before and after its children, and leaves out the descent at nodes
of the given kinds. -/
def Visitor.skipping (kinds : List NodeKind) : Visitor :=
  kinds.foldl (fun visitor kind => visitor.setDescent kind .skipped) .recorder

namespace Visitor

/-- Descents are left out one kind after another, and nothing else changes. -/
theorem descent_foldl_skip (kinds : List NodeKind) (visitor : Visitor) (kind : NodeKind) :
    (kinds.foldl (fun visitor kind => visitor.setDescent kind .skipped) visitor).descent kind =
      if kind ∈ kinds then .skipped else visitor.descent kind := by
  induction kinds generalizing visitor with
  | nil => rfl
  | cons first kinds ih =>
      rw [List.foldl_cons, ih]
      by_cases hkinds : kind ∈ kinds
      · rw [if_pos hkinds, if_pos (List.mem_cons_of_mem first hkinds)]
      · rw [if_neg hkinds]
        simp only [List.mem_cons, hkinds, or_false]
        rfl

theorem hooks_foldl_skip (kinds : List NodeKind) (visitor : Visitor) :
    (kinds.foldl (fun visitor kind => visitor.setDescent kind .skipped) visitor).before =
        visitor.before ∧
      (kinds.foldl (fun visitor kind => visitor.setDescent kind .skipped) visitor).after =
        visitor.after := by
  induction kinds generalizing visitor with
  | nil => exact ⟨rfl, rfl⟩
  | cons first kinds ih => exact ih (visitor.setDescent first .skipped)

theorem descent_skipping (kinds : List NodeKind) (kind : NodeKind) :
    (skipping kinds).descent kind = if kind ∈ kinds then .skipped else .standard :=
  descent_foldl_skip kinds .recorder kind

theorem overrides_skipping (kinds : List NodeKind) (kind : NodeKind) :
    (skipping kinds).overrides kind = kinds.contains kind := by
  rw [overrides, descent_skipping]
  by_cases hkind : kind ∈ kinds <;> simp [hkind]

theorem skipping_records (kinds : List NodeKind) :
    (skipping kinds).Records [.before, .after] where
  before_eq kind := congrFun (hooks_foldl_skip kinds .recorder).1 kind
  after_eq kind := congrFun (hooks_foldl_skip kinds .recorder).2 kind
  not_hooked kind := by
    rw [descent_skipping]
    split <;> nofun

end Visitor

namespace Tree

/-- The node is of one of the kinds. -/
def hasKindIn (tree : Tree) (kinds : List NodeKind) (id : NodeId) : Bool :=
  kinds.any fun kind => tree.hasKind kind id

/-- A node above the node, as the links to parents go, is of one of the kinds. -/
def isPruned (tree : Tree) (kinds : List NodeKind) (id : NodeId) : Bool :=
  (tree.ancestors id).any (tree.hasKindIn kinds)

variable {tree : Tree} {kinds : List NodeKind}

theorem hasKindIn_eq {id : NodeId} {shape : Shape NodeId} (hshape : tree.shape? id = some shape) :
    tree.hasKindIn kinds id = kinds.contains shape.kind := by
  simp only [hasKindIn, hasKind, hshape, Option.any_some]
  rw [Bool.eq_iff_iff]
  simp

/-- What is in a slot is missed if its holder is of one of the kinds, or missed itself. -/
theorem isPruned_of_mem_children (hplanted : tree.Planted) {id : NodeId}
    {shape : Shape NodeId} (hshape : tree.shape? id = some shape) {child : NodeId}
    (hchild : child ∈ shape.children) :
    tree.isPruned kinds child = (kinds.contains shape.kind || tree.isPruned kinds id) := by
  rw [isPruned, hplanted.ancestors_eq_cons (holds_of_mem_children hshape hchild),
    List.any_cons, hasKindIn_eq hshape, isPruned]

/-- Of the events in and below a node there remain those of the walk that leaves out
descents, unless that misses the node. -/
theorem filter_recordedEvents (hplanted : tree.Planted) (kinds : List NodeKind) (id : Nat) :
    (tree.recordedEvents [.before, .after] id).filter
        (fun event => !tree.isPruned kinds event.id) =
      if tree.isPruned kinds id then [] else tree.traceOf (.skipping kinds) id := by
  have hrecords := Visitor.skipping_records kinds
  induction id using hplanted.ordered.induct with
  | unknown id hshape =>
    rw [recordedEvents_of_unknown _ hshape, traceOf_of_unknown hrecords hshape]
    simp
  | node id shape hshape ih =>
      have hbelow : (shape.children.flatMap (tree.recordedEvents [.before, .after])).filter
            (fun event => !tree.isPruned kinds event.id) =
          if kinds.contains shape.kind || tree.isPruned kinds id then []
          else shape.children.flatMap (tree.traceOf (.skipping kinds)) := by
        rw [List.filter_flatMap]
        split
        · rename_i hpruned
          apply List.flatMap_eq_nil_iff.mpr
          intro child hchild
          rw [ih child hchild, isPruned_of_mem_children hplanted hshape hchild, if_pos hpruned]
        · rename_i hkept
          apply flatMap_congr_children
          intro child hchild
          rw [ih child hchild, isPruned_of_mem_children hplanted hshape hchild, if_neg hkept]
      rw [recordedEvents_eq hplanted.ordered _ hshape, traceOf_eq hplanted.ordered hrecords hshape,
        eventsAround, eventsUnder, Visitor.overrides_skipping, List.filter_append,
        List.filter_append, hbelow]
      cases hpruned : tree.isPruned kinds id <;> simp [Event.recorded, hpruned]

/-- A walk that records has the events of all nodes in and below the one it starts from. -/
theorem mem_recordedEvents (hordered : tree.Ordered) {phase : Phase}
    (hphase : phase ∈ [Phase.before, .after]) {id : NodeId} {shape : Shape NodeId}
    (hshape : tree.shape? id = some shape) {top : Nat} (hid : id ∈ tree.postorder top) :
    ⟨phase, shape.kind, id⟩ ∈ tree.recordedEvents [.before, .after] top := by
  induction top using hordered.induct with
  | unknown top htop =>
    rw [postorder_of_unknown htop] at hid
    cases hid
  | node top above htop ih =>
      rw [postorder_eq hordered htop, List.mem_append, List.mem_singleton] at hid
      rw [recordedEvents_eq hordered _ htop, eventsAround, List.mem_append, List.mem_append]
      rcases hid with hbelow | rfl
      · obtain ⟨child, hchild, hid⟩ := List.mem_flatMap.mp hbelow
        exact .inl (.inr (List.mem_flatMap.mpr ⟨child, hchild, ih child hchild hid⟩))
      · obtain rfl : shape = above := Option.some.inj (hshape.symm.trans htop)
        rcases List.mem_pair.mp hphase with rfl | rfl
        · exact .inl (.inl List.mem_cons_self)
        · exact .inr List.mem_cons_self

end Tree

/-- A walk over a program that leaves out the descent at nodes of some kinds, which it
records like all others, has the events of the full walk, in the same order, but for those
of the nodes with a node of one of the kinds above them.  The nodes at which it leaves out
the descent keep both their events, unless they are below another one. -/
theorem skipping_prunes_descendants {semicolons : Semicolons} {tokens : List Token}
    {tree : Tree} (hparse : parse semicolons tokens = .ok tree) (kinds : List NodeKind) :
    tree.traceOf (.skipping kinds) tree.rootId =
        tree.events.filter (fun event => !tree.isPruned kinds event.id) ∧
      ∀ id shape, tree.shape? id = some shape → tree.isPruned kinds id = false →
        ∀ phase ∈ [Phase.before, .after],
          ⟨phase, shape.kind, id⟩ ∈ tree.traceOf (.skipping kinds) tree.rootId := by
  have hplanted := Tree.planted_of_parse hparse
  have hroot : tree.isPruned kinds tree.rootId = false := by
    rw [Tree.isPruned, hplanted.ancestors_root]
    rfl
  have htrace : tree.traceOf (.skipping kinds) tree.rootId =
      tree.events.filter (fun event => !tree.isPruned kinds event.id) := by
    rw [Tree.events_eq, Tree.filter_recordedEvents hplanted, hroot]
    rfl
  refine ⟨htrace, ?_⟩
  intro id shape hshape hkept phase hphase
  have hid : id ∈ tree.postorder tree.rootId := by
    rw [hplanted.whole]
    exact Tree.mem_ids_of_shape? hshape
  rw [htrace, List.mem_filter, hkept]
  exact ⟨Tree.mem_recordedEvents hplanted.ordered hphase hshape hid, rfl⟩

/-- In `if (f(g(x))) { y; }` what is below calls and blocks is left out: the call of `f`
and the block keep their events, while of the call of `g` nothing is recorded. -/
theorem skipping_prunes_descendants_calls :
    let tokens := [Token.plain .keyword "if", .plain .punctuation "(",
      .plain .identifier "f", .plain .punctuation "(", .plain .identifier "g",
      .plain .punctuation "(", .plain .identifier "x", .plain .punctuation ")",
      .plain .punctuation ")", .plain .punctuation ")", .plain .punctuation "\x7b",
      .plain .identifier "y", .plain .punctuation ";", .plain .punctuation "\x7d"]
    let kinds := [NodeKind.application, .block]
    ∃ tree, parse .required tokens = .ok tree ∧
      tree.traceOf (.skipping kinds) tree.rootId =
        tree.events.filter (fun event => !tree.isPruned kinds event.id) ∧
      (tree.traceOf (.skipping kinds) tree.rootId).map Event.id =
        [11, 10, 6, 5, 5, 6, 9, 9, 10, 11] := by
  intro tokens kinds
  have hread : (parse .required tokens).toOption.map (fun tree =>
      (tree.traceOf (.skipping kinds) tree.rootId).map Event.id) =
        some [11, 10, 6, 5, 5, 6, 9, 9, 10, 11] := by decide +kernel
  obtain ⟨tree, hparse, hids⟩ := exists_parse_eq hread
  exact ⟨tree, hparse, (skipping_prunes_descendants hparse kinds).1, hids⟩

end ScriptSyntax

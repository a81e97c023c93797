import ScriptSyntax.Proofs.Arena
import ScriptSyntax.Tree.Outline

/-!
# Recording walks

A walk that does nothing but record visits leaves a trace that can be computed
from below: the events of a node are its own around those of the nodes below it,
as far as the walk goes down to them.  Where it goes down everywhere the nodes are
left in post-order, and the number of nodes of a kind can be read off the
post-order.
-/

namespace ScriptSyntax

/-- Records every node in the given phases. -/
def Visitor.recording (phases : List Phase) : Visitor where
  before _ := if .before ∈ phases then [.record] else []
  after _ := if .after ∈ phases then [.record] else []

/-- The visitor does nothing but record, in the given phases; at some kinds it may
leave out the descent. -/
structure Visitor.Records (visitor : Visitor) (phases : List Phase) : Prop where
  before_eq : ∀ kind, visitor.before kind = if .before ∈ phases then [.record] else []
  after_eq : ∀ kind, visitor.after kind = if .after ∈ phases then [.record] else []
  not_hooked : ∀ kind, visitor.descent kind ≠ .hooked

theorem Visitor.recording_records (phases : List Phase) :
    (Visitor.recording phases).Records phases where
  before_eq _ := rfl
  after_eq _ := rfl
  not_hooked _ := nofun

/-- The event of a node in a phase, if that is recorded. -/
def Event.recorded (phases : List Phase) (phase : Phase) (kind : NodeKind) (id : NodeId) :
    List Event :=
  if phase ∈ phases then [⟨phase, kind, id⟩] else []

namespace Walk

/-- The walk with more events in its trace. -/
def extend (walk : Walk) (events : List Event) : Walk :=
  { walk with trace := walk.trace ++ events.toArray }

@[simp]
theorem extend_nil (walk : Walk) : walk.extend [] = walk := by
  simp [extend]

@[simp]
theorem extend_extend (walk : Walk) (first second : List Event) :
    (walk.extend first).extend second = walk.extend (first ++ second) := by
  simp [extend]

theorem perform_recorded (visit : NodeId → Walk → Walk) (phases : List Phase)
    (phase : Phase) (kind : NodeKind) (id : NodeId) (children : List NodeId) (walk : Walk) :
    walk.perform visit ⟨phase, kind, id⟩ children (if phase ∈ phases then [.record] else []) =
      walk.extend (Event.recorded phases phase kind id) := by
  unfold Event.recorded
  split
  · simp [perform, act, extend]
  · simp [perform]

/-- Visits that extend the trace do so one after another. -/
theorem visitAll_extend {visit : NodeId → Walk → Walk} {eventsOf : NodeId → List Event}
    {visitor : Visitor}
    (hvisit : ∀ id walk, walk.visitor = visitor → visit id walk = walk.extend (eventsOf id))
    (ids : List NodeId) {walk : Walk} (hwalk : walk.visitor = visitor) :
    walk.visitAll visit ids = walk.extend (ids.flatMap eventsOf) := by
  induction ids generalizing walk with
  | nil => simp [visitAll]
  | cons id ids ih =>
      have hcons : walk.visitAll visit (id :: ids) = (visit id walk).visitAll visit ids := rfl
      have hnext : (walk.extend (eventsOf id)).visitor = visitor := hwalk
      rw [hcons, hvisit id walk hwalk, ih hnext, extend_extend, List.flatMap_cons]

/-- The descent of a visitor that hooks none, with visits that extend the trace. -/
theorem descend_extend {visit : NodeId → Walk → Walk} {eventsOf : NodeId → List Event}
    {walk : Walk} (hvisit : ∀ id other, other.visitor = walk.visitor →
      visit id other = other.extend (eventsOf id))
    {kind : NodeKind} (hhooked : walk.visitor.descent kind ≠ .hooked) (id : NodeId)
    (children : List NodeId) :
    walk.descend visit kind id children =
      walk.extend
        (if walk.visitor.overrides kind then [] else children.flatMap eventsOf) := by
  unfold descend Visitor.overrides
  cases hdescent : walk.visitor.descent kind with
  | standard => exact visitAll_extend hvisit children rfl
  | skipped => exact (extend_nil walk).symm
  | hooked => exact absurd hdescent hhooked

end Walk

namespace Tree

/-- The events of a node from those of the nodes below it, as far as a visitor goes
down to them. -/
def eventsUnder (visitor : Visitor) (phases : List Phase) (id : NodeId)
    (shape : Shape NodeId) (eventsOf : NodeId → List Event) : List Event :=
  Event.recorded phases .before shape.kind id ++
    (if visitor.overrides shape.kind then [] else shape.children.flatMap eventsOf) ++
    Event.recorded phases .after shape.kind id

end Tree

namespace Walk

/-- A visit that records a node, with visits below it that extend the trace. -/
theorem visitNode_records {visit : NodeId → Walk → Walk} {visitor : Visitor}
    {phases : List Phase} (hrecords : visitor.Records phases)
    {eventsOf : NodeId → List Event}
    (hvisit : ∀ id walk, walk.visitor = visitor → visit id walk = walk.extend (eventsOf id))
    (id : NodeId) (node : Node) {walk : Walk} (hwalk : walk.visitor = visitor) :
    walk.visitNode visit id node =
      walk.extend (Tree.eventsUnder visitor phases id node.shape eventsOf) := by
  subst hwalk
  have hbefore : walk.perform visit ⟨.before, node.shape.kind, id⟩ node.shape.children
      (walk.visitor.before node.shape.kind) =
      walk.extend (Event.recorded phases .before node.shape.kind id) := by
    rw [hrecords.before_eq]
    exact perform_recorded ..
  have hdescend : ∀ entered : Walk, entered.visitor = walk.visitor →
      entered.descend visit node.shape.kind id node.shape.children =
        entered.extend (if walk.visitor.overrides node.shape.kind then []
          else node.shape.children.flatMap eventsOf) := by
    intro entered hentered
    rw [← hentered] at hvisit hrecords ⊢
    exact descend_extend hvisit (hrecords.not_hooked _) id _
  have hafter : ∀ descended : Walk, descended.visitor = walk.visitor →
      descended.perform visit ⟨.after, node.shape.kind, id⟩ node.shape.children
        (descended.visitor.after node.shape.kind) =
        descended.extend (Event.recorded phases .after node.shape.kind id) := by
    intro descended hdescended
    rw [hdescended, hrecords.after_eq]
    exact perform_recorded ..
  unfold visitNode
  dsimp only
  rw [hbefore, hdescend (walk.extend _) rfl, hafter ((walk.extend _).extend _) rfl,
    extend_extend, extend_extend, ← List.append_assoc]
  rfl

end Walk

namespace Tree

theorem visitWithin_records (tree : Tree) {visitor : Visitor} {phases : List Phase}
    (hrecords : visitor.Records phases) (limit : Nat) (id : NodeId) (walk : Walk)
    (hwalk : walk.visitor = visitor) :
    tree.visitWithin limit id walk =
      walk.extend (tree.foldWithin [] (eventsUnder visitor phases) limit id) := by
  induction limit generalizing id walk with
  | zero => simp [visitWithin, foldWithin]
  | succ limit ih =>
      rw [visitWithin, foldWithin, shape?]
      cases tree.find? id with
      | none => simp
      | some node => exact Walk.visitNode_records hrecords ih id node hwalk

theorem flatMap_congr_children {Result : Type} (shape : Shape NodeId)
    {first second : NodeId → List Result}
    (heq : ∀ child : Nat, child ∈ shape.children → first child = second child) :
    shape.children.flatMap first = shape.children.flatMap second := by
  rw [List.flatMap_def, List.map_congr_left heq, ← List.flatMap_def]

theorem eventsUnder_local (visitor : Visitor) (phases : List Phase) :
    Local (eventsUnder visitor phases) := by
  intro id shape first second heq
  rw [eventsUnder, flatMap_congr_children shape heq]
  rfl

/-- The trace that a walk from a node leaves. -/
def traceOf (tree : Tree) (visitor : Visitor) (id : NodeId) : List Event :=
  (tree.visit id ⟨visitor, #[]⟩).trace.toList

section Records

variable {tree : Tree} {visitor : Visitor} {phases : List Phase}

theorem traceOf_eq_fold (hrecords : visitor.Records phases) (id : NodeId) :
    tree.traceOf visitor id = tree.fold [] (eventsUnder visitor phases) id := by
  rw [traceOf, visit, visitWithin_records tree hrecords _ _ _ rfl]
  simp [Walk.extend, fold]

theorem traceOf_eq (hordered : tree.Ordered) (hrecords : visitor.Records phases) {id : Nat}
    {shape : Shape NodeId} (hshape : tree.shape? id = some shape) :
    tree.traceOf visitor id = eventsUnder visitor phases id shape (tree.traceOf visitor) := by
  have hfold : tree.traceOf visitor = tree.fold [] (eventsUnder visitor phases) :=
    funext fun other => traceOf_eq_fold hrecords other
  rw [hfold]
  exact fold_eq hordered (eventsUnder_local visitor phases) hshape

theorem traceOf_of_unknown (hrecords : visitor.Records phases) {id : Nat}
    (hshape : tree.shape? id = none) : tree.traceOf visitor id = [] := by
  rw [traceOf_eq_fold hrecords]
  exact fold_of_unknown hshape

end Records

/-- The events of a node from those of the nodes below it. -/
def eventsAround (phases : List Phase) (id : NodeId) (shape : Shape NodeId)
    (eventsOf : NodeId → List Event) : List Event :=
  Event.recorded phases .before shape.kind id ++ shape.children.flatMap eventsOf ++
    Event.recorded phases .after shape.kind id

/-- A visitor that only records goes down everywhere. -/
theorem eventsUnder_recording (phases : List Phase) :
    eventsUnder (.recording phases) phases = eventsAround phases := rfl

/-- The events of a walk that records a node and what is below it. -/
def recordedEvents (tree : Tree) (phases : List Phase) (id : NodeId) : List Event :=
  (tree.visit id ⟨.recording phases, #[]⟩).trace.toList

theorem events_eq (tree : Tree) :
    tree.events = tree.recordedEvents [.before, .after] tree.rootId := rfl

theorem recordedEvents_eq_fold (tree : Tree) (phases : List Phase) (id : NodeId) :
    tree.recordedEvents phases id = tree.fold [] (eventsAround phases) id := by
  rw [← eventsUnder_recording]
  exact traceOf_eq_fold (Visitor.recording_records phases) id

theorem recordedEvents_eq {tree : Tree} (hordered : tree.Ordered) (phases : List Phase)
    {id : Nat} {shape : Shape NodeId} (hshape : tree.shape? id = some shape) :
    tree.recordedEvents phases id =
      eventsAround phases id shape (tree.recordedEvents phases) := by
  rw [← eventsUnder_recording]
  exact traceOf_eq hordered (Visitor.recording_records phases) hshape

theorem recordedEvents_of_unknown {tree : Tree} (phases : List Phase) {id : Nat}
    (hshape : tree.shape? id = none) : tree.recordedEvents phases id = [] :=
  traceOf_of_unknown (Visitor.recording_records phases) hshape

/-- The nodes in and below a node, each after those below it. -/
def postorder (tree : Tree) (id : NodeId) : List NodeId :=
  tree.fold [] (fun id shape nodesOf => shape.children.flatMap nodesOf ++ [id]) id

theorem postorder_local :
    Local fun id shape nodesOf => shape.children.flatMap nodesOf ++ [id] := by
  intro id shape first second heq
  dsimp only
  rw [flatMap_congr_children shape heq]

theorem postorder_eq {tree : Tree} (hordered : tree.Ordered) {id : Nat}
    {shape : Shape NodeId} (hshape : tree.shape? id = some shape) :
    tree.postorder id = shape.children.flatMap tree.postorder ++ [id] :=
  fold_eq hordered postorder_local hshape

theorem postorder_of_unknown {tree : Tree} {id : Nat} (hshape : tree.shape? id = none) :
    tree.postorder id = [] :=
  fold_of_unknown hshape

/-- A walk leaves the nodes in post-order. -/
theorem recordedEvents_after {tree : Tree} (hordered : tree.Ordered) (id : Nat) :
    (tree.recordedEvents [.after] id).map Event.id = tree.postorder id := by
  induction id using hordered.induct with
  | unknown id hshape =>
    rw [recordedEvents_of_unknown _ hshape, postorder_of_unknown hshape]
    rfl
  | node id shape hshape ih =>
      rw [recordedEvents_eq hordered _ hshape, postorder_eq hordered hshape, eventsAround,
        List.map_append, List.map_append, List.map_flatMap, flatMap_congr_children shape ih]
      rfl

/-- The node has the kind. -/
def hasKind (tree : Tree) (kind : NodeKind) (id : NodeId) : Bool :=
  (tree.shape? id).any fun shape => shape.kind == kind

/-- A walk enters each node of the post-order once. -/
theorem countP_recordedEvents_before {tree : Tree} (hordered : tree.Ordered)
    (kind : NodeKind) (id : Nat) :
    (tree.recordedEvents [.before, .after] id).countP
        (fun event => event.phase == .before && event.kind == kind) =
      (tree.postorder id).countP (tree.hasKind kind) := by
  induction id using hordered.induct with
  | unknown id hshape =>
    rw [recordedEvents_of_unknown _ hshape, postorder_of_unknown hshape]
    rfl
  | node id shape hshape ih =>
      have hchildren := List.map_congr_left ih
      rw [recordedEvents_eq hordered _ hshape, postorder_eq hordered hshape, eventsAround,
        List.countP_append, List.countP_append, List.countP_append, List.countP_flatMap,
        List.countP_flatMap]
      simp only [Function.comp_def]
      rw [hchildren]
      simp [Event.recorded, hasKind, hshape, List.countP_cons, Nat.add_comm]

theorem map_shape?_ids (tree : Tree) :
    tree.ids.map tree.shape? = tree.nodes.toList.map fun node => some node.shape := by
  apply List.ext_getElem?
  intro index
  rw [List.getElem?_map, List.getElem?_map, ids]
  by_cases hindex : index < tree.size
  · rw [List.getElem?_range' hindex, Nat.one_mul, Nat.add_comm]
    simp [shape?, find?, Array.getElem?_eq_getElem hindex]
  · rw [List.getElem?_eq_none (by simpa using hindex),
      List.getElem?_eq_none (by simpa [size] using hindex)]
    rfl

/-- In a program whose post-order is its nodes, the count of a kind is the number
of nodes that have it. -/
theorem count_eq {tree : Tree} (hordered : tree.Ordered)
    (hids : tree.postorder tree.rootId = tree.ids) (kind : NodeKind) :
    tree.count kind = tree.nodes.toList.countP fun node => node.shape.kind == kind := by
  have hkind : tree.hasKind kind =
      (fun shape : Option (Shape NodeId) => shape.any fun shape => shape.kind == kind) ∘
        tree.shape? := rfl
  rw [count, events_eq, countP_recordedEvents_before hordered, hids, hkind, ← List.countP_map,
    map_shape?_ids, List.countP_map]
  rfl

theorem mem_census {tree : Tree} {kind : NodeKind} {number : Nat} :
    (kind, number) ∈ tree.census ↔ number ≠ 0 ∧ number = tree.count kind := by
  have hkind : kind ∈ NodeKind.byName := by
    apply (List.mergeSort_perm ..).mem_iff.mpr
    cases kind <;> decide
  simp only [census, List.mem_filter, List.mem_map, bne_iff_ne]
  constructor
  · rintro ⟨⟨other, -, heq⟩, hne⟩
    cases heq
    exact ⟨hne, rfl⟩
  · rintro ⟨hne, rfl⟩
    exact ⟨⟨kind, hkind, rfl⟩, hne⟩

/-- A census has one entry for each kind that it lists. -/
theorem nodup_census (tree : Tree) : (tree.census.map Prod.fst).Nodup := by
  have hkinds : NodeKind.byName.Nodup := by
    apply (List.mergeSort_perm ..).nodup_iff.mpr
    decide
  have hentries : (tree.census.map Prod.fst).Sublist NodeKind.byName := by
    have hall : (NodeKind.byName.map fun kind => (kind, tree.count kind)).map Prod.fst =
        NodeKind.byName := by
      rw [List.map_map]
      exact List.map_id _
    have hfilter := (List.filter_sublist (p := fun entry : NodeKind × Nat => entry.2 != 0)
      (l := NodeKind.byName.map fun kind => (kind, tree.count kind))).map Prod.fst
    rwa [hall] at hfilter
  exact hentries.nodup hkinds

end Tree

end ScriptSyntax

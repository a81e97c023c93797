import Mathlib.Algebra.Order.Ring.Int
import ScriptSyntax.Proofs.Editing.Preorder
import ScriptSyntax.Proofs.Walks.Ancestry

/-!
# Indentation

An outline counts the depth while it follows a walk: up at each node that is entered, down
at each node that is left.  The events in and below a node are balanced, so the count after
them is the count before them, and on the way it does not fall below that.  Hence the count
at a node is the number of nodes above it.
-/

namespace ScriptSyntax

/-- What an event adds to the depth. -/
def Event.rise (event : Event) : ℤ :=
  match event.phase with
  | .before => 1
  | .on => 0
  | .after => -1

/-- Nodes entered minus nodes left. -/
def depthAfter (events : List Event) : ℤ :=
  (events.map Event.rise).sum

/-- Every node that is left was entered before, and every node that was entered is left. -/
structure Balanced (events : List Event) : Prop where
  nonneg : ∀ part, part <+: events → 0 ≤ depthAfter part
  settled : depthAfter events = 0

@[simp]
theorem depthAfter_nil : depthAfter [] = 0 := rfl

@[simp]
theorem depthAfter_cons (event : Event) (events : List Event) :
    depthAfter (event :: events) = event.rise + depthAfter events := by
  simp [depthAfter]

@[simp]
theorem depthAfter_append (first second : List Event) :
    depthAfter (first ++ second) = depthAfter first + depthAfter second := by
  simp [depthAfter]

/-- A prefix of two lists one after another ends in the first one or in the second one. -/
theorem prefix_append_cases {Value : Type} {part first second : List Value}
    (hpart : part <+: first ++ second) :
    part <+: first ∨ ∃ rest, part = first ++ rest ∧ rest <+: second := by
  obtain ⟨rest, hrest⟩ := hpart
  rcases List.append_eq_append_iff.mp hrest with ⟨more, hfirst, -⟩ | ⟨more, hpart, hsecond⟩
  · exact .inl ⟨more, hfirst.symm⟩
  · exact .inr ⟨more, hpart, rest, hsecond.symm⟩

namespace Balanced

variable {first second : List Event}

theorem nil : Balanced [] where
  nonneg part hpart := by
    rw [List.prefix_nil.mp hpart]
    rfl
  settled := rfl

theorem append (hfirst : Balanced first) (hsecond : Balanced second) :
    Balanced (first ++ second) where
  nonneg part hpart := by
    rcases prefix_append_cases hpart with hpart | ⟨rest, rfl, hrest⟩
    · exact hfirst.nonneg part hpart
    · rw [depthAfter_append, hfirst.settled, Int.zero_add]
      exact hsecond.nonneg rest hrest
  settled := by rw [depthAfter_append, hfirst.settled, hsecond.settled, Int.add_zero]

theorem flatMap {ids : List NodeId} {eventsOf : NodeId → List Event}
    (heach : ∀ id : Nat, id ∈ ids → Balanced (eventsOf id)) : Balanced (ids.flatMap eventsOf) := by
  induction ids with
  | nil => exact nil
  | cons id ids ih =>
      have hrest := ih fun other hother => heach other (List.mem_cons_of_mem id hother)
      exact (heach id List.mem_cons_self).append hrest

/-- Entering a node, what is below it, and leaving it. -/
theorem around {kind other : NodeKind} {id last : NodeId} (hfirst : Balanced first) :
    Balanced ([⟨.before, kind, id⟩] ++ first ++ [⟨.after, other, last⟩]) := by
  have hentered : ∀ events, depthAfter ([⟨.before, kind, id⟩] ++ events) =
      1 + depthAfter events := fun events => depthAfter_append _ events
  have hsettled : depthAfter ([⟨.before, kind, id⟩] ++ first ++ [⟨.after, other, last⟩]) = 0 := by
    rw [depthAfter_append, hentered, hfirst.settled]
    rfl
  constructor
  case settled => exact hsettled
  case nonneg =>
    intro part hpart
    rcases List.prefix_concat_iff.mp hpart with rfl | hpart
    · exact Int.le_of_eq hsettled.symm
    · rcases List.prefix_cons_iff.mp hpart with rfl | ⟨below, rfl, hbelow⟩
      · exact Int.le_refl 0
      · have hnonneg := hfirst.nonneg below hbelow
        have hpart := hentered below
        rw [List.singleton_append] at hpart
        omega

end Balanced

namespace Tree

variable {tree : Tree}

/-- A walk that records both phases is balanced. -/
theorem balanced_recordedEvents (hordered : tree.Ordered) (id : Nat) :
    Balanced (tree.recordedEvents [.before, .after] id) := by
  induction id using hordered.induct with
  | unknown id hshape =>
    rw [recordedEvents_of_unknown _ hshape]
    exact .nil
  | node id shape hshape ih =>
      rw [recordedEvents_eq hordered _ hshape]
      exact (Balanced.flatMap ih).around

/-- The counter of an outline is the depth that it starts from, with the nodes entered and
left since then, as long as this is not below zero. -/
theorem outlineLines_append {depth : Nat} {events : List Event}
    (hnonneg : ∀ part, part <+: events → 0 ≤ depth + depthAfter part) (rest : List Event) :
    tree.outlineLines depth (events ++ rest) = tree.outlineLines depth events ++
      tree.outlineLines (depth + depthAfter events).toNat rest := by
  induction events generalizing depth with
  | nil => simp [outlineLines]
  | cons event events ih =>
      have hnext : 0 ≤ depth + event.rise := by
        simpa using hnonneg [event] ⟨events, rfl⟩
      obtain ⟨next, hdepth⟩ := Int.eq_ofNat_of_zero_le hnext
      have hlater : ∀ part, part <+: events → 0 ≤ (next : ℤ) + depthAfter part := by
        intro part hpart
        have hwhole := hnonneg (event :: part) (List.cons_prefix_cons.mpr ⟨rfl, hpart⟩)
        rw [depthAfter_cons] at hwhole
        omega
      have hrest := ih hlater
      have hsum : (depth : ℤ) + depthAfter (event :: events) = next + depthAfter events := by
        rw [depthAfter_cons]
        omega
      rw [hsum, List.cons_append, outlineLines, outlineLines]
      cases hphase : event.phase with
      | before =>
          have hrise : event.rise = 1 := by rw [Event.rise, hphase]
          obtain rfl : next = depth + 1 := by omega
          dsimp only
          rw [hrest]
          rfl
      | on =>
          have hrise : event.rise = 0 := by rw [Event.rise, hphase]
          obtain rfl : next = depth := by omega
          exact hrest
      | after =>
          have hrise : event.rise = -1 := by rw [Event.rise, hphase]
          obtain rfl : next = depth - 1 := by omega
          exact hrest

theorem outlineLines_append_of_balanced {events : List Event} (hbalanced : Balanced events)
    (depth : Nat) (rest : List Event) :
    tree.outlineLines depth (events ++ rest) =
      tree.outlineLines depth events ++ tree.outlineLines depth rest := by
  rw [outlineLines_append, hbalanced.settled, Int.add_zero, Int.toNat_natCast]
  intro part hpart
  have := hbalanced.nonneg part hpart
  omega

theorem outlineLines_flatMap {ids : List NodeId} {eventsOf : NodeId → List Event}
    (heach : ∀ id : Nat, id ∈ ids → Balanced (eventsOf id)) (depth : Nat) :
    tree.outlineLines depth (ids.flatMap eventsOf) =
      ids.flatMap fun id => tree.outlineLines depth (eventsOf id) := by
  induction ids with
  | nil => rfl
  | cons id ids ih =>
      have hrest := ih fun other hother => heach other (List.mem_cons_of_mem id hother)
      rw [List.flatMap_cons, outlineLines_append_of_balanced (heach id List.mem_cons_self), hrest]
      rfl

/-- The line of a node, indented by the number of nodes above it. -/
def outlineRow (tree : Tree) (id : NodeId) : String :=
  tree.outlineLine (tree.ancestors id).length id

/-- A walk from a node, at the depth of the node, gives the lines of the nodes that it
enters, each at its own depth. -/
theorem outlineLines_recordedEvents (hplanted : tree.Planted) (id : Nat) :
    tree.outlineLines (tree.ancestors id).length
        (tree.recordedEvents [.before, .after] id) =
      (tree.preorder id).map tree.outlineRow := by
  have hordered := hplanted.ordered
  induction id using hordered.induct with
  | unknown id hshape =>
    rw [preorder, recordedEvents_of_unknown _ hshape, recordedEvents_of_unknown _ hshape]
    rfl
  | node id shape hshape ih =>
      have hbalanced : ∀ child : Nat, child ∈ shape.children →
          Balanced (tree.recordedEvents [.before, .after] child) :=
        fun child _ => balanced_recordedEvents hordered child
      have hbelow : tree.outlineLines ((tree.ancestors id).length + 1)
            (shape.children.flatMap (tree.recordedEvents [.before, .after])) =
          (shape.children.flatMap tree.preorder).map tree.outlineRow := by
        rw [outlineLines_flatMap hbalanced, List.map_flatMap]
        apply flatMap_congr_children
        intro child hchild
        rw [← ih child hchild,
          hplanted.ancestors_eq_cons (holds_of_mem_children hshape hchild), List.length_cons]
      have hentered : tree.outlineLines (tree.ancestors id).length
            (tree.recordedEvents [.before, .after] id) =
          tree.outlineRow id :: tree.outlineLines ((tree.ancestors id).length + 1)
            (shape.children.flatMap (tree.recordedEvents [.before, .after]) ++
              [⟨.after, shape.kind, id⟩]) := by
        rw [recordedEvents_eq hordered _ hshape, eventsAround, List.append_assoc]
        rfl
      rw [hentered, outlineLines_append_of_balanced (.flatMap hbalanced), hbelow,
        hordered.preorder_eq hshape]
      simp [outlineLines]

/-- The outline of a program has the lines of its nodes in pre-order. -/
theorem Planted.outlineLines_eq (hplanted : tree.Planted) :
    tree.outlineLines 0 tree.events = (tree.preorder tree.rootId).map tree.outlineRow := by
  rw [← outlineLines_recordedEvents hplanted, hplanted.ancestors_root, events_eq,
    List.length_nil]

end Tree

/-- The outline of a program has a line for each node in pre-order, indented by two spaces
for each node above it.  The counter that it indents by is the number of nodes entered and
not yet left; it is not below zero at any moment of the walk, and zero after it. -/
theorem outline_shows_ancestors {semicolons : Semicolons} {tokens : List Token} {tree : Tree}
    (hparse : parse semicolons tokens = .ok tree) :
    tree.outline = String.join ((tree.preorder tree.rootId).map tree.outlineRow) ∧
    (∀ id shape, tree.shape? id = some shape →
      tree.preorder id = id :: shape.children.flatMap tree.preorder) ∧
    (∀ part rest, tree.events = part ++ rest →
      0 ≤ depthAfter part ∧
        tree.outlineLines 0 tree.events =
          tree.outlineLines 0 part ++ tree.outlineLines (depthAfter part).toNat rest) ∧
    depthAfter tree.events = 0 := by
  have hplanted := Tree.planted_of_parse hparse
  have hbalanced : Balanced tree.events :=
    Tree.balanced_recordedEvents hplanted.ordered tree.rootId
  refine ⟨?_, ?_, ?_, hbalanced.settled⟩
  · rw [Tree.outline, hplanted.outlineLines_eq]
  · intro id shape hshape
    exact hplanted.ordered.preorder_eq hshape
  · intro part rest hevents
    have hnonneg : ∀ early, early <+: part → 0 ≤ ((0 : Nat) : ℤ) + depthAfter early := by
      intro early hearly
      rw [Int.natCast_zero, Int.zero_add]
      exact hbalanced.nonneg early (hearly.trans ⟨rest, hevents.symm⟩)
    refine ⟨hbalanced.nonneg part ⟨rest, hevents.symm⟩, ?_⟩
    rw [hevents, Tree.outlineLines_append hnonneg, Int.natCast_zero, Int.zero_add]

/-- The outline of `-f(x);`, and the number of nodes above each of its nodes. -/
theorem outline_shows_ancestors_call :
    let tokens := [Token.plain .operator "-", .plain .identifier "f",
      .plain .punctuation "(", .plain .identifier "x", .plain .punctuation ")",
      .plain .punctuation ";"]
    ∃ tree, parse .required tokens = .ok tree ∧
      String.join ((tree.preorder tree.rootId).map tree.outlineRow) =
        "Root #6\n  ExpressionStatement #5\n    UnaryPrefix - #4\n      Application #3\n" ++
          "        Name f #1\n        Name x #2\n" ∧
      (tree.preorder tree.rootId).map (fun id => (id, (tree.ancestors id).length)) =
        [(6, 0), (5, 1), (4, 2), (3, 3), (1, 4), (2, 4)] := by
  intro tokens
  have hread : (parse .required tokens).toOption.map (fun tree =>
      (tree.outline, (tree.preorder tree.rootId).map fun id =>
        (id, (tree.ancestors id).length))) =
      some ("Root #6\n  ExpressionStatement #5\n    UnaryPrefix - #4\n" ++
        "      Application #3\n        Name f #1\n        Name x #2\n",
        [(6, 0), (5, 1), (4, 2), (3, 3), (1, 4), (2, 4)]) := by decide +kernel
  obtain ⟨tree, hparse, hvalue⟩ := exists_parse_eq hread
  have houtline := (outline_shows_ancestors hparse).1
  refine ⟨tree, hparse, ?_, congrArg Prod.snd hvalue⟩
  rw [← houtline]
  exact congrArg Prod.fst hvalue

end ScriptSyntax

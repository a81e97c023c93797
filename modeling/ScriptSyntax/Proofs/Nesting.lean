import ScriptSyntax.Proofs.Growth
import ScriptSyntax.Proofs.Scanning

/-!
# Nesting of spans

Where tokens stand in source order, so do the parts of a trace and the tokens
still to be passed, taken together.  A new node reaches from the first of the
parts that it takes up to the last: it contains them all, they keep their order,
and it stands in their place among the rest.
-/

namespace ScriptSyntax

namespace Span

/-- Spans that run forwards, each of them before all that follow. -/
structure Disjoint (spans : List Span) : Prop where
  forward : ∀ span ∈ spans, span.Forward
  pairwise : spans.Pairwise Precedes

variable {spans before middle after : List Span} {first last : Span}

theorem InOrder.disjoint (hspans : InOrder spans) : Disjoint spans :=
  ⟨hspans.pairwise.1, hspans.pairwise.2⟩

theorem Disjoint.sublist {others : List Span} (hspans : Disjoint spans)
    (hothers : others.Sublist spans) : Disjoint others :=
  ⟨fun span hspan => hspans.forward span (hothers.subset hspan),
    hspans.pairwise.sublist hothers⟩

theorem contains_iff {outer inner : Span} :
    outer.contains inner = true ↔
      outer.start.offset ≤ inner.start.offset ∧ inner.stop.offset ≤ outer.stop.offset := by
  simp [contains]

/-- The first of some spans starts at or before all of them. -/
theorem Disjoint.start_le (hspans : Disjoint spans) (hfirst : spans.head? = some first)
    {span : Span} (hspan : span ∈ spans) : first.start.offset ≤ span.start.offset := by
  cases spans with
  | nil => cases hfirst
  | cons head tail =>
      cases hfirst
      rcases List.mem_cons.mp hspan with heq | hspan
      · rw [heq]
        exact UInt32.le_refl _
      · have hforward := hspans.forward first List.mem_cons_self
        exact UInt32.le_trans hforward ((List.pairwise_cons.mp hspans.pairwise).1 span hspan)

/-- The last of some spans ends at or after all of them. -/
theorem Disjoint.le_stop (hspans : Disjoint spans) (hlast : spans.getLast? = some last)
    {span : Span} (hspan : span ∈ spans) : span.stop.offset ≤ last.stop.offset := by
  obtain ⟨others, rfl⟩ := List.getLast?_eq_some_iff.mp hlast
  rcases List.mem_append.mp hspan with hmem | hmem
  · have hprecedes := (List.pairwise_append.mp hspans.pairwise).2.2 span hmem last
      List.mem_cons_self
    have hforward := hspans.forward last (List.mem_append_right others List.mem_cons_self)
    exact UInt32.le_trans hprecedes hforward
  · rw [List.mem_singleton.mp hmem]
    exact UInt32.le_refl _

/-- The span from the first to the last of some spans contains them. -/
theorem Disjoint.between_contains (hspans : Disjoint spans)
    (hfirst : spans.head? = some first) (hlast : spans.getLast? = some last) {span : Span}
    (hspan : span ∈ spans) : (between first last).contains span = true :=
  contains_iff.mpr ⟨hspans.start_le hfirst hspan, hspans.le_stop hlast hspan⟩

/-- Spans in the middle can be replaced by the span from the first of them to the
last. -/
theorem Disjoint.replace (hspans : Disjoint (before ++ middle ++ after))
    (hfirst : middle.head? = some first) (hlast : middle.getLast? = some last) :
    Disjoint (before ++ [between first last] ++ after) := by
  have hmiddle : Disjoint middle := by
    apply hspans.sublist
    exact (List.sublist_append_right before middle).trans (List.sublist_append_left _ after)
  have hfirstMem : first ∈ middle := List.mem_of_mem_head? hfirst
  have hlastMem : last ∈ middle := List.mem_of_getLast? hlast
  have hpairwise := hspans.pairwise
  rw [List.append_assoc] at hpairwise
  obtain ⟨hbefore, hrest, hbetween⟩ := List.pairwise_append.mp hpairwise
  obtain ⟨-, hafter, hbehind⟩ := List.pairwise_append.mp hrest
  constructor
  · intro span hspan
    rw [List.append_assoc] at hspan
    rcases List.mem_append.mp hspan with hspan | hspan
    · exact hspans.forward span (by simp [hspan])
    · rcases List.mem_append.mp hspan with hspan | hspan
      · rw [List.mem_singleton.mp hspan]
        exact UInt32.le_trans (hmiddle.forward first hfirstMem)
          (hmiddle.le_stop hlast hfirstMem)
      · exact hspans.forward span (by simp [hspan])
  · rw [List.append_assoc]
    apply List.pairwise_append.mpr
    refine ⟨hbefore, List.pairwise_cons.mpr ⟨?_, hafter⟩, ?_⟩
    · intro span hspan
      exact hbehind last hlastMem span hspan
    · intro span hspan other hother
      rcases List.mem_cons.mp hother with rfl | hother
      · exact hbetween span hspan first (List.mem_append_left after hfirstMem)
      · exact hbetween span hspan other (List.mem_append_right middle hother)

end Span

/-- The source of a part in a tree. -/
def Part.span (tree : Tree) (part : Part NodeId) : Span :=
  part.edge.span tree

/-- The spans of the tokens still to be passed, the end token last. -/
def Cursor.spans (cursor : Cursor) : List Span :=
  (cursor.pending ++ [cursor.last]).map Token.span

/-- The node runs forwards and contains the nodes directly below it, which stand
one behind the other. -/
structure Tree.NestedAt (tree : Tree) (id : NodeId) : Prop where
  forward : (tree.span id).Forward
  contains : ∀ child ∈ tree.children id, (tree.span id).contains (tree.span child) = true
  siblings : (tree.children id).Pairwise fun first second =>
    (tree.span first).Precedes (tree.span second)

namespace Tree

theorem NestedAt.insert {tree : Tree} (hordered : tree.Ordered) {id : Nat}
    (hnested : tree.NestedAt id) (hid : id ≤ tree.size) (shape : Shape NodeId) (span : Span) :
    (tree.insert shape span).2.NestedAt id := by
  have hspan : ∀ child : Nat, child ∈ tree.children id →
      (tree.insert shape span).2.span child = tree.span child := by
    intro child hchild
    have hlt := hordered.lt_of_mem_children hchild
    exact span_insert_of_le tree shape span (by omega)
  have hself := span_insert_of_le tree shape span hid
  have hchildren := children_insert_of_le tree shape span hid
  constructor
  · rw [hself]
    exact hnested.forward
  · intro child hchild
    rw [hchildren] at hchild
    rw [hself, hspan child hchild]
    exact hnested.contains child hchild
  · rw [hchildren]
    apply hnested.siblings.imp_of_mem
    intro first second hfirst hsecond hprecedes
    rw [hspan first hfirst, hspan second hsecond]
    exact hprecedes

end Tree

namespace Part

variable {parts taken : List (Part NodeId)}

theorem span_refs_sublist (tree : Tree) (parts : List (Part NodeId)) :
    ((refs parts).map tree.span).Sublist (parts.map (Part.span tree)) := by
  induction parts with
  | nil => exact List.Sublist.slnil
  | cons part parts ih =>
      cases part with
      | own token => exact ih.cons _
      | below id => exact ih.cons_cons _

theorem mem_refs_of_mem {id : NodeId} (hpart : .below id ∈ parts) : id ∈ refs parts :=
  List.mem_filterMap.mpr ⟨.below id, hpart, rfl⟩

/-- Parts of a tree stand where they stood as nodes are added. -/
theorem map_span_insert {tree : Tree} (hparts : ∀ id : Nat, id ∈ refs parts → id ≤ tree.size)
    (shape : Shape NodeId) (span : Span) :
    parts.map (Part.span (tree.insert shape span).2) = parts.map (Part.span tree) := by
  apply List.map_congr_left
  intro part hpart
  cases part with
  | own token => rfl
  | below id => exact Tree.span_insert_of_le tree shape span (hparts id (mem_refs_of_mem hpart))

theorem head?_map_span (tree : Tree) {edge : Edge} (hfirst : firstEdge? parts = some edge) :
    (parts.map (Part.span tree)).head? = some (edge.span tree) := by
  rw [firstEdge?] at hfirst
  obtain ⟨part, hpart, rfl⟩ := Option.map_eq_some_iff.mp hfirst
  rw [List.head?_map, hpart]
  rfl

theorem getLast?_map_span (tree : Tree) {edge : Edge} (hlast : lastEdge? parts = some edge) :
    (parts.map (Part.span tree)).getLast? = some (edge.span tree) := by
  rw [lastEdge?] at hlast
  obtain ⟨part, hpart, rfl⟩ := Option.map_eq_some_iff.mp hlast
  rw [List.getLast?_map, hpart]
  rfl

end Part

/-- The parts left over and the tokens still to be passed, in source order. -/
def Session.Placed (session : Session) (parts : List (Part NodeId)) : Prop :=
  Span.Disjoint (parts.map (Part.span session.tree) ++ session.cursor.spans)

/-- A node that reaches over the last parts takes their place and contains the
nodes among them. -/
theorem Session.Placed.grown {session : Session} {parts taken : List (Part NodeId)}
    (draft : Draft) (hplaced : session.Placed (parts ++ taken))
    (hparts : ∀ id : Nat, id ∈ Part.refs (parts ++ taken) → id ≤ session.tree.size)
    (hchildren : draft.shape.children = Part.refs taken)
    (hfirst : Part.firstEdge? taken = some draft.first)
    (hlast : Part.lastEdge? taken = some draft.last) :
    (session.grown draft).Placed (parts ++ [.below (session.tree.size + 1)]) ∧
      (session.grown draft).tree.NestedAt (session.tree.size + 1) := by
  rw [Part.refs_append] at hparts
  rw [Placed, List.map_append] at hplaced
  have hfirstSpan := Part.head?_map_span session.tree hfirst
  have hlastSpan := Part.getLast?_map_span session.tree hlast
  have hself : (session.grown draft).tree.span (session.tree.size + 1) =
      draft.span session.tree := Tree.span_insert_self ..
  have hreplaced := hplaced.replace hfirstSpan hlastSpan
  have htaken : Span.Disjoint (taken.map (Part.span session.tree)) := by
    apply hplaced.sublist
    exact (List.sublist_append_right _ _).trans (List.sublist_append_left _ _)
  have hbelow := Part.span_refs_sublist session.tree taken
  constructor
  · have hkept : parts.map (Part.span (session.grown draft).tree) =
        parts.map (Part.span session.tree) :=
      Part.map_span_insert (fun id hid => hparts id (List.mem_append_left _ hid)) _ _
    have hnew : Part.span (session.grown draft).tree (.below (session.tree.size + 1)) =
        draft.span session.tree := hself
    rw [Placed, List.map_append, hkept, List.map_cons, hnew]
    exact hreplaced
  · have hslots : (session.grown draft).tree.children (session.tree.size + 1) =
        Part.refs taken :=
      (Tree.children_insert_self ..).trans hchildren
    have hspan : ∀ child ∈ Part.refs taken,
        (session.grown draft).tree.span child = session.tree.span child := by
      intro child hchild
      exact Tree.span_insert_of_le _ _ _ (hparts child (List.mem_append_right _ hchild))
    constructor
    · rw [hself]
      exact hreplaced.forward _ (by simp [Draft.span])
    · rw [hslots]
      intro child hchild
      rw [hself, hspan child hchild]
      exact htaken.between_contains hfirstSpan hlastSpan
        (hbelow.subset (List.mem_map_of_mem hchild))
    · rw [hslots]
      have hpairwise := List.pairwise_map.mp (htaken.pairwise.sublist hbelow)
      apply hpairwise.imp_of_mem
      intro first second hfirst hsecond hprecedes
      rw [hspan first hfirst, hspan second hsecond]
      exact hprecedes

theorem Cursor.spans_advance {cursor : Cursor} (hcursor : cursor.current.isEnd = false) :
    cursor.spans = cursor.current.span :: cursor.advance.spans := by
  rw [spans, pending_eq_cons hcursor]
  rfl

theorem Session.Placed.passed {session : Session} {parts : List (Part NodeId)}
    (hplaced : session.Placed parts) (hcurrent : session.cursor.current.isEnd = false) :
    session.passed.Placed (parts ++ [.own session.cursor.current]) := by
  rw [Placed, Cursor.spans_advance hcurrent] at hplaced
  rw [Placed, List.map_append, List.append_assoc]
  exact hplaced

theorem Session.Placed.dropLast {session : Session} {parts : List (Part NodeId)}
    {part : Part NodeId} (hplaced : session.Placed (parts ++ [part])) :
    session.Placed parts := by
  rw [Placed, List.map_append] at hplaced
  apply hplaced.sublist
  exact (List.sublist_append_left _ _).append_right _

/-- Nodes from a number on nest if the older ones and the new one do. -/
theorem Tree.nestedAt_insert {tree : Tree} (hordered : tree.Ordered) {least : Nat}
    (hnested : ∀ id : Nat, least < id → id ≤ tree.size → tree.NestedAt id)
    {shape : Shape NodeId} {span : Span}
    (hself : (tree.insert shape span).2.NestedAt (tree.size + 1)) (id : Nat)
    (hleast : least < id) (hid : id ≤ (tree.insert shape span).2.size) :
    (tree.insert shape span).2.NestedAt id := by
  rw [size_insert] at hid
  rcases Nat.lt_or_eq_of_le hid with hlt | rfl
  · have hold := Nat.le_of_lt_succ hlt
    exact (hnested id hleast hold).insert hordered hold shape span
  · exact hself

/-- Along a trace the parts keep their order, and new nodes nest. -/
theorem Trace.placed {start session : Session} {parts : List (Part NodeId)}
    (htrace : Trace start parts session) (hordered : start.tree.Ordered)
    (hspans : Span.Disjoint start.cursor.spans) :
    session.Placed parts ∧
      ∀ id : Nat, start.tree.size < id → id ≤ session.tree.size →
        session.tree.NestedAt id := by
  induction htrace with
  | start => exact ⟨hspans, fun id hlt hle => by omega⟩
  | shift _ hword ih => exact ⟨ih.1.passed (Token.isEnd_of_isWord hword), ih.2⟩
  | skip _ hskippable ih =>
      exact ⟨(ih.1.passed (Token.isEnd_of_isSkippable hskippable)).dropLast, ih.2⟩
  | @comment parts session htrace hcomment ih =>
      have hgrown := htrace.grown hordered
      have hparts : ∀ id : Nat, id ∈ Part.refs (parts ++ [.own session.cursor.current]) →
          id ≤ session.tree.size := by
        intro id hid
        rw [Part.refs_append, Part.refs_cons_own, Part.refs_nil, List.append_nil] at hid
        exact (hgrown.new id hid).2
      have hplaced := ih.1.passed (Token.isEnd_of_isComment hcomment)
      obtain ⟨hafter, hself⟩ := hplaced.grown (.leaf .comment session.cursor.current)
        hparts rfl rfl rfl
      exact ⟨hafter, Tree.nestedAt_insert (hgrown.ordered hordered) ih.2 hself⟩
  | reduce htrace hcovers ih =>
      have hgrown := htrace.grown hordered
      obtain ⟨hafter, hself⟩ := ih.1.grown _ (fun id hid => (hgrown.new id hid).2)
        hcovers.children_eq hcovers.first hcovers.last
      exact ⟨hafter, Tree.nestedAt_insert (hgrown.ordered hordered) ih.2 hself⟩

/-- A program with statements covers them. -/
theorem Draft.root_covers {body : List NodeId} (hbody : body ≠ []) (endToken : Token) :
    (Draft.root body endToken).Covers (Part.many body) := by
  obtain ⟨first, others, rfl⟩ := List.exists_cons_of_ne_nil hbody
  constructor
  · rfl
  · rfl
  · rw [Part.many, Part.lastEdge?_map_below, root, List.getLast?_cons]
    rfl
  · trivial

/-- A span at the end of the last one may follow. -/
theorem Span.Disjoint.append_atEnd {spans : List Span} {last : Span} (hspans : Disjoint spans)
    (hlast : spans.getLast? = some last) : Disjoint (spans ++ [last.atEnd]) := by
  constructor
  · intro span hspan
    rcases List.mem_append.mp hspan with hspan | hspan
    · exact hspans.forward span hspan
    · rw [List.mem_singleton.mp hspan]
      exact UInt32.le_refl _
  · apply List.pairwise_append.mpr
    refine ⟨hspans.pairwise, List.pairwise_singleton .., ?_⟩
    intro span hspan other hother
    rw [List.mem_singleton.mp hother]
    exact hspans.le_stop hlast hspan

theorem Cursor.spans_ofTokens {tokens : List Token} (htokens : Token.InOrder tokens) :
    Span.Disjoint (ofTokens tokens).spans := by
  have hdisjoint := Span.InOrder.disjoint htokens
  unfold ofTokens
  split
  · constructor
    · intro span hspan
      rw [List.mem_singleton.mp hspan]
      exact UInt32.le_refl _
    · exact List.pairwise_singleton ..
  · rename_i last hlast
    split
    · obtain ⟨others, rfl⟩ := List.getLast?_eq_some_iff.mp hlast
      simpa [spans] using hdisjoint
    · have hspan : (tokens.map Token.span).getLast? = some last.span := by
        rw [List.getLast?_map, hlast]
        rfl
      simpa [spans, Token.endOfInput] using hdisjoint.append_atEnd hspan

theorem Cursor.current_span_mem (cursor : Cursor) : cursor.current.span ∈ cursor.spans := by
  apply List.mem_map_of_mem
  cases hpending : cursor.pending with
  | nil => simp [current, hpending]
  | cons token tokens => simp [current, hpending]

/-- Every node runs forwards and contains the nodes directly below it, which stand
one behind the other. -/
def Tree.Nested (tree : Tree) : Prop :=
  ∀ id : Nat, 0 < id → id ≤ tree.size → tree.NestedAt id

theorem nested_of_parse {semicolons : Semicolons} {tokens : List Token} {tree : Tree}
    (htokens : Token.InOrder tokens) (hparse : parse semicolons tokens = .ok tree) :
    tree.Nested := by
  obtain ⟨body, after, htrace, -, rfl⟩ := trace_of_parse hparse
  have hspans := Cursor.spans_ofTokens htokens
  by_cases hbody : body = []
  · -- An empty program stands at the end token.
    subst hbody
    obtain ⟨hplaced, hnested⟩ := htrace.placed Tree.empty_ordered hspans
    have hordered := (htrace.grown Tree.empty_ordered).ordered Tree.empty_ordered
    apply Tree.nestedAt_insert hordered hnested
    constructor
    · rw [Tree.span_insert_self]
      exact hplaced.forward _ (Cursor.current_span_mem _)
    · intro child hchild
      rw [Tree.children_insert_self] at hchild
      cases hchild
    · rw [Tree.children_insert_self]
      exact List.Pairwise.nil
  · have hfull := htrace.reduceAll (Draft.root_covers hbody after.cursor.current)
    exact (hfull.placed Tree.empty_ordered hspans).2

open Text in
/-- Spans nest and siblings are in order: in the tree of every list of tokens in
source order, and so in the tree of every source whose length fits into a word. -/
theorem spans_nest (semicolons : Semicolons) :
    (∀ (tokens : List Token) (tree : Tree), Token.InOrder tokens →
      parse semicolons tokens = .ok tree → tree.Nested) ∧
    (∀ (source file : String) (tokens : List Token) (tree : Tree),
      byteLength source.toList < UInt32.size → tokenize source file = .ok tokens →
      parse semicolons tokens = .ok tree → tree.Nested) := by
  constructor
  · intro tokens tree htokens hparse
    exact nested_of_parse htokens hparse
  · intro source file tokens tree hsource htokens hparse
    exact nested_of_parse (tokenize_inOrder hsource htokens) hparse

/-- The source `f(x)` as a text, and the tokens of `x;` with a gap and no end
token. -/
theorem spans_nest_call :
    (∃ tokens tree, tokenize "f(x)" "<input>" = .ok tokens ∧
      parse .inserted tokens = .ok tree ∧ tree.size = 5 ∧ tree.Nested) ∧
    (let tokens : List Token := [
        ⟨.identifier, "x", ⟨.ofByte "a" 2, .ofByte "a" 3⟩, false⟩,
        ⟨.punctuation, ";", ⟨.ofByte "a" 7, .ofByte "a" 8⟩, false⟩]
     Token.InOrder tokens ∧ ∃ tree, parse .required tokens = .ok tree ∧ tree.Nested) := by
  constructor
  · have hsize : ((tokenize "f(x)" "<input>").toOption.bind fun tokens =>
        (parse .inserted tokens).toOption.map Tree.size) = some 5 := by
      decide +kernel
    cases htokens : tokenize "f(x)" "<input>" with
    | error diagnostic => simp [htokens, Except.toOption] at hsize
    | ok tokens =>
        cases hparse : parse .inserted tokens with
        | error diagnostic => simp [htokens, hparse, Except.toOption] at hsize
        | ok tree =>
            refine ⟨tokens, tree, rfl, hparse, ?_, ?_⟩
            · simpa [htokens, hparse, Except.toOption] using hsize
            · exact (spans_nest .inserted).2 _ _ tokens tree (by decide) htokens hparse
  · intro tokens
    have hinOrder : Token.InOrder tokens := by
      simp [tokens, Token.InOrder, Span.InOrder, Span.Forward, Span.Precedes]
      decide
    have hok : (parse .required tokens).isOk = true := by decide +kernel
    obtain ⟨tree, hparse⟩ := exists_parse hok
    exact ⟨hinOrder, tree, hparse, (spans_nest .required).1 tokens tree hinOrder hparse⟩

end ScriptSyntax

import ScriptSyntax.Proofs.Growth

/-!
# The order of nodes

A session answers requests: to look at tokens, to pass them, to read a construct.
Whatever was asked of it before, and whether that went well or not, a construct
that is read adds the nodes of one tree to those that are there, in post-order,
and changes none of them; a construct that cannot be read changes none either.
So a walk over a whole program leaves the nodes in the order of their numbers.
-/

namespace ScriptSyntax

open Parse

/-- The constructs that can be read on their own. -/
inductive Construct
  | statement (labels : Bool)
  | expressionStatement
  | block
  | function (role : FunctionRole)
  | expression (commas : Bool)
  | operand (calls : Bool)
  | parenthesized
  deriving DecidableEq

/-- The production of a construct. -/
def Construct.production (construct : Construct) (grammar : Grammar) : Parse NodeId :=
  match construct with
  | .statement labels => Production.statement grammar labels
  | .expressionStatement => Production.expressionStatement grammar
  | .block => Production.block grammar
  | .function role => Production.function grammar role
  | .expression commas => Production.expression grammar commas
  | .operand calls => Production.operand grammar calls
  | .parenthesized => Production.parenthesized grammar

/-- Reads a construct. -/
def Construct.read (construct : Construct) (semicolons : Semicolons) : Parse NodeId :=
  Parse.reading semicolons construct.production

/-- What can be asked of a session. -/
inductive Session.Request
  /-- The tokens at the cursor, without a change. -/
  | look
  | advance
  | expectPunctuation (mark : String)
  | expectKeyword (word : String)
  | expectIdentifier (reason : Reason)
  | endStatement
  | eatComments
  | read (construct : Construct)

/-- The session after a reader, whether it succeeds or fails. -/
def Session.after {Result : Type} (session : Session) (reader : Parse Result) : Session :=
  match reader session with
  | .ok _ after => after
  | .error _ after => after

/-- The session after a request. -/
def Session.answer (session : Session) (semicolons : Semicolons) : Session.Request → Session
  | .look => session.after Parse.cursor
  | .advance => session.after Parse.advance
  | .expectPunctuation mark => session.after (Parse.expectPunctuation mark)
  | .expectKeyword word => session.after (Parse.expectKeyword word)
  | .expectIdentifier reason => session.after (Parse.expectIdentifier reason)
  | .endStatement => session.after (Parse.endStatement semicolons)
  | .eatComments => session.after Parse.eatComments
  | .read construct => session.after (construct.read semicolons)

/-- The session can be reached from the start of a list of tokens. -/
inductive Session.Reachable (semicolons : Semicolons) (tokens : List Token) : Session → Prop
  | start : Reachable semicolons tokens (.start tokens)
  | answer {session : Session} (request : Session.Request) :
      Reachable semicolons tokens session →
      Reachable semicolons tokens (session.answer semicolons request)

/-- The nodes of a tree are unchanged in another. -/
def Tree.KeptIn (before after : Tree) : Prop :=
  ∀ id : Nat, id ≤ before.size → after.find? id = before.find? id

/-- The nodes of a tree with the given root were added to another tree, in
post-order. -/
structure Tree.GrownBy (before : Tree) (root : Nat) (after : Tree) : Prop where
  kept : before.KeptIn after
  root_eq : root = after.size
  postorder : after.postorder root =
    List.range' (before.size + 1) (after.size - before.size)
  parent_eq : after.parent root = none
  held : ∀ child : Nat, before.size < child → child < root →
    ∃ parent, after.HeldBy child parent

/-- A forest with one root. -/
theorem Tree.Grown.grownBy {before after : Tree} {root : Nat}
    (hgrown : before.Grown [root] after) (hordered : before.Ordered) :
    before.GrownBy root after := by
  have hroot := hgrown.new root List.mem_cons_self
  -- The last node could only hang below a later one.
  have hlast : root = after.size := by
    apply Nat.le_antisymm hroot.2
    apply Nat.le_of_not_lt
    intro hlt
    have hnot : after.size ∉ [root] := by
      intro hmem
      have := List.mem_singleton.mp hmem
      omega
    obtain ⟨parent, hheld⟩ := hgrown.held after.size (by omega) (Nat.le_refl _) hnot
    have hmem : after.size ∈ after.children parent := by
      apply List.count_pos_iff.mp
      rw [hheld.count_eq]
      exact Nat.one_pos
    have := (hgrown.ordered hordered).lt_of_mem_children hmem
    have := le_size_of_mem_children hmem
    omega
  constructor
  case kept => exact hgrown.kept
  case root_eq => exact hlast
  case postorder =>
    rw [← hgrown.postorder, List.flatMap_singleton]
  case parent_eq => exact (hgrown.free root List.mem_cons_self).parent_eq
  case held =>
    intro child hlt hchild
    apply hgrown.held child hlt (by omega)
    intro hmem
    have := List.mem_singleton.mp hmem
    omega

variable {semicolons : Semicolons} {tokens : List Token} {session : Session}

/-- What a reader of a node does to the tree. -/
def Parse.Grows (reader : Parse NodeId) (session : Session) : Prop :=
  reader.Meets session (fun id after => session.tree.Grown [id] after.tree)
    (fun after => ∃ roots, session.tree.Grown roots after.tree)

theorem Parse.Stuck.grown {after : Session} (hstuck : Stuck session after)
    (hordered : session.tree.Ordered) : ∃ roots, session.tree.Grown roots after.tree := by
  obtain ⟨parts, htrace⟩ := hstuck
  exact ⟨Part.refs parts, htrace.grown hordered⟩

theorem Parse.Pushes.grows {reader : Parse NodeId} (hreader : reader.Pushes session Part.one)
    (hordered : session.tree.Ordered) : reader.Grows session := by
  apply Meets.mono hreader
  · intro id after hafter
    exact hafter.grown hordered
  · intro after hafter
    exact hafter.grown hordered

/-- A function leaves no trace if its first token is not the keyword, but the
tree grows in the same way. -/
theorem Production.function_grows {grammar : Grammar} (hgrammar : grammar.Traced)
    (role : FunctionRole) (hordered : session.tree.Ordered) :
    (function grammar role).Grows session := by
  have hreader : (function grammar role).Meets session
      (fun id after => session.tree.Grown [id] after.tree) (Stuck session.passed) := by
    apply function_meets hgrammar Trace.start
    intro name opening parameters closing body after hafter _ _
    have hgrown : session.tree.Grown ([] ++ [body]) after.tree := by
      simpa [Session.passed] using hafter.grown hordered
    exact hgrown.insert hordered rfl _
  apply Meets.mono hreader
  · intro id after hafter
    exact hafter
  · intro after hafter
    exact hafter.grown hordered

theorem Construct.read_grows (construct : Construct) (hordered : session.tree.Ordered) :
    (construct.read semicolons).Grows session := by
  have hgrammar := Grammar.upTo_traced semicolons (session.cursor.pending.length + 1)
  unfold Grows read Parse.reading
  rw [meets_bind_cursor]
  cases construct with
  | statement labels => exact (Production.statement_pushes hgrammar labels).grows hordered
  | expressionStatement =>
      exact (Production.expressionStatement_pushes hgrammar).grows hordered
  | block => exact (Production.block_pushes hgrammar).grows hordered
  | function role => exact Production.function_grows hgrammar role hordered
  | expression commas => exact (Production.expression_pushes hgrammar commas).grows hordered
  | operand calls => exact (Production.operand_pushes hgrammar calls).grows hordered
  | parenthesized => exact (Production.parenthesized_pushes hgrammar).grows hordered

theorem Session.after_of_meets {Result : Type} {reader : Parse Result}
    (property : Session → Prop)
    (hreader : reader.Meets session (fun _ after => property after) property) :
    property (session.after reader) := by
  unfold Meets at hreader
  unfold Session.after
  cases houtcome : reader session with
  | ok result after => rwa [houtcome] at hreader
  | error diagnostic after => rwa [houtcome] at hreader

theorem Parse.expect_keeps_tree (test : Token → Bool) (reason : Reason) :
    (expect test reason).Meets session (fun _ after => after.tree = session.tree)
      (fun after => after.tree = session.tree) := by
  rw [meets_expect]
  split <;> rfl

theorem Parse.endStatement_keeps_tree :
    (endStatement semicolons).Meets session (fun _ after => after.tree = session.tree)
      (fun after => after.tree = session.tree) := by
  unfold endStatement
  rw [meets_bind_cursor]
  split
  · rfl
  · cases semicolons with
    | required => exact (expect_keeps_tree _ _).bind fun _ _ hafter => hafter
    | inserted =>
        dsimp only
        split <;> rfl

/-- A request keeps nodes referring to earlier nodes. -/
theorem Session.ordered_answer (hordered : session.tree.Ordered) (request : Session.Request) :
    (session.answer semicolons request).tree.Ordered := by
  have hkept : ∀ {Result : Type} {reader : Parse Result},
      reader.Meets session (fun _ after => after.tree = session.tree)
        (fun after => after.tree = session.tree) →
      (session.after reader).tree.Ordered := by
    intro Result reader hreader
    rwa [after_of_meets (fun after => after.tree = session.tree) hreader]
  cases request with
  | look => exact hordered
  | advance => exact hordered
  | expectPunctuation mark => exact hkept (expect_keeps_tree _ _)
  | expectKeyword word => exact hkept (expect_keeps_tree _ _)
  | expectIdentifier reason => exact hkept (expect_keeps_tree _ _)
  | endStatement => exact hkept endStatement_keeps_tree
  | eatComments => exact hordered
  | read construct =>
      apply after_of_meets (fun after => after.tree.Ordered)
      apply Meets.mono (construct.read_grows hordered)
      · intro id after hafter
        exact hafter.ordered hordered
      · rintro after ⟨roots, hafter⟩
        exact hafter.ordered hordered

/-- In every session that can be reached nodes refer to earlier nodes. -/
theorem Session.Reachable.ordered (hreachable : session.Reachable semicolons tokens) :
    session.tree.Ordered := by
  induction hreachable with
  | start => exact Tree.empty_ordered
  | answer request _ ih => exact ordered_answer ih request

/-- Reading adds the nodes of one tree in post-order, with parent links that mirror
the slots, and changes no node that was there, in every session that can be
reached; so a walk over a program leaves the nodes in the order of their numbers
and a census counts each of them once. -/
theorem read_adds_postorder (semicolons : Semicolons) (tokens : List Token) :
    (∀ session : Session, session.Reachable semicolons tokens → ∀ construct : Construct,
      (construct.read semicolons).Meets session
        (fun id after => session.tree.GrownBy id after.tree)
        (fun after => session.tree.KeptIn after.tree)) ∧
    (∀ tree : Tree, parse semicolons tokens = .ok tree →
      tree.rootId = tree.size ∧
      (tree.visit tree.rootId ⟨.recording [.after], #[]⟩).trace.toList.map Event.id =
        List.range' 1 tree.size ∧
      (∀ kind number, (kind, number) ∈ tree.census ↔
        number ≠ 0 ∧
          number = tree.nodes.toList.countP fun node => node.shape.kind == kind) ∧
      (tree.census.map Prod.fst).Nodup) := by
  constructor
  · intro session hreachable construct
    have hordered := hreachable.ordered
    apply Meets.mono (construct.read_grows hordered)
    · intro id after hafter
      exact hafter.grownBy hordered
    · rintro after ⟨roots, hafter⟩
      exact hafter.kept
  · intro tree hparse
    obtain ⟨hgrown, hroot⟩ := grown_of_parse hparse
    have hordered := hgrown.ordered Tree.empty_ordered
    have hids : tree.postorder tree.rootId = tree.ids := by
      rw [hroot]
      exact (hgrown.grownBy Tree.empty_ordered).postorder
    refine ⟨hroot, ?_, ?_, ?_⟩
    · exact (Tree.recordedEvents_after hordered tree.rootId).trans hids
    · intro kind number
      rw [Tree.mem_census, Tree.count_eq hordered hids]
    · exact Tree.nodup_census tree

/-- The call `f(x)`, read after a semicolon was asked for in vain: the statement
adds four nodes, the program has five. -/
theorem read_adds_postorder_call :
    let tokens := [Token.plain .identifier "f", Token.plain .punctuation "(",
      Token.plain .identifier "x", Token.plain .punctuation ")"]
    let session := (Session.start tokens).answer .inserted (.expectPunctuation ";")
    (session.Reachable .inserted tokens ∧
      ∃ after, (Construct.statement false).read .inserted session = .ok 4 after ∧
        session.tree.GrownBy 4 after.tree) ∧
    (∃ tree, parse .inserted tokens = .ok tree ∧ tree.size = 5 ∧ tree.rootId = tree.size) := by
  intro tokens session
  have hreachable : session.Reachable .inserted tokens := .answer _ .start
  refine ⟨⟨hreachable, ?_⟩, ?_⟩
  · have hread := (read_adds_postorder .inserted tokens).1 session hreachable (.statement false)
    have hid : ((Construct.statement false).read .inserted).run' session = some 4 := by
      decide +kernel
    unfold Meets at hread
    unfold EStateM.run' EStateM.run at hid
    cases houtcome : (Construct.statement false).read .inserted session with
    | ok id after =>
        rw [houtcome] at hid hread
        cases hid
        exact ⟨after, rfl, hread⟩
    | error diagnostic after =>
        rw [houtcome] at hid
        cases hid
  · have hok : (parse .inserted tokens).isOk = true := by decide +kernel
    have hsize : (parse .inserted tokens).toOption.map Tree.size = some 5 := by
      decide +kernel
    obtain ⟨tree, hparse⟩ := exists_parse hok
    rw [hparse] at hsize
    have hroot := ((read_adds_postorder .inserted tokens).2 tree hparse).1
    exact ⟨tree, hparse, Option.some.inj hsize, hroot⟩

end ScriptSyntax

import ScriptSyntax.Tree.Basic

/-!
# Walks

A walk visits a node, then by default its children in source order.  A visitor
says by kind what happens before and after a node, and may take over the descent
or leave it out.  What happens is a list of actions; an action can record the
visit, walk below the node, or change how the kind of the node is treated from
then on.
-/

namespace ScriptSyntax

/-- The moments of a visit. -/
inductive Phase
  | before
  | on
  | after
  deriving DecidableEq

def Phase.text : Phase → String
  | .before => "before"
  | .on => "on"
  | .after => "after"

/-- What a hook can do at a node. -/
inductive Action
  /-- Adds the visit to the trace. -/
  | record
  /-- Walks all children. -/
  | descend
  /-- Walks the first child. -/
  | first
  /-- Walks all children, the last one first. -/
  | reverse
  /-- Leaves out the descent at nodes of this kind. -/
  | skip
  /-- Restores the default descent at nodes of this kind. -/
  | reset
  /-- Lets the hook of this kind take over the descent. -/
  | take
  deriving DecidableEq

/-- How nodes of a kind are descended into. -/
inductive Descent
  | standard
  | skipped
  | hooked
  deriving DecidableEq

/-- What to do at nodes of each kind.  `on` is what a hooked descent does. -/
structure Visitor where
  before : NodeKind → List Action := fun _ => []
  on : NodeKind → List Action := fun _ => []
  after : NodeKind → List Action := fun _ => []
  descent : NodeKind → Descent := fun _ => .standard

namespace Visitor

/-- A table with one entry changed. -/
def assign {Entry : Type} (table : NodeKind → Entry) (kind : NodeKind) (entry : Entry) :
    NodeKind → Entry :=
  fun other => if other = kind then entry else table other

def setDescent (visitor : Visitor) (kind : NodeKind) (descent : Descent) : Visitor :=
  { visitor with descent := assign visitor.descent kind descent }

/-- Registers what happens in a phase; a hook of the middle phase takes over the
descent. -/
def register (visitor : Visitor) (phase : Phase) (kind : NodeKind)
    (actions : List Action) : Visitor :=
  match phase with
  | .before => { visitor with before := assign visitor.before kind actions }
  | .after => { visitor with after := assign visitor.after kind actions }
  | .on =>
      { visitor with
        on := assign visitor.on kind actions
        descent := assign visitor.descent kind .hooked }

/-- The descent at nodes of the kind is not the standard one. -/
def overrides (visitor : Visitor) (kind : NodeKind) : Bool :=
  visitor.descent kind != .standard

/-- Records every node before and after its children. -/
def recorder : Visitor where
  before _ := [.record]
  after _ := [.record]

end Visitor

/-- A moment of a walk. -/
structure Event where
  phase : Phase
  kind : NodeKind
  id : NodeId
  deriving DecidableEq

def Event.text (event : Event) : String :=
  event.phase.text ++ " " ++ event.kind.text ++ " " ++ showId event.id

/-- The state of a walk: the visitor as it is by now, and the trace so far. -/
structure Walk where
  visitor : Visitor
  trace : Array Event := #[]

namespace Walk

/-- Changes how nodes of a kind are descended into. -/
def setDescent (walk : Walk) (kind : NodeKind) (descent : Descent) : Walk :=
  { walk with visitor := walk.visitor.setDescent kind descent }

/-- Visits nodes one after another. -/
def visitAll (visit : NodeId → Walk → Walk) (ids : List NodeId) (walk : Walk) : Walk :=
  ids.foldl (fun state id => visit id state) walk

/-- Does one action at the node of an event. -/
def act (visit : NodeId → Walk → Walk) (event : Event) (children : List NodeId)
    (walk : Walk) (action : Action) : Walk :=
  match action with
  | .record => { walk with trace := walk.trace.push event }
  | .descend => walk.visitAll visit children
  | .first => walk.visitAll visit children.head?.toList
  | .reverse => walk.visitAll visit children.reverse
  | .skip => walk.setDescent event.kind .skipped
  | .reset => walk.setDescent event.kind .standard
  | .take => walk.setDescent event.kind .hooked

/-- Does a list of actions at the node of an event. -/
def perform (visit : NodeId → Walk → Walk) (event : Event) (children : List NodeId)
    (actions : List Action) (walk : Walk) : Walk :=
  actions.foldl (act visit event children) walk

/-- Descends from a node in the way that its kind asks for. -/
def descend (visit : NodeId → Walk → Walk) (kind : NodeKind) (id : NodeId)
    (children : List NodeId) (walk : Walk) : Walk :=
  match walk.visitor.descent kind with
  | .standard => walk.visitAll visit children
  | .skipped => walk
  | .hooked => walk.perform visit ⟨.on, kind, id⟩ children (walk.visitor.on kind)

/-- Visits a node: what comes before it, the descent, what comes after it.  Each
part goes by the visitor that the parts before it left. -/
def visitNode (visit : NodeId → Walk → Walk) (id : NodeId) (node : Node)
    (walk : Walk) : Walk :=
  let kind := node.shape.kind
  let children := node.shape.children
  let entered := walk.perform visit ⟨.before, kind, id⟩ children (walk.visitor.before kind)
  let descended := entered.descend visit kind id children
  descended.perform visit ⟨.after, kind, id⟩ children (descended.visitor.after kind)

end Walk

namespace Tree

/-- Visits a node and what is below it, going down at most `limit` nodes.  Unknown
nodes are passed over. -/
def visitWithin (tree : Tree) : (limit : Nat) → NodeId → Walk → Walk
  | 0, _, walk => walk
  | limit + 1, id, walk =>
      match tree.find? id with
      | none => walk
      | some node => walk.visitNode (tree.visitWithin limit) id node

/-- Walks a node and what is below it.  No path down a tree without cycles has
more nodes than the tree. -/
def visit (tree : Tree) (id : NodeId) (walk : Walk) : Walk :=
  tree.visitWithin tree.size id walk

/-- Walks what is below a node. -/
def visitChildren (tree : Tree) (id : NodeId) (walk : Walk) : Walk :=
  walk.visitAll tree.visit (tree.children id)

/-- The events of a walk over the whole program. -/
def events (tree : Tree) : List Event :=
  (tree.visit tree.rootId ⟨.recorder, #[]⟩).trace.toList

end Tree

end ScriptSyntax

import ScriptSyntax.Tree.Walk

/-!
# Outlines and counts

Two reports on a program: an outline with a line for each node, indented by its
depth, and the number of nodes of each kind.  Both follow the events of a walk.
-/

namespace ScriptSyntax

/-- What an outline says of a node: its kind, with the value of a leaf that is no
comment or the operator of an operation. -/
def Shape.label {Ref : Type} (shape : Shape Ref) : String :=
  match shape with
  | .leaf .comment _ => shape.kind.text
  | .leaf _ token => shape.kind.text ++ " " ++ token.value
  | .binary _ operator _ => shape.kind.text ++ " " ++ operator.value
  | .unary _ operator _ => shape.kind.text ++ " " ++ operator.value
  | _ => shape.kind.text

/-- The label of a node of a tree; an unknown node has none. -/
def Tree.label (tree : Tree) (id : NodeId) : String :=
  ((tree.find? id).map fun node => node.shape.label).getD ""

/-- The line of a node in an outline. -/
def Tree.outlineLine (tree : Tree) (depth : Nat) (id : NodeId) : String :=
  String.ofList (List.replicate (2 * depth) ' ') ++ tree.label id ++ " " ++ showId id ++ "\n"

/-- The lines of the events of a walk that starts at a depth.  Nodes are entered
before and left after what is below them. -/
def Tree.outlineLines (tree : Tree) (depth : Nat) : List Event → List String
  | [] => []
  | event :: events =>
      match event.phase with
      | .before => tree.outlineLine depth event.id :: tree.outlineLines (depth + 1) events
      | .on => tree.outlineLines depth events
      | .after => tree.outlineLines (depth - 1) events

/-- A line for each node of the program, indented by its depth. -/
def Tree.outline (tree : Tree) : String :=
  String.join (tree.outlineLines 0 tree.events)

/-- Number of nodes of a kind in the program. -/
def Tree.count (tree : Tree) (kind : NodeKind) : Nat :=
  tree.events.countP fun event => event.phase == .before && event.kind == kind

/-- The kinds by the order of their names. -/
def NodeKind.byName : List NodeKind :=
  NodeKind.all.mergeSort fun left right => left.text ≤ right.text

/-- The kinds that occur in the program with their numbers, by name. -/
def Tree.census (tree : Tree) : List (NodeKind × Nat) :=
  (NodeKind.byName.map fun kind => (kind, tree.count kind)).filter fun entry =>
    entry.2 != 0

end ScriptSyntax

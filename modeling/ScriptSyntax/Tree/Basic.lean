import ScriptSyntax.Tree.Kind

/-!
# Trees

A tree keeps its nodes in the order in which they were made and refers to them
by number, counting from one.  Zero refers to no node.  Besides the references
in its shape, which point down, a node knows the node above it.

Any shape may be added, whatever its references point at.  A new node becomes
the parent of those of its children that have none yet, so a node that is
referred to twice keeps its first parent.
-/

namespace ScriptSyntax

/-- The number of a node in its tree.  It has no bound: trees are taken to have fewer
than 2^32 - 1 nodes, so that a number of 32 bits would hold any of theirs. -/
abbrev NodeId := Nat

/-- A node: its place in the source, the node above it, and what it is. -/
structure Node where
  span : Span
  parent : Option NodeId
  shape : Shape NodeId
  deriving DecidableEq

/-- Nodes in the order in which they were made, and the node of the whole
program once there is one. -/
structure Tree where
  nodes : Array Node := #[]
  root : Option NodeId := none
  deriving DecidableEq

namespace Tree

/-- A tree without nodes. -/
def empty : Tree := {}

def size (tree : Tree) : Nat :=
  tree.nodes.size

/-- The numbers of the nodes of a tree. -/
def ids (tree : Tree) : List NodeId :=
  List.range' 1 tree.size

/-- The number of the node of the whole program, zero while there is none. -/
def rootId (tree : Tree) : NodeId :=
  tree.root.getD 0

/-- The node with a number. -/
def find? (tree : Tree) : NodeId → Option Node
  | 0 => none
  | index + 1 => tree.nodes[index]?

/-- Where a node stands in the source; nowhere for an unknown number. -/
def span (tree : Tree) (id : NodeId) : Span :=
  ((tree.find? id).map Node.span).getD .null

/-- The node above a node. -/
def parent (tree : Tree) (id : NodeId) : Option NodeId :=
  (tree.find? id).bind Node.parent

/-- The nodes directly below a node; none for an unknown number. -/
def children (tree : Tree) (id : NodeId) : List NodeId :=
  ((tree.find? id).map fun node => node.shape.children).getD []

/-- Changes the node with a number, if there is one. -/
def modify (tree : Tree) (id : NodeId) (change : Node → Node) : Tree :=
  match id with
  | 0 => tree
  | index + 1 => { tree with nodes := tree.nodes.modify index change }

/-- Makes a node the parent of another, unless that has a parent. -/
def adopt (tree : Tree) (parent child : NodeId) : Tree :=
  tree.modify child fun node => { node with parent := node.parent.or (some parent) }

/-- Makes a node the parent of those of its children that have none. -/
def adoptAll (tree : Tree) (parent : NodeId) (children : List NodeId) : Tree :=
  children.foldl (fun grown child => grown.adopt parent child) tree

/-- Adds a node with the next number.  A root becomes the root of the tree. -/
def insert (tree : Tree) (shape : Shape NodeId) (span : Span) : NodeId × Tree :=
  let id := tree.size + 1
  let adopted := tree.adoptAll id shape.children
  (id,
    { nodes := adopted.nodes.push ⟨span, none, shape⟩
      root := if shape.isRoot then some id else adopted.root })

@[simp]
theorem size_modify (tree : Tree) (id : NodeId) (change : Node → Node) :
    (tree.modify id change).size = tree.size := by
  cases id with
  | zero => rfl
  | succ index => simp [modify, size]

@[simp]
theorem size_adoptAll (tree : Tree) (parent : NodeId) (children : List NodeId) :
    (tree.adoptAll parent children).size = tree.size := by
  induction children generalizing tree with
  | nil => rfl
  | cons child children ih =>
      rw [adoptAll, List.foldl_cons]
      exact (ih (tree.adopt parent child)).trans (size_modify tree child _)

/-- The new node has the number of nodes there are then. -/
theorem insert_fst (tree : Tree) (shape : Shape NodeId) (span : Span) :
    (tree.insert shape span).1 = tree.size + 1 := rfl

theorem size_insert (tree : Tree) (shape : Shape NodeId) (span : Span) :
    (tree.insert shape span).2.size = tree.size + 1 := by
  have hsize := size_adoptAll tree (tree.size + 1) shape.children
  simp only [insert, size, Array.size_push] at hsize ⊢
  rw [hsize]

/-- A node followed by the nodes above it, at most `limit` nodes in all. -/
def chain (tree : Tree) : (limit : Nat) → NodeId → List NodeId
  | 0, _ => []
  | limit + 1, id => id :: ((tree.parent id).map (tree.chain limit)).getD []

/-- A node followed by the nodes above it, the nearest first.  A chain without
repetition has no more nodes than the tree, save for an unknown first one. -/
def lineage (tree : Tree) (id : NodeId) : List NodeId :=
  tree.chain (tree.size + 1) id

/-- A node is the other one or stands above it. -/
def isAncestor (tree : Tree) (ancestor id : NodeId) : Bool :=
  (tree.lineage id).contains ancestor

end Tree

/-- The failure to find a node that has to be there. -/
structure UnknownNode where
  id : NodeId
  deriving DecidableEq

/-- How a node is named in texts. -/
def showId (id : NodeId) : String :=
  "#" ++ Nat.repr id

def UnknownNode.message (failure : UnknownNode) : String :=
  "node " ++ showId failure.id ++ " is not part of this tree"

/-- The node with a number, which has to be there. -/
def Tree.get (tree : Tree) (id : NodeId) : Except UnknownNode Node :=
  match tree.find? id with
  | none => .error ⟨id⟩
  | some node => .ok node

end ScriptSyntax

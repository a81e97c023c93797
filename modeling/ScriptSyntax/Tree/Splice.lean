import ScriptSyntax.Tree.Basic

/-!
# Splicing

A detached node can take the place of a node that hangs below another.  The node
that gives way may be part of what replaces it: a wrapper is made around a node
and then spliced in where the node was.  A splice that would put a node below
itself is refused, as is one that has no slot to write to.
-/

namespace ScriptSyntax.Tree

/-- The first node found to hold the target in one of its slots, going down at
most `limit` nodes.  Later children are searched before earlier ones. -/
def holderWithin? (tree : Tree) (target : NodeId) : (limit : Nat) → NodeId → Option NodeId
  | 0, _ => none
  | limit + 1, id =>
      if (tree.children id).contains target then
        some id
      else
        (tree.children id).reverse.findSome? (tree.holderWithin? target limit)

/-- A node in or below `top` that holds the target in one of its slots.  No path
down a tree without cycles has more nodes than the tree. -/
def holder? (tree : Tree) (top target : NodeId) : Option NodeId :=
  tree.holderWithin? target tree.size top

/-- Writes a reference into a slot of a node. -/
def setChild (tree : Tree) (parent : NodeId) (slot : Nat) (child : NodeId) : Tree :=
  tree.modify parent fun node => { node with shape := node.shape.setChild slot child }

/-- Sets the node above a node. -/
def setParent (tree : Tree) (id : NodeId) (parent : Option NodeId) : Tree :=
  tree.modify id fun node => { node with parent }

/-- The node is in the tree, below no other node, and not the root. -/
def isDetached (tree : Tree) (id : NodeId) : Bool :=
  tree.root != some id && (tree.find? id).any fun node => node.parent.isNone

/-- Puts a detached node into the slot that another node has in its parent.  The
node that gives way is left below its holder inside the new node, or below
none. -/
def replace? (tree : Tree) (old new : NodeId) : Option Tree := do
  guard (old ≠ new && tree.isDetached new)
  let parent ← tree.parent old
  guard ((tree.holder? new parent).isNone && !tree.isAncestor new parent)
  let slot ← (tree.children parent).idxOf? old
  let written := tree.setChild parent slot new
  let holder := written.holder? new old
  return (written.setParent new (some parent)).setParent old holder

end ScriptSyntax.Tree

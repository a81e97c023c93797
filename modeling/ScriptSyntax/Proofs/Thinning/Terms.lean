import ScriptSyntax.Proofs.Arena
import ScriptSyntax.Proofs.Parallel.Views

/-!
# Programs without numbers

A term is a node together with everything below it, without a word about numbers.  Terms
leave out what comments leave in a tree: the comments in lists of statements, the comment at
an object, and the place of the whole program, which begins and ends with its statements.
-/

namespace ScriptSyntax

/-- A node with what is below it, and with its place unless it is a whole program. -/
inductive Term
  | unknown
  | node (place : Option Span) (shape : Shape Term)

def Term.isComment : Term → Bool
  | .node _ (.leaf .comment _) => true
  | _ => false

namespace Shape

variable {Ref Other : Type}

/-- The shape without the comments in a list of statements, and without the comment at an
object. -/
def uncommented : Shape Term → Shape Term
  | .root statements => .root (statements.filter fun term => !term.isComment)
  | .block statements => .block (statements.filter fun term => !term.isComment)
  | .switch discriminant cases =>
      .switch discriminant (cases.filter fun term => !term.isComment)
  | .object _ properties => .object none properties
  | shape => shape

/-- The slots that are not in a list of statements. -/
def ownSlots : Shape Ref → List Ref
  | .root _ => []
  | .block _ => []
  | .switch discriminant _ => [discriminant]
  | shape => shape.children

theorem map_congr {shape : Shape Ref} {first second : Ref → Other}
    (heq : ∀ child ∈ shape.children, first child = second child) :
    shape.map first = shape.map second := by
  cases shape with
  | returns value => cases value <;> simp_all [children, map, mapIdx]
  | expression value => cases value <;> simp_all [children, map, mapIdx]
  | forLoop varToken init test step body =>
      rcases init with - | entries | value <;> cases test <;> cases step <;>
        simp [children, initChildren, LoopInit.children] at heq <;>
        simp [map, mapIdx, LoopInit.mapIdx, mapIdx_eq_map, heq]
      all_goals exact fun entry hentry => heq entry (.inl hentry)
  | ifElse condition thenBranch elseBranch =>
      cases elseBranch <;> simp_all [children, map, mapIdx]
  | tryCatch body handler finalizer =>
      cases handler <;> cases finalizer <;> simp_all [children, map, mapIdx]
  | newObject callee arguments => cases arguments <;> simp_all [children, map, mapIdx]
  | declaration name initializer => cases initializer <;> simp_all [children, map, mapIdx]
  | _ => simp_all [children, map, mapIdx, mapIdx_eq_map]

end Shape

namespace Tree

/-- The term of a node. -/
def term (tree : Tree) (id : NodeId) : Term :=
  tree.fold .unknown
    (fun id shape terms =>
      .node (if shape.isRoot then none else some (tree.span id)) (shape.map terms).uncommented)
    id

/-- The term of the whole program. -/
def program (tree : Tree) : Term :=
  tree.term tree.rootId

theorem term_eq {tree : Tree} (hordered : tree.Ordered) {id : Nat} {shape : Shape NodeId}
    (hshape : tree.shape? id = some shape) :
    tree.term id =
      .node (if shape.isRoot then none else some (tree.span id))
        (shape.map tree.term).uncommented := by
  apply fold_eq hordered _ hshape
  intro id shape first second heq
  dsimp only
  rw [Shape.map_congr heq]

/-- The comment that a node is. -/
def comment? (tree : Tree) (id : NodeId) : Option Token :=
  match tree.shape? id with
  | some (.leaf .comment token) => some token
  | _ => none

/-- The comments that are read as the only statement of something: as the body of a loop, as
a branch, as what a label or a clause stands before. -/
def bodyComments (tree : Tree) : List Token :=
  tree.ids.flatMap fun id =>
    (((tree.shape? id).map Shape.ownSlots).getD []).filterMap tree.comment?

end Tree

end ScriptSyntax

import Mathlib.Data.List.Forall2
import ScriptSyntax.Proofs.Thinning.Halting

/-!
# Grammars over thinned tokens

The readers of two grammars agree on thinned tokens.  Where an expression stops at a comment
although it goes on behind the comment, the first run is doomed: no construct around an
expression can use what continues it.  It is doomed too where it reads a comment, which the
second run lacks, in place of a statement.
-/

namespace ScriptSyntax

open Parse Thinning

namespace Thinning

variable (thinning : Thinning)

/-- What was read stops at a comment, with something behind it that continues an
expression. -/
def HaltsEarly (commas : Bool) {Result : Type} (_ : Result) (session : Session) : Prop :=
  session.Stalled (Token.continues commas)

/-- A statement stops at a comment, with something behind it that continues the statement. -/
def BreaksOff (_ : NodeId) (session : Session) : Prop :=
  session.Stalled Token.continuesStatement

/-- A comment was read in place of a statement, or a statement breaks off. -/
def Strays (id : NodeId) (session : Session) : Prop :=
  thinning.Stray id ∨ BreaksOff id session

/-- The statements say the same, apart from comments among them. -/
def SameStatements (ids others : List NodeId) : Prop :=
  (ids.map thinning.first.term).filter (fun term => !term.isComment) =
    (others.map thinning.second.term).filter fun term => !term.isComment

end Thinning

namespace Edge

variable (tree : Tree) (edge : Edge)

theorem span_nodeOr (id : Option NodeId) :
    (nodeOr id edge).span tree = (id.map tree.span).getD (edge.span tree) := by
  cases id <;> rfl

theorem span_tokenOr (optional : Option Token) :
    (tokenOr optional edge).span tree = (optional.map Token.span).getD (edge.span tree) := by
  cases optional <;> rfl

theorem mem_nodes_nodeOr {id : Option NodeId} {other : NodeId}
    (hother : other ∈ (nodeOr id edge).nodes) : other ∈ id.toList ++ edge.nodes := by
  cases id with
  | none => exact hother
  | some id => exact List.mem_append_left _ hother

theorem mem_nodes_tokenOr {optional : Option Token} {id : NodeId}
    (hid : id ∈ (tokenOr optional edge).nodes) : id ∈ edge.nodes := by
  cases optional with
  | none => exact hid
  | some token => cases hid

end Edge

/-- The readers of two grammars agree. -/
structure Grammar.Agrees (thinning : Thinning) (grammar other : Grammar) : Prop where
  semicolons : grammar.semicolons = other.semicolons
  halts : grammar.Halts
  statement (labels : Bool) :
    thinning.Agree True thinning.Beside (grammar.statement labels) (other.statement labels)
      thinning.Strays thinning.Same thinning.Beside
  statements (enclosure : Enclosure) :
    thinning.Agree True thinning.Beside (grammar.statements enclosure)
      (other.statements enclosure) never thinning.SameStatements thinning.Level
  parameters :
    thinning.Agree True thinning.Beside grammar.parameters other.parameters never Eq
      thinning.Level
  declarations :
    thinning.Agree True thinning.Beside grammar.declarations other.declarations
      (HaltsEarly true) (List.Forall₂ thinning.Same) thinning.Beside
  expression (commas : Bool) :
    thinning.Agree True thinning.Beside (grammar.expression commas) (other.expression commas)
      (HaltsEarly commas) thinning.Same thinning.Beside
  assignment :
    thinning.Agree True thinning.Beside grammar.assignment other.assignment (HaltsEarly false)
      thinning.Same thinning.Beside
  operand (calls : Bool) :
    thinning.Agree True thinning.Beside (grammar.operand calls) (other.operand calls)
      (HaltsEarly false) thinning.Same thinning.Beside
  operations (left right : NodeId) (floor : Token.Binding) :
    thinning.Agree True thinning.Beside (grammar.operations left floor)
      (other.operations right floor) (HaltsEarly false)
      (fun id result => thinning.Same left right → thinning.Same id result) thinning.Beside
  suffixes (target result : NodeId) (calls : Bool) :
    thinning.Agree True thinning.Beside (grammar.suffixes target calls)
      (other.suffixes result calls) (HaltsEarly false)
      (fun id another => thinning.Same target result → thinning.Same id another) thinning.Beside
  items {closing : String} (hclosing : closing ∈ Token.closingMarks) :
    thinning.Agree True thinning.Beside (grammar.items closing) (other.items closing) never
      (List.Forall₂ thinning.Same) thinning.Level
  properties :
    thinning.Agree True thinning.Beside grammar.properties other.properties never
      (List.Forall₂ thinning.Same) thinning.Level

namespace Thinning

variable {thinning : Thinning}

/-! ## Nodes that say the same -/

theorem terms_of_forall₂ {ids others : List NodeId}
    (hsame : List.Forall₂ thinning.Same ids others) :
    ids.map thinning.first.term = others.map thinning.second.term := by
  induction hsame with
  | nil => rfl
  | cons hhead _ ih => rw [List.map_cons, List.map_cons, hhead.term, ih]

theorem spans_of_forall₂ {ids others : List NodeId}
    (hsame : List.Forall₂ thinning.Same ids others) :
    ids.map thinning.first.span = others.map thinning.second.span := by
  induction hsame with
  | nil => rfl
  | cons hhead _ ih => rw [List.map_cons, List.map_cons, hhead.span, ih]

theorem term_of_rel {id other : Option NodeId} (hsame : Option.Rel thinning.Same id other) :
    id.map thinning.first.term = other.map thinning.second.term := by
  cases hsame with
  | none => rfl
  | some hnode => rw [Option.map_some, Option.map_some, hnode.term]

theorem span_of_rel {id other : Option NodeId} (hsame : Option.Rel thinning.Same id other) :
    id.map thinning.first.span = other.map thinning.second.span := by
  cases hsame with
  | none => rfl
  | some hnode => rw [Option.map_some, Option.map_some, hnode.span]

theorem leaf_drafted (kind : Leaf) (token : Token) :
    thinning.Drafted (.leaf kind token) (.leaf kind token) := by
  constructor
  all_goals simp [Draft.leaf, Shape.map, Shape.mapIdx, Shape.uncommented, Shape.isRoot,
    Edge.token, Edge.span, Edge.nodes]

theorem binary_drafted {left right result another : NodeId} (operator : Token)
    (hleft : thinning.Same left result) (hright : thinning.Same right another) :
    thinning.Drafted (.binary left operator right) (.binary result operator another) := by
  constructor
  all_goals simp [Draft.binary, Shape.map, Shape.mapIdx, Shape.uncommented, Shape.isRoot,
    Shape.children, Edge.span, Edge.nodes, hleft.term, hleft.span, hright.term, hright.span]

end Thinning

end ScriptSyntax

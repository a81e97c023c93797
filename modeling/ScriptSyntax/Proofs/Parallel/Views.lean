import ScriptSyntax.Proofs.Arena
import ScriptSyntax.Proofs.Parallel.Signals

/-!
# Views of trees

A view says how far two trees are compared: it keeps of every token and of every span what
is to be the same.  A tree mirrors another one behind a base if it has the nodes of the base
first and then those of the other, with their numbers shifted.  Adding the same node to both
keeps up the mirror.
-/

namespace ScriptSyntax

variable {Ref Other : Type}

namespace Shape

/-- Replaces every token. -/
def mapTokens (f : Token → Token) : Shape Ref → Shape Ref
  | .leaf kind token => .leaf kind (f token)
  | .labelled label statement => .labelled (f label) statement
  | .jump kind label => .jump kind (label.map f)
  | .forIn varToken name source body => .forIn (varToken.map f) (f name) source body
  | .forLoop varToken init test step body => .forLoop (varToken.map f) init test step body
  | .function role name parameters body =>
      .function role (name.map f) (parameters.map f) body
  | .tryCatch body handler finalizer =>
      .tryCatch body (handler.map fun clause => (f clause.1, clause.2)) finalizer
  | .unary side operator operand => .unary side (f operator) operand
  | .binary left operator right => .binary left (f operator) right
  | .object comment properties => .object (comment.map f) properties
  | .declaration name initializer => .declaration (f name) initializer
  | .property name value => .property (f name) value
  | shape => shape

@[simp]
theorem mapTokens_id (shape : Shape Ref) : shape.mapTokens id = shape := by
  cases shape <;> simp [mapTokens]

@[simp]
theorem children_mapTokens (f : Token → Token) (shape : Shape Ref) :
    (shape.mapTokens f).children = shape.children := by
  cases shape with
  | tryCatch body handler finalizer => cases handler <;> rfl
  | _ => rfl

@[simp]
theorem isRoot_mapTokens (f : Token → Token) (shape : Shape Ref) :
    (shape.mapTokens f).isRoot = shape.isRoot := by
  cases shape <;> rfl

theorem mapIdx_eq_map (f : Ref → Other) (refs : List Ref) :
    refs.mapIdx (fun _ => f) = refs.map f := by
  induction refs with
  | nil => rfl
  | cons ref refs ih => rw [List.mapIdx_cons, List.map_cons, ← ih]

@[simp]
theorem map_id (shape : Shape Ref) : shape.map (fun ref => ref) = shape := by
  cases shape with
  | forLoop varToken init test step body =>
      rcases init with - | - | - <;> simp [map, mapIdx, LoopInit.mapIdx, mapIdx_eq_map]
  | _ => simp [map, mapIdx, mapIdx_eq_map]

@[simp]
theorem children_map (f : Ref → Other) (shape : Shape Ref) :
    (shape.map f).children = shape.children.map f := by
  rw [map, children_mapIdx, mapIdx_eq_map]

@[simp]
theorem isRoot_map (f : Ref → Other) (shape : Shape Ref) : (shape.map f).isRoot = shape.isRoot := by
  cases shape <;> rfl

@[simp]
theorem isAssignable_map (f : Ref → Other) (shape : Shape Ref) :
    (shape.map f).isAssignable = shape.isAssignable := by
  cases shape with
  | leaf kind token => cases kind <;> rfl
  | _ => rfl

end Shape

/-- What is to be the same of the tokens and the spans in two trees. -/
structure View where
  keep : Token → Token
  place : Span → Span
  signal_keep (token : Token) : (keep token).signal = token.signal
  place_between {first second third fourth : Span} : place first = place second →
    place third = place fourth → place (.between first third) = place (.between second fourth)

namespace View

/-- Everything is to be the same. -/
def exact : View where
  keep := id
  place := id
  signal_keep _ := rfl
  place_between hfirst hlast := by
    rw [id_eq, id_eq] at hfirst hlast
    rw [hfirst, hlast]

/-- What is kept of an optional token. -/
theorem map_keep_of_rel {view : View} {alike : Token → Token → Prop} {token other : Option Token}
    (hrel : Option.Rel alike token other)
    (hkeep : ∀ token other, alike token other → view.keep token = view.keep other) :
    token.map view.keep = other.map view.keep := by
  cases hrel with
  | none => rfl
  | some halike => exact congrArg some (hkeep _ _ halike)

end View

/-- The number of a node with other nodes in front of it. -/
def shift (offset : Nat) : Nat → Nat
  | 0 => 0
  | index + 1 => offset + (index + 1)

@[simp]
theorem shift_zero (id : Nat) : shift 0 id = id := by
  cases id with
  | zero => rfl
  | succ index => exact Nat.zero_add _

theorem shift_of_pos {offset id : Nat} (hid : 0 < id) : shift offset id = offset + id := by
  cases id with
  | zero => cases hid
  | succ index => rfl

theorem shift_injective {offset id other : Nat} (hsame : shift offset id = shift offset other) :
    id = other := by
  cases id <;> cases other <;> simp only [shift] at hsame <;> omega

theorem mem_map_shift {offset id : Nat} {ids : List NodeId} :
    shift offset id ∈ ids.map (shift offset) ↔ id ∈ ids := by
  rw [List.mem_map]
  constructor
  · rintro ⟨other, hother, hsame⟩
    rwa [← shift_injective hsame]
  · exact fun hid => ⟨id, hid, rfl⟩

/-- Only the number of no node stays in front. -/
theorem eq_zero_of_shift_le {offset id : Nat} (hid : shift offset id ≤ offset) : id = 0 := by
  cases id with
  | zero => rfl
  | succ index =>
      rw [shift] at hid
      omega

section Seen

variable (view : View)

/-- What a view keeps of a shape. -/
def Shape.seen (shape : Shape Ref) : Shape Ref :=
  shape.mapTokens view.keep

@[simp]
theorem Shape.children_seen (shape : Shape Ref) : (shape.seen view).children = shape.children :=
  children_mapTokens _ _

@[simp]
theorem Shape.isRoot_seen (shape : Shape Ref) : (shape.seen view).isRoot = shape.isRoot :=
  isRoot_mapTokens _ _

@[simp]
theorem Shape.isAssignable_seen (shape : Shape Ref) :
    (shape.seen view).isAssignable = shape.isAssignable := by
  cases shape with
  | leaf kind token => cases kind <;> rfl
  | binary left operator right =>
      exact (Token.superficial_isPunctuation ".").congr (view.signal_keep operator)
  | _ => rfl

/-- What a view keeps of an edge. -/
def Edge.seen : Edge → Edge
  | .piece span => .piece (view.place span)
  | .node id => .node id

/-- What a view keeps of a draft. -/
def Draft.seen (draft : Draft) : Draft :=
  ⟨draft.shape.seen view, draft.first.seen view, draft.last.seen view⟩

/-- What a view keeps of a node. -/
def Node.seen (node : Node) : Node :=
  ⟨view.place node.span, node.parent, node.shape.seen view⟩

/-- What a view keeps of a tree. -/
def Tree.seen (tree : Tree) : Tree where
  nodes := tree.nodes.map (Node.seen view)
  root := tree.root

theorem Tree.find?_seen (tree : Tree) (id : Nat) :
    (tree.seen view).find? id = (tree.find? id).map (Node.seen view) := by
  cases id with
  | zero => rfl
  | succ index => exact Array.getElem?_map

end Seen

@[simp]
theorem Node.seen_exact (node : Node) : node.seen .exact = node := by
  simp [seen, Shape.seen, View.exact]

@[simp]
theorem Tree.seen_exact (tree : Tree) : tree.seen .exact = tree := by
  have hnode : Node.seen .exact = id := funext Node.seen_exact
  rw [seen, hnode, Array.map_id]

/-- Trees are told apart by their roots and by their nodes. -/
theorem Tree.ext_find? {tree other : Tree} (hroot : tree.root = other.root)
    (hnodes : ∀ id : Nat, tree.find? id = other.find? id) : tree = other := by
  have hsame : tree.nodes = other.nodes := by
    apply Array.ext_getElem?
    intro index
    exact hnodes (index + 1)
  cases tree
  cases other
  simp_all

/-- Replaces the number at an edge. -/
def Edge.rename (f : NodeId → NodeId) : Edge → Edge
  | .piece span => .piece span
  | .node id => .node (f id)

/-- Replaces the numbers in a draft. -/
def Draft.rename (f : NodeId → NodeId) (draft : Draft) : Draft :=
  ⟨draft.shape.map f, draft.first.rename f, draft.last.rename f⟩

/-- Replaces the numbers in a node. -/
def Node.rename (f : NodeId → NodeId) (node : Node) : Node :=
  ⟨node.span, node.parent.map f, node.shape.map f⟩

theorem Node.rename_adoptedBy (f : NodeId → NodeId) (node : Node) (parent : NodeId) :
    (node.adoptedBy parent).rename f = (node.rename f).adoptedBy (f parent) := by
  cases hparent : node.parent <;> simp [adoptedBy, rename, hparent]

namespace Tree

variable {view : View} {base first second : Tree}

/-- The second tree has the nodes of the base and behind them, with their numbers shifted,
those of the first tree. -/
structure Mirrors (view : View) (base first second : Tree) : Prop where
  size : second.size = base.size + first.size
  front (id : Nat) : id ≤ base.size → second.find? id = base.find? id
  nodes (id : Nat) : (second.find? (shift base.size id)).map (Node.seen view) =
    (first.find? id).map fun node => (node.seen view).rename (shift base.size)
  root : second.root = (first.root.map (shift base.size)).or base.root

namespace Mirrors

/-- Two runs start without nodes, the second one behind the base. -/
theorem start (view : View) (base : Tree) : Mirrors view base .empty base where
  size := rfl
  front _ _ := rfl
  nodes id := by
    cases id with
    | zero => rfl
    | succ index =>
        rw [shift, find?_eq_none_of_size_lt base (show _ < base.size + (index + 1) by omega)]
        rfl
  root := rfl

theorem place_span (hmirrors : Mirrors view base first second) (id : Nat) :
    view.place (second.span (shift base.size id)) = view.place (first.span id) := by
  have hnodes := hmirrors.nodes id
  rw [Tree.span, Tree.span]
  cases hfirst : first.find? id <;> cases hsecond : second.find? (shift base.size id)
  case none.none => rfl
  case none.some => simp [hfirst, hsecond] at hnodes
  case some.none => simp [hfirst, hsecond] at hnodes
  case some.some node other =>
    rw [hfirst, hsecond] at hnodes
    exact congrArg Node.span (Option.some.inj hnodes)

theorem place_edge (hmirrors : Mirrors view base first second) {edge other : Edge}
    (hedge : other.seen view = (edge.seen view).rename (shift base.size)) :
    view.place (other.span second) = view.place (edge.span first) := by
  cases edge with
  | piece span =>
      cases other with
      | piece place => exact Edge.piece.inj hedge
      | node id => cases hedge
  | node id =>
      cases other with
      | piece place => cases hedge
      | node number =>
          cases hedge
          exact hmirrors.place_span id

/-- Without a base the trees are the same as far as they are compared. -/
theorem seen_eq (hmirrors : Mirrors view .empty first second) :
    second.seen view = first.seen view := by
  apply ext_find?
  · change second.root = first.root
    have hroot := hmirrors.root
    have hshift : shift empty.size = id := funext shift_zero
    rwa [hshift, Option.map_id, show empty.root = none from rfl, Option.or_none] at hroot
  · intro id
    have hnodes := hmirrors.nodes id
    have hshift : shift empty.size = fun id => id := funext shift_zero
    have hnode : ∀ node : Node, node.rename (fun id => id) = node := by
      intro node
      simp [Node.rename]
    simp only [hshift, hnode] at hnodes
    rw [find?_seen, find?_seen, hnodes]

theorem shift_le (hmirrors : Mirrors view base first second) {id : Nat} (hid : id ≤ first.size) :
    shift base.size id ≤ second.size := by
  rw [hmirrors.size]
  cases id with
  | zero => exact Nat.zero_le _
  | succ index => exact Nat.add_le_add_left hid _

/-- The node that is added next has the same number. -/
theorem shift_next (hmirrors : Mirrors view base first second) :
    shift base.size (first.size + 1) = second.size + 1 := by
  rw [hmirrors.size, shift, Nat.add_assoc]

/-- The same nodes are put below the node that is added next. -/
theorem find?_adopted (hmirrors : Mirrors view base first second) (children : List NodeId)
    (id : Nat) :
    (if id ∈ children then
        (second.find? (shift base.size id)).map (Node.adoptedBy · (second.size + 1))
      else second.find? (shift base.size id)).map (Node.seen view) =
      (if id ∈ children then (first.find? id).map (Node.adoptedBy · (first.size + 1))
        else first.find? id).map fun node => (node.seen view).rename (shift base.size) := by
  have hnodes := hmirrors.nodes id
  split
  · rw [← hmirrors.shift_next]
    have hadopted := congrArg
      (Option.map (Node.adoptedBy · (shift base.size (first.size + 1)))) hnodes
    rw [Option.map_map, Option.map_map] at hadopted ⊢
    refine hadopted.trans (congrArg (Option.map · (first.find? id)) (funext fun node => ?_))
    exact (Node.rename_adoptedBy ..).symm
  · exact hnodes

theorem insert (hmirrors : Mirrors view base first second) {shape other : Shape NodeId}
    {span place : Span} (hshape : other.seen view = (shape.seen view).map (shift base.size))
    (hplace : view.place place = view.place span) :
    Mirrors view base (first.insert shape span).2 (second.insert other place).2 := by
  have hchildren : other.children = shape.children.map (shift base.size) := by
    have hsame := congrArg Shape.children hshape
    simpa using hsame
  constructor
  case size =>
    rw [size_insert, size_insert, hmirrors.size]
    omega
  case root =>
    have hroot : other.isRoot = shape.isRoot := by
      have hsame := congrArg Shape.isRoot hshape
      simpa using hsame
    simp only [Tree.insert, hroot, root_adoptAll, hmirrors.root]
    split
    · rw [← hmirrors.shift_next]
      rfl
    · rfl
  case front =>
    intro id hid
    have hle : id ≤ second.size := by
      rw [hmirrors.size]
      omega
    rw [find?_insert_of_le second other place hle]
    split
    · rename_i hmem
      rw [hchildren] at hmem
      obtain ⟨child, -, rfl⟩ := List.mem_map.mp hmem
      rw [eq_zero_of_shift_le hid]
      rfl
    · exact hmirrors.front id hid
  case nodes =>
    intro id
    rcases Nat.lt_trichotomy id (first.size + 1) with hid | rfl | hid
    · have hle := Nat.le_of_lt_succ hid
      rw [find?_insert_of_le first shape span hle,
        find?_insert_of_le second other place (hmirrors.shift_le hle), hchildren]
      simp only [mem_map_shift]
      exact hmirrors.find?_adopted shape.children id
    · rw [hmirrors.shift_next, find?_insert_self, find?_insert_self]
      simp [Node.seen, Node.rename, hshape, hplace]
    · rw [find?_eq_none_of_size_lt _ (show _ < shift base.size id from ?_),
        find?_eq_none_of_size_lt _ (show _ < id from ?_)]
      · rfl
      · rwa [size_insert]
      · rw [size_insert, hmirrors.size, shift_of_pos (by omega)]
        omega

theorem add (hmirrors : Mirrors view base first second) {draft other : Draft}
    (hdraft : other.seen view = (draft.seen view).rename (shift base.size)) :
    Mirrors view base (first.add draft).2 (second.add other).2 := by
  obtain ⟨hshape, hfirst, hlast⟩ := Draft.mk.inj hdraft
  exact hmirrors.insert hshape
    (view.place_between (hmirrors.place_edge hfirst) (hmirrors.place_edge hlast))

end Mirrors

end Tree

end ScriptSyntax

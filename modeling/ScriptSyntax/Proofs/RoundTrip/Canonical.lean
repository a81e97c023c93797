import ScriptSyntax.Proofs.Growth

/-!
# Canonical sessions

A canonical session reads tokens without spans and line breaks and makes a tree
without spans.  Every test that a production makes of a token is one of its kind
and value, save for line breaks, so the tests come out as they do on the tokens
themselves; and a node added to a tree without spans is the node added to the
tree, without its span.
-/

namespace ScriptSyntax

namespace Token

variable (token : Token) {mark word symbol : String}

@[simp]
theorem isPunctuation_bare : token.bare.isPunctuation mark = token.isPunctuation mark := rfl

@[simp]
theorem isOperator_bare : token.bare.isOperator symbol = token.isOperator symbol := rfl

@[simp]
theorem isPostfix_bare : token.bare.isPostfix = token.isPostfix := rfl

@[simp]
theorem isAssignment_bare : token.bare.isAssignment = token.isAssignment := rfl

@[simp]
theorem newlineBefore_bare : token.bare.newlineBefore = false := rfl

@[simp]
theorem asName_bare : token.bare.asName = token.asName.bare := rfl

variable {token}

theorem bare_of_isPunctuation (htoken : token.isPunctuation mark = true) :
    token.bare = plain .punctuation mark := by
  obtain ⟨hkind, hvalue⟩ := (token.is_iff _ _).mp htoken
  rw [bare, hkind, hvalue]

theorem bare_of_isKeyword (htoken : token.isKeyword word = true) :
    token.bare = plain .keyword word := by
  obtain ⟨hkind, hvalue⟩ := (token.is_iff _ _).mp htoken
  rw [bare, hkind, hvalue]

theorem bare_of_isOperator (htoken : token.isOperator symbol = true) :
    token.bare = plain .operator symbol := by
  obtain ⟨hkind, hvalue⟩ := (token.is_iff _ _).mp htoken
  rw [bare, hkind, hvalue]

/-- Only names are written differently from how they are kept. -/
theorem asWritten_of_kind (htoken : token.kind ≠ .identifier) : token.asWritten = token := by
  rw [asWritten, if_neg fun h => htoken h.1]

theorem asWritten_of_value (htoken : token.value ∉ valueKeywords) :
    token.asWritten = token := by
  rw [asWritten, if_neg fun h => htoken h.2]

/-- Reading a name that was written down gives the name. -/
theorem asName_asWritten (htoken : token.kind = .identifier) :
    token.asWritten.asName.bare = token.bare := by
  unfold asWritten
  split <;> simp [asName, bare, htoken]

end Token

variable {Ref : Type}

@[simp]
theorem Shape.children_bare (shape : Shape Ref) : shape.bare.children = shape.children := by
  cases shape with
  | tryCatch body handler finalizer => cases handler <;> rfl
  | _ => rfl

@[simp]
theorem Shape.isRoot_bare (shape : Shape Ref) : shape.bare.isRoot = shape.isRoot := by
  cases shape <;> rfl

@[simp]
theorem Shape.isAssignable_bare (shape : Shape Ref) :
    shape.bare.isAssignable = shape.isAssignable := by
  cases shape with
  | leaf kind token => cases kind <;> rfl
  | _ => rfl

/-- The part without the place of its token. -/
def Part.bare : Part Ref → Part Ref
  | .own token => .own token.bare
  | .below ref => .below ref

@[simp]
theorem Part.bare_own (token : Token) : (own token : Part Ref).bare = .own token.bare := rfl

@[simp]
theorem Part.bare_below (ref : Ref) : (below ref).bare = below ref := rfl

namespace Tree

@[simp]
theorem size_bare (tree : Tree) : tree.bare.size = tree.size := by
  simp [bare, size]

@[simp]
theorem bare_empty : Tree.empty.bare = .empty := by
  simp [bare, empty]

theorem find?_bare (tree : Tree) (id : NodeId) :
    tree.bare.find? id = (tree.find? id).map Node.bare := by
  cases id with
  | zero => rfl
  | succ index => simp [bare, find?]

theorem span_bare (tree : Tree) (id : NodeId) : tree.bare.span id = .null := by
  rw [span, find?_bare]
  cases tree.find? id <;> rfl

theorem bare_adopt (tree : Tree) (parent child : NodeId) :
    (tree.adopt parent child).bare = tree.bare.adopt parent child := by
  cases child with
  | zero => rfl
  | succ index =>
      unfold adopt modify bare
      congr 1
      apply Array.ext_getElem?
      intro position
      rw [Array.getElem?_map, Array.getElem?_modify, Array.getElem?_modify, Array.getElem?_map]
      split
      · cases tree.nodes[position]? <;> rfl
      · rfl

theorem bare_adoptAll (tree : Tree) (parent : NodeId) (children : List NodeId) :
    (tree.adoptAll parent children).bare = tree.bare.adoptAll parent children := by
  induction children generalizing tree with
  | nil => rfl
  | cons child children ih =>
      have hcons : ∀ grown : Tree, grown.adoptAll parent (child :: children) =
          (grown.adopt parent child).adoptAll parent children := fun _ => rfl
      rw [hcons, hcons, ih, bare_adopt]

/-- Adding a node and leaving out spans can be done in either order. -/
theorem bare_insert (tree : Tree) (shape : Shape NodeId) (span : Span) :
    (tree.insert shape span).2.bare = (tree.bare.insert shape.bare .null).2 := by
  have hadopted := bare_adoptAll tree (tree.size + 1) shape.children
  have hnodes := congrArg nodes hadopted
  have hroot := congrArg root hadopted
  unfold insert
  rw [size_bare, Shape.children_bare, Shape.isRoot_bare]
  dsimp only
  rw [← hnodes, ← hroot]
  simp [bare, Node.bare]

/-- What the parts of a node say in a tree, without places. -/
def spells (tree : Tree) (parts : List (Part NodeId)) : List Token :=
  (parts.flatMap (Part.words tree.words)).map Token.bare

@[simp]
theorem spells_append (tree : Tree) (first second : List (Part NodeId)) :
    tree.spells (first ++ second) = tree.spells first ++ tree.spells second := by
  simp [spells]

theorem print_eq_spells (tree : Tree) : tree.print = tree.spells [.below tree.rootId] := by
  simp [print, spells, Part.words]

theorem spells_map_bare (tree : Tree) (parts : List (Part NodeId)) :
    tree.spells (parts.map Part.bare) = tree.spells parts := by
  induction parts with
  | nil => rfl
  | cons part parts ih =>
      have hcons : ∀ (part : Part NodeId) (parts : List (Part NodeId)),
          tree.spells (part :: parts) = tree.spells [part] ++ tree.spells parts := by
        intro part parts
        rw [← spells_append, List.singleton_append]
      rw [List.map_cons, hcons, hcons part, ih]
      cases part <;> rfl

/-- A node says what its parts say. -/
theorem spells_below {tree : Tree} (hordered : tree.Ordered) {id : Nat}
    {shape : Shape NodeId} (hshape : tree.shape? id = some shape) :
    tree.spells [.below id] = tree.spells shape.layout := by
  simp only [spells, List.flatMap_singleton, Part.words]
  rw [words_eq hordered hshape]

end Tree

/-- The edge stands nowhere, or where a node stands. -/
def Edge.Nowhere : Edge → Prop
  | .piece span => span = .null
  | .node _ => True

theorem Edge.Nowhere.nodeOr {edge : Edge} (hedge : edge.Nowhere) (id : Option NodeId) :
    (Edge.nodeOr id edge).Nowhere := by
  cases id with
  | none => exact hedge
  | some id => trivial

/-- A draft of the same node from tokens without places. -/
structure Draft.Retraces (draft original : Draft) : Prop where
  shape : draft.shape = original.shape.bare
  first : draft.first.Nowhere
  last : draft.last.Nowhere

theorem Edge.Nowhere.span_eq {edge : Edge} (hedge : edge.Nowhere) (tree : Tree) :
    edge.span tree.bare = .null := by
  cases edge with
  | piece span => exact hedge
  | node id => exact tree.span_bare id

/-- Adding a node again. -/
theorem Draft.Retraces.add_eq {draft original : Draft} (hretraces : draft.Retraces original)
    (tree : Tree) : tree.bare.add draft = (tree.size + 1, (tree.add original).2.bare) := by
  have hspan : draft.span tree.bare = .null := by
    rw [Draft.span, hretraces.first.span_eq, hretraces.last.span_eq]
    rfl
  have hid : (tree.bare.add draft).1 = tree.size + 1 := by
    rw [Tree.add, Tree.insert_fst, Tree.size_bare]
  apply Prod.ext
  · exact hid
  · dsimp only
    rw [Tree.add, Tree.add, hspan, hretraces.shape, Tree.bare_insert]

/-- The cursor with more tokens to pass first. -/
def Cursor.before (cursor : Cursor) (tokens : List Token) : Cursor :=
  { cursor with pending := tokens ++ cursor.pending }

theorem Cursor.before_append (cursor : Cursor) (first second : List Token) :
    cursor.before (first ++ second) = (cursor.before second).before first := by
  simp [before]

@[simp]
theorem Cursor.current_before_cons (cursor : Cursor) (token : Token) (tokens : List Token) :
    (cursor.before (token :: tokens)).current = token := rfl

@[simp]
theorem Cursor.length_before (cursor : Cursor) (tokens : List Token) :
    (cursor.before tokens).pending.length = tokens.length + cursor.pending.length :=
  List.length_append

/-- Nothing is dropped if the first token does not satisfy the test. -/
theorem Cursor.dropWhile_pending (test : Token → Bool) {cursor : Cursor}
    (hcurrent : test cursor.current = false) :
    cursor.pending.dropWhile test = cursor.pending := by
  cases hpending : cursor.pending with
  | nil => rfl
  | cons token tokens =>
      have htoken : test token = false := by
        rwa [current, hpending] at hcurrent
      rw [List.dropWhile_cons, htoken]
      rfl

theorem Cursor.skipComments_eq {cursor : Cursor} (hcurrent : cursor.current.isComment = false) :
    cursor.skipComments = cursor := by
  rw [skipComments, dropWhile_pending _ hcurrent]

theorem Cursor.skipBlockComments_eq {cursor : Cursor}
    (hcurrent : cursor.current.isComment = false) : cursor.skipBlockComments = cursor := by
  have hblock : (cursor.current.kind == .blockComment) = false := by
    cases hkind : cursor.current.kind <;> simp_all [Token.isComment]
  have hpending := dropWhile_pending (fun token => token.kind == .blockComment) hblock
  rw [skipBlockComments, hpending]

theorem Cursor.comment?_eq {cursor : Cursor} (hcurrent : cursor.current.isComment = false) :
    cursor.comment? = none := by
  have hpending : cursor.pending.takeWhile Token.isComment = [] := by
    cases hpending : cursor.pending with
    | nil => rfl
    | cons token tokens =>
        have htoken : token.isComment = false := by
          rwa [current, hpending] at hcurrent
        rw [List.takeWhile_cons, htoken]
        rfl
  rw [comment?, hpending]
  rfl

namespace Session

/-- A session at other tokens, with the tree without spans. -/
def canonical (session : Session) (cursor : Cursor) : Session :=
  ⟨cursor, session.tree.bare⟩

theorem canonical_start (tokens : List Token) (cursor : Cursor) :
    (start tokens).canonical cursor = ⟨cursor, .empty⟩ := by
  rw [canonical, start, Tree.bare_empty]

/-- No comments are left to pass. -/
def Quiet (session : Session) : Prop :=
  ∀ token ∈ session.cursor.pending, token.isComment = false

theorem Quiet.passed {session : Session} (hquiet : session.Quiet) : session.passed.Quiet :=
  fun token htoken => hquiet token (List.mem_of_mem_tail htoken)

theorem Quiet.current {session : Session} (hquiet : session.Quiet) :
    session.cursor.current.isComment = false := by
  cases hpending : session.cursor.pending with
  | nil =>
      have hkind := Cursor.current_kind_of_pending_nil hpending
      simp [Token.isComment, hkind]
  | cons token tokens =>
      have hcurrent : session.cursor.current = token := by simp [Cursor.current, hpending]
      rw [hcurrent]
      exact hquiet token (by simp [hpending])

theorem Quiet.uncommented_eq {session : Session} (hquiet : session.Quiet) :
    session.uncommented = session := by
  rw [uncommented, Cursor.skipComments_eq hquiet.current]

/-- The tree of a session lives on in another, and no comments come up. -/
structure Evolves (before after : Session) : Prop where
  kept : before.tree.PartOf after.tree
  quiet : before.Quiet → after.Quiet

theorem Evolves.refl (session : Session) : session.Evolves session :=
  ⟨Tree.PartOf.refl _, fun hquiet => hquiet⟩

theorem Evolves.trans {first second third : Session} (hfirst : first.Evolves second)
    (hsecond : second.Evolves third) : first.Evolves third :=
  ⟨hfirst.kept.trans hsecond.kept, fun hquiet => hsecond.quiet (hfirst.quiet hquiet)⟩

theorem evolves_passed (session : Session) : session.Evolves session.passed :=
  ⟨Tree.PartOf.refl _, Quiet.passed⟩

theorem evolves_grown (session : Session) (draft : Draft) :
    session.Evolves (session.grown draft) :=
  ⟨Tree.partOf_insert _ _ _, fun hquiet => hquiet⟩

end Session

end ScriptSyntax

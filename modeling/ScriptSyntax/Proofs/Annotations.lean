import Mathlib.Data.List.TakeWhile
import ScriptSyntax.Proofs.Endings
import ScriptSyntax.Proofs.RoundTrip.Canonical
import ScriptSyntax.Proofs.Semicolons
import ScriptSyntax.Proofs.Upkeep.Statement

/-!
# Comments before objects

An operand passes over the comments before it, and an object keeps the last of them.  So the object
has the comment directly before its brace, unless someone else has passed over that comment before.
Only the readers of lists do so, before each of their items, and whether an object is one of them
shows once the list is made: until then the item is open.
-/

namespace ScriptSyntax

open Parse Text
open Law (Entry)
open Relation (ReflTransGen)

/-- The comment that some tokens end with. -/
def Token.trailingComment? (tokens : List Token) : Option Token :=
  tokens.getLast?.filter Token.isComment

theorem Token.trailingComment?_append {before comments : List Token} {token : Token}
    (htoken : token.isComment = false)
    (hcomments : ∀ comment ∈ comments, comment.isComment = true) :
    Token.trailingComment? (before ++ token :: comments) = comments.getLast? := by
  rw [Token.trailingComment?, List.getLast?_append, List.getLast?_cons]
  cases hlast : comments.getLast? with
  | none => simp [htoken]
  | some last => simp [hcomments last (List.mem_of_getLast? hlast)]

/-- The comment that an object keeps. -/
def Shape.comment? {Ref : Type} : Shape Ref → Option Token
  | .object comment _ => comment
  | _ => none

/-- The shape begins with a token and keeps no comment. -/
def Shape.isBare {Ref : Type} (shape : Shape Ref) : Bool :=
  shape.leading?.isNone && shape.comment?.isNone

namespace Tree

/-- The source of an item of a list begins with the node. -/
def OpensItem (tree : Tree) (id : NodeId) : Prop :=
  ∃ list shape item, tree.shape? list = some shape ∧ item ∈ shape.items ∧ tree.Begins item id

/-- The operand that the source of the node begins with keeps no comment. -/
inductive Bare (tree : Tree) : NodeId → Prop
  | here {id : NodeId} {shape : Shape NodeId} : tree.shape? id = some shape →
      shape.isBare = true → Bare tree id
  | behind {id first : NodeId} {shape : Shape NodeId} : tree.shape? id = some shape →
      shape.leading? = some first → Bare tree first → Bare tree id

/-- The node begins at a brace among the tokens and keeps the comment directly before that, if it
neither opens an item of a list nor is open itself. -/
def Explains (tree : Tree) (whole : List Token) (pending : List NodeId) (id : NodeId)
    (comment : Option Token) : Prop :=
  ∃ before brace later, whole = before ++ brace :: later ∧ brace.isPunctuation "\x7b" = true ∧
    (tree.span id).start = brace.span.start ∧
    (comment = Token.trailingComment? before ∨ tree.OpensItem id ∨
      ∃ above ∈ pending, tree.Begins above id)

/-- Objects keep the comments directly before them, and items of lists begin with none; some nodes
are still open. -/
structure Annotated (tree : Tree) (whole : List Token) (pending : List NodeId) : Prop where
  bare : ∀ id ∈ pending, tree.Bare id
  items : ∀ id shape, tree.shape? id = some shape → ∀ item ∈ shape.items, tree.Bare item
  objects : ∀ id comment properties, tree.shape? id = some (.object comment properties) →
    tree.Explains whole pending id comment

variable {tree whole : Tree} {id first : NodeId} {shape : Shape NodeId} {span : Span}
variable {tokens : List Token} {pending others : List NodeId} {comment : Option Token}

theorem OpensItem.partOf (hopens : tree.OpensItem id) (hpart : tree.PartOf whole) :
    whole.OpensItem id := by
  obtain ⟨list, shape, item, hshape, hitem, hbegins⟩ := hopens
  exact ⟨list, shape, item, hpart list shape hshape, hitem, hbegins.partOf hpart⟩

theorem Bare.partOf (hbare : tree.Bare id) (hpart : tree.PartOf whole) : whole.Bare id := by
  induction hbare with
  | here hshape hbare => exact .here (hpart _ _ hshape) hbare
  | behind hshape hfirst _ ih => exact .behind (hpart _ _ hshape) hfirst ih

theorem Bare.of_begins (hbare : tree.Bare first) (hbegins : tree.Begins id first) :
    tree.Bare id := by
  induction hbegins using ReflTransGen.head_induction_on with
  | refl => exact hbare
  | head hstep _ ih =>
      obtain ⟨shape, hshape, hfirst⟩ := hstep
      exact .behind hshape hfirst ih

/-- What a bare node begins with is bare. -/
theorem Bare.of_begun (hbare : tree.Bare id) (hbegins : tree.Begins id first) :
    tree.Bare first := by
  induction hbegins with
  | refl => exact hbare
  | tail _ hstep ih =>
      obtain ⟨shape, hshape, hfirst⟩ := hstep
      cases ih with
      | here hfound hbare =>
          obtain rfl := Option.some.inj (hshape.symm.trans hfound)
          simp [Shape.isBare, hfirst] at hbare
      | behind hfound hother hbare =>
          obtain rfl := Option.some.inj (hshape.symm.trans hfound)
          obtain rfl := Option.some.inj (hfirst.symm.trans hother)
          exact hbare

theorem Bare.comment_eq {properties : List NodeId} (hbare : tree.Bare id)
    (hshape : tree.shape? id = some (.object comment properties)) : comment = none := by
  cases hbare with
  | here hfound hbare =>
      obtain rfl := Option.some.inj (hshape.symm.trans hfound)
      simpa [Shape.isBare, Shape.leading?, Shape.comment?] using hbare
  | behind hfound hfirst _ =>
      obtain rfl := Option.some.inj (hshape.symm.trans hfound)
      cases hfirst

/-- Other nodes are left open, if what the open nodes begin with begins one of them. -/
theorem Explains.reopen (hexplains : tree.Explains tokens pending id comment)
    (hothers : ∀ above ∈ pending, tree.Begins above id → ∃ other ∈ others, tree.Begins other id) :
    tree.Explains tokens others id comment := by
  obtain ⟨before, brace, later, hwhole, hbrace, hstart, hwhy⟩ := hexplains
  refine ⟨before, brace, later, hwhole, hbrace, hstart, hwhy.imp_right (Or.imp_right ?_)⟩
  rintro ⟨above, habove, hbegins⟩
  exact hothers above habove hbegins

theorem Annotated.reopen (hannotated : tree.Annotated tokens pending)
    (hbare : ∀ id ∈ others, tree.Bare id)
    (hothers : ∀ id, ∀ above ∈ pending, tree.Begins above id →
      ∃ other ∈ others, tree.Begins other id) : tree.Annotated tokens others where
  bare := hbare
  items := hannotated.items
  objects id comment properties hobject :=
    (hannotated.objects id comment properties hobject).reopen (hothers id)

theorem Annotated.of_mem_iff (hannotated : tree.Annotated tokens pending)
    (hothers : ∀ id, id ∈ pending ↔ id ∈ others) : tree.Annotated tokens others := by
  apply hannotated.reopen
  · exact fun id hid => hannotated.bare id ((hothers id).mpr hid)
  · exact fun _ above habove hbegins => ⟨above, (hothers above).mp habove, hbegins⟩

/-- An open node that begins with another takes its place. -/
theorem Annotated.of_begins (hannotated : tree.Annotated tokens (first :: pending))
    (hbegins : tree.Begins id first) : tree.Annotated tokens (id :: pending) := by
  obtain ⟨hfirst, hpending⟩ := List.forall_mem_cons.mp hannotated.bare
  apply hannotated.reopen
  · exact List.forall_mem_cons.mpr ⟨hfirst.of_begins hbegins, hpending⟩
  · intro object above habove hbegun
    rcases List.mem_cons.mp habove with rfl | habove
    · exact ⟨id, List.mem_cons_self, hbegins.trans hbegun⟩
    · exact ⟨above, List.mem_cons_of_mem _ habove, hbegun⟩

/-- A bare node may be left open. -/
theorem Annotated.cons (hannotated : tree.Annotated tokens pending) (hbare : tree.Bare id) :
    tree.Annotated tokens (id :: pending) := by
  apply hannotated.reopen
  · exact List.forall_mem_cons.mpr ⟨hbare, hannotated.bare⟩
  · exact fun _ above habove hbegins => ⟨above, List.mem_cons_of_mem _ habove, hbegins⟩

/-- A new list settles its items. -/
theorem Explains.insert (hid : id ≤ tree.size)
    (hexplains : tree.Explains tokens (shape.items ++ pending) id comment) :
    (tree.insert shape span).2.Explains tokens pending id comment := by
  obtain ⟨before, brace, later, hwhole, hbrace, hstart, hwhy⟩ := hexplains
  have hpart := partOf_insert tree shape span
  rw [← span_insert_of_le tree shape span hid] at hstart
  refine ⟨before, brace, later, hwhole, hbrace, hstart, hwhy.imp_right ?_⟩
  rintro (hopens | ⟨above, habove, hbegins⟩)
  · exact .inl (hopens.partOf hpart)
  · rcases List.mem_append.mp habove with hitem | habove
    · refine .inl ⟨tree.size + 1, shape, above, ?_, hitem, hbegins.partOf hpart⟩
      exact shape?_insert_self tree shape span
    · exact .inr ⟨above, habove, hbegins.partOf hpart⟩

/-- A node is added, which may be left open if it is bare. -/
theorem Annotated.insert {opened : List NodeId}
    (hannotated : tree.Annotated tokens (shape.items ++ pending))
    (hopened : ∀ id ∈ opened, (tree.insert shape span).2.Bare id)
    (hobject : ∀ comment properties, shape = .object comment properties →
      (tree.insert shape span).2.Explains tokens (opened ++ pending) (tree.size + 1) comment) :
    (tree.insert shape span).2.Annotated tokens (opened ++ pending) where
  bare id hid := by
    rcases List.mem_append.mp hid with hid | hid
    · exact hopened id hid
    · exact (hannotated.bare id (List.mem_append_right _ hid)).partOf (partOf_insert _ _ _)
  items id found hfound item hitem := by
    rcases shape?_insert_cases hfound with hfound | ⟨-, rfl⟩
    · exact (hannotated.items id found hfound item hitem).partOf (partOf_insert _ _ _)
    · exact (hannotated.bare item (List.mem_append_left _ hitem)).partOf (partOf_insert _ _ _)
  objects id comment properties hfound := by
    rcases shape?_insert_cases hfound with hfound | ⟨rfl, rfl⟩
    · obtain ⟨node, hnode, -⟩ := Option.map_eq_some_iff.mp hfound
      have hexplains : (tree.insert shape span).2.Explains tokens pending id comment :=
        (hannotated.objects id comment properties hfound).insert (le_size_of_find?_eq_some hnode)
      exact hexplains.reopen fun above habove hbegins =>
        ⟨above, List.mem_append_right opened habove, hbegins⟩
    · exact hobject comment properties rfl

/-- A node is added that is no object. -/
theorem Annotated.insert_of_ne (hannotated : tree.Annotated tokens (shape.items ++ pending))
    (hshape : ∀ comment properties, shape ≠ .object comment properties) :
    (tree.insert shape span).2.Annotated tokens pending :=
  Annotated.insert hannotated (List.forall_mem_nil _) fun comment properties hobject =>
    absurd hobject (hshape comment properties)

end Tree

/-- Objects keep the comments directly before them.  An expression may begin behind a token that is
no comment, and at one that is neither a comment nor a brace. -/
def Law.annotations (whole : List Token) : Law where
  holds pending session :=
    session.cursor.pending <:+ whole ∧ session.tree.Annotated whole pending
  ready session :=
    (∃ before token, whole = before ++ token :: session.cursor.pending ∧
      token.isComment = false) ∨
    session.cursor.current.isComment = false ∧
      session.cursor.current.isPunctuation "\x7b" = false
  holds_of_mem_iff hothers := And.imp_right fun hannotated => hannotated.of_mem_iff hothers
  holds_move hcursor := And.imp_left hcursor.trans
  holds_grown {pending session draft} hplain := by
    refine And.imp_right fun hannotated => hannotated.insert_of_ne ?_
    intro comment properties hobject
    rw [hobject] at hplain
    cases hplain
  holds_of_begins hbegins := And.imp_right fun hannotated => hannotated.of_begins hbegins
  ready_passed {pending session} hword hsession := by
    obtain ⟨before, hbefore⟩ := hsession.1
    refine .inl ⟨before, session.cursor.current, ?_, Token.isComment_of_isWord hword⟩
    rw [← hbefore, Cursor.pending_eq_cons (Token.isEnd_of_isWord hword)]
    rfl
  ready_of_isWord hword hbrace := .inr ⟨Token.isComment_of_isWord hword, hbrace⟩

/-- The readers of a grammar let objects keep the comments directly before them. -/
structure Grammar.Annotating (grammar : Grammar) (whole : List Token) : Prop extends
    grammar.Lawful (.annotations whole) where
  suffixes (target : NodeId) (calls : Bool) {session : Session} :
    (Law.annotations whole).Extends (grammar.suffixes target calls) target session

theorem Grammar.exhausted_annotating (semicolons : Semicolons) (whole : List Token) :
    (Grammar.exhausted semicolons).Annotating whole where
  toLawful := Grammar.exhausted_lawful semicolons
  suffixes _ _ _ _ _ _ := trivial

namespace Production

variable {grammar : Grammar} {session : Session} {start : Tree} {pending : List NodeId}
variable {whole : List Token} {entry : Entry}

/-- A new node that begins with the target, with what follows it. -/
theorem add_suffixes_extends (hgrammar : grammar.Annotating whole) {draft : Draft}
    {target : NodeId} {calls : Bool}
    (hgrown : (Law.annotations whole).Upheld start pending (session.grown draft))
    (hleading : draft.shape.leading? = some target) :
    (add draft >>= fun id => grammar.suffixes id calls).Meets session
      (fun id after => (Law.annotations whole).Upheld start pending after ∧
        after.tree.Begins id target) Anyhow := by
  apply meets_bind_add.mpr
  apply (hgrammar.suffixes _ calls (.refl hgrown.holds)).mono _ fun _ => id
  rintro id after ⟨hafter, hbegins⟩
  have hadded := Tree.shape?_insert_self session.tree draft.shape (draft.span session.tree)
  exact ⟨hgrown.trans hafter, hbegins.tail ⟨_, hafter.partOf _ _ hadded, hleading⟩⟩

theorem suffixes_annotate (hgrammar : grammar.Annotating whole) (target : NodeId) (calls : Bool) :
    (Law.annotations whole).Extends (suffixes grammar target calls) target session := by
  intro start pending hsession
  unfold suffixes
  rw [meets_bind_current]
  split
  · apply meets_bind_advance.mpr
    apply (Law.keeps_expect hsession.passed).bind
    intro name named hnamed
    apply meets_bind_add.mpr
    have hmember := hnamed.grown (.leaf .name name.asName) rfl
    exact add_suffixes_extends hgrammar (hmember.grown _ rfl) rfl
  · split
    · rename_i hbracket
      have hready : (Law.annotations whole).ready session.passed :=
        (Law.annotations whole).ready_passed (Token.isWord_of_isPunctuation hbracket) hsession.holds
      apply meets_bind_advance.mpr
      apply ((hgrammar.expression true).prompt hready hsession.passed).bind
      intro index read hread
      apply (Law.keeps_expect hread).bind
      intro last closed hclosed
      exact add_suffixes_extends hgrammar (hclosed.grown _ rfl) rfl
    · split
      · apply meets_bind_advance.mpr
        apply (hgrammar.items ")" hsession.passed).bind
        intro items read hread
        apply meets_bind_advance.mpr
        have hgrown : (Law.annotations whole).Upheld start pending
            (read.passed.grown (.application target items read.cursor.current)) :=
          hread.passed.partOf_grown
            ⟨hread.passed.holds.1, hread.passed.holds.2.insert_of_ne nofun⟩
        exact add_suffixes_extends hgrammar hgrown rfl
      · split
        · apply meets_bind_advance.mpr
          apply meets_add.mpr
          exact ⟨hsession.passed.grown _ rfl, .single ⟨_, Tree.shape?_insert_self _ _ _, rfl⟩⟩
        · exact ⟨hsession, .refl⟩

/-! ## Objects -/

theorem Cursor.comment?_eq_none {cursor : Cursor} (hcurrent : cursor.current.isComment = false) :
    cursor.comment? = none := by
  unfold Cursor.comment?
  cases hpending : cursor.pending with
  | nil => rfl
  | cons token tokens =>
      rw [Cursor.current, hpending] at hcurrent
      rw [List.takeWhile_cons_of_neg (by simpa using hcurrent)]
      rfl

/-- The brace of an object behind the comments at the cursor, if the object begins where an
expression may. -/
theorem trailingComment?_of_ready (hready : (Law.annotations whole).ready session)
    (hbrace : session.uncommented.cursor.current.isPunctuation "\x7b" = true) :
    ∃ before, whole = before ++ session.uncommented.cursor.pending ∧
      session.cursor.comment? = Token.trailingComment? before := by
  have hsplit : session.cursor.pending.takeWhile Token.isComment ++
      session.uncommented.cursor.pending = session.cursor.pending :=
    List.takeWhile_append_dropWhile
  rcases hready with ⟨before, token, hwhole, htoken⟩ | ⟨hcomment, hother⟩
  · refine ⟨before ++ token :: session.cursor.pending.takeWhile Token.isComment, ?_, ?_⟩
    · rw [hwhole, List.append_assoc, List.cons_append, hsplit]
    · rw [Token.trailingComment?_append htoken fun comment hmem =>
        List.mem_takeWhile_imp hmem]
      rfl
  · rw [Session.uncommented, Cursor.skipComments_eq hcomment, hother] at hbrace
    cases hbrace

theorem object_annotates (hgrammar : grammar.Lawful (.annotations whole))
    (hentry : Entry.Admits (.annotations whole) session entry)
    (hsession : (Law.annotations whole).Upheld start pending session)
    (hbrace : session.uncommented.cursor.current.isPunctuation "\x7b" = true) :
    (object grammar session.cursor.comment?).Meets session.uncommented
      (fun id after => (Law.annotations whole).Upheld start (entry.leaves id ++ pending) after)
      Anyhow := by
  apply meets_bind_advance.mpr
  apply (hgrammar.properties hsession.uncommented.passed).bind
  intro properties read hread
  apply meets_bind_advance.mpr
  apply meets_add.mpr
  have hpending := Cursor.pending_eq_cons (Token.isEnd_of_isWord
    (Token.isWord_of_isPunctuation hbrace))
  have hobject := Tree.shape?_insert_self read.tree (.object session.cursor.comment? properties)
    (.between session.uncommented.cursor.current.span read.cursor.current.span)
  have hstart := congrArg Span.start (Tree.span_insert_self read.tree
    (.object session.cursor.comment? properties)
    (.between session.uncommented.cursor.current.span read.cursor.current.span))
  refine hread.passed.partOf_grown
    ⟨hread.passed.holds.1, Tree.Annotated.insert hread.holds.2 ?_ ?_⟩
  · -- Where the object is left open, no comment was there to be kept.
    cases entry with
    | prompt => simp [Entry.leaves]
    | late =>
        intro id hid
        obtain rfl := List.mem_singleton.mp hid
        refine .here hobject ?_
        simp [Shape.isBare, Shape.leading?, Shape.comment?, Cursor.comment?_eq_none hentry]
  · rintro _ _ ⟨⟩
    cases entry with
    | prompt =>
        obtain ⟨before, hwhole, hcomment⟩ := trailingComment?_of_ready hentry hbrace
        rw [hpending] at hwhole
        exact ⟨before, _, _, hwhole, hbrace, hstart, .inl hcomment⟩
    | late =>
        obtain ⟨before, hwhole⟩ := hsession.uncommented.holds.1
        rw [hpending] at hwhole
        exact ⟨before, _, _, hwhole.symm, hbrace, hstart,
          .inr (.inr ⟨_, List.mem_cons_self, .refl⟩)⟩

/-! ## Operands -/

/-- What follows the target, which may have been left open. -/
theorem suffixes_leaves (hgrammar : grammar.Annotating whole) {target : NodeId} {calls : Bool}
    (hsession : (Law.annotations whole).Upheld start (entry.leaves target ++ pending) session) :
    (grammar.suffixes target calls).Meets session
      (fun id after => (Law.annotations whole).Upheld start (entry.leaves id ++ pending) after)
      Anyhow :=
  (hgrammar.suffixes target calls hsession).mono (fun _ _ hafter => hafter.1.leaves hafter.2)
    fun _ => id

/-- A bare node may be left open whether an expression may begin there or not. -/
theorem leaves_of_bare {id : NodeId}
    (hsession : (Law.annotations whole).Upheld start pending session)
    (hbare : session.tree.Bare id) :
    (Law.annotations whole).Upheld start (entry.leaves id ++ pending) session := by
  cases entry with
  | prompt => exact hsession
  | late =>
      obtain ⟨hsuffix, hannotated⟩ := hsession.holds
      exact ⟨⟨hsuffix, hannotated.cons hbare⟩, hsession.partOf⟩

/-- An operand that begins with a token of its own and keeps no comment, with what follows it. -/
theorem suffixed_annotates (hgrammar : grammar.Annotating whole) {reader : Parse NodeId}
    {calls : Bool} (hkeeps : (Law.annotations whole).Keeps reader session)
    (hmakes : reader.Makes Shape.isBare)
    (hsession : (Law.annotations whole).Upheld start pending session) :
    (reader >>= fun id => grammar.suffixes id calls).Meets session
      (fun id after => (Law.annotations whole).Upheld start (entry.leaves id ++ pending) after)
      Anyhow := by
  apply ((hkeeps hsession).and (hmakes session)).bind
  rintro target read ⟨hread, shape, hshape, hbare⟩
  exact suffixes_leaves hgrammar (leaves_of_bare hread (.here hshape hbare))

theorem leaf_annotates (hgrammar : grammar.Annotating whole) (kind : Leaf) (token : Token)
    (calls : Bool) (hsession : (Law.annotations whole).Upheld start pending session) :
    (add (.leaf kind token) >>= fun id => grammar.suffixes id calls).Meets session
      (fun id after => (Law.annotations whole).Upheld start (entry.leaves id ++ pending) after)
      Anyhow :=
  suffixed_annotates hgrammar (fun _ _ hsession => Law.meets_add_plain hsession rfl rfl)
    (makes_add rfl) hsession

theorem newObject_annotates (hgrammar : grammar.Annotating whole)
    (hfirst : session.cursor.current.isOperator "new" = true)
    (hsession : (Law.annotations whole).Upheld start pending session) :
    (newObject grammar).Meets session
      (fun id after => (Law.annotations whole).Upheld start (entry.leaves id ++ pending) after)
      Anyhow := by
  have hready := (Law.annotations whole).ready_passed (Token.isWord_of_isOperator hfirst)
    hsession.holds
  apply meets_bind_advance.mpr
  apply ((hgrammar.operand false).prompt hready hsession.passed).bind
  intro callee read hread
  have hadded : ∀ (arguments : Option NodeId) (after : Session),
      (Law.annotations whole).Upheld start pending after →
      (do
        let id ← add (.newObject session.cursor.current callee arguments)
        grammar.suffixes id true).Meets after
        (fun id final => (Law.annotations whole).Upheld start (entry.leaves id ++ pending) final)
        Anyhow := by
    intro arguments after hafter
    apply meets_bind_add.mpr
    have hobject := Tree.shape?_insert_self after.tree (.newObject callee arguments)
      ((Draft.newObject session.cursor.current callee arguments).span after.tree)
    have hgrown : (Law.annotations whole).Upheld start pending
        (after.grown (.newObject session.cursor.current callee arguments)) :=
      hafter.partOf_grown ⟨hafter.holds.1, hafter.holds.2.insert_of_ne nofun⟩
    exact suffixes_leaves hgrammar (leaves_of_bare hgrown (.here hobject rfl))
  rw [meets_bind_current]
  split
  · apply (arguments_keeps hgrammar.toLawful hread).bind
    intro arguments after hafter
    exact hadded (some arguments) after hafter
  · exact hadded none read hread

theorem operand_annotates (hgrammar : grammar.Annotating whole) (calls : Bool)
    (session : Session) : (Law.annotations whole).Reads (operand grammar calls) session := by
  intro entry start pending hentry hsession
  have hlawful := hgrammar.toLawful
  have hstart := hsession.uncommented
  apply meets_bind_eatComments.mpr
  rw [meets_bind_current]
  have hopens := OperandStart.of_opens session.uncommented.cursor.current
  cases hof : OperandStart.of session.uncommented.cursor.current
  all_goals rw [hof] at hopens
  case newObject => exact newObject_annotates hgrammar hopens hstart
  case unary =>
    have hready := (Law.annotations whole).ready_passed (Token.isWord_of_isPrefix hopens)
      hstart.holds
    apply meets_bind_advance.mpr
    apply ((hgrammar.operand calls).prompt hready hstart.passed).bind
    intro inner after hafter
    apply meets_add.mpr
    exact leaves_of_bare (hafter.grown _ rfl) (.here (Tree.shape?_insert_self _ _ _) rfl)
  case function =>
    have hmakes : (function grammar .literal).Makes Shape.isBare := function_makes fun _ _ _ => rfl
    exact suffixed_annotates hgrammar (function_keeps hlawful .literal) hmakes hstart
  case valueKeyword =>
    apply meets_bind_advance.mpr
    exact leaf_annotates hgrammar _ _ calls hstart.passed
  case leaf =>
    apply meets_bind_advance.mpr
    exact leaf_annotates hgrammar _ _ calls hstart.passed
  case parenthesis =>
    have hmakes : (parenthesized grammar).Makes Shape.isBare := parenthesized_makes fun _ => rfl
    exact suffixed_annotates hgrammar (parenthesized_keeps hlawful) hmakes hstart
  case bracket =>
    have hmakes : (array grammar).Makes Shape.isBare := array_makes fun _ => rfl
    exact suffixed_annotates hgrammar (array_keeps hlawful) hmakes hstart
  case brace =>
    apply (object_annotates hlawful hentry hsession hopens).bind
    intro target read hread
    exact suffixes_leaves hgrammar hread
  case refused => trivial

end Production

theorem Grammar.Annotating.unfold {grammar : Grammar} {whole : List Token}
    (hgrammar : grammar.Annotating whole) : grammar.unfold.Annotating whole where
  toLawful := hgrammar.toLawful.unfold (Production.operand_annotates hgrammar)
  suffixes target calls _ := Production.suffixes_annotate hgrammar target calls

theorem Grammar.upTo_annotating (semicolons : Semicolons) (whole : List Token) (depth : Nat) :
    (Grammar.upTo semicolons depth).Annotating whole := by
  induction depth with
  | zero => exact exhausted_annotating semicolons whole
  | succ depth ih => exact ih.unfold

/-- Once a program is read nothing is open. -/
theorem annotated_of_parse {semicolons : Semicolons} {tokens : List Token} {tree : Tree}
    (hparse : parse semicolons tokens = .ok tree) :
    tree.Annotated (Cursor.ofTokens tokens).pending [] := by
  have hempty : Tree.empty.Annotated (Cursor.ofTokens tokens).pending [] := by
    refine ⟨by simp, fun id shape hshape => ?_, fun id comment properties hshape => ?_⟩
    all_goals cases id <;> cases hshape
  have hgrammar := Grammar.upTo_annotating semicolons (Cursor.ofTokens tokens).pending
  obtain ⟨final, rfl, hfinal⟩ := Law.holds_of_parse
    (.annotations (Cursor.ofTokens tokens).pending) hparse ⟨List.suffix_rfl, hempty⟩
    (fun depth => (hgrammar depth).toLawful)
    (fun depth => Production.operand_annotates (hgrammar depth) true)
  exact hfinal.2

/-- An object keeps the token directly before its brace, if that is a comment, unless the source of
an item of a list begins with the object: then it keeps none.  In a scanned source the brace is the
only token that starts where the object does. -/
theorem object_keeps_comment_before_brace {semicolons : Semicolons} {tokens : List Token}
    {tree : Tree} (hparse : parse semicolons tokens = .ok tree) (id : NodeId)
    (comment : Option Token) (properties : List NodeId)
    (hobject : tree.shape? id = some (.object comment properties)) :
    ∃ before brace later, tokens = before ++ brace :: later ∧
      brace.isPunctuation "\x7b" = true ∧ (tree.span id).start = brace.span.start ∧
      (∀ source file, byteLength source.toList < UInt32.size → tokenize source file = .ok tokens →
        ∀ other ∈ before ++ later, other.span.start ≠ brace.span.start) ∧
      (tree.OpensItem id → comment = none) ∧
      (¬tree.OpensItem id → comment = Token.trailingComment? before) := by
  have hannotated := annotated_of_parse hparse
  obtain ⟨before, brace, later, hpending, hbrace, hstart, hwhy⟩ :=
    hannotated.objects id comment properties hobject
  obtain ⟨ending, hending⟩ := Cursor.pending_ofTokens_prefix tokens
  have hsplit : tokens = before ++ brace :: (later ++ ending) := by
    rw [← hending, hpending, List.append_assoc, List.cons_append]
  refine ⟨before, brace, later ++ ending, hsplit, hbrace, hstart, ?_, ?_, fun hsettled => ?_⟩
  · intro source file hsource htokens
    rw [hsplit] at htokens
    exact start_ne_of_tokenize hsource htokens
      (Token.isEnd_of_isWord (Token.isWord_of_isPunctuation hbrace))
  · rintro ⟨list, shape, item, hlist, hitem, hbegins⟩
    exact ((hannotated.items list shape hlist item hitem).of_begun hbegins).comment_eq hobject
  · rcases hwhy with hcomment | hopens | ⟨above, habove, -⟩
    · exact hcomment
    · exact absurd hopens hsettled
    · cases habove

/-- A source that is read, and something of its tokens and its tree. -/
theorem exists_tokenize_parse_eq {Value : Type} {semicolons : Semicolons} {source file : String}
    {read : List Token → Tree → Value} {value : Value}
    (hread : ((tokenize source file).toOption.bind fun tokens =>
      (parse semicolons tokens).toOption.map (read tokens)) = some value) :
    ∃ tokens tree, tokenize source file = .ok tokens ∧ parse semicolons tokens = .ok tree ∧
      read tokens tree = value := by
  cases htokens : tokenize source file with
  | error diagnostic =>
      rw [htokens] at hread
      cases hread
  | ok tokens =>
      rw [htokens] at hread
      obtain ⟨tree, hparse, hvalue⟩ := exists_parse_eq hread
      exact ⟨tokens, tree, rfl, hparse, hvalue⟩

/-- The comment behind `=` is kept. -/
theorem object_keeps_comment_before_brace_assigned :
    let source := "x = /* a */ \x7b\x7d;"
    let comment : Token :=
      ⟨.blockComment, "/* a */", ⟨.ofByte "<input>" 4, .ofByte "<input>" 11⟩, false⟩
    ∃ tokens tree, tokenize source "<input>" = .ok tokens ∧ parse .required tokens = .ok tree ∧
      tree.shape? 2 = some (.object (some comment) []) ∧
      ∃ before brace later, tokens = before ++ brace :: later ∧
        brace.isPunctuation "\x7b" = true ∧ (tree.span 2).start = brace.span.start ∧
        (∀ source file, byteLength source.toList < UInt32.size →
          tokenize source file = .ok tokens →
          ∀ other ∈ before ++ later, other.span.start ≠ brace.span.start) ∧
        (tree.OpensItem 2 → some comment = none) ∧
        (¬tree.OpensItem 2 → some comment = Token.trailingComment? before) := by
  intro source comment
  have hread : ((tokenize source "<input>").toOption.bind fun tokens =>
      (parse .required tokens).toOption.map fun tree => tree.shape? 2) =
      some (some (.object (some comment) [])) := by
    decide +kernel
  obtain ⟨tokens, tree, htokens, hparse, hobject⟩ := exists_tokenize_parse_eq hread
  exact ⟨tokens, tree, htokens, hparse, hobject,
    object_keeps_comment_before_brace hparse 2 _ _ hobject⟩

/-- In a list the comment directly before the brace is lost. -/
theorem object_in_list_keeps_no_comment :
    let source := "x = [/* c */ \x7b\x7d];"
    let comment : Token :=
      ⟨.blockComment, "/* c */", ⟨.ofByte "<input>" 5, .ofByte "<input>" 12⟩, false⟩
    let brace : Token :=
      ⟨.punctuation, "\x7b", ⟨.ofByte "<input>" 13, .ofByte "<input>" 14⟩, false⟩
    ∃ tokens tree, tokenize source "<input>" = .ok tokens ∧ parse .required tokens = .ok tree ∧
      tokens[3]? = some comment ∧ comment.isComment = true ∧ tokens[4]? = some brace ∧
      (tree.span 2).start = brace.span.start ∧ tree.shape? 2 = some (.object none []) := by
  intro source comment brace
  have hread : ((tokenize source "<input>").toOption.bind fun tokens =>
      (parse .required tokens).toOption.map fun tree =>
        (tokens[3]?, tokens[4]?, (tree.span 2).start, tree.shape? 2)) =
      some (some comment, some brace, brace.span.start, some (.object none [])) := by
    decide +kernel
  obtain ⟨tokens, tree, htokens, hparse, hfound⟩ := exists_tokenize_parse_eq hread
  simp only [Prod.mk.injEq] at hfound
  obtain ⟨hcomment, hbrace, hstart, hobject⟩ := hfound
  exact ⟨tokens, tree, htokens, hparse, hcomment, rfl, hbrace, hstart, hobject⟩

end ScriptSyntax

import ScriptSyntax.Proofs.Arena
import ScriptSyntax.Proofs.Categories.Reader
import ScriptSyntax.Proofs.Trace.Basic

/-!
# How far constructs reach

A construct covers the tokens from its first to its last, and once it is read the
cursor stands right behind the last one.  Comments are passed before a construct and
inside of it, never behind it, so the tokens that follow a construct are those still to
be passed.  That is where the end of a statement is decided; the decision is kept as a
fact about the place of the statement among the tokens.

A list of tokens to come is a suffix of the list of all tokens, so places are told apart
by what follows them.
-/

namespace ScriptSyntax

/-- A statement whose semicolon is left out may end with the token. -/
def Token.mayEnd (token : Token) : Bool :=
  match token.kind with
  | .identifier | .keyword | .number | .string | .regex => true
  | .operator => token.isPostfix || token.isWordOperator
  | .punctuation => [")", "]", "\x7d"].contains token.value
  | .lineComment | .blockComment | .eof => false

namespace Token

theorem mayEnd_of_isKeyword {token : Token} {word : String}
    (htoken : token.isKeyword word = true) : token.mayEnd = true := by
  rw [mayEnd, ((token.is_iff _ _).mp htoken).1]

theorem mayEnd_of_isPunctuation {token : Token} {mark : String}
    (htoken : token.isPunctuation mark = true)
    (hmark : [")", "]", "\x7d"].contains mark = true) : token.mayEnd = true := by
  obtain ⟨hkind, hvalue⟩ := (token.is_iff _ _).mp htoken
  rw [mayEnd, hkind, hvalue]
  exact hmark

theorem mayEnd_of_isPostfix {token : Token} (htoken : token.isPostfix = true) :
    token.mayEnd = true := by
  have hkind : token.kind = .operator := by
    simp only [isPostfix, Bool.and_eq_true, beq_iff_eq] at htoken
    exact htoken.1
  rw [mayEnd, hkind]
  simp [htoken]

theorem mayEnd_of_isMemberName {token : Token} (htoken : token.isMemberName = true) :
    token.mayEnd = true := by
  cases hkind : token.kind <;>
    simp_all [isMemberName, isWordOperator, mayEnd]

theorem isEnd_of_mayEnd {token : Token} (htoken : token.mayEnd = true) :
    token.isEnd = false := by
  cases hkind : token.kind <;> simp_all [mayEnd, isEnd]

end Token

namespace Span

/-- The span reaches from the start of a token of a list to the end of a later one, which
is in front of other tokens of the list. -/
def Covers (span : Span) (whole later : List Token) (final : Token → Bool) : Prop :=
  ∃ first rest last, first :: rest <:+ whole ∧ last :: later <:+ first :: rest ∧
    final last = true ∧ span.start = first.span.start ∧ span.stop = last.span.stop

variable {span other : Span} {whole longer middle later : List Token}
variable {final finish : Token → Bool}

theorem Covers.mono (hspan : span.Covers whole later final) (hwhole : whole <:+ longer) :
    span.Covers longer later final := by
  obtain ⟨first, rest, last, hfirst, hlast⟩ := hspan
  exact ⟨first, rest, last, hfirst.trans hwhole, hlast⟩

/-- The last token of the span can be pointed at. -/
theorem Covers.exists_last (hspan : span.Covers whole later final) :
    ∃ last, final last = true ∧ last :: later <:+ whole := by
  obtain ⟨first, rest, last, hfirst, hlast, hfinal, -⟩ := hspan
  exact ⟨last, hfinal, hlast.trans hfirst⟩

theorem Covers.suffix (hspan : span.Covers whole later final) : later <:+ whole := by
  obtain ⟨last, -, hlast⟩ := hspan.exists_last
  exact (List.suffix_cons last later).trans hlast

theorem Covers.imp (hspan : span.Covers whole later finish)
    (hfinal : ∀ token, finish token = true → final token = true) :
    span.Covers whole later final := by
  obtain ⟨first, rest, last, hfirst, hlast, hfinish, hends⟩ := hspan
  exact ⟨first, rest, last, hfirst, hlast, hfinal last hfinish, hends⟩

theorem covers_token {token : Token} (htoken : token :: later <:+ whole)
    (hfinal : final token = true) : token.span.Covers whole later final :=
  ⟨token, later, token, htoken, List.suffix_rfl, hfinal, rfl, rfl⟩

/-- From one covered span to a later one. -/
theorem Covers.between (hspan : span.Covers whole middle finish)
    (hother : other.Covers middle later final) : (between span other).Covers whole later final := by
  obtain ⟨first, rest, last, hfirst, hlast, -, hstart, -⟩ := hspan
  obtain ⟨first', rest', last', hfirst', hlast', hfinal, -, hstop⟩ := hother
  refine ⟨first, rest, last', hfirst, ?_, hfinal, hstart, hstop⟩
  exact ((hlast'.trans hfirst').trans (List.suffix_cons last middle)).trans hlast

end Span

/-- Statements that end in a semicolon, written or inserted. -/
def Shape.isTerminated {Ref : Type} : Shape Ref → Bool
  | .debugger | .doWhile _ _ | .returns _ | .throws _ | .varStatement _ | .expression _
  | .jump _ _ => true
  | _ => false

/-- The span of a statement ends in a semicolon, or with a token behind which nothing, or a
closing brace, is the next thing on the line. -/
def Span.Ends (span : Span) (semicolons : Semicolons) (whole : List Token) : Prop :=
  ∃ later, span.Covers whole later (·.isPunctuation ";") ∨
    semicolons = .inserted ∧ span.Covers whole later Token.mayEnd ∧
      (Cursor.firstOnLine? later).all (·.isPunctuation "\x7d") = true

/-- What a loop does before its first round is told by its tokens from the first clause on, behind
`var` if that is there: nothing if they begin with a semicolon, and otherwise declarations behind
`var` and an expression without it. -/
def LoopInit.ToldBy (varToken : Option Token) (clause : List Token) :
    Option (LoopInit NodeId) → Prop
  | none => clause.head?.any (·.isPunctuation ";") = true
  | some (.declarations entries) =>
      clause.head?.any (·.isPunctuation ";") = false ∧ varToken.isSome = true ∧ entries ≠ []
  | some (.expression _) => clause.head?.any (·.isPunctuation ";") = false ∧ varToken = none

/-- The keyword opens a loop whose clauses begin with the given tokens, behind `var` if that is
there. -/
def Token.HeadsLoop (keyword : Token) (whole : List Token) (varToken : Option Token)
    (clause : List Token) : Prop :=
  ∃ opening, keyword :: opening :: (varToken.toList ++ clause) <:+ whole ∧
    keyword.isKeyword "for" = true ∧ opening.isPunctuation "(" = true ∧
      (varToken.toList ++ clause).head?.filter (·.isKeyword "var") = varToken

/-- The span begins with the head of a loop. -/
def Span.BeginsLoop (span : Span) (whole : List Token) (varToken : Option Token)
    (init : Option (LoopInit NodeId)) : Prop :=
  ∃ (keyword : Token) (clause : List Token), keyword.HeadsLoop whole varToken clause ∧
    span.start = keyword.span.start ∧ LoopInit.ToldBy varToken clause init

namespace Shape

/-- What is known of the place of a node among the tokens. -/
structure Placed (semicolons : Semicolons) (whole : List Token) (shape : Shape NodeId)
    (span : Span) : Prop where
  ends : shape.isTerminated = true → span.Ends semicolons whole
  begins : ∀ varToken init test step body, shape = .forLoop varToken init test step body →
    span.BeginsLoop whole varToken init

/-- Something has to be known of the place of a node with the shape. -/
def isPinned {Ref : Type} : Shape Ref → Bool
  | .forLoop _ _ _ _ _ => true
  | shape => shape.isTerminated

variable {shape : Shape NodeId} {span : Span} {semicolons : Semicolons} {whole : List Token}

theorem placed_of_free (hshape : shape.isPinned = false) : shape.Placed semicolons whole span where
  ends hterminated := by cases shape <;> cases hshape <;> cases hterminated
  begins _ _ _ _ _ hloop := by rw [hloop] at hshape; cases hshape

theorem placed_of_begins {varToken : Option Token} {init : Option (LoopInit NodeId)}
    {test step : Option NodeId} {body : NodeId} (hspan : span.BeginsLoop whole varToken init) :
    (Shape.forLoop varToken init test step body).Placed semicolons whole span where
  ends := nofun
  begins _ _ _ _ _ hloop := by cases hloop; exact hspan

theorem placed_of_ends (hshape : shape.isTerminated = true) (hspan : span.Ends semicolons whole) :
    shape.Placed semicolons whole span where
  ends _ := hspan
  begins _ _ _ _ _ hloop := by rw [hloop] at hshape; cases hshape

end Shape

namespace Tree

/-- The statements of a tree end as they should. -/
def Ended (tree : Tree) (semicolons : Semicolons) (whole : List Token) : Prop :=
  ∀ (id : NodeId) shape, tree.shape? id = some shape → shape.isTerminated = true →
    (tree.span id).Ends semicolons whole

/-- The nodes of a tree stand among the tokens as they should. -/
def Placed (tree : Tree) (semicolons : Semicolons) (whole : List Token) : Prop :=
  ∀ (id : NodeId) shape, tree.shape? id = some shape →
    shape.Placed semicolons whole (tree.span id)

/-- The node is in the tree and covers tokens of a list up to others. -/
def StopsAt (tree : Tree) (id : NodeId) (whole later : List Token) : Prop :=
  ∃ node, tree.find? id = some node ∧ node.span.Covers whole later Token.mayEnd

/-- The nodes of one tree are in the other, and at the same place. -/
def StaysIn (before after : Tree) : Prop :=
  ∀ id node, before.find? id = some node →
    ∃ other, after.find? id = some other ∧ other.span = node.span

theorem StaysIn.refl (tree : Tree) : tree.StaysIn tree :=
  fun _ node hnode => ⟨node, hnode, rfl⟩

theorem StaysIn.trans {first second third : Tree} (hfirst : first.StaysIn second)
    (hsecond : second.StaysIn third) : first.StaysIn third := by
  intro id node hnode
  obtain ⟨between, hbetween, hspan⟩ := hfirst id node hnode
  obtain ⟨other, hother, hsame⟩ := hsecond id between hbetween
  exact ⟨other, hother, hsame.trans hspan⟩

theorem staysIn_insert (tree : Tree) (shape : Shape NodeId) (span : Span) :
    tree.StaysIn (tree.insert shape span).2 := by
  intro id node hnode
  rw [find?_insert_of_le tree shape span (le_size_of_find?_eq_some hnode), hnode]
  split
  · exact ⟨_, rfl, rfl⟩
  · exact ⟨node, rfl, rfl⟩

theorem span_eq_of_find? {tree : Tree} {id : NodeId} {node : Node}
    (hnode : tree.find? id = some node) : tree.span id = node.span := by
  rw [span, hnode]
  rfl

theorem Placed.insert {tree : Tree} {semicolons : Semicolons} {whole : List Token}
    (hplaced : tree.Placed semicolons whole) {shape : Shape NodeId} {span : Span}
    (hshape : shape.Placed semicolons whole span) :
    (tree.insert shape span).2.Placed semicolons whole := by
  intro id found hfound
  obtain ⟨node, hnode, -⟩ := Option.map_eq_some_iff.mp hfound
  have hid := le_size_of_find?_eq_some hnode
  rw [size_insert] at hid
  rcases Nat.lt_or_eq_of_le hid with hlt | rfl
  · have hold := Nat.le_of_lt_succ hlt
    rw [shape?_insert_of_le tree shape span hold] at hfound
    rw [span_insert_of_le tree shape span hold]
    exact hplaced id found hfound
  · rw [shape?_insert_self] at hfound
    cases hfound
    rw [span_insert_self]
    exact hshape

variable {tree after : Tree} {id : NodeId} {whole longer later : List Token}

theorem StopsAt.mono (hstops : tree.StopsAt id whole later) (hwhole : whole <:+ longer) :
    tree.StopsAt id longer later := by
  obtain ⟨node, hnode, hspan⟩ := hstops
  exact ⟨node, hnode, hspan.mono hwhole⟩

theorem StopsAt.stays (hstops : tree.StopsAt id whole later) (hstays : tree.StaysIn after) :
    after.StopsAt id whole later := by
  obtain ⟨node, hnode, hspan⟩ := hstops
  obtain ⟨other, hother, hsame⟩ := hstays id node hnode
  exact ⟨other, hother, by rwa [hsame]⟩

theorem StopsAt.covers (hstops : tree.StopsAt id whole later) :
    ((Edge.node id).span tree).Covers whole later Token.mayEnd := by
  obtain ⟨node, hnode, hspan⟩ := hstops
  change (tree.span id).Covers whole later Token.mayEnd
  rwa [span_eq_of_find? hnode]

theorem stopsAt_add {draft : Draft} (hdraft : (draft.span tree).Covers whole later Token.mayEnd) :
    (tree.add draft).2.StopsAt (tree.size + 1) whole later :=
  ⟨_, find?_insert_self tree draft.shape (draft.span tree), hdraft⟩

end Tree

/-- A word is the first of the tokens to come if the cursor stands on it. -/
theorem Cursor.any_head?_pending {test : Token → Bool}
    (htest : ∀ token, test token = true → token.isWord = true) (cursor : Cursor) :
    cursor.pending.head?.any test = test cursor.current := by
  cases hend : cursor.current.isEnd with
  | false =>
      rw [pending_eq_cons hend]
      rfl
  | true =>
      have hcurrent : test cursor.current = false := by
        rw [← Bool.not_eq_true]
        intro hword
        rw [Token.isEnd_of_isWord (htest _ hword)] at hend
        cases hend
      cases hpending : cursor.pending with
      | nil => exact hcurrent.symm
      | cons token tokens =>
          rw [current, hpending]
          rfl

theorem Session.covers_current (session : Session) {final : Token → Bool}
    (hcurrent : session.cursor.current.isEnd = false)
    (hfinal : final session.cursor.current = true) :
    session.cursor.current.span.Covers session.cursor.pending session.passed.cursor.pending
      final := by
  rw [Cursor.pending_eq_cons hcurrent]
  exact Span.covers_token List.suffix_rfl hfinal

theorem Session.covers_first (session : Session)
    (hcurrent : session.cursor.current.isEnd = false) :
    session.cursor.current.span.Covers session.cursor.pending session.passed.cursor.pending
      fun _ => true :=
  session.covers_current hcurrent rfl

theorem Session.covers_closing (session : Session) {mark : String}
    (hcurrent : session.cursor.current.isPunctuation mark = true)
    (hmark : [")", "]", "\x7d"].contains mark = true) :
    session.cursor.current.span.Covers session.cursor.pending session.passed.cursor.pending
      Token.mayEnd :=
  session.covers_current (Token.isEnd_of_isWord (Token.isWord_of_isPunctuation hcurrent))
    (Token.mayEnd_of_isPunctuation hcurrent hmark)

/-- A session comes after another one: tokens were passed, nodes were added, and nodes stand
as they should if they did so before. -/
structure Session.Onward (semicolons : Semicolons) (whole : List Token)
    (before after : Session) : Prop where
  inside : before.cursor.pending <:+ whole
  suffix : after.cursor.pending <:+ before.cursor.pending
  stays : before.tree.StaysIn after.tree
  placed : before.tree.Placed semicolons whole → after.tree.Placed semicolons whole

namespace Session.Onward

variable {semicolons : Semicolons} {whole : List Token} {first session after : Session}

theorem refl (hsession : session.cursor.pending <:+ whole) :
    session.Onward semicolons whole session :=
  ⟨hsession, List.suffix_rfl, .refl _, id⟩

theorem trans (hfirst : first.Onward semicolons whole session)
    (hsecond : session.Onward semicolons whole after) : first.Onward semicolons whole after :=
  ⟨hfirst.inside, hsecond.suffix.trans hfirst.suffix, hfirst.stays.trans hsecond.stays,
    fun hplaced => hsecond.placed (hfirst.placed hplaced)⟩

theorem within (honward : first.Onward semicolons whole session) :
    session.cursor.pending <:+ whole :=
  honward.suffix.trans honward.inside

/-- Only the cursor moves. -/
theorem move (honward : first.Onward semicolons whole session) {cursor : Cursor}
    (hcursor : cursor.pending <:+ session.cursor.pending) :
    first.Onward semicolons whole ⟨cursor, session.tree⟩ :=
  ⟨honward.inside, hcursor.trans honward.suffix, honward.stays, honward.placed⟩

theorem passed (honward : first.Onward semicolons whole session) :
    first.Onward semicolons whole session.passed :=
  honward.move (List.tail_suffix _)

theorem uncommented (honward : first.Onward semicolons whole session) :
    first.Onward semicolons whole session.uncommented :=
  honward.move (List.dropWhile_suffix _)

/-- A node is added that stands as it should. -/
theorem grown (honward : first.Onward semicolons whole session) {draft : Draft}
    (hdraft : draft.shape.Placed semicolons whole (draft.span session.tree)) :
    first.Onward semicolons whole (session.grown draft) :=
  ⟨honward.inside, honward.suffix, honward.stays.trans (Tree.staysIn_insert _ _ _),
    fun hplaced => (honward.placed hplaced).insert hdraft⟩

end Session.Onward

namespace Parse

variable {Result Other : Type}

/-- From the given session the reader goes on. -/
def GoesOn (semicolons : Semicolons) (whole : List Token) (reader : Parse Result)
    (session : Session) : Prop :=
  session.cursor.pending <:+ whole → reader.Meets session
    (fun _ after => session.Onward semicolons whole after) Anyhow

/-- From the given session the reader goes on, and it stops at a token with a
property. -/
def GoesOnTo (semicolons : Semicolons) (whole : List Token) (reader : Parse Result)
    (session : Session) (stop : Token → Bool) : Prop :=
  session.cursor.pending <:+ whole → reader.Meets session
    (fun _ after => session.Onward semicolons whole after ∧ stop after.cursor.current = true)
    Anyhow

/-- From the given session the reader goes on and stops right behind the construct that it
has read. -/
def Stops (semicolons : Semicolons) (whole : List Token) (reader : Parse NodeId)
    (session : Session) : Prop :=
  session.cursor.pending <:+ whole → reader.Meets session
    (fun id after => session.Onward semicolons whole after ∧
      after.tree.StopsAt id session.cursor.pending after.cursor.pending)
    Anyhow

/-- The reader continues a construct: it starts right behind the construct and stops right
behind what it has made of it. -/
def Extends (semicolons : Semicolons) (whole : List Token) (reader : Parse NodeId)
    (target : NodeId) (session : Session) : Prop :=
  ∀ tokens : List Token, session.cursor.pending <:+ whole →
    session.tree.StopsAt target tokens session.cursor.pending → reader.Meets session
    (fun id after => session.Onward semicolons whole after ∧
      after.tree.StopsAt id tokens after.cursor.pending)
    Anyhow

variable {semicolons : Semicolons} {whole tokens : List Token} {start session : Session}
variable {success : Result → Session → Prop}

theorem GoesOn.andThen {reader : Parse Other} {next : Other → Parse Result}
    (hreader : reader.GoesOn semicolons whole session)
    (hdone : start.Onward semicolons whole session)
    (hnext : ∀ value after, start.Onward semicolons whole after →
      session.Onward semicolons whole after → (next value).Meets after success Anyhow) :
    (reader >>= next).Meets session success Anyhow :=
  (hreader hdone.within).bind fun value after hafter =>
    hnext value after (hdone.trans hafter) hafter

theorem GoesOnTo.andThen {reader : Parse Other} {stop : Token → Bool}
    {next : Other → Parse Result} (hreader : reader.GoesOnTo semicolons whole session stop)
    (hdone : start.Onward semicolons whole session)
    (hnext : ∀ value after, start.Onward semicolons whole after →
      session.Onward semicolons whole after → stop after.cursor.current = true →
      (next value).Meets after success Anyhow) :
    (reader >>= next).Meets session success Anyhow :=
  (hreader hdone.within).bind fun value after hafter =>
    hnext value after (hdone.trans hafter.1) hafter.1 hafter.2

theorem Stops.andThen {reader : Parse NodeId} {next : NodeId → Parse Result}
    (hreader : reader.Stops semicolons whole session)
    (hdone : start.Onward semicolons whole session)
    (hnext : ∀ id after, start.Onward semicolons whole after →
      session.Onward semicolons whole after →
      after.tree.StopsAt id session.cursor.pending after.cursor.pending →
      (next id).Meets after success Anyhow) :
    (reader >>= next).Meets session success Anyhow :=
  (hreader hdone.within).bind fun id after hafter =>
    hnext id after (hdone.trans hafter.1) hafter.1 hafter.2

theorem Extends.andThen {reader : Parse NodeId} {target : NodeId} {next : NodeId → Parse Result}
    (hreader : reader.Extends semicolons whole target session)
    (hdone : start.Onward semicolons whole session)
    (htarget : session.tree.StopsAt target tokens session.cursor.pending)
    (hnext : ∀ id after, start.Onward semicolons whole after →
      session.Onward semicolons whole after →
      after.tree.StopsAt id tokens after.cursor.pending →
      (next id).Meets after success Anyhow) :
    (reader >>= next).Meets session success Anyhow :=
  (hreader tokens hdone.within htarget).bind fun id after hafter =>
    hnext id after (hdone.trans hafter.1) hafter.1 hafter.2

/-- A reader in the last place, from where the construct may already have begun. -/
theorem Stops.meets {reader : Parse NodeId}
    (hreader : reader.Stops semicolons whole session)
    (hdone : start.Onward semicolons whole session) :
    reader.Meets session (fun id after => start.Onward semicolons whole after ∧
      after.tree.StopsAt id start.cursor.pending after.cursor.pending) Anyhow := by
  apply Meets.mono (hreader hdone.within)
  · intro id after hafter
    exact ⟨hdone.trans hafter.1, hafter.2.mono hdone.suffix⟩
  · exact fun _ hfailed => hfailed

/-- A continuation in the last place. -/
theorem Extends.meets {reader : Parse NodeId} {target : NodeId}
    (hreader : reader.Extends semicolons whole target session)
    (hdone : start.Onward semicolons whole session)
    (htarget : session.tree.StopsAt target tokens session.cursor.pending) :
    reader.Meets session (fun id after => start.Onward semicolons whole after ∧
      after.tree.StopsAt id tokens after.cursor.pending) Anyhow := by
  apply Meets.mono (hreader tokens hdone.within htarget)
  · intro id after hafter
    exact ⟨hdone.trans hafter.1, hafter.2⟩
  · exact fun _ hfailed => hfailed

theorem Stops.goesOn {reader : Parse NodeId}
    (hreader : reader.Stops semicolons whole session) :
    reader.GoesOn semicolons whole session := by
  intro hsession
  apply Meets.mono (hreader hsession)
  · intro id after hafter
    exact hafter.1
  · exact fun _ hfailed => hfailed

theorem meets_bind_expect_of_onward {test : Token → Bool} {reason : Reason}
    {next : Token → Parse Result} (hdone : start.Onward semicolons whole session)
    (htest : ∀ token, test token = true → token.isWord = true)
    (hnext : ∀ token after, start.Onward semicolons whole after →
      token.span.Covers session.cursor.pending after.cursor.pending test →
      (next token).Meets after success Anyhow) :
    (expect test reason >>= next).Meets session success Anyhow := by
  have hexpect : (expect test reason).Meets session
      (fun token after => start.Onward semicolons whole after ∧
        token.span.Covers session.cursor.pending after.cursor.pending test) Anyhow := by
    rw [meets_expect]
    split
    · rename_i hcurrent
      have hword := Token.isEnd_of_isWord (htest _ hcurrent)
      exact ⟨hdone.passed, session.covers_current hword hcurrent⟩
    · trivial
  exact hexpect.bind fun token after hafter =>
    hnext token after hafter.1 hafter.2

theorem meets_bind_expectPunctuation_of_onward {mark : String} {next : Token → Parse Result}
    (hdone : start.Onward semicolons whole session)
    (hnext : ∀ token after, start.Onward semicolons whole after →
      token.span.Covers session.cursor.pending after.cursor.pending (·.isPunctuation mark) →
      (next token).Meets after success Anyhow) :
    (expectPunctuation mark >>= next).Meets session success Anyhow :=
  meets_bind_expect_of_onward hdone (fun _ => Token.isWord_of_isPunctuation) hnext

theorem accept?_goesOn (test : Token → Bool) :
    (accept? test).GoesOn semicolons whole session := by
  intro hsession
  have hdone : session.Onward semicolons whole session := .refl hsession
  rw [meets_accept?]
  split
  · exact hdone.passed
  · exact hdone

theorem separator_goesOn (closing : String) :
    (Production.separator closing).GoesOn semicolons whole session := by
  intro hsession
  have hdone : session.Onward semicolons whole session := .refl hsession
  unfold Production.separator
  rw [meets_bind_current]
  split
  · exact hdone.passed
  · split
    · trivial
    · exact hdone

theorem readUnless_goesOn {reader : Parse Result} {test : Token → Bool}
    (hreader : reader.GoesOn semicolons whole session) :
    (readUnless test reader).GoesOn semicolons whole session := by
  intro hsession
  have hdone : session.Onward semicolons whole session := .refl hsession
  unfold Parse.readUnless
  rw [meets_bind_current]
  split
  · exact hdone
  · apply hreader.andThen hdone
    intro value after hafter _
    exact hafter

theorem readAfter?_goesOn {reader : Parse Result} {test : Token → Bool}
    (hreader : reader.GoesOn semicolons whole session.passed) :
    (readAfter? test reader).GoesOn semicolons whole session := by
  intro hsession
  have hdone : session.Onward semicolons whole session := .refl hsession
  unfold Parse.readAfter?
  rw [meets_bind_current]
  split
  · rw [meets_bind_advance]
    apply hreader.andThen hdone.passed
    intro value after hafter _
    exact hafter
  · exact hdone

/-- Adding a node whose place is free. -/
theorem meets_add_of_onward {draft : Draft} (hdone : start.Onward semicolons whole session)
    (hdraft : draft.shape.isPinned = false)
    (hspan : (draft.span session.tree).Covers tokens session.cursor.pending Token.mayEnd) :
    (add draft).Meets session
      (fun id after => start.Onward semicolons whole after ∧
        after.tree.StopsAt id tokens after.cursor.pending)
      Anyhow := by
  rw [meets_add]
  exact ⟨hdone.grown (Shape.placed_of_free hdraft), Tree.stopsAt_add hspan⟩

theorem meets_bind_add_of_onward {draft : Draft} {next : NodeId → Parse Result}
    (hdone : start.Onward semicolons whole session)
    (hdraft : draft.shape.isPinned = false)
    (hspan : (draft.span session.tree).Covers tokens session.cursor.pending Token.mayEnd)
    (hnext : ∀ id after, start.Onward semicolons whole after →
      session.Onward semicolons whole after →
      after.tree.StopsAt id tokens after.cursor.pending →
      (next id).Meets after success Anyhow) :
    (add draft >>= next).Meets session success Anyhow :=
  (meets_add_of_onward (.refl hdone.within) hdraft hspan).bind fun id after hafter =>
    hnext id after (hdone.trans hafter.1) hafter.1 hafter.2

end Parse

end ScriptSyntax

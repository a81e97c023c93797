import ScriptSyntax.Proofs.Parallel.Tokenwise
import ScriptSyntax.Proofs.RoundTrip.Canonical
import ScriptSyntax.Proofs.Semicolons

/-!
# In front of other tokens

Where semicolons have to be written, a program is read in the same way in front of the
tokens of another program.  No statement that is read reaches beyond its own tokens: it ends
with a token of its own, and the first token of a program never continues a statement.
-/

namespace ScriptSyntax

open Parse

/-- Only equal tokens are alike, and trees are compared as they are. -/
def Likeness.exact : Likeness where
  view := .exact
  twin token other := token = other
  failure diagnostic other := diagnostic = other
  signal htwin := congrArg _ htwin
  place htwin := congrArg Token.span htwin
  keep htwin _ := htwin
  keep_asName htwin _ := congrArg Token.asName htwin
  unexpected reason htwin := congrArg (Token.unexpected · reason) htwin

namespace Cursor

variable {front behind : List Token} {ending : Token} {first second : Cursor}

/-- The second cursor has more tokens behind those of the first one. -/
structure Fronts (front behind : List Token) (ending : Token) (first second : Cursor) :
    Prop where
  inside : first.pending <:+ front
  pending : second.pending = first.pending ++ behind
  last : second.last = ending

theorem isEnd_of_pending_nil (hpending : first.pending = []) : first.current.isEnd = true := by
  rw [Token.isEnd, current_kind_of_pending_nil hpending]
  rfl

theorem Fronts.current (hfronts : Fronts front behind ending first second) :
    first.pending = [] ∨ first.current = second.current := by
  rw [Cursor.current, Cursor.current, hfronts.pending]
  cases first.pending with
  | nil => exact .inl rfl
  | cons token tokens => exact .inr rfl

/-- What follows does not continue the tokens in front. -/
theorem Fronts.connective (hfronts : Fronts front behind ending first second)
    (hbehind : ∀ token ∈ behind.head?, token.isConnective = false)
    (hpending : first.pending = []) : second.current.isConnective = false := by
  rw [Cursor.current, hfronts.pending, hpending, List.nil_append]
  cases behind with
  | nil => exact Token.isConnective_of_kind second.last_kind
  | cons token tokens => exact hbehind token rfl

theorem Fronts.advance (hfronts : Fronts front behind ending first second)
    (hcurrent : first.current.isEnd = false) :
    Fronts front behind ending first.advance second.advance where
  inside := (List.tail_suffix _).trans hfronts.inside
  pending := by
    have hpending := hfronts.pending
    rw [pending_eq_cons hcurrent] at hpending
    change second.pending.tail = first.pending.tail ++ behind
    rw [hpending]
    rfl
  last := hfronts.last

theorem Fronts.skip {test : Token → Bool} (hfronts : Fronts front behind ending first second)
    (hrest : first.pending.dropWhile test ≠ []) :
    Fronts front behind ending ⟨first.pending.dropWhile test, first.last, first.last_kind⟩
      ⟨second.pending.dropWhile test, second.last, second.last_kind⟩ where
  inside := (List.dropWhile_suffix _).trans hfronts.inside
  pending := by
    change second.pending.dropWhile test = first.pending.dropWhile test ++ behind
    rw [hfronts.pending, List.dropWhile_append, if_neg (by simpa using hrest)]
  last := hfronts.last

/-- The search for the next thing on the line ends before tokens that are put behind a token
which is no comment. -/
theorem firstOnLine?_append {tokens : List Token} (behind : List Token)
    (htokens : tokens.dropWhile Token.isComment ≠ []) :
    firstOnLine? (tokens ++ behind) = firstOnLine? tokens := by
  induction tokens with
  | nil => exact absurd rfl htokens
  | cons token tokens ih =>
      rw [List.cons_append, firstOnLine?, firstOnLine?]
      split
      · rfl
      · split
        · rename_i hblock
          apply ih
          have hcomment : token.isComment = true := by
            simp [Token.isComment, beq_iff_eq.mp hblock]
          rwa [List.dropWhile_cons, if_pos hcomment] at htokens
        · rfl

/-- The cursors before the next thing on the line, where that is no comment. -/
theorem Fronts.firstOnLine?_eq (hfronts : Fronts front behind ending first second)
    (hrest : first.skipComments.pending ≠ []) :
    firstOnLine? first.pending = firstOnLine? second.pending := by
  rw [hfronts.pending, firstOnLine?_append behind hrest]

theorem Fronts.comment?_eq (hfronts : Fronts front behind ending first second)
    (hrest : first.skipComments.pending ≠ []) : first.comment? = second.comment? := by
  have hshort : (first.pending.takeWhile Token.isComment).length ≠ first.pending.length := by
    intro hlength
    apply hrest
    change first.pending.dropWhile Token.isComment = []
    have hsplit := congrArg List.length
      (List.takeWhile_append_dropWhile (p := Token.isComment) (l := first.pending))
    rw [List.length_append, hlength] at hsplit
    exact List.eq_nil_of_length_eq_zero (by omega)
  rw [comment?, comment?, hfronts.pending, List.takeWhile_append, if_neg hshort]

theorem Fronts.next (hfronts : Fronts front behind ending first second)
    (hbehind : ∀ token ∈ behind.head?, token.isConnective = false)
    (hcurrent : first.current.isEnd = false) :
    first.next = second.next ∨
      first.next.isConnective = false ∧ second.next.isConnective = false := by
  have hadvanced := hfronts.advance hcurrent
  rcases hadvanced.current with hpending | hsame
  · right
    constructor
    · exact Token.isConnective_of_kind (current_kind_of_pending_nil hpending)
    · exact hadvanced.connective hbehind hpending
  · exact .inl hsame

end Cursor

/-- The pairing of a run over some tokens with one over more tokens, where semicolons have to
be written. -/
def Pairing.inFront (front behind : List Token) (ending : Token)
    (hbehind : ∀ token ∈ behind.head?, token.isConnective = false) : Pairing where
  toLikeness := .exact
  semicolons := .required
  base := .empty
  whole := front
  front := True
  cursor := Cursor.Fronts front behind ending
  required _ := rfl
  inside hfronts := hfronts.inside
  current hfronts := hfronts.current.imp (fun hpending => ⟨trivial, hpending⟩) id
  connective hfronts _ hpending := hfronts.connective hbehind hpending
  next hfronts hcurrent := hfronts.next hbehind hcurrent
  advance hfronts hcurrent := hfronts.advance hcurrent
  comments {first second} hfronts := by
    by_cases hrest : first.skipComments.pending = []
    · exact .inl ⟨trivial, hrest⟩
    · exact .inr ⟨hfronts.skip hrest, congrArg _ (hfronts.comment?_eq hrest)⟩
  lines {first second} hfronts _ := by
    by_cases hrest : first.skipComments.pending = []
    · exact .inl ⟨trivial, hrest⟩
    · right
      rw [Cursor.atSemicolon, Cursor.atSemicolon, Cursor.atLineEnd, Cursor.atLineEnd,
        hfronts.firstOnLine?_eq hrest]
      exact ⟨rfl, fun _ => rfl⟩
  semicolon {first second} hfronts hfirst _ := by
    apply hfronts.skip
    obtain ⟨token, hfound, -⟩ := (Option.any_eq_true _ _).mp hfirst
    obtain ⟨others, hothers⟩ := Cursor.dropWhile_of_firstOnLine? hfound
    rw [hothers]
    exact List.cons_ne_nil _ _

namespace Production

variable {front behind : List Token} {ending : Token}
variable {hbehind : ∀ token ∈ behind.head?, token.isConnective = false}

theorem statements_of_isEnd {grammar : Grammar} {session : Session}
    (hcurrent : session.cursor.current.isEnd = true) :
    statements grammar .program session = .ok [] session := by
  change (if session.cursor.current.isEnd then _ else _ : Parse (List NodeId)) session = _
  rw [if_pos hcurrent]
  rfl

theorem statements_of_not_isEnd {grammar : Grammar} {session : Session}
    (hcurrent : session.cursor.current.isEnd = false) :
    statements grammar .program session =
      (do
        let first ← statement grammar false
        return first :: (← grammar.statements .program) : Parse (List NodeId)) session := by
  change (if session.cursor.current.isEnd then _ else _ : Parse (List NodeId)) session = _
  rw [if_neg (by simp [hcurrent])]
  rfl

/-- The statement that is read first, and those behind it. -/
theorem exists_first_of_statements {grammar : Grammar} {session final : Session}
    {ids : List NodeId} (hcurrent : session.cursor.current.isEnd = false)
    (hread : statements grammar .program session = .ok ids final) :
    ∃ id others between, ids = id :: others ∧
      statement grammar false session = .ok id between ∧
      grammar.statements .program between = .ok others final := by
  rw [statements_of_not_isEnd hcurrent] at hread
  obtain ⟨id, between, hstatement⟩ := exists_ok_of_bind_ok hread
  rw [bind_of_ok hstatement] at hread
  obtain ⟨others, last, hothers⟩ := exists_ok_of_bind_ok hread
  rw [bind_of_ok hothers] at hread
  cases hread
  exact ⟨id, others, between, rfl, hstatement, hothers⟩

theorem isEnd_of_statements_nil {grammar : Grammar} {session final : Session}
    (hread : statements grammar .program session = .ok [] final) :
    session.cursor.current.isEnd = true := by
  rw [← Bool.not_eq_false]
  intro hcurrent
  obtain ⟨id, others, between, hids, -⟩ := exists_first_of_statements hcurrent hread
  cases hids

theorem statements_of_first {grammar : Grammar} {session between final : Session}
    {id : NodeId} {others : List NodeId} (hcurrent : session.cursor.current.isEnd = false)
    (hstatement : statement grammar false session = .ok id between)
    (hothers : grammar.statements .program between = .ok others final) :
    statements grammar .program session = .ok (id :: others) final := by
  rw [statements_of_not_isEnd hcurrent, bind_of_ok hstatement, bind_of_ok hothers]
  rfl

/-- Statements that are read up to the end of the first tokens are read in front of others,
too; the reader then goes on with those.  Each statement takes one layer of the grammar. -/
theorem statements_inFront (depth : Nat) {first second final : Session} {ids : List NodeId}
    (hbeside : (Pairing.inFront front behind ending hbehind).Beside first second)
    (hread : statements (.upTo .required depth) .program first = .ok ids final) :
    ∃ lower after, depth = lower + ids.length ∧
      (Pairing.inFront front behind ending hbehind).Beside final after ∧
      ∀ others done, statements (.upTo .required lower) .program after = .ok others done →
        statements (.upTo .required depth) .program second = .ok (ids ++ others) done := by
  induction depth generalizing first second ids with
  | zero =>
      cases hcurrent : first.cursor.current.isEnd with
      | true =>
          rw [statements_of_isEnd hcurrent] at hread
          cases hread
          exact ⟨0, second, rfl, hbeside, fun _ _ => id⟩
      | false =>
          obtain ⟨_, _, _, -, -, hexhausted⟩ := exists_first_of_statements hcurrent hread
          cases hexhausted
  | succ depth ih =>
      cases hcurrent : first.cursor.current.isEnd with
      | true =>
          rw [statements_of_isEnd hcurrent] at hread
          cases hread
          exact ⟨depth + 1, second, rfl, hbeside, fun _ _ => id⟩
      | false =>
          obtain ⟨id, rest, between, rfl, hstatement, hrest⟩ :=
            exists_first_of_statements hcurrent hread
          have hgrammar := Grammar.upTo_parallel (Pairing.inFront front behind ending hbehind)
            (depth + 1)
          have houtcome := (statement_runs hgrammar false).beside hbeside
          change Pairing.Outcome _ _ _ (statement (.upTo .required (depth + 1)) false first)
            (statement (.upTo .required (depth + 1)) false second) at houtcome
          rw [hstatement] at houtcome
          rcases houtcome with ⟨other, mid, hother, hid, hsessions⟩ | ⟨hfirm, -⟩
          · obtain ⟨lower, after, hdepth, hafter, hon⟩ := ih hsessions hrest
            refine ⟨lower, after, by rw [hdepth]; rfl, hafter, fun others done hdone => ?_⟩
            have hsame : other = id := hid.trans (shift_zero id)
            have htwin := hbeside.twin hcurrent
            have hopen : second.cursor.current.isEnd = false := by
              rw [← show first.cursor.current = second.cursor.current from htwin]
              exact hcurrent
            exact statements_of_first hopen (hsame ▸ hother) (hon others done hdone)
          · cases hfirm

/-- A token that continues a statement opens none, but for the operator of a loop, which
opens no operand. -/
theorem opening_of_isConnective {token : Token} (next : Token)
    (htoken : token.isConnective = true) :
    Opening.of false token next = .refused .unexpectedToken ∨
      Opening.of false token next = .expression ∧ OperandStart.of token = .refused := by
  have hkeyword : ∀ word, token.isKeyword word = true →
      Opening.ofKeyword false word = .refused .unexpectedToken →
      Opening.of false token next = .refused .unexpectedToken := by
    intro word hword hrefused
    obtain ⟨hkind, hvalue⟩ := (token.is_iff _ _).mp hword
    rw [Opening.of, hkind, hvalue]
    exact hrefused
  simp only [Token.isConnective, Bool.or_eq_true] at htoken
  rcases htoken with (((hcolon | hin) | helse) | hcatch) | hfinally
  · obtain ⟨hkind, hvalue⟩ := (token.is_iff _ _).mp hcolon
    simp [Opening.of, hkind, hvalue, Opening.ofPunctuation]
  · obtain ⟨hkind, hvalue⟩ := (token.is_iff _ _).mp hin
    have hprefix : token.isPrefix = false := by
      rw [Token.isPrefix, hkind, hvalue]
      decide
    right
    simp [Opening.of, OperandStart.of, hkind, hvalue, hprefix]
  · exact .inl (hkeyword "else" helse rfl)
  · exact .inl (hkeyword "catch" hcatch rfl)
  · exact .inl (hkeyword "finally" hfinally rfl)

theorem not_isConnective_of_statement {semicolons : Semicolons} {depth : Nat}
    {session after : Session} {id : NodeId}
    (hread : statement (.upTo semicolons depth) false session = .ok id after) :
    session.cursor.current.isConnective = false := by
  rw [Bool.eq_false_iff]
  intro hconnective
  rw [statement, bind_current, bind_next] at hread
  rcases opening_of_isConnective session.cursor.next hconnective with hof | ⟨hof, hoperand⟩
  · rw [hof] at hread
    cases hread
  · rw [hof] at hread
    obtain ⟨value, between, hexpression⟩ := exists_ok_of_bind_ok hread
    have hcomment : session.cursor.current.isComment = false := by
      cases hkind : session.cursor.current.kind <;>
        simp_all [Token.isConnective, Token.isPunctuation, Token.isOperator, Token.isKeyword,
          Token.is, Token.isComment]
    apply Grammar.upTo_startsOperand semicolons (depth + 1) true session value between hexpression
    rw [Cursor.skipComments_eq hcomment]
    exact hoperand

end Production

end ScriptSyntax

import ScriptSyntax.Proofs.Reach.Expression

/-!
# How statements end

A statement that ends in a semicolon is drafted once the semicolon is passed, or right
behind its last token if there is none.  Of all other statements it matters only that
the readers go on.
-/

namespace ScriptSyntax

/-- With a semicolon written behind it, a span ends as it should. -/
theorem Span.Ends.of_semicolon {span : Span} {semicolons : Semicolons}
    {whole later : List Token} (hspan : span.Covers whole later (·.isPunctuation ";")) :
    span.Ends semicolons whole :=
  ⟨later, .inl hspan⟩

/-- The semicolon that follows on the line, with the block comments before it. -/
theorem Session.covers_semicolon (session : Session)
    (hsemicolon : session.cursor.atSemicolon = true) :
    session.cursor.skipBlockComments.current.span.Covers session.cursor.pending
      session.cursor.skipBlockComments.advance.pending (·.isPunctuation ";") := by
  have hcurrent := Cursor.current_skipBlockComments hsemicolon
  have hend := Token.isEnd_of_isWord (Token.isWord_of_isPunctuation hcurrent)
  have hpending := Cursor.pending_eq_cons hend
  exact Span.covers_token (hpending ▸ List.dropWhile_suffix _) hcurrent

namespace Parse

variable {Result Other : Type} {semicolons : Semicolons} {whole : List Token}
variable {start session : Session}

theorem GoesOn.bind {reader : Parse Other} {next : Other → Parse Result}
    (hreader : reader.GoesOn semicolons whole session)
    (hnext : ∀ value after, (next value).GoesOn semicolons whole after) :
    (reader >>= next).GoesOn semicolons whole session := by
  intro hsession
  apply hreader.andThen (.refl hsession)
  intro value after hafter _
  exact (hnext value after hafter.within).mono (fun _ _ => hafter.trans) fun _ => id

theorem GoesOnTo.goesOn {reader : Parse Result} {stop : Token → Bool}
    (hreader : reader.GoesOnTo semicolons whole session stop) :
    reader.GoesOn semicolons whole session := by
  intro hsession
  exact (hreader hsession).mono (fun _ _ => And.left) fun _ => id

theorem advance_goesOn : advance.GoesOn semicolons whole session :=
  fun hsession => (Session.Onward.refl hsession).passed

theorem current_goesOn : current.GoesOn semicolons whole session :=
  fun hsession => .refl hsession

theorem pure_goesOn (result : Result) :
    (pure result : Parse Result).GoesOn semicolons whole session :=
  fun hsession => .refl hsession

theorem refuse_goesOn (reason : Reason) :
    (refuse reason : Parse Result).GoesOn semicolons whole session :=
  fun _ => trivial

theorem expect_goesOn (test : Token → Bool) (reason : Reason) :
    (expect test reason).GoesOn semicolons whole session := by
  apply current_goesOn.bind
  intro token after
  split
  · exact advance_goesOn
  · exact refuse_goesOn reason

theorem add_goesOn {draft : Draft} (hdraft : draft.shape.isPinned = false) :
    (add draft).GoesOn semicolons whole session :=
  fun hsession => (Session.Onward.refl hsession).grown (Shape.placed_of_free hdraft)

theorem meets_bind_accept?_iff {test : Token → Bool} {next : Option Token → Parse Result}
    {success : Result → Session → Prop} {failure : Session → Prop} :
    (accept? test >>= next).Meets session success failure ↔
      if test session.cursor.current then
        (next (some session.cursor.current)).Meets session.passed success failure
      else (next none).Meets session success failure := by
  unfold accept?
  rw [bind_assoc, meets_bind_current]
  split
  · rw [bind_assoc, meets_bind_advance, pure_bind]
  · rw [pure_bind]

/-- What follows an expected token starts behind it. -/
theorem meets_bind_expect_passed {test : Token → Bool} {reason : Reason}
    {next : Token → Parse Result} {success : Result → Session → Prop}
    (hnext : test session.cursor.current = true →
      (next session.cursor.current).Meets session.passed success Anyhow) :
    (expect test reason >>= next).Meets session success Anyhow := by
  have hexpect : (expect test reason).Meets session (fun token after =>
      token = session.cursor.current ∧ after = session.passed ∧
        test session.cursor.current = true) Anyhow := by
    rw [meets_expect]
    split
    · exact ⟨rfl, rfl, ‹_›⟩
    · trivial
  apply hexpect.bind
  rintro _ _ ⟨rfl, rfl, htest⟩
  exact hnext htest

/-- A statement ends with a semicolon, written or inserted. -/
theorem endStatement_ends {shape : Shape NodeId} {first last : Edge}
    (hdone : start.Onward semicolons whole session)
    (hspan : (Span.between (first.span session.tree) (last.span session.tree)).Covers whole
      session.cursor.pending Token.mayEnd) (hshape : shape.isTerminated = true) :
    (endStatement semicolons >>= fun semicolon =>
      add ⟨shape, first, .tokenOr semicolon last⟩).Meets session
      (fun _ after => start.Onward semicolons whole after) Anyhow := by
  have hwritten : ∀ (semicolon : Token) (cursor : Cursor),
      semicolon.span.Covers session.cursor.pending cursor.pending (·.isPunctuation ";") →
      (add ⟨shape, first, .tokenOr (some semicolon) last⟩).Meets ⟨cursor, session.tree⟩
        (fun _ after => start.Onward semicolons whole after) Anyhow := by
    intro semicolon cursor hsemicolon
    rw [meets_add]
    apply (hdone.move hsemicolon.suffix).grown
    have hends := Span.Covers.between hspan hsemicolon
    exact Shape.placed_of_ends hshape (.of_semicolon hends)
  unfold endStatement
  rw [bind_assoc, meets_bind_cursor]
  split
  · rename_i hsemicolon
    exact hwritten _ _ (session.covers_semicolon hsemicolon)
  · cases semicolons with
    | required =>
        rw [bind_assoc]
        apply meets_bind_expect_passed
        intro hcurrent
        have hend := Token.isEnd_of_isWord (Token.isWord_of_isPunctuation hcurrent)
        exact hwritten _ _ (session.covers_current hend hcurrent)
    | inserted =>
        dsimp only
        split
        · rename_i hline
          rw [pure_bind, meets_add]
          apply hdone.grown
          exact Shape.placed_of_ends hshape ⟨_, .inr ⟨rfl, hspan, hline⟩⟩
        · trivial

end Parse

namespace Production

open Parse

variable {grammar : Grammar} {whole : List Token} {session : Session}

/-! ## Statements without a semicolon of their own -/

theorem comment_goesOn : comment.GoesOn grammar.semicolons whole session :=
  advance_goesOn.bind fun _ _ => add_goesOn rfl

theorem defaultLabel_goesOn : defaultLabel.GoesOn grammar.semicolons whole session := by
  apply advance_goesOn.bind
  intro first worded
  apply (expect_goesOn _ _).bind
  intro last after
  exact add_goesOn rfl

section Compound

variable (hgrammar : grammar.Reaching whole)

include hgrammar

theorem labelled_goesOn : (labelled grammar).GoesOn grammar.semicolons whole session := by
  apply advance_goesOn.bind
  intro label named
  apply advance_goesOn.bind
  intro colon marked
  apply (hgrammar.statement false marked).bind
  intro statement after
  exact add_goesOn rfl

theorem caseLabel_goesOn : (caseLabel grammar).GoesOn grammar.semicolons whole session := by
  apply advance_goesOn.bind
  intro first worded
  apply (hgrammar.expression true worded).goesOn.bind
  intro test tested
  apply (expect_goesOn _ _).bind
  intro last after
  exact add_goesOn rfl

theorem forIn_goesOn (first : Token) (varToken : Option Token) :
    (forIn grammar first varToken).GoesOn grammar.semicolons whole session := by
  apply advance_goesOn.bind
  intro name named
  apply advance_goesOn.bind
  intro operator worded
  apply (hgrammar.expression true worded).goesOn.bind
  intro object read
  apply (expect_goesOn _ _).bind
  intro closing closed
  apply (hgrammar.statement false closed).bind
  intro body after
  exact add_goesOn rfl

theorem loopInit_tells {varToken : Option Token}
    (hcurrent : session.cursor.current.isPunctuation ";" = false)
    (hsession : session.cursor.pending <:+ whole) :
    (loopInit grammar varToken).Meets session
      (fun init after => session.Onward grammar.semicolons whole after ∧
        LoopInit.ToldBy varToken session.cursor.pending (some init))
      Anyhow := by
  have hclause : session.cursor.pending.head?.any (·.isPunctuation ";") = false := by
    rwa [Cursor.any_head?_pending fun _ => Token.isWord_of_isPunctuation]
  unfold loopInit
  split
  · rename_i hdeclares
    apply (hgrammar.declarations session hsession).bind
    rintro entries after ⟨hread, last, hlast, -⟩
    refine ⟨hread, hclause, hdeclares, ?_⟩
    rintro rfl
    cases hlast
  · rename_i hdeclares
    apply (hgrammar.expression true session).goesOn.andThen (.refl hsession)
    intro value after hread _
    exact ⟨hread, hclause, Option.not_isSome_iff_eq_none.mp hdeclares⟩

theorem clausesFrom_goesOn (first : Token) (varToken : Option Token)
    (init : Option (LoopInit NodeId))
    (hhead : ∀ span : Span, span.start = first.span.start → span.BeginsLoop whole varToken init) :
    (clausesFrom grammar first varToken init).GoesOn grammar.semicolons whole session := by
  apply (expect_goesOn _ _).bind
  intro afterInit marked
  apply (readUnless_goesOn (hgrammar.expression true marked).goesOn).bind
  intro test tested
  apply (expect_goesOn _ _).bind
  intro afterTest halved
  apply (readUnless_goesOn (hgrammar.expression true halved).goesOn).bind
  intro step stepped
  apply (expect_goesOn _ _).bind
  intro closing closed
  apply (hgrammar.statement false closed).bind
  intro body after hafter
  apply (Session.Onward.refl hafter).grown
  exact Shape.placed_of_begins (hhead _ rfl)

theorem forClauses_goesOn {first : Token} {varToken : Option Token}
    (hhead : first.HeadsLoop whole varToken session.cursor.pending) :
    (forClauses grammar first varToken).GoesOn grammar.semicolons whole session := by
  intro hsession
  have hstart : session.Onward grammar.semicolons whole session := .refl hsession
  rw [forClauses_eq, meets_bind_readUnless]
  split
  · rename_i hcurrent
    apply clausesFrom_goesOn hgrammar first varToken none _ hsession
    intro span hspan
    refine ⟨first, session.cursor.pending, hhead, hspan, ?_⟩
    rwa [LoopInit.ToldBy, Cursor.any_head?_pending fun _ => Token.isWord_of_isPunctuation]
  · rename_i hcurrent
    apply (loopInit_tells hgrammar (Bool.eq_false_iff.mpr hcurrent) hsession).bind
    rintro init after ⟨hread, htold⟩
    have hrest : (clausesFrom grammar first varToken (some init)).GoesOn grammar.semicolons whole
        after := by
      apply clausesFrom_goesOn hgrammar first varToken
      intro span hspan
      exact ⟨first, session.cursor.pending, hhead, hspan, htold⟩
    exact (hrest hread.within).mono (fun _ _ => hread.trans) fun _ => id

theorem loopFrom_goesOn {first : Token} {varToken : Option Token}
    (hhead : first.HeadsLoop whole varToken session.cursor.pending) :
    (loopFrom grammar first varToken).GoesOn grammar.semicolons whole session := by
  intro hsession
  unfold loopFrom
  rw [meets_bind_current, meets_bind_next]
  split
  · exact forIn_goesOn hgrammar first varToken hsession
  · exact forClauses_goesOn hgrammar hhead hsession

theorem forLoop_goesOn (hfirst : session.cursor.current.isKeyword "for" = true) :
    (forLoop grammar).GoesOn grammar.semicolons whole session := by
  intro hsession
  have hstart : session.Onward grammar.semicolons whole session := .refl hsession
  have hend := Token.isEnd_of_isWord (Token.isWord_of_isKeyword hfirst)
  change (advance >>= fun first => expectPunctuation "(" >>= fun _ =>
    accept? (fun token => token.isKeyword "var") >>= loopFrom grammar first).Meets session _ _
  apply meets_bind_advance.mpr
  apply meets_bind_expect_passed
  intro hopening
  have hopen := Token.isEnd_of_isWord (Token.isWord_of_isPunctuation hopening)
  have hpending : session.cursor.pending = session.cursor.current ::
      session.passed.cursor.current :: session.passed.passed.cursor.pending := by
    rw [Cursor.pending_eq_cons hend]
    exact congrArg _ (Cursor.pending_eq_cons hopen)
  have hpassed := hstart.passed.passed
  rw [hpending] at hsession
  rw [meets_bind_accept?_iff]
  split
  · rename_i hvar
    have hword := Token.isEnd_of_isWord (Token.isWord_of_isKeyword hvar)
    have hhead : session.cursor.current.HeadsLoop whole (some session.passed.passed.cursor.current)
        session.passed.passed.passed.cursor.pending := by
      refine ⟨_, ?_, hfirst, hopening, by simp [hvar]⟩
      rwa [Cursor.pending_eq_cons hword] at hsession
    exact (loopFrom_goesOn hgrammar hhead hpassed.passed.within).mono
      (fun _ _ => hpassed.passed.trans) fun _ => id
  · rename_i hvar
    have hhead : session.cursor.current.HeadsLoop whole none
        session.passed.passed.cursor.pending := by
      refine ⟨_, hsession, hfirst, hopening, ?_⟩
      rw [← Cursor.any_head?_pending fun _ => Token.isWord_of_isKeyword] at hvar
      rw [Option.toList_none, List.nil_append, Option.filter_eq_none_iff]
      intro token htoken hword
      rw [Option.mem_def.mp htoken] at hvar
      exact hvar hword
    exact (loopFrom_goesOn hgrammar hhead hpassed.within).mono
      (fun _ _ => hpassed.trans) fun _ => id

theorem ifElse_goesOn : (ifElse grammar).GoesOn grammar.semicolons whole session := by
  apply advance_goesOn.bind
  intro first worded
  apply (parenthesized_stops hgrammar).goesOn.bind
  intro condition tested
  apply (hgrammar.statement false tested).bind
  intro thenBranch chosen
  apply (readAfter?_goesOn (hgrammar.statement false _)).bind
  intro elseBranch after
  exact add_goesOn rfl

theorem switch_goesOn : (switch grammar).GoesOn grammar.semicolons whole session := by
  apply advance_goesOn.bind
  intro first worded
  apply (parenthesized_stops hgrammar).goesOn.bind
  intro discriminant tested
  apply (expect_goesOn _ _).bind
  intro opening opened
  apply (hgrammar.statements .switch opened).goesOn.bind
  intro cases read
  apply advance_goesOn.bind
  intro last after
  exact add_goesOn rfl

theorem handler_goesOn : (handler grammar).GoesOn grammar.semicolons whole session := by
  apply (expect_goesOn _ _).bind
  intro opening opened
  apply (expect_goesOn _ _).bind
  intro name named
  apply (expect_goesOn _ _).bind
  intro closing closed
  apply (hgrammar.statement false closed).bind
  intro body after
  exact pure_goesOn _

theorem tryCatch_goesOn : (tryCatch grammar).GoesOn grammar.semicolons whole session := by
  apply advance_goesOn.bind
  intro first worded
  apply (hgrammar.statement false worded).bind
  intro body read
  apply (readAfter?_goesOn (handler_goesOn hgrammar)).bind
  intro handler handled
  apply (readAfter?_goesOn (hgrammar.statement false _)).bind
  intro finalizer after
  split
  · exact refuse_goesOn _
  · exact add_goesOn rfl

theorem whileLoop_goesOn : (whileLoop grammar).GoesOn grammar.semicolons whole session := by
  apply advance_goesOn.bind
  intro first worded
  apply (parenthesized_stops hgrammar).goesOn.bind
  intro condition tested
  apply (hgrammar.statement false tested).bind
  intro body after
  exact add_goesOn rfl

theorem withScope_goesOn : (withScope grammar).GoesOn grammar.semicolons whole session := by
  apply advance_goesOn.bind
  intro first worded
  apply (parenthesized_stops hgrammar).goesOn.bind
  intro object tested
  apply (hgrammar.statement false tested).bind
  intro body after
  exact add_goesOn rfl

end Compound

/-! ## Declarations -/

theorem declaration_stops (hgrammar : grammar.Reaching whole) :
    (declaration grammar).Stops grammar.semicolons whole session := by
  intro hsession
  have hidentifier : ∀ token : Token, (token.kind == .identifier) = true →
      token.mayEnd = true := by
    intro token htoken
    rw [Token.mayEnd, beq_iff_eq.mp htoken]
  apply meets_bind_expect_of_onward (.refl hsession)
  · intro token htoken
    exact Token.isWord_of_kind (beq_iff_eq.mp htoken) rfl
  intro name named hnamed hname
  rw [meets_bind_readAfter?]
  split
  · apply (hgrammar.expression false _).andThen hnamed.passed
    intro initializer after hafter _ hinitializer
    apply meets_add_of_onward hafter
    · rfl
    · exact hname.between (hinitializer.covers.mono (List.tail_suffix _))
  · apply meets_add_of_onward hnamed
    · rfl
    · exact hname.imp hidentifier

theorem declarations_stops (hgrammar : grammar.Reaching whole)
    (hsession : session.cursor.pending <:+ whole) :
    (declarations grammar).Meets session
      (fun ids after => session.Onward grammar.semicolons whole after ∧
        after.tree.LastStopsAt ids session.cursor.pending after.cursor.pending)
      Anyhow := by
  have hstart : session.Onward grammar.semicolons whole session.uncommented :=
    Session.Onward.uncommented (.refl hsession)
  apply meets_bind_eatComments.mpr
  apply (declaration_stops hgrammar).andThen hstart
  intro first read hread _ hfirst
  rw [meets_bind_current]
  split
  · apply meets_bind_advance.mpr
    apply (hgrammar.declarations _ hread.passed.within).bind
    rintro others after ⟨hafter, last, hlast, hstops⟩
    refine ⟨hread.passed.trans hafter, last, ?_, hstops.mono hread.passed.suffix⟩
    rw [List.getLast?_cons, hlast]
    rfl
  · exact ⟨hread, first, rfl, hfirst.mono hstart.suffix⟩

/-! ## Statements that end in a semicolon -/

theorem emptyStatement_goesOn (hfirst : session.cursor.current.isPunctuation ";" = true) :
    emptyStatement.GoesOn grammar.semicolons whole session := by
  intro hsession
  have hstart : session.Onward grammar.semicolons whole session := .refl hsession
  have hend := Token.isEnd_of_isWord (Token.isWord_of_isPunctuation hfirst)
  apply meets_bind_advance.mpr
  apply meets_add.mpr
  apply hstart.passed.grown
  exact Shape.placed_of_ends rfl
    (.of_semicolon ((session.covers_current hend hfirst).mono hsession))

theorem debugger_goesOn (hfirst : session.cursor.current.isKeyword "debugger" = true) :
    (debugger grammar).GoesOn grammar.semicolons whole session := by
  intro hsession
  have hstart : session.Onward grammar.semicolons whole session := .refl hsession
  have hend := Token.mayEnd_of_isKeyword hfirst
  apply meets_bind_advance.mpr
  refine endStatement_ends hstart.passed ?_ rfl
  exact (session.covers_current (Token.isEnd_of_mayEnd hend) hend).mono hsession

theorem jump_goesOn {kind : Jump} (hfirst : (Opening.jump kind).Opens
    session.cursor.current session.cursor.next) :
    (jump grammar kind).GoesOn grammar.semicolons whole session := by
  intro hsession
  have hstart : session.Onward grammar.semicolons whole session := .refl hsession
  have hend : session.cursor.current.mayEnd = true := by
    cases kind <;> exact Token.mayEnd_of_isKeyword hfirst
  have hbegin := session.covers_current (Token.isEnd_of_mayEnd hend) hend
  apply meets_bind_advance.mpr
  rw [meets_bind_accept?_iff]
  split
  · rename_i hlabel
    simp only [Bool.and_eq_true, beq_iff_eq] at hlabel
    have hname : session.passed.cursor.current.mayEnd = true := by
      rw [Token.mayEnd, hlabel.1]
    refine endStatement_ends hstart.passed.passed ?_ rfl
    have hlast := session.passed.covers_current (Token.isEnd_of_mayEnd hname) hname
    exact (hbegin.between hlast).mono hsession
  · exact endStatement_ends hstart.passed (hbegin.mono hsession) rfl

section Terminated

variable (hgrammar : grammar.Reaching whole)

include hgrammar

theorem expressionStatement_goesOn :
    (expressionStatement grammar).GoesOn grammar.semicolons whole session := by
  intro hsession
  apply (expression_stops hgrammar true).andThen (.refl hsession)
  intro value read hread _ hvalue
  exact endStatement_ends hread (hvalue.covers.mono hsession) rfl

theorem doWhile_goesOn (hfirst : session.cursor.current.isKeyword "do" = true) :
    (doWhile grammar).GoesOn grammar.semicolons whole session := by
  intro hsession
  have hstart : session.Onward grammar.semicolons whole session := .refl hsession
  have hend := Token.isEnd_of_isWord (Token.isWord_of_isKeyword hfirst)
  apply meets_bind_advance.mpr
  apply (hgrammar.statement false _).andThen hstart.passed
  intro body read hread hbody
  apply meets_bind_expect_of_onward hread (fun _ => Token.isWord_of_isKeyword)
  intro word worded hworded hword
  apply (parenthesized_stops hgrammar).andThen hworded
  intro condition tested htested _ hcondition
  refine endStatement_ends htested ?_ rfl
  have hinner := hword.suffix.trans hbody.suffix
  exact ((session.covers_first hend).between (hcondition.covers.mono hinner)).mono hsession

theorem returns_goesOn (hfirst : session.cursor.current.isKeyword "return" = true) :
    (returns grammar).GoesOn grammar.semicolons whole session := by
  intro hsession
  have hstart : session.Onward grammar.semicolons whole session := .refl hsession
  have hend := Token.mayEnd_of_isKeyword hfirst
  have hbegin := session.covers_current (Token.isEnd_of_mayEnd hend) hend
  apply meets_bind_advance.mpr
  rw [meets_bind_cursor]
  split
  · exact endStatement_ends hstart.passed (hbegin.mono hsession) rfl
  · split
    · rename_i hline
      simp only [Bool.and_eq_true, beq_iff_eq] at hline
      apply meets_add.mpr
      apply hstart.passed.grown
      exact Shape.placed_of_ends rfl ⟨_, .inr ⟨hline.1, hbegin.mono hsession, hline.2⟩⟩
    · apply (hgrammar.expression true _).andThen hstart.passed
      intro value read hread _ hvalue
      refine endStatement_ends hread ?_ rfl
      exact (hbegin.between hvalue.covers).mono hsession

theorem throws_goesOn (hfirst : session.cursor.current.isKeyword "throw" = true) :
    (throws grammar).GoesOn grammar.semicolons whole session := by
  intro hsession
  have hstart : session.Onward grammar.semicolons whole session := .refl hsession
  have hend := Token.isEnd_of_isWord (Token.isWord_of_isKeyword hfirst)
  apply meets_bind_advance.mpr
  apply (hgrammar.expression true _).andThen hstart.passed
  intro value read hread _ hvalue
  refine endStatement_ends hread ?_ rfl
  exact ((session.covers_first hend).between hvalue.covers).mono hsession

theorem varStatement_goesOn (hfirst : session.cursor.current.isKeyword "var" = true) :
    (varStatement grammar).GoesOn grammar.semicolons whole session := by
  intro hsession
  have hstart : session.Onward grammar.semicolons whole session := .refl hsession
  have hend := Token.isEnd_of_isWord (Token.isWord_of_isKeyword hfirst)
  apply meets_bind_advance.mpr
  apply (hgrammar.declarations _ hstart.passed.within).bind
  rintro declarations after ⟨hread, last, hlast, hstops⟩
  refine endStatement_ends (hstart.passed.trans hread) ?_ rfl
  rw [Edge.nodeOr, hlast]
  exact ((session.covers_first hend).between hstops.covers).mono hsession

end Terminated

/-! ## Statements -/

theorem statement_goesOn (hgrammar : grammar.Reaching whole) (labels : Bool) :
    (statement grammar labels).GoesOn grammar.semicolons whole session := by
  intro hsession
  unfold statement
  rw [meets_bind_current, meets_bind_next]
  have hopens := Opening.of_opens labels session.cursor.current session.cursor.next
  have hcurrent : (∀ reason, Opening.of labels session.cursor.current session.cursor.next ≠
      .refused reason) → session.cursor.current.isEnd = false := Opening.isEnd_of_ne_refused
  cases hof : Opening.of labels session.cursor.current session.cursor.next
  all_goals rw [hof] at hopens hcurrent
  case comment => exact comment_goesOn hsession
  case labelled => exact labelled_goesOn hgrammar hsession
  case expression => exact expressionStatement_goesOn hgrammar hsession
  case block => exact (block_stops hgrammar).goesOn hsession
  case empty => exact emptyStatement_goesOn hopens hsession
  case jump => exact jump_goesOn hopens hsession
  case caseLabel => exact caseLabel_goesOn hgrammar hsession
  case debugger => exact debugger_goesOn hopens hsession
  case defaultLabel => exact defaultLabel_goesOn hsession
  case doWhile => exact doWhile_goesOn hgrammar hopens hsession
  case forLoop => exact forLoop_goesOn hgrammar hopens hsession
  case function => exact (function_stops hgrammar (hcurrent (by simp))).goesOn hsession
  case ifElse => exact ifElse_goesOn hgrammar hsession
  case returns => exact returns_goesOn hgrammar hopens hsession
  case switch => exact switch_goesOn hgrammar hsession
  case throws => exact throws_goesOn hgrammar hopens hsession
  case tryCatch => exact tryCatch_goesOn hgrammar hsession
  case varStatement => exact varStatement_goesOn hgrammar hopens hsession
  case whileLoop => exact whileLoop_goesOn hgrammar hsession
  case withScope => exact withScope_goesOn hgrammar hsession
  case refused => trivial

theorem statements_goesOnTo (hgrammar : grammar.Reaching whole) (enclosure : Enclosure) :
    (statements grammar enclosure).GoesOnTo grammar.semicolons whole session
      enclosure.closedBy := by
  intro hsession
  have hstart : session.Onward grammar.semicolons whole session := .refl hsession
  unfold statements
  rw [meets_bind_current]
  split
  · rename_i hclosed
    exact ⟨hstart, hclosed⟩
  · apply (statement_goesOn hgrammar _).andThen hstart
    intro first read hread _
    apply (hgrammar.statements enclosure read).andThen hread
    intro others after hafter _ hclosed
    exact ⟨hafter, hclosed⟩

theorem program_goesOn (hgrammar : grammar.Reaching whole) :
    (program grammar).GoesOn grammar.semicolons whole session := by
  apply (statements_goesOnTo hgrammar .program).goesOn.bind
  intro body after
  apply current_goesOn.bind
  intro token final
  exact add_goesOn rfl

end Production

theorem Grammar.unfold_reaching {grammar : Grammar} {whole : List Token}
    (hgrammar : grammar.Reaching whole) : grammar.unfold.Reaching whole where
  statement labels _ := Production.statement_goesOn hgrammar labels
  statements enclosure _ := Production.statements_goesOnTo hgrammar enclosure
  parameters _ := Production.parameters_goesOnTo hgrammar
  declarations _ := Production.declarations_stops hgrammar
  expression commas _ := Production.expression_stops hgrammar commas
  assignment _ := Production.assignment_stops hgrammar
  operand calls _ := Production.operand_stops hgrammar calls
  operations left floor _ := Production.operations_extends hgrammar left floor
  suffixes target calls _ := Production.suffixes_extends hgrammar target calls
  items closing _ := Production.items_goesOnTo hgrammar closing
  properties _ := Production.properties_goesOnTo hgrammar

theorem Grammar.upTo_reaching (semicolons : Semicolons) (whole : List Token) (depth : Nat) :
    (Grammar.upTo semicolons depth).Reaching whole := by
  induction depth with
  | zero => exact exhausted_reaching semicolons whole
  | succ depth ih => exact unfold_reaching ih

/-- All nodes of a program stand as they should. -/
theorem placed_of_parse {semicolons : Semicolons} {tokens : List Token} {tree : Tree}
    (hparse : parse semicolons tokens = .ok tree) :
    tree.Placed semicolons (Cursor.ofTokens tokens).pending := by
  obtain ⟨id, final, rfl, hrun⟩ := run_of_parse hparse
  have hgrammar := Grammar.upTo_reaching semicolons (Cursor.ofTokens tokens).pending
    ((Cursor.ofTokens tokens).pending.length + 1)
  have hread := (Production.program_goesOn hgrammar List.suffix_rfl).of_ok hrun
  rw [Grammar.upTo_semicolons] at hread
  have hempty : Tree.empty.Placed semicolons (Cursor.ofTokens tokens).pending := by
    intro id shape hshape
    cases id <;> cases hshape
  exact hread.placed hempty

/-- All statements of a program end as they should. -/
theorem ended_of_parse {semicolons : Semicolons} {tokens : List Token} {tree : Tree}
    (hparse : parse semicolons tokens = .ok tree) :
    tree.Ended semicolons (Cursor.ofTokens tokens).pending :=
  fun id shape hshape => (placed_of_parse hparse id shape hshape).ends

end ScriptSyntax

import ScriptSyntax.Proofs.RoundTrip.Expression

/-!
# Retelling statements

The statements other than declarations and loops with a header.  Their canonical
words begin with the token that they begin with, and a semicolon ends them whether
or not one was written.
-/

namespace ScriptSyntax

open Parse

namespace Production

variable {semicolons : Semicolons} {grammar : Grammar} {start : Session}

theorem labelled_retells (hgrammar : grammar.Retold semicolons) {labels : Bool}
    (hlabel : start.cursor.current.kind = .identifier)
    (hcolon : start.cursor.next.isPunctuation ":" = true) :
    Task.Retells ⟨semicolons, start, labelled, []⟩ (labelled grammar)
      (.opened labels .labelled) := by
  intro hquiet
  have hpassed := (Task.start_reaches ⟨semicolons, start, labelled, []⟩).advance
    start.cursor.current fun _ => trivial
  have hmarked := hpassed.advance start.cursor.next fun _ => trivial
  unfold labelled
  rw [meets_bind_advance, meets_bind_advance]
  apply hmarked.called (hgrammar.statement false _) (fun _ => rfl)
    (List.cons_ne_nil _ _) hquiet
  intro statement after more hafter _
  have hadded := hafter.last.addAll (.labelled start.cursor.current statement)
    ⟨rfl, rfl, trivial⟩ (by
      simp [Draft.labelled, Shape.layout, Part.mark, Account.statement,
        Token.bare_of_isPunctuation hcolon])
  refine ⟨_, hadded, List.cons_ne_nil _ _, fun tail => ?_⟩
  change Opening.of labels start.cursor.current.bare start.cursor.next.bare = .labelled
  simp [Opening.of, hlabel, hcolon]

/-- Only behind a name does the second token matter. -/
theorem Opening.of_bare {labels : Bool} {token : Token} (htoken : token.kind ≠ .identifier)
    (next other : Token) :
    Opening.of labels token.bare other = Opening.of labels token next := by
  unfold Opening.of
  rw [Token.bare_kind]
  cases hkind : token.kind with
  | identifier => exact absurd hkind htoken
  | _ => rfl

/-- The words of an expression with a semicolon open an expression. -/
theorem Opening.of_leads {labels : Bool} {words : List Token} {after : Session}
    (hopening : Opening.of labels start.cursor.current start.cursor.next = .expression)
    (hleads : start.Leads words after) (tail : Cursor) :
    Opening.of labels (tail.before (words ++ [.plain .punctuation ";"])).current
      (tail.before (words ++ [.plain .punctuation ";"])).next = .expression := by
  obtain ⟨others, rfl, -, hname⟩ := hleads.words_eq
  change Opening.of labels start.cursor.current.asWritten.bare _ = _
  by_cases hkind : start.cursor.current.kind = .identifier
  · by_cases hvalue : start.cursor.current.value ∈ Token.valueKeywords
    · have hwritten : start.cursor.current.asWritten.kind = .keyword := by
        rw [Token.asWritten, if_pos ⟨hkind, hvalue⟩]
      have hkeyword : ∀ labels, ∀ word ∈ Token.valueKeywords,
          ofKeyword labels word = .expression := by decide
      simp [Opening.of, hwritten, hkeyword labels _ hvalue]
    · have hcolon : ¬start.cursor.next.isPunctuation ":" = true := by
        intro hcolon
        simp [Opening.of, hkind, hcolon] at hopening
      rw [Token.asWritten_of_value hvalue]
      simp only [Opening.of, Token.bare_kind, hkind]
      cases others with
      | nil => rfl
      | cons second others =>
          rw [hname hkind second rfl]
          exact if_neg hcolon
  · rw [Token.asWritten_of_kind hkind, of_bare hkind start.cursor.next, hopening]

theorem expressionStatement_retells (hgrammar : grammar.Retold semicolons) {labels : Bool}
    (hopening : Opening.of labels start.cursor.current start.cursor.next = .expression) :
    Task.Retells ⟨semicolons, start, expressionStatement, []⟩ (expressionStatement grammar)
      (.opened labels .expression) := by
  intro hquiet
  have hstart := Task.start_reaches ⟨semicolons, start, expressionStatement, []⟩
  apply hstart.inlined (expression_retells hgrammar true) hquiet
  intro value read words hread hleads
  apply hread.ended (fun _ => Token.follows_mark (by decide)) hquiet
  intro semicolon after hended
  have hadded := hended.last.addAll (.expression (some value) semicolon) ⟨rfl, trivial, rfl⟩ rfl
  refine ⟨_, hadded.strengthen fun _ _ => trivial, ?_, fun tail => ?_⟩
  · exact List.append_ne_nil_of_left_ne_nil hleads.ne_nil _
  · exact Opening.of_leads hopening hleads tail

theorem emptyStatement_retells (hfirst : start.cursor.current.isPunctuation ";" = true) :
    Task.Retells ⟨semicolons, start, fun _ => emptyStatement, []⟩ emptyStatement .headed := by
  intro hquiet
  have hpassed := (Task.start_reaches ⟨semicolons, start, fun _ => emptyStatement, []⟩).advance
    start.cursor.current fun _ => trivial
  have hadded := hpassed.last.addAll (.expression none (some start.cursor.current))
    ⟨rfl, rfl, rfl⟩ (by
      simp [Draft.expression, Shape.layout, Part.mark, Token.bare_of_isPunctuation hfirst])
  exact ⟨_, hadded.strengthen fun _ _ => trivial, _, rfl⟩

theorem jump_retells {kind : Jump} (hfirst : (Opening.jump kind).Opens
    start.cursor.current start.cursor.next) :
    Task.Retells ⟨semicolons, start, (jump · kind), []⟩ (jump grammar kind) .headed := by
  intro hquiet
  have hpassed := (Task.start_reaches ⟨semicolons, start, (jump · kind), []⟩).advance
    start.cursor.current fun _ => trivial
  unfold jump
  rw [meets_bind_advance]
  apply hpassed.accept
  · intro grammar token htoken
    simp only [Bool.and_eq_true] at htoken
    simp [beq_iff_eq.mp htoken.1]
  intro label named hnamed _
  apply hnamed.ended (fun _ _ _ => rfl) hquiet
  intro semicolon after hended
  have hadded := hended.last.addAll (.jump kind start.cursor.current label semicolon)
    ⟨rfl, rfl, rfl⟩ (by
      cases kind <;> simp [Draft.jump, Shape.layout, Part.mark, Part.word,
        Token.bare_of_isKeyword hfirst])
  exact ⟨_, hadded.strengthen fun _ _ => trivial, _, rfl⟩

theorem caseLabel_retells (hgrammar : grammar.Retold semicolons)
    (hfirst : start.cursor.current.isKeyword "case" = true) :
    Task.Retells ⟨semicolons, start, caseLabel, []⟩ (caseLabel grammar) .headed := by
  intro hquiet
  have hpassed := (Task.start_reaches ⟨semicolons, start, caseLabel, []⟩).advance
    start.cursor.current fun _ => trivial
  unfold caseLabel
  rw [meets_bind_advance]
  apply hpassed.called (hgrammar.expression true _) (fun _ => rfl)
    (List.cons_ne_nil _ _) hquiet
  intro test read more hread _
  apply meets_bind_expect_of_true
  intro hlast
  have hclosed := hread.expect read.cursor.current hlast fun _ =>
    Token.follows_bare (Token.onLine_of_isPunctuation hlast)
  have hadded := hclosed.last.addAll
    (.caseLabel start.cursor.current test read.cursor.current) ⟨rfl, rfl, rfl⟩ (by
      simp [Draft.caseLabel, Shape.layout, Part.mark, Part.word, Account.expression,
        Token.bare_of_isKeyword hfirst, Token.bare_of_isPunctuation hlast])
  exact ⟨_, hadded.strengthen fun _ _ => trivial, _, rfl⟩

theorem defaultLabel_retells (hfirst : start.cursor.current.isKeyword "default" = true) :
    Task.Retells ⟨semicolons, start, fun _ => defaultLabel, []⟩ defaultLabel .headed := by
  intro hquiet
  have hpassed := (Task.start_reaches ⟨semicolons, start, fun _ => defaultLabel, []⟩).advance
    start.cursor.current fun _ => trivial
  unfold defaultLabel
  rw [meets_bind_advance]
  apply meets_bind_expect_of_true
  intro hlast
  have hclosed := hpassed.expect start.passed.cursor.current hlast fun _ => trivial
  have hadded := hclosed.last.addAll
    (.defaultLabel start.cursor.current start.passed.cursor.current) ⟨rfl, rfl, rfl⟩ (by
      simp [Draft.defaultLabel, Shape.layout, Part.mark, Part.word,
        Token.bare_of_isKeyword hfirst, Token.bare_of_isPunctuation hlast])
  exact ⟨_, hadded.strengthen fun _ _ => trivial, _, rfl⟩

theorem debugger_retells (hfirst : start.cursor.current.isKeyword "debugger" = true) :
    Task.Retells ⟨semicolons, start, debugger, []⟩ (debugger grammar) .headed := by
  intro hquiet
  have hpassed := (Task.start_reaches ⟨semicolons, start, debugger, []⟩).advance
    start.cursor.current fun _ => trivial
  unfold debugger
  rw [meets_bind_advance]
  apply hpassed.ended (fun _ => trivial) hquiet
  intro semicolon after hended
  have hadded := hended.last.addAll (.debugger start.cursor.current semicolon)
    ⟨rfl, rfl, rfl⟩ (by
      simp [Draft.debugger, Shape.layout, Part.mark, Part.word, Token.bare_of_isKeyword hfirst])
  exact ⟨_, hadded.strengthen fun _ _ => trivial, _, rfl⟩

theorem doWhile_retells (hgrammar : grammar.Retold semicolons)
    (hfirst : start.cursor.current.isKeyword "do" = true) :
    Task.Retells ⟨semicolons, start, doWhile, []⟩ (doWhile grammar) .headed := by
  intro hquiet
  have hpassed := (Task.start_reaches ⟨semicolons, start, doWhile, []⟩).advance
    start.cursor.current fun _ => trivial
  unfold doWhile
  rw [meets_bind_advance]
  apply hpassed.called (hgrammar.statement false _) (fun _ => rfl)
    (List.cons_ne_nil _ _) hquiet
  intro body read more hread _
  apply meets_bind_expect_of_true
  intro hword
  have hworded := hread.expect read.cursor.current hword
    fun tail => Account.follow_bare read tail []
  apply hworded.inlined (parenthesized_retells hgrammar) hquiet
  intro condition tested others htested _
  apply htested.ended (fun _ => trivial) hquiet
  intro semicolon after hended
  have hadded := hended.last.addAll (.doWhile start.cursor.current body condition semicolon)
    ⟨rfl, rfl, rfl⟩ (by
      simp [Draft.doWhile, Shape.layout, Part.mark, Part.word, Account.statement,
        Account.bracketed, Token.bare_of_isKeyword hfirst, Token.bare_of_isKeyword hword])
  exact ⟨_, hadded.strengthen fun _ _ => trivial, _, rfl⟩

theorem ifElse_retells (hgrammar : grammar.Retold semicolons)
    (hfirst : start.cursor.current.isKeyword "if" = true) :
    Task.Retells ⟨semicolons, start, ifElse, []⟩ (ifElse grammar) .headed := by
  intro hquiet
  have hpassed := (Task.start_reaches ⟨semicolons, start, ifElse, []⟩).advance
    start.cursor.current fun _ => trivial
  unfold ifElse
  rw [meets_bind_advance]
  apply hpassed.inlined (parenthesized_retells hgrammar) hquiet
  intro condition tested others htested _
  apply htested.called (hgrammar.statement false _) (fun _ => rfl)
    (List.cons_ne_nil _ _) hquiet
  intro thenBranch read more hread _
  rw [meets_bind_readAfter?]
  split
  · rename_i hword
    have hworded := hread.readAfter read.cursor.current hword
      fun tail => Account.follow_bare read tail []
    apply hworded.called (hgrammar.statement false _) (fun _ => rfl)
      (List.cons_ne_nil _ _) hquiet
    intro elseBranch after last hafter _
    have hadded := hafter.last.addAll
      (.ifElse start.cursor.current condition thenBranch (some elseBranch))
      ⟨rfl, rfl, trivial⟩ (by
        simp [Draft.ifElse, Shape.layout, Part.word, Account.statement, Account.bracketed,
          Token.bare_of_isKeyword hfirst, Token.bare_of_isKeyword hword])
    exact ⟨_, hadded, _, rfl⟩
  · rename_i hword
    have hadded := hread.readNone.last.addAll
      (.ifElse start.cursor.current condition thenBranch none) ⟨rfl, rfl, trivial⟩ (by
        simp [Draft.ifElse, Shape.layout, Part.word, Account.statement, Account.bracketed,
          Token.bare_of_isKeyword hfirst])
    refine ⟨_, hadded.strengthen fun tail htail => ⟨htail, ?_⟩, _, rfl⟩
    exact htail "else" (by decide) ((Bool.not_eq_true _).mp hword)

theorem switch_retells (hgrammar : grammar.Retold semicolons)
    (hfirst : start.cursor.current.isKeyword "switch" = true) :
    Task.Retells ⟨semicolons, start, switch, []⟩ (switch grammar) .headed := by
  intro hquiet
  have hpassed := (Task.start_reaches ⟨semicolons, start, switch, []⟩).advance
    start.cursor.current fun _ => trivial
  unfold switch
  rw [meets_bind_advance]
  apply hpassed.inlined (parenthesized_retells hgrammar) hquiet
  intro discriminant tested others htested _
  apply meets_bind_expect_of_true
  intro hopening
  have hopened := htested.expect tested.cursor.current hopening fun _ => trivial
  apply hopened.called (hgrammar.statements .switch _) (fun _ => rfl)
    (List.cons_ne_nil _ _) hquiet
  rintro cases read more hread ⟨hlast, -⟩
  rw [meets_bind_advance, meets_add]
  have hclosed := hread.advance read.cursor.current fun _ => hlast
  have hadded := hclosed.last.addAll
    (.switch start.cursor.current discriminant cases read.cursor.current) ⟨rfl, rfl, rfl⟩ (by
      simp [Draft.switch, Shape.layout, Part.mark, Part.word, Account.statements,
        Account.bracketed, Token.bare_of_isKeyword hfirst,
        Token.bare_of_isPunctuation hopening, Token.bare_of_isPunctuation hlast])
  exact ⟨_, hadded.strengthen fun _ _ => trivial, _, rfl⟩

theorem throws_retells (hgrammar : grammar.Retold semicolons)
    (hfirst : start.cursor.current.isKeyword "throw" = true) :
    Task.Retells ⟨semicolons, start, throws, []⟩ (throws grammar) .headed := by
  intro hquiet
  have hpassed := (Task.start_reaches ⟨semicolons, start, throws, []⟩).advance
    start.cursor.current fun _ => trivial
  unfold throws
  rw [meets_bind_advance]
  apply hpassed.called (hgrammar.expression true _) (fun _ => rfl)
    (List.cons_ne_nil _ _) hquiet
  intro value read more hread _
  apply hread.ended (fun _ => Token.follows_mark (by decide)) hquiet
  intro semicolon after hended
  have hadded := hended.last.addAll (.throws start.cursor.current value semicolon)
    ⟨rfl, rfl, rfl⟩ (by
      simp [Draft.throws, Shape.layout, Part.mark, Part.word, Account.expression,
        Token.bare_of_isKeyword hfirst])
  exact ⟨_, hadded.strengthen fun _ _ => trivial, _, rfl⟩

/-- A statement under a condition in parentheses. -/
def guarded (draft : Token → NodeId → NodeId → Draft) (grammar : Grammar) : Parse NodeId := do
  let first ← advance
  let condition ← parenthesized grammar
  let body ← grammar.statement false
  add (draft first condition body)

theorem guarded_retells (hgrammar : grammar.Retold semicolons)
    {draft : Token → NodeId → NodeId → Draft}
    (hdraft : ∀ first condition body, (draft first.bare condition body).Retraces
      (draft first condition body))
    (hlayout : ∀ condition body,
      (draft start.cursor.current condition body).shape.layout.map Part.bare =
        [.own start.cursor.current.bare, .below condition, .below body]) :
    Task.Retells ⟨semicolons, start, guarded draft, []⟩ (guarded draft grammar) .headed := by
  intro hquiet
  have hpassed := (Task.start_reaches ⟨semicolons, start, guarded draft, []⟩).advance
    start.cursor.current fun _ => trivial
  unfold guarded
  rw [meets_bind_advance]
  apply hpassed.inlined (parenthesized_retells hgrammar) hquiet
  intro condition tested others htested _
  apply htested.called (hgrammar.statement false _) (fun _ => rfl)
    (List.cons_ne_nil _ _) hquiet
  intro body after more hafter _
  have hadded := hafter.last.addAll (draft start.cursor.current condition body)
    (hdraft _ _ _) (hlayout condition body).symm
  exact ⟨_, hadded, _, rfl⟩

theorem whileLoop_retells (hgrammar : grammar.Retold semicolons)
    (hfirst : start.cursor.current.isKeyword "while" = true) :
    Task.Retells ⟨semicolons, start, whileLoop, []⟩ (whileLoop grammar) .headed := by
  apply guarded_retells hgrammar
  · intro first condition body
    exact ⟨rfl, rfl, trivial⟩
  · intro condition body
    simp [Draft.whileLoop, Shape.layout, Part.word, Token.bare_of_isKeyword hfirst]

theorem withScope_retells (hgrammar : grammar.Retold semicolons)
    (hfirst : start.cursor.current.isKeyword "with" = true) :
    Task.Retells ⟨semicolons, start, withScope, []⟩ (withScope grammar) .headed := by
  apply guarded_retells hgrammar
  · intro first scope body
    exact ⟨rfl, rfl, trivial⟩
  · intro scope body
    simp [Draft.withScope, Shape.layout, Part.word, Token.bare_of_isKeyword hfirst]

/-- A proper token is the next thing on the line. -/
theorem firstOnLine?_before {first : Token} (hfirst : first.Proper) (tail : Cursor)
    (others : List Token) :
    Cursor.firstOnLine? (tail.before (first :: others)).pending = some first := by
  have hcomment := hfirst.not_isComment
  simp only [Token.isComment, Bool.or_eq_false_iff] at hcomment
  change Cursor.firstOnLine? (first :: (others ++ tail.pending)) = some first
  rw [Cursor.firstOnLine?, hfirst.not_newline, hfirst.not_isEnd, hcomment.1, hcomment.2]
  rfl

theorem returns_retells (hgrammar : grammar.Retold semicolons)
    (hfirst : start.cursor.current.isKeyword "return" = true) :
    Task.Retells ⟨semicolons, start, returns, []⟩ (returns grammar) .headed := by
  intro hquiet
  have hpassed := (Task.start_reaches ⟨semicolons, start, returns, []⟩).advance
    start.cursor.current fun _ => trivial
  -- Without a value a semicolon is written in the second run.
  have hempty := hpassed.cursorTrue.overlookCursor
  have hbare := (hempty.endStatement fun _ => ⟨trivial, fun _ => rfl⟩).last
  have hlayout : [Part.own start.cursor.current, Part.mark ";"].map Part.bare =
      (Shape.returns (none : Option NodeId)).layout.map Part.bare := by
    simp [Shape.layout, Part.mark, Part.word, Token.bare_of_isKeyword hfirst]
  unfold returns
  rw [meets_bind_advance, meets_bind_cursor]
  split
  · apply meets_bind_endStatement_of_quiet hquiet.passed
    intro semicolon after hevolves htree
    have hadded := (hbare.reseat hevolves htree).addAll
      (.returns start.cursor.current none semicolon) ⟨rfl, rfl, rfl⟩ hlayout
    exact ⟨_, hadded.strengthen fun _ _ => trivial, _, rfl⟩
  · split
    · have hadded := hbare.addAll (.returns start.cursor.current none none)
        ⟨rfl, rfl, rfl⟩ hlayout
      exact ⟨_, hadded.strengthen fun _ _ => trivial, _, rfl⟩
    · apply (hgrammar.expression true start.passed hquiet.passed).bind
      rintro value read ⟨more, hvalue, hleads⟩
      obtain ⟨head, others, rfl, hhead⟩ := hleads.proper
      have hfull := hpassed.cursorFalse.cursorFalse.overlookCursor
      have hread := hfull.call hvalue (fun _ => rfl) (List.cons_ne_nil _ _) fun tail _ => by
        have hline := firstOnLine?_before hhead tail others
        refine ⟨⟨trivial, fun _ => ?_⟩, fun _ => ?_⟩
        · rw [Cursor.atSemicolon, hline]
          exact hhead.not_closing ";" (by decide)
        · have hend : (tail.before (head :: others)).atLineEnd = false := by
            rw [Cursor.atLineEnd, hline]
            exact hhead.not_closing "\x7d" (by decide)
          rw [hend, Bool.and_false]
      apply hread.ended (fun _ => Token.follows_mark (by decide)) hquiet
      intro semicolon after hended
      have hadded := hended.last.addAll (.returns start.cursor.current (some value) semicolon)
        ⟨rfl, rfl, rfl⟩ (by
          simp [Draft.returns, Shape.layout, Part.mark, Part.word, Account.expression,
            Token.bare_of_isKeyword hfirst])
      exact ⟨_, hadded.strengthen fun _ _ => trivial, _, rfl⟩

theorem handler_retells (hgrammar : grammar.Retold semicolons) :
    Task.Retells ⟨semicolons, start, handler, []⟩ (handler grammar) .handler := by
  intro hquiet
  apply meets_bind_expect_of_true
  intro _
  have hopened := (Task.start_reaches ⟨semicolons, start, handler, []⟩).expect
    (.plain .punctuation "(") rfl fun _ => trivial
  apply meets_bind_expect_of_true
  intro hname
  have hnamed := hopened.expect start.passed.cursor.current hname fun _ => trivial
  apply meets_bind_expect_of_true
  intro _
  have hclosed := hnamed.expect (.plain .punctuation ")") rfl fun _ => trivial
  apply hclosed.called (hgrammar.statement false _) (fun _ => rfl)
    (List.cons_ne_nil _ _) hquiet
  intro body after more hafter _
  exact ⟨_, hafter, trivial⟩

/-- A protected statement, from behind its handler. -/
def tryRest (grammar : Grammar) (first : Token) (body : NodeId)
    (handler : Option (Token × NodeId)) : Parse NodeId := do
  let finalizer ←
    readAfter? (fun token => token.isKeyword "finally") (grammar.statement false)
  if handler.isNone && finalizer.isNone then
    refuse .expectedCatchOrFinally
  else
    add (.tryCatch first body handler finalizer)

theorem tryRest_retells (hgrammar : grammar.Retold semicolons) {read : Session} {body : NodeId}
    {handler : Option (Token × NodeId)} {parts : List (Part NodeId)} {words : List Token}
    (hread : Task.Reaches ⟨semicolons, start, tryCatch, []⟩ parts
      (start.cursor.current.bare :: words) (Account.statement.follow read) read fun grammar =>
        tryRest grammar start.cursor.current.bare body (handler.map Account.handler.again))
    (hparts : parts.map Part.bare = [Part.word "try", .below body] ++
      (handler.map fun clause => [Part.word "catch", Part.mark "(", .own clause.1.bare,
        Part.mark ")", .below clause.2]).getD [])
    (hquiet : start.Quiet) :
    (tryRest grammar start.cursor.current body handler).Meets read
      (Task.Ends ⟨semicolons, start, tryCatch, []⟩ .headed) Unasked := by
  unfold tryRest
  rw [meets_bind_readAfter?]
  split
  · rename_i hword
    have hworded := hread.readAfter read.cursor.current hword
      fun tail => Account.follow_bare read tail []
    apply hworded.called (hgrammar.statement false _) (fun _ => rfl)
      (List.cons_ne_nil _ _) hquiet
    intro finalizer after more hafter _
    split
    · trivial
    · have hadded := (hafter.notTaken (by simp)).last.addAll
        (.tryCatch start.cursor.current body handler (some finalizer)) ⟨rfl, rfl, trivial⟩ (by
          cases handler <;>
            simp [Draft.tryCatch, Shape.layout, Part.mark, Part.word, Account.statement, hparts,
              Token.bare_of_isKeyword hword])
      exact ⟨_, hadded, _, rfl⟩
  · rename_i hword
    split
    · trivial
    · rename_i hhandler
      have hadded := (hread.readNone.notTaken (by simpa using hhandler)).last.addAll
        (.tryCatch start.cursor.current body handler none) ⟨rfl, rfl, ?_⟩ (by
          cases handler <;>
            simp [Draft.tryCatch, Shape.layout, Part.mark, Part.word, hparts])
      · refine ⟨_, hadded.strengthen fun tail htail => ⟨htail, ?_⟩, _, rfl⟩
        exact htail "finally" (by decide) ((Bool.not_eq_true _).mp hword)
      · cases handler <;> trivial

theorem tryCatch_retells (hgrammar : grammar.Retold semicolons)
    (hfirst : start.cursor.current.isKeyword "try" = true) :
    Task.Retells ⟨semicolons, start, tryCatch, []⟩ (tryCatch grammar) .headed := by
  intro hquiet
  have hpassed := (Task.start_reaches ⟨semicolons, start, tryCatch, []⟩).advance
    start.cursor.current fun _ => trivial
  have hrest : tryCatch grammar = (do
      let first ← advance
      let body ← grammar.statement false
      let handler ← readAfter? (fun token => token.isKeyword "catch") (handler grammar)
      tryRest grammar first body handler) := rfl
  rw [hrest, meets_bind_advance]
  apply hpassed.called (hgrammar.statement false _) (fun _ => rfl)
    (List.cons_ne_nil _ _) hquiet
  intro body read more hread _
  rw [meets_bind_readAfter?]
  split
  · rename_i hword
    have hworded := hread.readAfter read.cursor.current hword
      fun tail => Account.follow_bare read tail []
    apply hworded.inlined (handler_retells hgrammar) hquiet
    intro clause handled others hhandled _
    exact tryRest_retells hgrammar hhandled (by
      simp [Part.mark, Part.word, Account.statement, Account.handler,
        Token.bare_of_isKeyword hfirst, Token.bare_of_isKeyword hword]) hquiet
  · rename_i hword
    have hnone := hread.readNone.strengthen fun tail htail =>
      ⟨htail, htail "catch" (by decide) ((Bool.not_eq_true _).mp hword)⟩
    exact tryRest_retells hgrammar hnone (by
      simp [Part.word, Account.statement, Token.bare_of_isKeyword hfirst]) hquiet

end Production

end ScriptSyntax

import ScriptSyntax.Parse.Program
import ScriptSyntax.Proofs.Trace.Expression

/-!
# Traces of statements

The productions of statements push one part, the node of the statement.  With
them all readers of an unfolded grammar leave traces, however often it is
unfolded.
-/

namespace ScriptSyntax

open Parse

namespace Production

/-- What is known of the tokens that open a statement. -/
def Opening.Opens : Opening → Token → Token → Prop
  | .comment, token, _ => token.isComment = true
  | .labelled, token, next => token.kind = .identifier ∧ next.isPunctuation ":" = true
  | .expression, _, _ => True
  | .block, token, _ => token.isPunctuation "\x7b" = true
  | .empty, token, _ => token.isPunctuation ";" = true
  | .jump .breaks, token, _ => token.isKeyword "break" = true
  | .jump .continues, token, _ => token.isKeyword "continue" = true
  | .caseLabel, token, _ => token.isKeyword "case" = true
  | .debugger, token, _ => token.isKeyword "debugger" = true
  | .defaultLabel, token, _ => token.isKeyword "default" = true
  | .doWhile, token, _ => token.isKeyword "do" = true
  | .forLoop, token, _ => token.isKeyword "for" = true
  | .function, token, _ => token.isKeyword "function" = true
  | .ifElse, token, _ => token.isKeyword "if" = true
  | .returns, token, _ => token.isKeyword "return" = true
  | .switch, token, _ => token.isKeyword "switch" = true
  | .throws, token, _ => token.isKeyword "throw" = true
  | .tryCatch, token, _ => token.isKeyword "try" = true
  | .varStatement, token, _ => token.isKeyword "var" = true
  | .whileLoop, token, _ => token.isKeyword "while" = true
  | .withScope, token, _ => token.isKeyword "with" = true
  | .refused _, _, _ => True

theorem Opening.ofKeyword_opens (labels : Bool) {token : Token} (next : Token)
    (hkind : token.kind = .keyword) : (ofKeyword labels token.value).Opens token next := by
  unfold ofKeyword
  split
  all_goals
    rename_i hvalue
    -- The words of labels open something only where labels may stand.
    first
      | split <;> first | trivial | simp [Opens, Token.isKeyword, Token.is, hkind, hvalue]
      | simp [Opens, Token.isKeyword, Token.is, hkind, hvalue]

theorem Opening.ofPunctuation_opens {token : Token} (next : Token)
    (hkind : token.kind = .punctuation) : (ofPunctuation token.value).Opens token next := by
  unfold ofPunctuation
  split
  all_goals first
    | trivial
    | (rename_i hvalue; simp [Opens, Token.isPunctuation, Token.is, hkind, hvalue])

theorem Opening.of_opens (labels : Bool) (token next : Token) :
    (Opening.of labels token next).Opens token next := by
  unfold Opening.of
  cases hkind : token.kind
  all_goals dsimp only
  case lineComment => simp [Opens, Token.isComment, hkind]
  case blockComment => simp [Opens, Token.isComment, hkind]
  case identifier =>
    split
    · rename_i hcolon
      exact ⟨hkind, hcolon⟩
    · trivial
  case punctuation => exact ofPunctuation_opens next hkind
  case keyword => exact ofKeyword_opens labels next hkind
  all_goals trivial

variable {grammar : Grammar} {session : Session}

theorem comment_pushes (hfirst : session.cursor.current.isComment = true) :
    comment.Pushes session Part.one := by
  unfold Pushes comment
  rw [meets_bind_advance, meets_add]
  exact Trace.start.comment hfirst

theorem labelled_pushes (hgrammar : grammar.Traced)
    (hlabel : session.cursor.current.kind = .identifier)
    (hcolon : session.cursor.next.isPunctuation ":" = true) :
    (labelled grammar).Pushes session Part.one := by
  apply meets_bind_advance_of_trace Trace.start (Token.isWord_of_kind hlabel (by decide))
  intro hpassed
  have hmark : session.passed.cursor.current.isPunctuation ":" = true := hcolon
  apply meets_bind_advance_of_trace hpassed (Token.isWord_of_isPunctuation hmark)
  intro hmarked
  apply (hgrammar.statement false _).andThen hmarked
  intro statement after hafter
  apply meets_add_of_trace hafter
  constructor
  · simp [Draft.labelled, Shape.layout, Part.one, Part.gists_cons_own,
      Part.gists_cons_punctuation hmark]
  · simp [Draft.labelled]
  · simp [Draft.labelled, Part.one]
  · trivial

theorem expressionStatement_pushes (hgrammar : grammar.Traced) :
    (expressionStatement grammar).Pushes session Part.one := by
  apply (expression_pushes hgrammar true).andThen Trace.start
  intro value read hread
  apply meets_bind_endStatement hread
  intro semicolon after hafter hsemicolon
  apply meets_add_of_trace hafter
  constructor
  · simp [Draft.expression, Shape.layout, Part.one, Part.gists_semicolon hsemicolon]
  · simp [Draft.expression, Part.one, Edge.nodeOr]
  · cases semicolon <;> simp [Draft.expression, Part.one, Edge.nodeOr, Edge.tokenOr]
  · trivial

theorem emptyStatement_pushes
    (hfirst : session.cursor.current.isPunctuation ";" = true) :
    emptyStatement.Pushes session Part.one := by
  apply meets_bind_advance_of_trace Trace.start (Token.isWord_of_isPunctuation hfirst)
  intro hpassed
  apply meets_add_of_trace hpassed
  constructor
  · simp [Draft.expression, Shape.layout, Part.gists_cons_semicolon hfirst]
  · rfl
  · rfl
  · trivial

theorem jump_pushes {kind : Jump} (hfirst : (Opening.jump kind).Opens
    session.cursor.current session.cursor.next) :
    (jump grammar kind).Pushes session Part.one := by
  have hword : session.cursor.current.isWord = true := by
    cases kind <;> exact Token.isWord_of_isKeyword hfirst
  apply meets_bind_advance_of_trace Trace.start hword
  intro hpassed
  apply meets_bind_accept? hpassed
  · intro token htoken
    simp only [Bool.and_eq_true, beq_iff_eq] at htoken
    exact Token.isWord_of_kind htoken.1 (by decide)
  intro label named hnamed _
  apply meets_bind_endStatement hnamed
  intro semicolon after hafter hsemicolon
  apply meets_add_of_trace hafter
  constructor
  · cases kind <;>
      simp [Draft.jump, Shape.layout, Part.gists_cons_keyword hfirst,
        Part.gists_semicolon hsemicolon]
  · simp [Draft.jump]
  · cases semicolon <;> simp [Draft.jump, Edge.tokenOr]
  · trivial

theorem caseLabel_pushes (hgrammar : grammar.Traced)
    (hfirst : session.cursor.current.isKeyword "case" = true) :
    (caseLabel grammar).Pushes session Part.one := by
  apply meets_bind_advance_of_trace Trace.start (Token.isWord_of_isKeyword hfirst)
  intro hpassed
  apply (hgrammar.expression true _).andThen hpassed
  intro test read hread
  apply meets_bind_expectPunctuation hread
  intro last after hafter hlast
  apply meets_add_of_trace hafter
  constructor
  · simp [Draft.caseLabel, Shape.layout, Part.one, Part.gists_cons_keyword hfirst,
      Part.gists_cons_punctuation hlast]
  · simp [Draft.caseLabel]
  · simp [Draft.caseLabel]
  · trivial

theorem defaultLabel_pushes
    (hfirst : session.cursor.current.isKeyword "default" = true) :
    defaultLabel.Pushes session Part.one := by
  apply meets_bind_advance_of_trace Trace.start (Token.isWord_of_isKeyword hfirst)
  intro hpassed
  apply meets_bind_expectPunctuation hpassed
  intro last after hafter hlast
  apply meets_add_of_trace hafter
  constructor
  · simp [Draft.defaultLabel, Shape.layout, Part.gists_cons_keyword hfirst,
      Part.gists_cons_punctuation hlast]
  · simp [Draft.defaultLabel]
  · simp [Draft.defaultLabel]
  · trivial

theorem debugger_pushes (hfirst : session.cursor.current.isKeyword "debugger" = true) :
    (debugger grammar).Pushes session Part.one := by
  apply meets_bind_advance_of_trace Trace.start (Token.isWord_of_isKeyword hfirst)
  intro hpassed
  apply meets_bind_endStatement hpassed
  intro semicolon after hafter hsemicolon
  apply meets_add_of_trace hafter
  constructor
  · simp [Draft.debugger, Shape.layout, Part.gists_cons_keyword hfirst,
      Part.gists_semicolon hsemicolon]
  · simp [Draft.debugger]
  · cases semicolon <;> simp [Draft.debugger, Edge.tokenOr]
  · trivial

theorem doWhile_pushes (hgrammar : grammar.Traced)
    (hfirst : session.cursor.current.isKeyword "do" = true) :
    (doWhile grammar).Pushes session Part.one := by
  apply meets_bind_advance_of_trace Trace.start (Token.isWord_of_isKeyword hfirst)
  intro hpassed
  apply (hgrammar.statement false _).andThen hpassed
  intro body read hread
  apply meets_bind_expectKeyword hread
  intro word worded hworded hword
  apply (parenthesized_pushes hgrammar).andThen hworded
  intro condition tested htested
  apply meets_bind_endStatement htested
  intro semicolon after hafter hsemicolon
  apply meets_add_of_trace hafter
  constructor
  · simp [Draft.doWhile, Shape.layout, Part.one, Part.gists_cons_keyword hfirst,
      Part.gists_cons_keyword hword, Part.gists_semicolon hsemicolon]
  · simp [Draft.doWhile]
  · cases semicolon <;> simp [Draft.doWhile, Part.one, Edge.tokenOr]
  · trivial

theorem ifElse_pushes (hgrammar : grammar.Traced)
    (hfirst : session.cursor.current.isKeyword "if" = true) :
    (ifElse grammar).Pushes session Part.one := by
  apply meets_bind_advance_of_trace Trace.start (Token.isWord_of_isKeyword hfirst)
  intro hpassed
  apply (parenthesized_pushes hgrammar).andThen hpassed
  intro condition tested htested
  apply (hgrammar.statement false _).andThen htested
  intro thenBranch chosen hchosen
  rw [meets_bind_readAfter?]
  split
  · rename_i hword
    have hworded := hchosen.shift (Token.isWord_of_isKeyword hword)
    apply (hgrammar.statement false _).andThen hworded
    intro elseBranch after hafter
    apply meets_add_of_trace hafter
    constructor
    · simp [Draft.ifElse, Shape.layout, Part.one, Part.gists_cons_keyword hfirst,
        Part.gists_cons_keyword hword]
    · simp [Draft.ifElse]
    · simp [Draft.ifElse, Part.one, Edge.nodeOr]
    · trivial
  · apply meets_add_of_trace hchosen
    constructor
    · simp [Draft.ifElse, Shape.layout, Part.one, Part.gists_cons_keyword hfirst]
    · simp [Draft.ifElse]
    · simp [Draft.ifElse, Part.one, Edge.nodeOr]
    · trivial

theorem returns_pushes (hgrammar : grammar.Traced)
    (hfirst : session.cursor.current.isKeyword "return" = true) :
    (returns grammar).Pushes session Part.one := by
  apply meets_bind_advance_of_trace Trace.start (Token.isWord_of_isKeyword hfirst)
  intro hpassed
  rw [meets_bind_cursor]
  split
  · apply meets_bind_endStatement hpassed
    intro semicolon after hafter hsemicolon
    apply meets_add_of_trace hafter
    constructor
    · simp [Draft.returns, Shape.layout, Part.gists_cons_keyword hfirst,
        Part.gists_semicolon hsemicolon]
    · simp [Draft.returns]
    · cases semicolon <;> simp [Draft.returns, Edge.tokenOr, Edge.nodeOr]
    · trivial
  · split
    · apply meets_add_of_trace hpassed
      constructor
      · simp [Draft.returns, Shape.layout, Part.gists_cons_keyword hfirst]
      · simp [Draft.returns]
      · simp [Draft.returns, Edge.tokenOr, Edge.nodeOr]
      · trivial
    · apply (hgrammar.expression true _).andThen hpassed
      intro value read hread
      apply meets_bind_endStatement hread
      intro semicolon after hafter hsemicolon
      apply meets_add_of_trace hafter
      constructor
      · simp [Draft.returns, Shape.layout, Part.one, Part.gists_cons_keyword hfirst,
          Part.gists_semicolon hsemicolon]
      · simp [Draft.returns]
      · cases semicolon <;> simp [Draft.returns, Part.one, Edge.tokenOr, Edge.nodeOr]
      · trivial

theorem switch_pushes (hgrammar : grammar.Traced)
    (hfirst : session.cursor.current.isKeyword "switch" = true) :
    (switch grammar).Pushes session Part.one := by
  apply meets_bind_advance_of_trace Trace.start (Token.isWord_of_isKeyword hfirst)
  intro hpassed
  apply (parenthesized_pushes hgrammar).andThen hpassed
  intro discriminant tested htested
  apply meets_bind_expectPunctuation htested
  intro opening opened hopened hopening
  apply (hgrammar.statements .switch _).andThen hopened
  intro cases read hread hlast
  apply meets_bind_advance_of_trace hread (Token.isWord_of_isPunctuation hlast)
  intro hclosed
  apply meets_add_of_trace hclosed
  constructor
  · simp [Draft.switch, Shape.layout, Part.one, Part.many, Part.gists_cons_keyword hfirst,
      Part.gists_cons_punctuation hopening, Part.gists_cons_punctuation hlast]
  · simp [Draft.switch]
  · simp [Draft.switch]
  · trivial

theorem throws_pushes (hgrammar : grammar.Traced)
    (hfirst : session.cursor.current.isKeyword "throw" = true) :
    (throws grammar).Pushes session Part.one := by
  apply meets_bind_advance_of_trace Trace.start (Token.isWord_of_isKeyword hfirst)
  intro hpassed
  apply (hgrammar.expression true _).andThen hpassed
  intro value read hread
  apply meets_bind_endStatement hread
  intro semicolon after hafter hsemicolon
  apply meets_add_of_trace hafter
  constructor
  · simp [Draft.throws, Shape.layout, Part.one, Part.gists_cons_keyword hfirst,
      Part.gists_semicolon hsemicolon]
  · simp [Draft.throws]
  · cases semicolon <;> simp [Draft.throws, Part.one, Edge.tokenOr]
  · trivial

theorem declaration_pushes (hgrammar : grammar.Traced) :
    (declaration grammar).Pushes session Part.one := by
  apply meets_bind_expectIdentifier Trace.start
  intro name named hnamed hname
  rw [meets_bind_readAfter?]
  split
  · rename_i hsign
    have hsigned := hnamed.shift (Token.isWord_of_isOperator hsign)
    apply (hgrammar.expression false _).andThen hsigned
    intro initializer after hafter
    apply meets_add_of_trace hafter
    constructor
    · simp [Draft.declaration, Shape.layout, Part.one, Part.gists_cons_own name,
        Part.gists_cons_operator hsign]
    · simp [Draft.declaration]
    · simp [Draft.declaration, Part.one, Edge.nodeOr]
    · trivial
  · apply meets_add_of_trace hnamed
    constructor
    · simp [Draft.declaration, Shape.layout]
    · simp [Draft.declaration]
    · simp [Draft.declaration, Edge.nodeOr]
    · trivial

theorem declarations_pushes (hgrammar : grammar.Traced) :
    (declarations grammar).Pushes session Part.many := by
  apply meets_bind_eatComments_of_trace Trace.start
  intro huncommented
  apply (declaration_pushes hgrammar).andThen huncommented
  intro first read hread
  rw [meets_bind_current]
  split
  · rename_i hcomma
    rw [meets_bind_advance]
    have hpassed := hread.skip (Token.isSkippable_of_isComma hcomma)
    apply (hgrammar.declarations _).andThen hpassed
    intro others after hafter
    rw [meets_pure]
    simpa [Part.one, Part.many] using hafter
  · exact hread

theorem varStatement_pushes (hgrammar : grammar.Traced)
    (hfirst : session.cursor.current.isKeyword "var" = true) :
    (varStatement grammar).Pushes session Part.one := by
  apply meets_bind_advance_of_trace Trace.start (Token.isWord_of_isKeyword hfirst)
  intro hpassed
  apply (hgrammar.declarations _).andThen hpassed
  intro declarations read hread
  apply meets_bind_endStatement hread
  intro semicolon after hafter hsemicolon
  apply meets_add_of_trace hafter
  constructor
  · simp [Draft.varStatement, Shape.layout, Part.many, Part.gists_cons_keyword hfirst,
      Part.gists_semicolon hsemicolon]
  · simp [Draft.varStatement]
  · cases semicolon <;>
      cases declarations.getLast? <;>
        simp [Draft.varStatement, Part.many, Edge.tokenOr, Edge.nodeOr]
  · trivial

theorem whileLoop_pushes (hgrammar : grammar.Traced)
    (hfirst : session.cursor.current.isKeyword "while" = true) :
    (whileLoop grammar).Pushes session Part.one := by
  apply meets_bind_advance_of_trace Trace.start (Token.isWord_of_isKeyword hfirst)
  intro hpassed
  apply (parenthesized_pushes hgrammar).andThen hpassed
  intro condition tested htested
  apply (hgrammar.statement false _).andThen htested
  intro body after hafter
  apply meets_add_of_trace hafter
  constructor
  · simp [Draft.whileLoop, Shape.layout, Part.one, Part.gists_cons_keyword hfirst]
  · simp [Draft.whileLoop]
  · simp [Draft.whileLoop, Part.one]
  · trivial

theorem withScope_pushes (hgrammar : grammar.Traced)
    (hfirst : session.cursor.current.isKeyword "with" = true) :
    (withScope grammar).Pushes session Part.one := by
  apply meets_bind_advance_of_trace Trace.start (Token.isWord_of_isKeyword hfirst)
  intro hpassed
  apply (parenthesized_pushes hgrammar).andThen hpassed
  intro condition tested htested
  apply (hgrammar.statement false _).andThen htested
  intro body after hafter
  apply meets_add_of_trace hafter
  constructor
  · simp [Draft.withScope, Shape.layout, Part.one, Part.gists_cons_keyword hfirst]
  · simp [Draft.withScope]
  · simp [Draft.withScope, Part.one]
  · trivial

theorem forIn_meets (hgrammar : grammar.Traced) {start : Session} {first opening : Token}
    {varToken : Option Token} (hfirst : first.isKeyword "for" = true)
    (hopening : opening.isPunctuation "(" = true)
    (hdone : Trace start ([.own first, .own opening] ++ varToken.toList.map .own) session)
    (hname : session.cursor.current.kind = .identifier)
    (hin : session.cursor.next.isOperator "in" = true) :
    (forIn grammar first varToken).Meets session
      (fun id after => Trace start [.below id] after) (Stuck start) := by
  apply meets_bind_advance_of_trace hdone (Token.isWord_of_kind hname (by decide))
  intro hnamed
  have hword : session.passed.cursor.current.isOperator "in" = true := hin
  apply meets_bind_advance_of_trace hnamed (Token.isWord_of_isOperator hword)
  intro hworded
  apply (hgrammar.expression true _).andThen hworded
  intro object read hread
  apply meets_bind_expectPunctuation hread
  intro closing closed hclosed hclosing
  apply (hgrammar.statement false _).andThen hclosed
  intro body after hafter
  apply meets_add_of_trace hafter
  constructor
  · simp [Draft.forIn, Shape.layout, Part.one, Part.gists_cons_keyword hfirst,
      Part.gists_cons_punctuation hopening, Part.gists_cons_own session.cursor.current,
      Part.gists_cons_operator hword, Part.gists_cons_punctuation hclosing]
  · simp [Draft.forIn]
  · simp [Draft.forIn, Part.one]
  · trivial

theorem loopInit_pushes (hgrammar : grammar.Traced) (varToken : Option Token) :
    (loopInit grammar varToken).Pushes session fun init => init.children.map .below := by
  unfold Pushes loopInit
  split
  · apply (hgrammar.declarations _).andThen Trace.start
    intro declarations after hafter
    exact hafter
  · apply (hgrammar.expression true _).andThen Trace.start
    intro value after hafter
    exact hafter

/-- The rest of a loop, behind what it does before its first round. -/
def clausesFrom (grammar : Grammar) (first : Token) (varToken : Option Token)
    (init : Option (LoopInit NodeId)) : Parse NodeId := do
  let _ ← expectPunctuation ";"
  let test ← readUnless (fun token => token.isPunctuation ";") (grammar.expression true)
  let _ ← expectPunctuation ";"
  let step ← readUnless (fun token => token.isPunctuation ")") (grammar.expression true)
  let _ ← expectPunctuation ")"
  let body ← grammar.statement false
  add (.forLoop first varToken init test step body)

theorem forClauses_eq (grammar : Grammar) (first : Token) (varToken : Option Token) :
    forClauses grammar first varToken =
      readUnless (fun token => token.isPunctuation ";") (loopInit grammar varToken) >>=
        clausesFrom grammar first varToken :=
  rfl

theorem forClauses_meets (hgrammar : grammar.Traced) {start : Session}
    {first opening : Token} {varToken : Option Token}
    (hfirst : first.isKeyword "for" = true) (hopening : opening.isPunctuation "(" = true)
    (hdone : Trace start ([.own first, .own opening] ++ varToken.toList.map .own) session) :
    (forClauses grammar first varToken).Meets session
      (fun id after => Trace start [.below id] after) (Stuck start) := by
  apply (readUnless_pushes (loopInit_pushes hgrammar varToken)).andThen hdone
  intro init begun hbegun
  apply meets_bind_expectPunctuation hbegun
  intro semicolon marked hmarked hsemicolon
  apply (readUnless_pushes (hgrammar.expression true _)).andThen hmarked
  intro test tested htested
  apply meets_bind_expectPunctuation htested
  intro second halved hhalved hsecond
  apply (readUnless_pushes (hgrammar.expression true _)).andThen hhalved
  intro step stepped hstepped
  apply meets_bind_expectPunctuation hstepped
  intro closing closed hclosed hclosing
  apply (hgrammar.statement false _).andThen hclosed
  intro body after hafter
  apply meets_add_of_trace hafter
  constructor
  · have hinit : Part.gists ((init.map LoopInit.layout).getD []) =
        Part.gists ((init.map fun init => init.children.map Part.below).getD []) := by
      cases init with
      | none => rfl
      | some init => cases init <;> simp [LoopInit.layout, LoopInit.children]
    have hexpression : ∀ value : Option NodeId,
        (value.map Part.one).getD [] = value.toList.map .below := by
      intro value
      cases value <;> rfl
    simp [Draft.forLoop, Shape.layout, Part.one, hinit, hexpression,
      Part.gists_cons_keyword hfirst, Part.gists_cons_punctuation hopening,
      Part.gists_cons_semicolon hsemicolon, Part.gists_cons_semicolon hsecond,
      Part.gists_cons_punctuation hclosing]
  · simp [Draft.forLoop]
  · simp [Draft.forLoop, Part.one]
  · trivial

/-- The rest of a loop, from its variable or its first clause on. -/
def loopFrom (grammar : Grammar) (first : Token) (varToken : Option Token) : Parse NodeId := do
  if (← current).kind == .identifier && (← next).isOperator "in" then
    forIn grammar first varToken
  else
    forClauses grammar first varToken

theorem forLoop_pushes (hgrammar : grammar.Traced)
    (hfirst : session.cursor.current.isKeyword "for" = true) :
    (forLoop grammar).Pushes session Part.one := by
  apply meets_bind_advance_of_trace Trace.start (Token.isWord_of_isKeyword hfirst)
  intro hpassed
  apply meets_bind_expectPunctuation hpassed
  intro opening opened hopened hopening
  apply meets_bind_accept? hopened (fun _ => Token.isWord_of_isKeyword)
  intro varToken begun hbegun _
  rw [meets_bind_current, meets_bind_next]
  split
  · rename_i hheader
    simp only [Bool.and_eq_true, beq_iff_eq] at hheader
    exact forIn_meets hgrammar hfirst hopening hbegun hheader.1 hheader.2
  · exact forClauses_meets hgrammar hfirst hopening hbegun

theorem tryCatch_pushes (hgrammar : grammar.Traced)
    (hfirst : session.cursor.current.isKeyword "try" = true) :
    (tryCatch grammar).Pushes session Part.one := by
  apply meets_bind_advance_of_trace Trace.start (Token.isWord_of_isKeyword hfirst)
  intro hpassed
  apply (hgrammar.statement false _).andThen hpassed
  intro body read hread
  rw [meets_bind_readAfter?]
  split
  · rename_i hcatch
    have hcaught := hread.shift (Token.isWord_of_isKeyword hcatch)
    unfold handler
    simp only [bind_assoc, pure_bind]
    apply meets_bind_expectPunctuation hcaught
    intro opening opened hopened hopening
    apply meets_bind_expectIdentifier hopened
    intro name named hnamed _
    apply meets_bind_expectPunctuation hnamed
    intro closing closed hclosed hclosing
    apply (hgrammar.statement false _).andThen hclosed
    intro handlerBody handled hhandled
    rw [meets_bind_readAfter?]
    split
    · rename_i hfinally
      have hworded := hhandled.shift (Token.isWord_of_isKeyword hfinally)
      apply (hgrammar.statement false _).andThen hworded
      intro finalizer after hafter
      apply meets_add_of_trace hafter
      constructor
      · simp [Draft.tryCatch, Shape.layout, Part.one, Part.gists_cons_keyword hfirst,
          Part.gists_cons_keyword hcatch, Part.gists_cons_punctuation hopening,
          Part.gists_cons_own name, Part.gists_cons_punctuation hclosing,
          Part.gists_cons_keyword hfinally]
      · simp [Draft.tryCatch]
      · simp [Draft.tryCatch, Part.one, Edge.nodeOr]
      · trivial
    · apply meets_add_of_trace hhandled
      constructor
      · simp [Draft.tryCatch, Shape.layout, Part.one, Part.gists_cons_keyword hfirst,
          Part.gists_cons_keyword hcatch, Part.gists_cons_punctuation hopening,
          Part.gists_cons_own name, Part.gists_cons_punctuation hclosing]
      · simp [Draft.tryCatch]
      · simp [Draft.tryCatch, Part.one, Edge.nodeOr]
      · trivial
  · rw [meets_bind_readAfter?]
    split
    · rename_i hfinally
      have hworded := hread.shift (Token.isWord_of_isKeyword hfinally)
      apply (hgrammar.statement false _).andThen hworded
      intro finalizer after hafter
      apply meets_add_of_trace hafter
      constructor
      · simp [Draft.tryCatch, Shape.layout, Part.one, Part.gists_cons_keyword hfirst,
          Part.gists_cons_keyword hfinally]
      · simp [Draft.tryCatch]
      · simp [Draft.tryCatch, Part.one, Edge.nodeOr]
      · trivial
    · exact Stuck.of_trace hread

theorem statement_pushes (hgrammar : grammar.Traced) (labels : Bool) :
    (statement grammar labels).Pushes session Part.one := by
  unfold Pushes statement
  rw [meets_bind_current, meets_bind_next]
  have hopens := Opening.of_opens labels session.cursor.current session.cursor.next
  cases hof : Opening.of labels session.cursor.current session.cursor.next
  all_goals rw [hof] at hopens
  case comment => exact comment_pushes hopens
  case labelled => exact labelled_pushes hgrammar hopens.1 hopens.2
  case expression => exact expressionStatement_pushes hgrammar
  case block => exact block_pushes hgrammar
  case empty => exact emptyStatement_pushes hopens
  case jump => exact jump_pushes hopens
  case caseLabel => exact caseLabel_pushes hgrammar hopens
  case debugger => exact debugger_pushes hopens
  case defaultLabel => exact defaultLabel_pushes hopens
  case doWhile => exact doWhile_pushes hgrammar hopens
  case forLoop => exact forLoop_pushes hgrammar hopens
  case function => exact function_pushes hgrammar hopens
  case ifElse => exact ifElse_pushes hgrammar hopens
  case returns => exact returns_pushes hgrammar hopens
  case switch => exact switch_pushes hgrammar hopens
  case throws => exact throws_pushes hgrammar hopens
  case tryCatch => exact tryCatch_pushes hgrammar hopens
  case varStatement => exact varStatement_pushes hgrammar hopens
  case whileLoop => exact whileLoop_pushes hgrammar hopens
  case withScope => exact withScope_pushes hgrammar hopens
  case refused => exact Stuck.of_trace Trace.start

theorem statements_pushesTo (hgrammar : grammar.Traced) (enclosure : Enclosure) :
    (statements grammar enclosure).PushesTo session Part.many enclosure.closedBy := by
  unfold PushesTo statements
  rw [meets_bind_current]
  split
  · rename_i hclosed
    exact ⟨Trace.start, hclosed⟩
  · apply (statement_pushes hgrammar _).andThen Trace.start
    intro first read hread
    apply (hgrammar.statements enclosure _).andThen hread
    intro others after hafter hclosed
    exact ⟨by simpa [Part.one, Part.many] using hafter, hclosed⟩

end Production

theorem Grammar.unfold_traced {grammar : Grammar} (hgrammar : grammar.Traced) :
    grammar.unfold.Traced where
  statement labels _ := Production.statement_pushes hgrammar labels
  statements enclosure _ := Production.statements_pushesTo hgrammar enclosure
  parameters _ := Production.parameters_pushesTo hgrammar
  declarations _ := Production.declarations_pushes hgrammar
  expression commas _ := Production.expression_pushes hgrammar commas
  assignment _ := Production.assignment_pushes hgrammar
  operand calls _ := Production.operand_pushes hgrammar calls
  operations left floor _ := Production.operations_continues hgrammar left floor
  suffixes target calls _ := Production.suffixes_continues hgrammar target calls
  items closing _ := Production.items_pushesTo hgrammar closing
  properties _ := Production.properties_pushesTo hgrammar

theorem Grammar.upTo_traced (semicolons : Semicolons) (depth : Nat) :
    (Grammar.upTo semicolons depth).Traced := by
  induction depth with
  | zero => exact exhausted_traced semicolons
  | succ depth ih => exact unfold_traced ih

theorem exists_parse {semicolons : Semicolons} {tokens : List Token}
    (hok : (parse semicolons tokens).isOk = true) :
    ∃ tree, parse semicolons tokens = .ok tree := by
  cases hparse : parse semicolons tokens with
  | ok tree => exact ⟨tree, rfl⟩
  | error diagnostic =>
      rw [hparse] at hok
      cases hok

/-- A program that is read, and something of its tree. -/
theorem exists_parse_eq {Value : Type} {semicolons : Semicolons} {tokens : List Token}
    {read : Tree → Value} {value : Value}
    (hread : (parse semicolons tokens).toOption.map read = some value) :
    ∃ tree, parse semicolons tokens = .ok tree ∧ read tree = value := by
  cases hparse : parse semicolons tokens with
  | error diagnostic =>
      rw [hparse] at hread
      cases hread
  | ok tree =>
      rw [hparse] at hread
      exact ⟨tree, rfl, Option.some.inj hread⟩

/-- The run of a program behind its tree. -/
theorem run_of_parse {semicolons : Semicolons} {tokens : List Token} {tree : Tree}
    (hparse : parse semicolons tokens = .ok tree) :
    ∃ id after, after.tree = tree ∧
      Production.program (.upTo semicolons ((Cursor.ofTokens tokens).pending.length + 1))
        (.start tokens) = .ok id after := by
  unfold parse EStateM.run at hparse
  split at hparse
  · rename_i id after hok
    cases hparse
    exact ⟨id, after, rfl, hok⟩
  · cases hparse

theorem parse_of_run {semicolons : Semicolons} {tokens : List Token} {id : NodeId}
    {after : Session}
    (hrun : Production.program (.upTo semicolons ((Cursor.ofTokens tokens).pending.length + 1))
      (.start tokens) = .ok id after) :
    parse semicolons tokens = .ok after.tree := by
  have hreading : (Parse.reading semicolons Production.program).run (.start tokens) =
      .ok id after := hrun
  rw [parse, hreading]

/-- A program is read by a trace that leaves its statements and stops at an end
token. -/
theorem trace_of_parse {semicolons : Semicolons} {tokens : List Token} {tree : Tree}
    (hparse : parse semicolons tokens = .ok tree) :
    ∃ body after, Trace (.start tokens) (Part.many body) after ∧
      after.cursor.current.isEnd = true ∧
      tree = (after.grown (.root body after.cursor.current)).tree := by
  obtain ⟨id, final, rfl, hrun⟩ := run_of_parse hparse
  have hgrammar := Grammar.upTo_traced semicolons
    ((Cursor.ofTokens tokens).pending.length + 1)
  have hread : (Production.program
      (.upTo semicolons ((Cursor.ofTokens tokens).pending.length + 1))).Meets (.start tokens)
      (fun _ final => ∃ body after, Trace (.start tokens) (Part.many body) after ∧
        after.cursor.current.isEnd = true ∧
        final.tree = (after.grown (.root body after.cursor.current)).tree)
      (Stuck (.start tokens)) := by
    apply (Production.statements_pushesTo hgrammar .program).andThen Trace.start
    intro body after hafter hend
    rw [meets_bind_current, meets_add]
    exact ⟨body, after, hafter, hend, rfl⟩
  exact hread.of_ok hrun

end ScriptSyntax

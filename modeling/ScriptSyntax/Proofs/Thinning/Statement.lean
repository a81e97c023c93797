import ScriptSyntax.Proofs.Thinning.Expression

/-!
# Statements over thinned tokens

A comment where a statement is due is a statement.  If the second run lacks the comment, the
first one has read something else in place of a statement: it is doomed, because such a
comment is the body of nothing.
-/

namespace ScriptSyntax

open Parse Thinning

namespace Thinning

variable {thinning : Thinning} {Result Other : Type}

/-- A comment that is left out is not the body of anything. -/
theorem not_stray_of_mem {parent : NodeId} {shape : Shape NodeId}
    (hshape : thinning.first.shape? parent = some shape) {body : NodeId}
    (hbody : body ∈ shape.ownSlots) : ¬thinning.Stray body := by
  rintro ⟨comment, hcomment, hspare⟩
  obtain ⟨node, hnode, -⟩ := Option.map_eq_some_iff.mp hshape
  apply hspare
  unfold kept Tree.bodyComments
  rw [List.mem_flatMap]
  refine ⟨parent, Tree.mem_ids_iff_find?.mpr ⟨node, hnode⟩, ?_⟩
  rw [hshape, Option.map_some, Option.getD_some, List.mem_filterMap]
  exact ⟨body, hbody, hcomment⟩

/-- No node can have such a comment as its body. -/
theorem dooms_add_slot {draft : Draft} {body : NodeId} {doomed : NodeId → Session → Prop}
    (hbody : body ∈ draft.shape.ownSlots) :
    thinning.Dooms (fun _ => thinning.Stray body) (add draft) doomed := by
  rintro session _ _ hstray ⟨⟩ hstands
  have hshape := Tree.shape?_insert_self session.tree draft.shape (draft.span session.tree)
  exact absurd hstray (not_stray_of_mem (hstands.shape?_eq hshape) hbody)

/-- A run that is stalled before such a word stays so. -/
theorem dooms_add_stalled {draft : Draft} {test : Token → Bool}
    (htest : ∀ token, test token = true → token.continuesStatement = true) :
    thinning.Dooms (Session.Stalled test) (add draft) BreaksOff := by
  rintro session _ _ hstalled ⟨⟩ _
  exact Session.Stalled.mono hstalled htest

theorem dooms_add_body {draft : Draft} {body : NodeId} (hbody : body ∈ draft.shape.ownSlots) :
    thinning.Dooms (thinning.Strays body) (add draft) BreaksOff := by
  have hstray : thinning.Dooms (fun _ => thinning.Stray body) (add draft) BreaksOff :=
    dooms_add_slot hbody
  exact hstray.or (dooms_add_stalled fun _ => id)

/-- Nothing is read behind a keyword where a run is stalled. -/
theorem leads_readAfter? (test : Token → Bool) (word : String) (reader : Parse Other) :
    Leads (Session.Stalled test) (readAfter? (fun token => token.isKeyword word) reader)
      (fun value session => value = none ∧ session.Stalled test) := by
  intro session value after hstalled hrun
  have hcurrent : session.cursor.current.isKeyword word = false :=
    hstalled.test_current fun _ => Token.isWord_of_isKeyword
  have hnone : readAfter? (fun token => token.isKeyword word) reader session =
      (pure none : Parse (Option Other)) session :=
    look_of_false hcurrent
  rw [hnone] at hrun
  cases hrun
  exact ⟨rfl, hstalled⟩

/-- What has been read stays what it is. -/
theorem Dooms.behind {lost : Prop} {reader : Parse Other} {next : Other → Parse Result}
    {doomed : Result → Session → Prop}
    (hnext : ∀ value, thinning.Dooms (fun _ => lost) (next value) doomed) :
    thinning.Dooms (fun _ => lost) (reader >>= next) doomed :=
  Dooms.bind (fun _ _ _ hlost _ => hlost) hnext

/-- Both runs pass a token that a word follows. -/
theorem agree_advance_word {known : Prop} :
    thinning.Agree known
      (fun first second => thinning.Level first second ∧ first.cursor.next.isWord = true) advance
      advance never Eq thinning.Level where
  retains := (points_advance : advance.Points .required).retains
  retains_other := (points_advance : advance.Points .required).retains
  run {first second _ _ _ _} hknown hstart hrun hother _ _ := by
    obtain ⟨hlevel, hword⟩ := hstart
    cases hrun
    cases hother
    have hbeside : thinning.Beside first.passed second.passed := hlevel.advance
    exact .inr ⟨hlevel.current, hbeside.level hword⟩

theorem eq_ok_of_unlessRefused {condition : Prop} [Decidable condition] {reason : Reason}
    {reader : Parse Result} {session after : Session} {value : Result}
    (hrun : (if condition then refuse reason else reader) session = .ok value after) :
    reader session = .ok value after := by
  split at hrun
  · cases hrun
  · exact hrun

/-- Where both runs go on, neither has been refused. -/
theorem Agree.unlessRefused {condition condition' : Prop} [Decidable condition]
    [Decidable condition'] {known : Prop} {start beside : Session → Session → Prop}
    {reader other : Parse Result} {doomed : Result → Session → Prop}
    {same : Result → Result → Prop} {reason reason' : Reason}
    (hreader : thinning.Agree known start reader other doomed same beside) :
    thinning.Agree known start (if condition then refuse reason else reader)
      (if condition' then refuse reason' else other) doomed same beside where
  retains _ _ _ hrun := hreader.retains _ _ _ (eq_ok_of_unlessRefused hrun)
  retains_other _ _ _ hrun := hreader.retains_other _ _ _ (eq_ok_of_unlessRefused hrun)
  run hknown hstart hrun hother :=
    hreader.run hknown hstart (eq_ok_of_unlessRefused hrun) (eq_ok_of_unlessRefused hother)

theorem Dooms.unlessRefused {condition : Prop} [Decidable condition] {reason : Reason}
    {before : Session → Prop} {reader : Parse Result} {doomed : Result → Session → Prop}
    (hreader : thinning.Dooms before reader doomed) :
    thinning.Dooms before (if condition then refuse reason else reader) doomed :=
  fun session value after hbefore hrun =>
    hreader session value after hbefore (eq_ok_of_unlessRefused hrun)

end Thinning

namespace Production

variable {thinning : Thinning} {known : Prop} {grammar other : Grammar}

theorem endStatement_agrees (hgrammar : grammar.Agrees thinning other) :
    thinning.Agree True thinning.Beside (endStatement grammar.semicolons)
      (endStatement other.semicolons) never Eq thinning.Beside := by
  rw [← hgrammar.semicolons]
  exact agree_endStatement grammar.semicolons

/-! ## Statements without others in them -/

theorem comment_agrees :
    thinning.Agree True thinning.Level comment comment never thinning.Same thinning.Beside := by
  apply agree_advance.andThen
  intro token
  exact agree_add fun _ => leaf_drafted .comment token

theorem expressionStatement_agrees (hgrammar : grammar.Agrees thinning other) :
    thinning.Agree True thinning.Beside (expressionStatement grammar) (expressionStatement other)
      never thinning.Same thinning.Beside := by
  apply (expression_agrees hgrammar true).bind
  case hdoomed =>
    intro value
    exact (fails_endStatement_of_continues grammar.semicolons true).bind.dooms
  case hnext =>
    intro value result
    apply (endStatement_agrees hgrammar).andThen
    intro semicolon
    apply agree_add
    rintro ⟨-, hvalue⟩
    cases semicolon
    all_goals constructor
    all_goals simp [Draft.expression, Shape.map, Shape.mapIdx, Shape.uncommented, Shape.isRoot,
      Shape.children, Edge.tokenOr, Edge.nodeOr, Edge.token, Edge.span, Edge.nodes, hvalue.term,
      hvalue.span]

theorem emptyStatement_agrees :
    thinning.Agree True thinning.Level emptyStatement emptyStatement never thinning.Same
      thinning.Beside := by
  apply agree_advance.andThen
  intro semicolon
  apply agree_add
  intro _
  constructor
  all_goals simp [Draft.expression, Shape.map, Shape.mapIdx, Shape.uncommented, Shape.isRoot,
    Shape.children, Edge.tokenOr, Edge.nodeOr, Edge.token, Edge.span, Edge.nodes]

theorem jump_agrees (hgrammar : grammar.Agrees thinning other) (kind : Jump) :
    thinning.Agree True thinning.Level (jump grammar kind) (jump other kind) never thinning.Same
      thinning.Beside := by
  have hname : ∀ token : Token, (token.kind == .identifier &&
      (!token.newlineBefore || grammar.semicolons == .required)) = true →
      token.kind = .identifier := by
    intro token htoken
    exact beq_iff_eq.mp (Bool.and_eq_true_iff.mp htoken).1
  have hmark : ∀ (mark : String) (token : Token), (token.kind == .identifier &&
      (!token.newlineBefore || grammar.semicolons == .required)) = true →
      token.isPunctuation mark = false := by
    intro mark token htoken
    simp [Token.isPunctuation, Token.is, hname token htoken]
  unfold jump
  rw [← hgrammar.semicolons]
  apply agree_advance.andThen
  intro first
  apply (agree_accept? fun token htoken => Token.isWord_of_kind (hname token htoken) rfl).bindEq
  case hdoomed =>
    rintro (- | name)
    · exact (fails_endStatement grammar.semicolons (hmark ";") (hmark "\x7d")).bind.dooms
    · exact dooms_never name
  case hnext =>
    intro label
    apply (agree_endStatement grammar.semicolons).andThen
    intro semicolon
    apply agree_add
    intro _
    cases semicolon <;> cases label
    all_goals constructor
    all_goals simp [Draft.jump, Shape.map, Shape.mapIdx, Shape.uncommented, Shape.isRoot,
      Shape.children, Edge.tokenOr, Edge.token, Edge.span, Edge.nodes]

theorem defaultLabel_agrees :
    thinning.Agree True thinning.Level defaultLabel defaultLabel never thinning.Same
      thinning.Beside := by
  apply agree_advance.andThen
  intro first
  apply (agree_expectPunctuation ":").andThen
  intro last
  apply agree_add
  intro _
  constructor
  all_goals simp [Draft.defaultLabel, Shape.map, Shape.mapIdx, Shape.uncommented, Shape.isRoot,
    Edge.token, Edge.span, Edge.nodes]

theorem debugger_agrees (hgrammar : grammar.Agrees thinning other) :
    thinning.Agree True thinning.Level (debugger grammar) (debugger other) never thinning.Same
      thinning.Beside := by
  apply agree_advance.andThen
  intro first
  apply (endStatement_agrees hgrammar).andThen
  intro semicolon
  apply agree_add
  intro _
  cases semicolon
  all_goals constructor
  all_goals simp [Draft.debugger, Shape.map, Shape.mapIdx, Shape.uncommented, Shape.isRoot,
    Edge.tokenOr, Edge.token, Edge.span, Edge.nodes]

theorem throws_agrees (hgrammar : grammar.Agrees thinning other) :
    thinning.Agree True thinning.Level (throws grammar) (throws other) never thinning.Same
      thinning.Beside := by
  apply agree_advance.andThen
  intro first
  apply (hgrammar.expression true).bind
  case hdoomed =>
    intro value
    exact (fails_endStatement_of_continues grammar.semicolons true).bind.dooms
  case hnext =>
    intro value result
    apply (endStatement_agrees hgrammar).andThen
    intro semicolon
    apply agree_add
    rintro ⟨-, hvalue⟩
    cases semicolon
    all_goals constructor
    all_goals simp [Draft.throws, Shape.map, Shape.mapIdx, Shape.uncommented, Shape.isRoot,
      Shape.children, Edge.tokenOr, Edge.token, Edge.span, Edge.nodes, hvalue.term, hvalue.span]

theorem caseLabel_agrees (hgrammar : grammar.Agrees thinning other) :
    thinning.Agree True thinning.Level (caseLabel grammar) (caseLabel other) never thinning.Same
      thinning.Beside := by
  apply agree_advance.andThen
  intro first
  apply (hgrammar.expression true).bind
  case hdoomed =>
    intro test
    exact (fails_expect_stalled fun _ => Token.isWord_of_isPunctuation).bind.dooms
  case hnext =>
    intro test result
    apply (agree_expectPunctuation ":").andThen
    intro last
    apply agree_add
    rintro ⟨-, htest⟩
    constructor
    all_goals simp [Draft.caseLabel, Shape.map, Shape.mapIdx, Shape.uncommented, Shape.isRoot,
      Edge.token, Edge.span, Edge.nodes, htest.term]

/-- The rest of a return, given whether a semicolon or nothing is next on the line. -/
def returned (grammar : Grammar) (first : Token) (semicolon lineEnd : Bool) : Parse NodeId :=
  if semicolon then do
    let semicolon ← endStatement grammar.semicolons
    add (.returns first none semicolon)
  else if grammar.semicolons == .inserted && lineEnd then
    add (.returns first none none)
  else do
    let value ← grammar.expression true
    let semicolon ← endStatement grammar.semicolons
    add (.returns first value semicolon)

theorem returned_agrees (hgrammar : grammar.Agrees thinning other) (first : Token)
    (semicolon lineEnd : Bool) :
    thinning.Agree True thinning.Beside (returned grammar first semicolon lineEnd)
      (returned other first semicolon lineEnd) never thinning.Same thinning.Beside := by
  unfold returned
  rw [← hgrammar.semicolons]
  apply Agree.ite
  · intro _
    apply (agree_endStatement grammar.semicolons).andThen
    intro semicolon
    apply agree_add
    intro _
    cases semicolon
    all_goals constructor
    all_goals simp [Draft.returns, Shape.map, Shape.mapIdx, Shape.uncommented, Shape.isRoot,
      Shape.children, Edge.tokenOr, Edge.nodeOr, Edge.token, Edge.span, Edge.nodes]
  intro _
  apply Agree.ite
  · intro _
    apply agree_add
    intro _
    constructor
    all_goals simp [Draft.returns, Shape.map, Shape.mapIdx, Shape.uncommented, Shape.isRoot,
      Shape.children, Edge.tokenOr, Edge.nodeOr, Edge.token, Edge.span, Edge.nodes]
  intro _
  apply (hgrammar.expression true).bind
  case hdoomed =>
    intro value
    exact (fails_endStatement_of_continues grammar.semicolons true).bind.dooms
  case hnext =>
    intro value result
    apply (agree_endStatement grammar.semicolons).andThen
    intro semicolon
    apply agree_add
    rintro ⟨-, hvalue⟩
    cases semicolon
    all_goals constructor
    all_goals simp [Draft.returns, Shape.map, Shape.mapIdx, Shape.uncommented, Shape.isRoot,
      Shape.children, Edge.tokenOr, Edge.nodeOr, Edge.token, Edge.span, Edge.nodes, hvalue.term,
      hvalue.span]

theorem returns_eq (grammar : Grammar) :
    returns grammar = advance >>= fun first =>
      (fun session => returned grammar first session.cursor.atSemicolon session.cursor.atLineEnd
        session : Parse NodeId) :=
  rfl

theorem returns_agrees (hgrammar : grammar.Agrees thinning other) :
    thinning.Agree True thinning.Level (returns grammar) (returns other) never thinning.Same
      thinning.Beside := by
  rw [returns_eq, returns_eq]
  apply agree_advance.andThen
  intro first
  constructor
  case retains =>
    intro session
    exact (returned_agrees hgrammar first _ _).retains session
  case retains_other =>
    intro session
    exact (returned_agrees hgrammar first _ _).retains_other session
  case run =>
    intro session later after final value result hyes hbeside hrun hother
    rw [← Cursor.Thinned.atSemicolon_eq hbeside, ← Cursor.Thinned.atLineEnd_eq hbeside] at hother
    exact (returned_agrees hgrammar first _ _).run hyes hbeside hrun hother

/-! ## Variables -/

theorem declaration_agrees (hgrammar : grammar.Agrees thinning other) :
    thinning.Agree True thinning.Beside (declaration grammar) (declaration other)
      (HaltsEarly false) thinning.Same thinning.Beside := by
  apply (agree_expect fun _ => Token.isWord_of_isIdentifier).andThen
  intro name
  apply (Agree.readAfter? (fun _ => Token.isWord_of_isOperator) (hgrammar.expression false)).bind
  case hdoomed =>
    rintro (- | initializer)
    · rintro session id after hstalled ⟨⟩ _
      apply Session.Stalled.mono hstalled
      intro token hequals
      exact Token.continues_of_kind ((token.is_iff _ _).mp hequals).1
    · exact leads_add.dooms
  case hnext =>
    intro initializer result
    apply agree_add
    rintro ⟨-, hinitializer⟩
    constructor
    case shape => simp [Draft.declaration, Shape.map, Shape.mapIdx, Shape.uncommented,
      term_of_rel hinitializer]
    case last => rw [Draft.declaration, Draft.declaration, Edge.span_nodeOr, Edge.span_nodeOr,
      span_of_rel hinitializer, Edge.token, Edge.span, Edge.span]
    case edges => cases initializer <;>
      simp [Draft.declaration, Edge.nodeOr, Edge.token, Edge.nodes, Shape.children]
    case edges_other => cases result <;>
      simp [Draft.declaration, Edge.nodeOr, Edge.token, Edge.nodes, Shape.children]
    all_goals simp [Draft.declaration, Shape.isRoot, Edge.token, Edge.span]

theorem declarations_agrees (hgrammar : grammar.Agrees thinning other) :
    thinning.Agree True thinning.Beside (declarations grammar) (declarations other)
      (HaltsEarly true) (List.Forall₂ thinning.Same) thinning.Beside := by
  apply agree_eatComments.follow
  intro comment another
  apply (declaration_agrees hgrammar).ofBeside.bind
  case hdoomed =>
    intro first
    apply Dooms.look
    · intro session hstalled
      exact Session.Stalled.test_current hstalled fun _ => Token.isWord_of_isPunctuation
    · apply dooms_pure
      intro session hstalled
      exact Session.Stalled.mono hstalled fun token htoken => Token.continues_of_false htoken true
  case hnext =>
    intro first result
    apply Agree.look fun _ => Token.isWord_of_isPunctuation
    case hyes =>
      intro token _
      apply agree_advance.andThen
      intro _
      apply hgrammar.declarations.bind
      case hdoomed => exact fun rest => dooms_pure fun _ hstalled => hstalled
      case hnext =>
        intro rest others
        exact agree_pure fun ⟨⟨_, hfirst⟩, hrest⟩ => .cons hfirst hrest
    case hno => exact agree_pure fun ⟨_, hfirst⟩ => .cons hfirst .nil
    case hdoomed =>
      apply dooms_pure
      intro session hstalled
      apply hstalled.mono
      intro token hcomma
      simp [Token.continues, hcomma]

theorem varStatement_agrees (hgrammar : grammar.Agrees thinning other) :
    thinning.Agree True thinning.Level (varStatement grammar) (varStatement other) never
      thinning.Same thinning.Beside := by
  apply agree_advance.andThen
  intro first
  apply hgrammar.declarations.bind
  case hdoomed =>
    intro declarations
    exact (fails_endStatement_of_continues grammar.semicolons true).bind.dooms
  case hnext =>
    intro declarations others
    apply (endStatement_agrees hgrammar).andThen
    intro semicolon
    apply agree_add
    rintro ⟨-, hdeclarations⟩
    have hlast : declarations.getLast?.map thinning.first.span =
        others.getLast?.map thinning.second.span := by
      rw [← List.getLast?_map, ← List.getLast?_map, spans_of_forall₂ hdeclarations]
    have hedges : ∀ declarations : List NodeId, ∀ id ∈ (Edge.token first).nodes ++
        (Edge.tokenOr semicolon (.nodeOr declarations.getLast? (.token first))).nodes,
        id ∈ declarations := by
      intro declarations id hid
      have hnode := Edge.mem_nodes_nodeOr _ (Edge.mem_nodes_tokenOr _ hid)
      exact List.mem_of_getLast? (by simpa [Edge.token, Edge.nodes] using hnode)
    constructor
    case shape => simp [Draft.varStatement, Shape.map, Shape.mapIdx, Shape.mapIdx_eq_map,
      Shape.uncommented, terms_of_forall₂ hdeclarations]
    case last => rw [Draft.varStatement, Draft.varStatement, Edge.span_tokenOr, Edge.span_tokenOr,
      Edge.span_nodeOr, Edge.span_nodeOr, hlast, Edge.token, Edge.span, Edge.span]
    case edges => exact hedges declarations
    case edges_other => exact hedges others
    all_goals simp [Draft.varStatement, Shape.isRoot, Edge.token, Edge.span]

/-! ## Statements with a body -/

theorem whileLoop_agrees (hgrammar : grammar.Agrees thinning other) :
    thinning.Agree True thinning.Level (whileLoop grammar) (whileLoop other) BreaksOff
      thinning.Same thinning.Beside := by
  apply agree_advance.andThen
  intro first
  apply (parenthesized_agrees hgrammar).follow
  intro condition result
  apply (hgrammar.statement false).bind
  case hdoomed =>
    intro body
    exact dooms_add_body (by simp [Draft.whileLoop, Shape.ownSlots, Shape.children])
  case hnext =>
    intro body another
    apply agree_add
    rintro ⟨⟨-, hcondition⟩, hbody⟩
    constructor
    all_goals simp [Draft.whileLoop, Shape.map, Shape.mapIdx, Shape.uncommented, Shape.isRoot,
      Shape.children, Edge.token, Edge.span, Edge.nodes, hcondition.term, hbody.term, hbody.span]

theorem withScope_agrees (hgrammar : grammar.Agrees thinning other) :
    thinning.Agree True thinning.Level (withScope grammar) (withScope other) BreaksOff
      thinning.Same thinning.Beside := by
  apply agree_advance.andThen
  intro first
  apply (parenthesized_agrees hgrammar).follow
  intro object result
  apply (hgrammar.statement false).bind
  case hdoomed =>
    intro body
    exact dooms_add_body (by simp [Draft.withScope, Shape.ownSlots, Shape.children])
  case hnext =>
    intro body another
    apply agree_add
    rintro ⟨⟨-, hobject⟩, hbody⟩
    constructor
    all_goals simp [Draft.withScope, Shape.map, Shape.mapIdx, Shape.uncommented, Shape.isRoot,
      Shape.children, Edge.token, Edge.span, Edge.nodes, hobject.term, hbody.term, hbody.span]

theorem doWhile_agrees (hgrammar : grammar.Agrees thinning other) :
    thinning.Agree True thinning.Level (doWhile grammar) (doWhile other) never thinning.Same
      thinning.Beside := by
  apply agree_advance.andThen
  intro first
  apply (hgrammar.statement false).bind
  case hdoomed =>
    intro body
    apply Dooms.or
    · apply Dooms.behind
      intro word
      apply Dooms.behind
      intro condition
      apply Dooms.behind
      intro semicolon
      exact dooms_add_slot (by simp [Draft.doWhile, Shape.ownSlots, Shape.children])
    · exact (fails_expect_stalled fun _ => Token.isWord_of_isKeyword).bind.dooms
  case hnext =>
    intro body another
    apply (agree_expect fun _ => Token.isWord_of_isKeyword).andThen
    intro word
    apply (parenthesized_agrees hgrammar).follow
    intro condition result
    apply (endStatement_agrees hgrammar).andThen
    intro semicolon
    apply agree_add
    rintro ⟨⟨-, hbody⟩, hcondition⟩
    cases semicolon
    all_goals constructor
    all_goals simp [Draft.doWhile, Shape.map, Shape.mapIdx, Shape.uncommented, Shape.isRoot,
      Shape.children, Edge.tokenOr, Edge.token, Edge.span, Edge.nodes, hcondition.term,
      hcondition.span, hbody.term]

theorem ifElse_agrees (hgrammar : grammar.Agrees thinning other) :
    thinning.Agree True thinning.Level (ifElse grammar) (ifElse other) BreaksOff
      thinning.Same thinning.Beside := by
  have hword : ∀ token : Token, token.isKeyword "else" = true →
      token.continuesStatement = true := by
    intro token htoken
    rw [Token.continuesStatement, htoken, Bool.true_or, Bool.true_or]
  apply agree_advance.andThen
  intro first
  apply (parenthesized_agrees hgrammar).follow
  intro condition result
  apply (hgrammar.statement false).bind
  case hdoomed =>
    intro thenBranch
    apply Dooms.or
    · apply Dooms.behind
      intro elseBranch
      exact dooms_add_slot (by simp [Draft.ifElse, Shape.ownSlots, Shape.children])
    · refine Dooms.bind (leads_readAfter? _ "else" _) ?_
      rintro elseBranch session _ after ⟨-, hstalled⟩
      exact dooms_add_stalled (fun _ => id) session _ after hstalled
  case hnext =>
    intro thenBranch another
    apply (Agree.readAfter? (fun _ => Token.isWord_of_isKeyword) (hgrammar.statement false)).bind
    case hdoomed =>
      rintro (- | elseBranch)
      · exact dooms_add_stalled hword
      · exact dooms_add_body (by simp [Draft.ifElse, Shape.ownSlots, Shape.children])
    case hnext =>
      intro elseBranch elseBranch'
      apply agree_add
      rintro ⟨⟨⟨-, hcondition⟩, hthen⟩, helse⟩
      cases helse with
      | none =>
          constructor
          all_goals simp [Draft.ifElse, Shape.map, Shape.mapIdx, Shape.uncommented, Shape.isRoot,
            Shape.children, Edge.nodeOr, Edge.token, Edge.span, Edge.nodes, hcondition.term,
            hthen.term, hthen.span]
      | some helse =>
          constructor
          all_goals simp [Draft.ifElse, Shape.map, Shape.mapIdx, Shape.uncommented, Shape.isRoot,
            Shape.children, Edge.nodeOr, Edge.token, Edge.span, Edge.nodes, hcondition.term,
            hthen.term, helse.term, helse.span]

theorem labelled_agrees (hgrammar : grammar.Agrees thinning other) :
    thinning.Agree True
      (fun first second => thinning.Level first second ∧ first.cursor.next.isWord = true)
      (labelled grammar) (labelled other) BreaksOff thinning.Same thinning.Beside := by
  apply agree_advance_word.andThen
  intro label
  apply agree_advance.andThen
  intro colon
  apply (hgrammar.statement false).bind
  case hdoomed =>
    intro statement
    exact dooms_add_body (by simp [Draft.labelled, Shape.ownSlots, Shape.children])
  case hnext =>
    intro statement result
    apply agree_add
    rintro ⟨-, hstatement⟩
    constructor
    all_goals simp [Draft.labelled, Shape.map, Shape.mapIdx, Shape.uncommented, Shape.isRoot,
      Shape.children, Edge.token, Edge.span, Edge.nodes, hstatement.term, hstatement.span]

theorem handler_agrees (hgrammar : grammar.Agrees thinning other) :
    thinning.Agree True thinning.Beside (handler grammar) (handler other)
      (fun clause => thinning.Strays clause.2)
      (fun clause result => clause.1 = result.1 ∧ thinning.Same clause.2 result.2)
      thinning.Beside := by
  apply (agree_expectPunctuation "(").andThen
  intro opening
  apply (agree_expect fun _ => Token.isWord_of_isIdentifier).andThen
  intro name
  apply (agree_expectPunctuation ")").andThen
  intro closing
  apply (hgrammar.statement false).bind
  case hdoomed => exact fun body => dooms_pure fun _ hlost => hlost
  case hnext =>
    intro body result
    exact agree_pure fun ⟨_, hbody⟩ => ⟨rfl, hbody⟩

theorem tryCatch_drafted (first : Token) {body result : NodeId}
    {handler another : Option (Token × NodeId)} {finalizer finalizer' : Option NodeId}
    (hbody : thinning.Same body result)
    (hhandler : Option.Rel
      (fun clause result => clause.1 = result.1 ∧ thinning.Same clause.2 result.2) handler another)
    (hfinalizer : Option.Rel thinning.Same finalizer finalizer') :
    thinning.Drafted (.tryCatch first body handler finalizer)
      (.tryCatch first result another finalizer') := by
  have hclause : handler.map (fun clause => (clause.1, thinning.first.term clause.2)) =
      another.map fun clause => (clause.1, thinning.second.term clause.2) := by
    cases hhandler with
    | none => rfl
    | some hpair => simp [hpair.1, hpair.2.term]
  have hplace : (handler.map Prod.snd).map thinning.first.span =
      (another.map Prod.snd).map thinning.second.span := by
    cases hhandler with
    | none => rfl
    | some hpair => simp [hpair.2.span]
  constructor
  case shape => simp [Draft.tryCatch, Shape.map, Shape.mapIdx, Shape.uncommented, hbody.term,
    hclause, term_of_rel hfinalizer]
  case last => rw [Draft.tryCatch, Draft.tryCatch, Edge.span_nodeOr, Edge.span_nodeOr,
    Edge.span_nodeOr, Edge.span_nodeOr, hplace, span_of_rel hfinalizer, Edge.span, Edge.span,
    hbody.span]
  case edges => cases handler <;> cases finalizer <;>
    simp [Draft.tryCatch, Edge.nodeOr, Edge.token, Edge.nodes, Shape.children]
  case edges_other => cases another <;> cases finalizer' <;>
    simp [Draft.tryCatch, Edge.nodeOr, Edge.token, Edge.nodes, Shape.children]
  all_goals simp [Draft.tryCatch, Shape.isRoot, Edge.token, Edge.span]

/-- What is behind the handler of a statement that catches errors, if it has one. -/
def finalized (grammar : Grammar) (first : Token) (body : NodeId)
    (handler : Option (Token × NodeId)) : Parse NodeId := do
  let finalizer ←
    readAfter? (fun token => token.isKeyword "finally") (grammar.statement false)
  if handler.isNone && finalizer.isNone then
    refuse .expectedCatchOrFinally
  else
    add (.tryCatch first body handler finalizer)

theorem tryCatch_eq (grammar : Grammar) :
    tryCatch grammar = (do
      let first ← advance
      let body ← grammar.statement false
      let handler ← readAfter? (fun token => token.isKeyword "catch") (handler grammar)
      finalized grammar first body handler) :=
  rfl

theorem finalized_dooms_stray (grammar : Grammar) (first : Token) (body : NodeId)
    (handler : Option (Token × NodeId)) {part : NodeId}
    (hpart : part ∈ body :: (handler.map Prod.snd).toList) :
    thinning.Dooms (fun _ => thinning.Stray part) (finalized grammar first body handler)
      BreaksOff := by
  apply Dooms.behind
  intro finalizer
  apply Dooms.unlessRefused
  apply dooms_add_slot
  have hslot := List.mem_append_left finalizer.toList hpart
  cases handler <;> simpa [Draft.tryCatch, Shape.ownSlots, Shape.children] using hslot

/-- No other clause is found at the comment where the first run is stalled. -/
theorem finalized_dooms_stalled (grammar : Grammar) (first : Token) (body : NodeId)
    (handler : Option (Token × NodeId)) {test : Token → Bool}
    (htest : handler.isSome = true →
      ∀ token, test token = true → token.continuesStatement = true) :
    thinning.Dooms (Session.Stalled test) (finalized grammar first body handler) BreaksOff := by
  refine Dooms.bind (leads_readAfter? test "finally" _) ?_
  rintro finalizer session id after ⟨rfl, hstalled⟩ hrun hstands
  cases handler with
  | none => cases hrun
  | some clause => exact dooms_add_stalled (htest rfl) session id after hstalled hrun hstands

theorem finalized_agrees (hgrammar : grammar.Agrees thinning other) (first : Token)
    {body result : NodeId} {handler another : Option (Token × NodeId)}
    (hbody : known → thinning.Same body result)
    (hhandler : known → Option.Rel
      (fun clause result => clause.1 = result.1 ∧ thinning.Same clause.2 result.2) handler
      another) :
    thinning.Agree known thinning.Beside (finalized grammar first body handler)
      (finalized other first result another) BreaksOff thinning.Same thinning.Beside := by
  have hword : ∀ token : Token, token.isKeyword "finally" = true →
      token.continuesStatement = true := by
    intro token htoken
    rw [Token.continuesStatement, htoken, Bool.or_true]
  apply (Agree.readAfter? (fun _ => Token.isWord_of_isKeyword) (hgrammar.statement false)).bind
  case hdoomed =>
    rintro (- | finalizer)
    · exact (dooms_add_stalled hword).unlessRefused
    · exact (dooms_add_body
        (by simp [Draft.tryCatch, Shape.ownSlots, Shape.children])).unlessRefused
  case hnext =>
    intro finalizer finalizer'
    apply Agree.unlessRefused
    apply agree_add
    rintro ⟨hyes, hfinalizer⟩
    exact tryCatch_drafted first (hbody hyes) (hhandler hyes) hfinalizer

theorem tryCatch_agrees (hgrammar : grammar.Agrees thinning other) :
    thinning.Agree True thinning.Level (tryCatch grammar) (tryCatch other) BreaksOff
      thinning.Same thinning.Beside := by
  rw [tryCatch_eq, tryCatch_eq]
  apply agree_advance.andThen
  intro first
  apply (hgrammar.statement false).bind
  case hdoomed =>
    intro body
    apply Dooms.or
    · apply Dooms.behind
      intro handler
      exact finalized_dooms_stray grammar first body handler List.mem_cons_self
    · refine Dooms.bind (leads_readAfter? _ "catch" _) ?_
      rintro handler session id after ⟨rfl, hstalled⟩
      exact finalized_dooms_stalled grammar first body none (by simp) session id after hstalled
  case hnext =>
    intro body result
    apply (Agree.readAfter? (fun _ => Token.isWord_of_isKeyword) (handler_agrees hgrammar)).bind
    case hdoomed =>
      rintro (- | clause)
      · exact finalized_dooms_stalled grammar first body none (by simp)
      · apply Dooms.or
        · exact finalized_dooms_stray grammar first body _ (by simp)
        · exact finalized_dooms_stalled grammar first body _ fun _ _ => id
    case hnext =>
      intro handler another
      exact finalized_agrees hgrammar first (fun ⟨⟨_, hbody⟩, _⟩ => hbody)
        fun ⟨_, hhandler⟩ => hhandler

theorem switch_agrees (hgrammar : grammar.Agrees thinning other) :
    thinning.Agree True thinning.Level (switch grammar) (switch other) never
      thinning.Same thinning.Beside := by
  apply agree_advance.andThen
  intro first
  apply (parenthesized_agrees hgrammar).follow
  intro discriminant result
  apply (agree_expectPunctuation "\x7b").andThen
  intro opening
  apply (hgrammar.statements .switch).follow
  intro cases others
  apply agree_advance.andThen
  intro last
  apply agree_add
  rintro ⟨⟨-, hdiscriminant⟩, hcases⟩
  constructor
  case shape => simpa [Draft.switch, Shape.map, Shape.mapIdx, Shape.mapIdx_eq_map,
    Shape.uncommented, Thinning.SameStatements, hdiscriminant.term] using hcases
  all_goals simp [Draft.switch, Shape.isRoot, Edge.token, Edge.span, Edge.nodes]

end Production

end ScriptSyntax

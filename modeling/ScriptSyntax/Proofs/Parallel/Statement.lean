import ScriptSyntax.Proofs.Parallel.Expression

/-!
# Statements side by side

A statement ends with a token of its own, or right behind one where its semicolon is
written or inserted.  A run that has only the front of the tokens therefore comes to the
end of a statement together with the other run, and both go on side by side.
-/

namespace ScriptSyntax

open Parse Pairing

variable {pairing : Pairing} {first second : Session}

/-- Behind a construct the last token of it may end a statement. -/
theorem Tree.StopsAt.endsBefore {tree : Tree} {id : NodeId} {whole tokens later : List Token}
    (hstops : tree.StopsAt id tokens later) (hwhole : tokens <:+ whole) :
    Token.EndsBefore whole later := by
  obtain ⟨last, hlast, hsuffix⟩ := hstops.covers.exists_last
  exact ⟨last, hlast, hsuffix.trans hwhole⟩

/-- Behind a token that may end a statement. -/
theorem Session.endsBefore_passed {whole : List Token} (session : Session)
    (hsession : session.cursor.pending <:+ whole)
    (hcurrent : session.cursor.current.mayEnd = true) :
    Token.EndsBefore whole session.passed.cursor.pending := by
  refine ⟨session.cursor.current, hcurrent, ?_⟩
  have hpending := Cursor.pending_eq_cons (Token.isEnd_of_mayEnd hcurrent)
  rw [hpending] at hsession
  exact hsession

namespace Production

variable {grammar : Grammar}

/-! ## Statements without a semicolon of their own -/

theorem comment_outcome (hcomment : first.cursor.current.isComment = true)
    (hbeside : pairing.Beside first second) :
    pairing.Outcome .firm pairing.node (comment first) (comment second) := by
  have hkind : first.cursor.current.kind ≠ .punctuation ∧ first.cursor.current.kind ≠ .eof := by
    constructor <;> intro hkind <;> simp [Token.isComment, hkind] at hcomment
  have hend : first.cursor.current.isEnd = false := beq_false_of_ne hkind.2
  have htwin := hbeside.twin hend
  apply outcome_bind_known hbeside hend
  apply runs_add
  constructor
  · simp [Draft.leaf, shape_iff, Shape.mapTokens, Shape.mapIdx,
      pairing.keep htwin (Token.not_semicolon_of_kind hkind.1)]
  · exact edge_token htwin
  · exact edge_token htwin

theorem defaultLabel_outcome (hbeside : pairing.Beside first second)
    (hfirst : first.cursor.current.isEnd = false) :
    pairing.Outcome .firm pairing.node (defaultLabel first) (defaultLabel second) := by
  apply outcome_bind_advance hbeside hfirst
  intro token other htoken
  apply (runs_expectPunctuation ":").tighten.bind
  intro last final hlast
  apply runs_add
  constructor
  · simp [Draft.defaultLabel, shape_iff, Shape.mapTokens, Shape.mapIdx]
  · exact edge_token htoken
  · exact edge_token hlast

theorem emptyStatement_outcome (hbeside : pairing.Beside first second)
    (hfirst : first.cursor.current.isEnd = false) :
    pairing.Outcome .firm pairing.node (emptyStatement first) (emptyStatement second) := by
  apply outcome_bind_advance hbeside hfirst
  intro token other htoken
  apply runs_add
  constructor
  · simp [Draft.expression, shape_iff, Shape.mapTokens, Shape.mapIdx]
  · exact edge_token htoken
  · exact edge_token htoken

section Compound

variable (hgrammar : grammar.Parallel pairing) (hbeside : pairing.Beside first second)
variable (hfirst : first.cursor.current.isEnd = false)

include hgrammar hbeside

theorem labelled_outcome (hlabel : first.cursor.current.kind = .identifier)
    (hcolon : first.cursor.next.isPunctuation ":" = true) :
    pairing.Outcome .firm pairing.node (labelled grammar first) (labelled grammar second) := by
  have hend : first.cursor.current.isEnd = false := by
    rw [Token.isEnd, hlabel]
    rfl
  have htwin := hbeside.twin hend
  change pairing.Outcome .firm pairing.node
    ((do
      let _ ← advance
      let statement ← grammar.statement false
      add (.labelled first.cursor.current statement) : Parse NodeId) first.passed)
    ((do
      let _ ← advance
      let statement ← grammar.statement false
      add (.labelled second.cursor.current statement) : Parse NodeId) second.passed)
  apply outcome_bind_advance (hbeside.passed hend) ((asks_isPunctuation ":").not_isEnd hcolon)
  intro _ _ _
  apply (hgrammar.statement false).tighten.bind
  rintro statement _ rfl
  apply runs_add
  constructor
  · simp [Draft.labelled, shape_iff, Shape.mapTokens, Shape.mapIdx,
      pairing.keep_identifier htwin (beq_iff_eq.mpr hlabel)]
  · exact edge_token htwin
  · exact edge_node statement

include hfirst

theorem caseLabel_outcome :
    pairing.Outcome .firm pairing.node (caseLabel grammar first) (caseLabel grammar second) := by
  apply outcome_bind_advance hbeside hfirst
  intro token other htoken
  apply (hgrammar.expression true).tighten.bind
  rintro test _ rfl
  apply (runs_expectPunctuation ":").bind
  intro last final hlast
  apply runs_add
  constructor
  · simp [Draft.caseLabel, shape_iff, Shape.mapTokens, Shape.mapIdx]
  · exact edge_token htoken
  · exact edge_token hlast

theorem ifElse_outcome :
    pairing.Outcome .firm pairing.node (ifElse grammar first) (ifElse grammar second) := by
  apply outcome_bind_advance hbeside hfirst
  intro token other htoken
  apply (parenthesized_runs hgrammar).tighten.bind
  rintro condition _ rfl
  apply (hgrammar.statement false).tighten.bind
  rintro thenBranch _ rfl
  have helse : ∀ token : Token, token.isKeyword "else" = true → token.isConnective = true := by
    intro token htoken
    simp [Token.isConnective, htoken]
  apply ((hgrammar.statement false).tighten.readAfterConnective? (asks_isKeyword "else")
    helse).bind
  intro elseBranch other helse
  rw [eq_map_of_rel helse]
  apply runs_add
  constructor
  · simp [Draft.ifElse, shape_iff, Shape.mapTokens, Shape.mapIdx]
  · exact edge_token htoken
  · exact edge_nodeOr (edge_node thenBranch) elseBranch

theorem switch_outcome :
    pairing.Outcome .firm pairing.node (switch grammar first) (switch grammar second) := by
  apply outcome_bind_advance hbeside hfirst
  intro token other htoken
  apply (parenthesized_runs hgrammar).tighten.bind
  rintro discriminant _ rfl
  apply (runs_expectPunctuation "\x7b").tighten.bind
  intro _ _ _
  apply (hgrammar.statements .switch (.inl nofun)).tighten.bind_closing
    (asks_isPunctuation "\x7d") (hgrammar.reaching.statements .switch)
  rintro cases _ last final rfl hlast
  apply runs_add
  constructor
  · simp [Draft.switch, shape_iff, Shape.mapTokens, Shape.mapIdx, Shape.mapIdx_eq_map]
  · exact edge_token htoken
  · exact edge_token hlast

theorem whileLoop_outcome :
    pairing.Outcome .firm pairing.node (whileLoop grammar first) (whileLoop grammar second) := by
  apply outcome_bind_advance hbeside hfirst
  intro token other htoken
  apply (parenthesized_runs hgrammar).tighten.bind
  rintro condition _ rfl
  apply (hgrammar.statement false).tighten.bind
  rintro body _ rfl
  apply runs_add
  constructor
  · simp [Draft.whileLoop, shape_iff, Shape.mapTokens, Shape.mapIdx]
  · exact edge_token htoken
  · exact edge_node body

theorem withScope_outcome :
    pairing.Outcome .firm pairing.node (withScope grammar first) (withScope grammar second) := by
  apply outcome_bind_advance hbeside hfirst
  intro token other htoken
  apply (parenthesized_runs hgrammar).tighten.bind
  rintro object _ rfl
  apply (hgrammar.statement false).tighten.bind
  rintro body _ rfl
  apply runs_add
  constructor
  · simp [Draft.withScope, shape_iff, Shape.mapTokens, Shape.mapIdx]
  · exact edge_token htoken
  · exact edge_node body

end Compound

/-! ## Handlers and loops -/

theorem handler_runs (hgrammar : grammar.Parallel pairing) :
    pairing.Runs .loose .firm
      (fun clause other => pairing.view.keep clause.1 = pairing.view.keep other.1 ∧
        pairing.node clause.2 other.2)
      (handler grammar) (handler grammar) := by
  apply (runs_expectPunctuation "(").bind
  intro _ _ _
  apply (runs_expect asks_identifier _).tighten.bind
  rintro name other ⟨hname, hidentifier⟩
  apply (runs_expectPunctuation ")").tighten.bind
  intro _ _ _
  apply (hgrammar.statement false).tighten.bind
  intro body copy hbody
  exact runs_pure ⟨pairing.keep_identifier hname hidentifier, hbody⟩

theorem tryCatch_drafts {token other : Token} (htoken : pairing.twin token other)
    (body : NodeId) {clause copy : Option (Token × NodeId)} (finalizer : Option NodeId)
    (hclause : Option.Rel (fun clause other =>
      pairing.view.keep clause.1 = pairing.view.keep other.1 ∧ pairing.node clause.2 other.2)
      clause copy) :
    pairing.Drafts (.tryCatch token body clause finalizer)
      (.tryCatch other (pairing.rename body) copy (finalizer.map pairing.rename)) := by
  cases hclause with
  | none =>
      constructor
      · simp [Draft.tryCatch, shape_iff, Shape.mapTokens, Shape.mapIdx]
      · exact edge_token htoken
      · exact edge_nodeOr (edge_node body) finalizer
  | @some clause copy hclause =>
      obtain ⟨name, handler⟩ := clause
      obtain ⟨copied, _⟩ := copy
      obtain ⟨hname, rfl⟩ := hclause
      constructor
      · simp [Draft.tryCatch, shape_iff, Shape.mapTokens, Shape.mapIdx, hname]
      · exact edge_token htoken
      · exact edge_nodeOr (edge_node handler) finalizer

theorem tryCatch_outcome (hgrammar : grammar.Parallel pairing)
    (hbeside : pairing.Beside first second) (hfirst : first.cursor.current.isEnd = false) :
    pairing.Outcome .firm pairing.node (tryCatch grammar first) (tryCatch grammar second) := by
  apply outcome_bind_advance hbeside hfirst
  intro token other htoken
  apply (hgrammar.statement false).tighten.bind
  rintro body _ rfl
  have hcatch : ∀ token : Token, token.isKeyword "catch" = true → token.isConnective = true := by
    intro token htoken
    simp [Token.isConnective, htoken]
  have hfinally : ∀ token : Token, token.isKeyword "finally" = true →
      token.isConnective = true := by
    intro token htoken
    simp [Token.isConnective, htoken]
  apply ((handler_runs hgrammar).tighten.readAfterConnective? (asks_isKeyword "catch")
    hcatch).bind
  intro clause copy hclause
  apply ((hgrammar.statement false).tighten.readAfterConnective? (asks_isKeyword "finally")
    hfinally).bind
  intro finalizer final hfinalizer
  rw [eq_map_of_rel hfinalizer]
  have hmissing : (clause.isNone && finalizer.isNone) =
      (copy.isNone && (finalizer.map pairing.rename).isNone) := by
    cases hclause <;> cases finalizer <;> rfl
  rw [← hmissing]
  split
  · exact (runs_refuse _).tighten
  · exact runs_add (tryCatch_drafts htoken body finalizer hclause)

/-- A loop over the names in an object, from its variable on. -/
theorem forIn_outcome (hgrammar : grammar.Parallel pairing) {token other : Token}
    {varToken varOther : Option Token} (htoken : pairing.twin token other)
    (hvar : varToken.map pairing.view.keep = varOther.map pairing.view.keep)
    (hbeside : pairing.Beside first second)
    (hname : (first.cursor.current.kind == .identifier) = true)
    (hoperator : first.cursor.next.isOperator "in" = true) :
    pairing.Outcome .firm pairing.node (forIn grammar token varToken first)
      (forIn grammar other varOther second) := by
  have hend := asks_identifier.not_isEnd hname
  have htwin := hbeside.twin hend
  have hkept := pairing.keep_identifier htwin hname
  change pairing.Outcome .firm pairing.node
    ((do
      let _ ← advance
      let object ← grammar.expression true
      let _ ← expectPunctuation ")"
      let body ← grammar.statement false
      add (.forIn token varToken first.cursor.current object body) : Parse NodeId) first.passed)
    ((do
      let _ ← advance
      let object ← grammar.expression true
      let _ ← expectPunctuation ")"
      let body ← grammar.statement false
      add (.forIn other varOther second.cursor.current object body) : Parse NodeId)
        second.passed)
  apply outcome_bind_advance (hbeside.passed hend) ((asks_isOperator "in").not_isEnd hoperator)
  intro _ _ _
  apply (hgrammar.expression true).tighten.bind
  rintro object _ rfl
  apply (runs_expectPunctuation ")").bind
  intro _ _ _
  apply (hgrammar.statement false).tighten.bind
  rintro body _ rfl
  apply runs_add
  constructor
  · simp [Draft.forIn, shape_iff, Shape.mapTokens, Shape.mapIdx, hvar, hkept]
  · exact edge_token htoken
  · exact edge_node body

/-- What two loops do before their first rounds. -/
def alikeInits (pairing : Pairing) (init other : LoopInit NodeId) : Prop :=
  other = init.mapIdx fun _ => pairing.rename

theorem loopInit_runs (hgrammar : grammar.Parallel pairing) {varToken varOther : Option Token}
    (hvar : varToken.isSome = varOther.isSome) :
    pairing.Runs .loose .loose (alikeInits pairing) (loopInit grammar varToken)
      (loopInit grammar varOther) := by
  unfold loopInit
  rw [← hvar]
  split
  · apply hgrammar.declarations.bind
    rintro declarations _ rfl
    apply runs_pure
    rw [alikeInits, LoopInit.mapIdx, Shape.mapIdx_eq_map]
  · apply (hgrammar.expression true).bind
    rintro value _ rfl
    exact runs_pure rfl

/-- A loop with three clauses, from the first clause on. -/
theorem forClauses_runs (hgrammar : grammar.Parallel pairing) {token other : Token}
    {varToken varOther : Option Token} (htoken : pairing.twin token other)
    (hvar : varToken.map pairing.view.keep = varOther.map pairing.view.keep) :
    pairing.Runs .loose .firm pairing.node (forClauses grammar token varToken)
      (forClauses grammar other varOther) := by
  have hsome : varToken.isSome = varOther.isSome := by
    have hboth := congrArg Option.isSome hvar
    simpa using hboth
  apply ((loopInit_runs hgrammar hsome).readUnless (asks_isPunctuation ";")).bind
  intro init copy hinit
  apply (runs_expectPunctuation ";").bind
  intro _ _ _
  apply ((hgrammar.expression true).readUnless (asks_isPunctuation ";")).tighten.bind
  intro test _ htest
  rw [eq_map_of_rel htest]
  apply (runs_expectPunctuation ";").bind
  intro _ _ _
  apply ((hgrammar.expression true).readUnless (asks_isPunctuation ")")).tighten.bind
  intro step _ hstep
  rw [eq_map_of_rel hstep]
  apply (runs_expectPunctuation ")").bind
  intro _ _ _
  apply (hgrammar.statement false).tighten.bind
  rintro body _ rfl
  have hmapped : copy = init.map (LoopInit.mapIdx fun _ => pairing.rename) := by
    cases hinit with
    | none => rfl
    | some hinit => exact congrArg some hinit
  apply runs_add
  constructor
  · simp [Draft.forLoop, shape_iff, Shape.mapTokens, Shape.mapIdx, hvar, hmapped]
  · exact edge_token htoken
  · exact edge_node body

theorem forLoop_outcome (hgrammar : grammar.Parallel pairing)
    (hbeside : pairing.Beside first second) (hfirst : first.cursor.current.isEnd = false) :
    pairing.Outcome .firm pairing.node (forLoop grammar first) (forLoop grammar second) := by
  apply outcome_bind_advance hbeside hfirst
  intro token other htoken
  apply (runs_expectPunctuation "(").tighten.bind
  intro _ _ _
  apply (runs_accept? (asks_isKeyword "var")).tighten.bind
  intro varToken varOther hvar
  have hkept := View.map_keep_of_rel hvar fun token _ hword =>
    pairing.keep hword.1 (Token.not_semicolon_of_isKeyword hword.2)
  have hclauses := forClauses_runs hgrammar htoken hkept
  apply runs_bind_current
  · intro first second hbeside htwin
    change pairing.Outcome .firm pairing.node
      ((if first.cursor.current.kind == .identifier && first.cursor.next.isOperator "in" then
        _ else _ : Parse NodeId) first)
      ((if second.cursor.current.kind == .identifier && second.cursor.next.isOperator "in" then
        _ else _ : Parse NodeId) second)
    have hkind := asks_identifier.superficial.congr (pairing.signal htwin)
    have hsame : (first.cursor.current.kind == .identifier && first.cursor.next.isOperator "in") =
        (second.cursor.current.kind == .identifier &&
          second.cursor.next.isOperator "in") := by
      rw [← hkind]
      cases hname : first.cursor.current.kind == .identifier with
      | false => rfl
      | true =>
          rw [pairing.next_eq hbeside (asks_identifier.not_isEnd hname) (asks_isOperator "in")]
          intro token htoken
          simp [Token.isConnective, htoken]
    rw [← hsame]
    split
    · rename_i hloop
      rw [Bool.and_eq_true] at hloop
      exact forIn_outcome hgrammar htoken hkept hbeside hloop.1 hloop.2
    · exact hclauses.beside hbeside
  · intro session hspent
    change pairing.Fades .firm pairing.node
      ((if session.cursor.current.kind == .identifier && session.cursor.next.isOperator "in" then
        _ else _ : Parse NodeId) session)
    rw [asks_identifier.of_isEnd hspent.isEnd]
    exact hclauses.spent rfl hspent

/-! ## Declarations -/

theorem declaration_runs (hgrammar : grammar.Parallel pairing) :
    pairing.Runs .loose .loose pairing.node (declaration grammar) (declaration grammar) := by
  apply (runs_expect asks_identifier _).bind
  rintro name other ⟨hname, hidentifier⟩
  apply ((hgrammar.expression false).readAfter? (asks_isOperator "=")).tighten.bind
  intro initializer _ hinitializer
  rw [eq_map_of_rel hinitializer]
  apply runs_add
  constructor
  · simp [Draft.declaration, shape_iff, Shape.mapTokens, Shape.mapIdx,
      pairing.keep_identifier hname hidentifier]
  · exact edge_token hname
  · exact edge_nodeOr (edge_token hname) initializer

theorem declarations_runs (hgrammar : grammar.Parallel pairing) :
    pairing.Runs .loose .loose pairing.nodes (declarations grammar) (declarations grammar) := by
  apply runs_eatComments.bind
  intro _ _ _
  apply (declaration_runs hgrammar).bind
  rintro first _ rfl
  apply runs_choice_advance (asks_isPunctuation ",")
  · intro _ _ _ _
    apply hgrammar.declarations.tighten.bind
    rintro others _ rfl
    exact runs_pure rfl
  · exact runs_pure rfl

/-! ## Statements that end in a semicolon -/

theorem debugger_outcome (hgrammar : grammar.Parallel pairing)
    (hbeside : pairing.Beside first second)
    (hfirst : first.cursor.current.isKeyword "debugger" = true) :
    pairing.Outcome .firm pairing.node (debugger grammar first) (debugger grammar second) := by
  have hend := Token.mayEnd_of_isKeyword hfirst
  have hinside := pairing.inside hbeside.cursor
  unfold debugger
  rw [hgrammar.semicolons]
  apply outcome_bind_ended (outcome_advance hbeside (Token.isEnd_of_mayEnd hend))
  · rintro _ _ ⟨⟩
    exact first.endsBefore_passed hinside hend
  intro token other semicolon final htoken hsemicolon
  apply runs_add
  constructor
  · simp [Draft.debugger, shape_iff, Shape.mapTokens, Shape.mapIdx]
  · exact edge_token htoken
  · exact edge_tokenOr (edge_token htoken) hsemicolon

theorem jump_outcome (hgrammar : grammar.Parallel pairing) {kind : Jump}
    (hbeside : pairing.Beside first second) (hfirst : first.cursor.current.mayEnd = true) :
    pairing.Outcome .firm pairing.node (jump grammar kind first) (jump grammar kind second) := by
  have hend := Token.isEnd_of_mayEnd hfirst
  have hpassed := hbeside.passed hend
  have hbegun := first.endsBefore_passed (pairing.inside hbeside.cursor) hfirst
  have hlabel : Asks fun token => token.kind == .identifier &&
      (!token.newlineBefore || pairing.semicolons == .required) := by
    apply Asks.of_isWord (Token.superficial_label _)
    intro token htoken
    rw [Bool.and_eq_true, beq_iff_eq] at htoken
    exact Token.isWord_of_kind htoken.1 rfl
  have hends : (accept? fun token => token.kind == .identifier &&
      (!token.newlineBefore || pairing.semicolons == .required)).Meets first.passed
      (fun _ after => Token.EndsBefore pairing.whole after.cursor.pending) Anyhow := by
    rw [meets_accept?]
    split
    · rename_i hname
      rw [Bool.and_eq_true, beq_iff_eq] at hname
      apply first.passed.endsBefore_passed (pairing.inside hpassed.cursor)
      rw [Token.mayEnd, hname.1]
    · exact hbegun
  unfold jump
  rw [hgrammar.semicolons]
  change pairing.Outcome .firm pairing.node
    ((accept? _ >>= fun label => endStatement pairing.semicolons >>= fun semicolon =>
      add (.jump kind first.cursor.current label semicolon)) first.passed)
    ((accept? _ >>= fun label => endStatement pairing.semicolons >>= fun semicolon =>
      add (.jump kind second.cursor.current label semicolon)) second.passed)
  apply outcome_bind_ended ((runs_accept? hlabel).beside hpassed)
  · intro label final hok
    exact hends.of_ok hok
  intro label other semicolon final hname hsemicolon
  have htoken := hbeside.twin hend
  have hkept := View.map_keep_of_rel hname fun token _ hname => by
    have hidentifier := hname.2
    rw [Bool.and_eq_true] at hidentifier
    exact pairing.keep_identifier hname.1 hidentifier.1
  have hplaces := rel_imp hname fun _ _ => And.left
  apply runs_add
  constructor
  · simp [Draft.jump, shape_iff, Shape.mapTokens, Shape.mapIdx, hkept]
  · exact edge_token htoken
  · exact edge_tokenOr (edge_tokenOr (edge_token htoken) hplaces) hsemicolon

/-- What is left of an expression where there are only comments. -/
theorem expression_fades (hgrammar : grammar.Parallel pairing)
    (hinside : first.cursor.pending <:+ pairing.whole)
    (hcomments : first.cursor.skipComments.pending = []) :
    pairing.Fades .firm pairing.node (grammar.expression true first) := by
  cases houtcome : grammar.expression true first with
  | error diagnostic final => trivial
  | ok value final =>
      obtain ⟨-, hstops⟩ := (hgrammar.reaching.expression true first hinside).of_ok houtcome
      obtain ⟨last, hlast, hsuffix⟩ := hstops.covers.exists_last
      have hcomment := Cursor.isComment_of_skipComments hcomments last
        (hsuffix.mem List.mem_cons_self)
      cases hkind : last.kind <;> simp_all [Token.isComment, Token.mayEnd]

/-- The value of a function, once its first token is passed. -/
theorem returned_runs (hgrammar : grammar.Parallel pairing) {token other : Token}
    (htoken : pairing.twin token other) :
    pairing.Runs .firm .firm pairing.node
      (do
        let value ← grammar.expression true
        let semicolon ← endStatement pairing.semicolons
        add (.returns token (some value) semicolon))
      (do
        let value ← grammar.expression true
        let semicolon ← endStatement pairing.semicolons
        add (.returns other (some value) semicolon)) := by
  apply (hgrammar.expression true).tighten.bind_ended
  · intro session value final hsession hok
    exact ((hgrammar.reaching.expression true session hsession).of_ok hok).2.endsBefore hsession
  rintro value _ semicolon final rfl hsemicolon
  apply runs_add
  constructor
  · simp [Draft.returns, shape_iff, Shape.mapTokens, Shape.mapIdx]
  · exact edge_token htoken
  · exact edge_tokenOr (edge_node value) hsemicolon

theorem returns_outcome (hgrammar : grammar.Parallel pairing)
    (hbeside : pairing.Beside first second)
    (hfirst : first.cursor.current.isKeyword "return" = true) :
    pairing.Outcome .firm pairing.node (returns grammar first) (returns grammar second) := by
  have hmay := Token.mayEnd_of_isKeyword hfirst
  have hend := Token.isEnd_of_mayEnd hmay
  have hpassed := hbeside.passed hend
  have htoken := hbeside.twin hend
  have hbegun := first.endsBefore_passed (pairing.inside hbeside.cursor) hmay
  have hbare : ∀ {semicolon final : Option Token}, Option.Rel pairing.twin semicolon final →
      pairing.Drafts (.returns first.cursor.current none semicolon)
        (.returns second.cursor.current none final) := by
    intro semicolon final hsemicolon
    constructor
    · simp [Draft.returns, shape_iff, Shape.mapTokens, Shape.mapIdx]
    · exact edge_token htoken
    · exact edge_tokenOr (edge_token htoken) hsemicolon
  unfold returns
  rw [hgrammar.semicolons]
  change pairing.Outcome .firm pairing.node
    ((if first.passed.cursor.atSemicolon then _
      else if pairing.semicolons == .inserted && first.passed.cursor.atLineEnd then _
      else _ : Parse NodeId) first.passed)
    ((if second.passed.cursor.atSemicolon then _
      else if pairing.semicolons == .inserted && second.passed.cursor.atLineEnd then _
      else _ : Parse NodeId) second.passed)
  rcases pairing.lines hpassed.cursor hbegun with ⟨hfront, hcomments⟩ | ⟨hsemicolon, hline⟩
  · have hended : pairing.Fades .firm (fun _ _ => True)
        (endStatement pairing.semicolons first.passed) := endStatement_fades hfront hcomments
    have hread := expression_fades hgrammar (pairing.inside hpassed.cursor) hcomments
    apply Fades.outcome _ hfront
    rw [pairing.required hfront] at hended ⊢
    split
    · exact hended.bind
    · exact hread.bind
  · have hsame : (pairing.semicolons == .inserted && first.passed.cursor.atLineEnd) =
        (pairing.semicolons == .inserted && second.passed.cursor.atLineEnd) := by
      cases hmode : pairing.semicolons with
      | required => rfl
      | inserted => rw [hline hmode]
    rw [← hsemicolon, ← hsame]
    split
    · apply (outcome_endStatement hpassed hbegun).bind
      intro semicolon final _ _ _ hsemicolon hsessions
      exact (runs_add (hbare hsemicolon)).beside hsessions
    · split
      · exact (runs_add (hbare .none)).beside hpassed
      · exact (returned_runs hgrammar htoken).beside hpassed

section Terminated

variable (hgrammar : grammar.Parallel pairing)

include hgrammar

theorem expressionStatement_runs :
    pairing.Runs .loose .firm pairing.node (expressionStatement grammar)
      (expressionStatement grammar) := by
  unfold expressionStatement
  rw [hgrammar.semicolons]
  apply (expression_runs hgrammar true).bind_ended
  · intro session value final hsession hok
    exact ((expression_stops hgrammar.reaching true hsession).of_ok hok).2.endsBefore hsession
  rintro value _ semicolon final rfl hsemicolon
  apply runs_add
  constructor
  · simp [Draft.expression, shape_iff, Shape.mapTokens, Shape.mapIdx]
  · exact edge_node value
  · exact edge_tokenOr (edge_node value) hsemicolon

theorem doWhile_outcome (hbeside : pairing.Beside first second)
    (hfirst : first.cursor.current.isEnd = false) :
    pairing.Outcome .firm pairing.node (doWhile grammar first) (doWhile grammar second) := by
  unfold doWhile
  rw [hgrammar.semicolons]
  apply outcome_bind_advance hbeside hfirst
  intro token other htoken
  apply (hgrammar.statement false).tighten.bind
  rintro body _ rfl
  apply (runs_expect (asks_isKeyword "while") _).tighten.bind
  intro _ _ _
  apply (parenthesized_runs hgrammar).tighten.loosen.bind_ended
  · intro session condition final hsession hok
    exact ((parenthesized_stops hgrammar.reaching hsession).of_ok hok).2.endsBefore hsession
  rintro condition _ semicolon final rfl hsemicolon
  apply runs_add
  constructor
  · simp [Draft.doWhile, shape_iff, Shape.mapTokens, Shape.mapIdx]
  · exact edge_token htoken
  · exact edge_tokenOr (edge_node condition) hsemicolon

theorem throws_outcome (hbeside : pairing.Beside first second)
    (hfirst : first.cursor.current.isEnd = false) :
    pairing.Outcome .firm pairing.node (throws grammar first) (throws grammar second) := by
  unfold throws
  rw [hgrammar.semicolons]
  apply outcome_bind_advance hbeside hfirst
  intro token other htoken
  apply (hgrammar.expression true).tighten.bind_ended
  · intro session value final hsession hok
    exact ((hgrammar.reaching.expression true session hsession).of_ok hok).2.endsBefore hsession
  rintro value _ semicolon final rfl hsemicolon
  apply runs_add
  constructor
  · simp [Draft.throws, shape_iff, Shape.mapTokens, Shape.mapIdx]
  · exact edge_token htoken
  · exact edge_tokenOr (edge_node value) hsemicolon

theorem varStatement_outcome (hbeside : pairing.Beside first second)
    (hfirst : first.cursor.current.isEnd = false) :
    pairing.Outcome .firm pairing.node (varStatement grammar first)
      (varStatement grammar second) := by
  unfold varStatement
  rw [hgrammar.semicolons]
  apply outcome_bind_advance hbeside hfirst
  intro token other htoken
  apply hgrammar.declarations.tighten.bind_ended
  · intro session declarations final hsession hok
    obtain ⟨-, last, -, hstops⟩ :=
      (hgrammar.reaching.declarations session hsession).of_ok hok
    exact hstops.endsBefore hsession
  rintro declarations _ semicolon final rfl hsemicolon
  apply runs_add
  constructor
  · simp [Draft.varStatement, shape_iff, Shape.mapTokens, Shape.mapIdx, Shape.mapIdx_eq_map]
  · exact edge_token htoken
  · apply edge_tokenOr _ hsemicolon
    rw [List.getLast?_map]
    exact edge_nodeOr (edge_token htoken) declarations.getLast?

end Terminated

/-! ## Statements -/

/-- Both runs open the same statement. -/
theorem opening_eq (labels : Bool) (hbeside : pairing.Beside first second)
    (htwin : pairing.twin first.cursor.current second.cursor.current) :
    Opening.of labels first.cursor.current first.cursor.next =
      Opening.of labels second.cursor.current second.cursor.next := by
  apply Opening.of_congr labels (pairing.signal htwin)
  intro hkind
  apply pairing.next_eq hbeside _ (asks_isPunctuation ":")
  · intro token htoken
    simp [Token.isConnective, htoken]
  · rw [Token.isEnd, hkind]
    rfl

theorem bind_current {Result : Type} (next : Token → Parse Result) (session : Session) :
    (Parse.current >>= next) session = next session.cursor.current session := rfl

theorem bind_next {Result : Type} (next : Token → Parse Result) (session : Session) :
    (Parse.next >>= next) session = next session.cursor.next session := rfl

theorem statement_runs (hgrammar : grammar.Parallel pairing) (labels : Bool) :
    pairing.Runs .loose .firm pairing.node (statement grammar labels)
      (statement grammar labels) := by
  apply runs_bind_current
  · intro first second hbeside htwin
    have hopens := Opening.of_opens labels first.cursor.current first.cursor.next
    have hend : (∀ reason, Opening.of labels first.cursor.current first.cursor.next ≠
        .refused reason) → first.cursor.current.isEnd = false := Opening.isEnd_of_ne_refused
    rw [bind_next, bind_next, ← opening_eq labels hbeside htwin]
    cases hof : Opening.of labels first.cursor.current first.cursor.next
    all_goals rw [hof] at hopens hend
    case comment => exact comment_outcome hopens hbeside
    case labelled => exact labelled_outcome hgrammar hbeside hopens.1 hopens.2
    case expression => exact (expressionStatement_runs hgrammar).beside hbeside
    case block => exact (block_runs hgrammar).beside hbeside
    case empty => exact emptyStatement_outcome hbeside (hend nofun)
    case jump kind =>
      apply jump_outcome hgrammar hbeside
      cases kind <;> exact Token.mayEnd_of_isKeyword hopens
    case caseLabel => exact caseLabel_outcome hgrammar hbeside (hend nofun)
    case debugger => exact debugger_outcome hgrammar hbeside hopens
    case defaultLabel => exact defaultLabel_outcome hbeside (hend nofun)
    case doWhile => exact doWhile_outcome hgrammar hbeside (hend nofun)
    case forLoop => exact forLoop_outcome hgrammar hbeside (hend nofun)
    case function => exact function_outcome hgrammar .definition hbeside (hend nofun)
    case ifElse => exact ifElse_outcome hgrammar hbeside (hend nofun)
    case returns => exact returns_outcome hgrammar hbeside hopens
    case switch => exact switch_outcome hgrammar hbeside (hend nofun)
    case throws => exact throws_outcome hgrammar hbeside (hend nofun)
    case tryCatch => exact tryCatch_outcome hgrammar hbeside (hend nofun)
    case varStatement => exact varStatement_outcome hgrammar hbeside (hend nofun)
    case whileLoop => exact whileLoop_outcome hgrammar hbeside (hend nofun)
    case withScope => exact withScope_outcome hgrammar hbeside (hend nofun)
    case refused reason => exact (runs_refuse reason).beside hbeside
  · intro session hspent
    have hrefused : Opening.of labels session.cursor.current session.cursor.next =
        .refused .unexpectedEnd := by
      rw [Opening.of, beq_iff_eq.mp hspent.isEnd]
    rw [bind_next, hrefused]
    trivial

theorem statements_runs (hgrammar : grammar.Parallel pairing) (enclosure : Enclosure)
    (henclosure : enclosure ≠ .program ∨ ¬pairing.front) :
    pairing.Runs .loose .firm pairing.nodes (statements grammar enclosure)
      (statements grammar enclosure) := by
  have hmore : pairing.Runs .loose .firm pairing.nodes
      (do
        let first ← statement grammar enclosure.admitsLabels
        return first :: (← grammar.statements enclosure))
      (do
        let first ← statement grammar enclosure.admitsLabels
        return first :: (← grammar.statements enclosure)) := by
    apply (statement_runs hgrammar enclosure.admitsLabels).bind
    rintro first _ rfl
    apply (hgrammar.statements enclosure henclosure).tighten.bind
    rintro others _ rfl
    exact runs_pure rfl
  have hclosed : Token.Superficial enclosure.closedBy := by
    cases enclosure with
    | program => exact Token.superficial_isEnd
    | block => exact Token.superficial_isPunctuation "\x7d"
    | switch => exact Token.superficial_isPunctuation "\x7d"
  apply runs_bind_current
  · intro first second hbeside htwin
    rw [← hclosed.congr (pairing.signal htwin)]
    split
    · apply (runs_pure _).beside hbeside
      rfl
    · exact hmore.beside hbeside
  · intro session hspent
    have hopen : enclosure.closedBy session.cursor.current = false := by
      have hmark := (asks_isPunctuation "\x7d").of_isEnd hspent.isEnd
      cases enclosure with
      | program => exact absurd hspent.1 (henclosure.resolve_left (· rfl))
      | block => exact hmark
      | switch => exact hmark
    rw [hopen]
    exact hmore.spent rfl hspent

/-- The root of a whole program, before its end token. -/
theorem root_drafts {token other : Token} (htoken : pairing.twin token other)
    (body : List NodeId) :
    pairing.Drafts (.root body token) (.root (body.map pairing.rename) other) := by
  constructor
  · simp [Draft.root, shape_iff, Shape.mapTokens, Shape.mapIdx, Shape.mapIdx_eq_map]
  · have hedge := edge_nodeOr (edge_token htoken) body.head?
    rwa [← List.head?_map] at hedge
  · have hedge := edge_nodeOr (edge_token htoken) body.getLast?
    rwa [← List.getLast?_map] at hedge

theorem program_runs (hgrammar : grammar.Parallel pairing) (hfront : ¬pairing.front) :
    pairing.Runs .loose .firm pairing.node (program grammar) (program grammar) := by
  apply (statements_runs hgrammar .program (.inr hfront)).bind
  rintro body _ rfl
  apply Runs.tighten
  apply runs_bind_current
  · intro first second hbeside htwin
    exact (runs_add (root_drafts htwin body)).beside hbeside
  · intro session hspent
    exact absurd hspent.1 hfront

end Production

theorem Grammar.unfold_parallel {grammar : Grammar} (hgrammar : grammar.Parallel pairing) :
    grammar.unfold.Parallel pairing where
  semicolons := hgrammar.semicolons
  reaching := unfold_reaching hgrammar.reaching
  statement := Production.statement_runs hgrammar
  statements := Production.statements_runs hgrammar
  parameters := Production.parameters_runs hgrammar
  declarations := Production.declarations_runs hgrammar
  expression := Production.expression_runs hgrammar
  assignment := Production.assignment_runs hgrammar
  operand := Production.operand_runs hgrammar
  operations := Production.operations_runs hgrammar
  suffixes := Production.suffixes_runs hgrammar
  items := Production.items_runs hgrammar
  properties := Production.properties_runs hgrammar

/-- Every grammar reads in the same way in both runs. -/
theorem Grammar.upTo_parallel (pairing : Pairing) (depth : Nat) :
    (Grammar.upTo pairing.semicolons depth).Parallel pairing := by
  induction depth with
  | zero => exact exhausted_parallel pairing
  | succ depth ih => exact unfold_parallel ih

end ScriptSyntax

import ScriptSyntax.Proofs.RoundTrip.Loop
import ScriptSyntax.Proofs.Thinning.Statement

/-!
# Loops over thinned tokens

The header of a loop is where a comment decides how the rest is read: a loop over the names in
an object is told by its first two tokens.  If a comment stands before or behind the first of
them the other run alone reads such a loop, and the header ends the first run.
-/

namespace ScriptSyntax

open Parse Thinning

namespace Thinning

variable (thinning : Thinning)

/-- What two loops do first is the same. -/
def SameInit (init other : LoopInit NodeId) : Prop :=
  init.mapIdx (fun _ => thinning.first.term) = other.mapIdx fun _ => thinning.second.term

/-- The second run stands on the variable of a loop over names.  The first one comes to it
behind comments, and finds the same operator there. -/
structure Hidden (first second : Session) : Prop where
  level : thinning.Level first.uncommented second
  name : second.cursor.current.kind = .identifier
  operator : first.uncommented.cursor.next.isOperator "in" = true

end Thinning

/-- Where one grammar reads the header of a loop over names as an expression, and the other
reads what is behind the operator, they end at the same place. -/
def Grammar.Meshes (thinning : Thinning) (grammar other : Grammar) : Prop :=
  thinning.Agree True thinning.Hidden (grammar.expression true)
    (do
      let _ ← advance
      let _ ← advance
      other.expression true) (HaltsEarly true) (fun _ _ => True) thinning.Beside

namespace Production

variable {thinning : Thinning} {known : Prop} {grammar other : Grammar}

/-! ## Loops over names -/

/-- The rest of a loop over names, behind the object. -/
def forInBody (grammar : Grammar) (first : Token) (varToken : Option Token) (name : Token)
    (object : NodeId) : Parse NodeId := do
  let _ ← expectPunctuation ")"
  let body ← grammar.statement false
  add (.forIn first varToken name object body)

theorem forIn_eq (grammar : Grammar) (first : Token) (varToken : Option Token) :
    forIn grammar first varToken = (do
      let name ← advance
      let _ ← advance
      let object ← grammar.expression true
      forInBody grammar first varToken name object) :=
  rfl

theorem forInBody_agrees (hgrammar : grammar.Agrees thinning other) (first : Token)
    (varToken : Option Token) (name : Token) {object result : NodeId}
    (hobject : known → thinning.Same object result) :
    thinning.Agree known thinning.Beside (forInBody grammar first varToken name object)
      (forInBody other first varToken name result) BreaksOff thinning.Same
      thinning.Beside := by
  apply (agree_expectPunctuation ")").andThen
  intro closing
  apply (hgrammar.statement false).bind
  case hdoomed =>
    intro body
    exact dooms_add_body (by simp [Draft.forIn, Shape.ownSlots, Shape.children])
  case hnext =>
    intro body another
    apply agree_add
    rintro ⟨hyes, hbody⟩
    have hobject := hobject hyes
    constructor
    all_goals simp [Draft.forIn, Shape.map, Shape.mapIdx, Shape.uncommented, Shape.isRoot,
      Shape.children, Edge.token, Edge.span, Edge.nodes, hobject.term, hbody.term, hbody.span]

theorem forIn_agrees (hgrammar : grammar.Agrees thinning other) (first : Token)
    (varToken : Option Token) :
    thinning.Agree True
      (fun session later => thinning.Level session later ∧ session.cursor.next.isWord = true)
      (forIn grammar first varToken) (forIn other first varToken) BreaksOff thinning.Same
      thinning.Beside := by
  rw [forIn_eq, forIn_eq]
  apply agree_advance_word.andThen
  intro name
  apply agree_advance.andThen
  intro operator
  apply (hgrammar.expression true).bind
  case hdoomed =>
    intro object
    exact (fails_expect_stalled fun _ => Token.isWord_of_isPunctuation).bind.dooms
  case hnext =>
    intro object result
    exact forInBody_agrees hgrammar first varToken name fun ⟨_, hobject⟩ => hobject

/-! ## Loops with three clauses -/

theorem loopInit_agrees (hgrammar : grammar.Agrees thinning other) (varToken : Option Token) :
    thinning.Agree True thinning.Beside (loopInit grammar varToken) (loopInit other varToken)
      (HaltsEarly true) thinning.SameInit thinning.Beside := by
  apply Agree.ite
  · intro _
    apply hgrammar.declarations.bind
    case hdoomed => exact fun declarations => dooms_pure fun _ hstalled => hstalled
    case hnext =>
      intro declarations others
      apply agree_pure
      rintro ⟨-, hdeclarations⟩
      simp [SameInit, LoopInit.mapIdx, Shape.mapIdx_eq_map, terms_of_forall₂ hdeclarations]
  · intro _
    apply (hgrammar.expression true).bind
    case hdoomed => exact fun value => dooms_pure fun _ hstalled => hstalled
    case hnext =>
      intro value result
      apply agree_pure
      rintro ⟨-, hvalue⟩
      simp [SameInit, LoopInit.mapIdx, hvalue.term]

/-- No operand begins with a mark that closes something. -/
theorem OperandStart.of_closing {token : Token} {mark : String} (hmark : mark ∈ Token.closingMarks)
    (htoken : token.isPunctuation mark = true) : OperandStart.of token = .refused := by
  obtain ⟨hkind, rfl⟩ := (token.is_iff _ _).mp htoken
  simp only [Token.closingMarks, List.mem_cons, List.not_mem_nil, or_false] at hmark
  rcases hmark with hvalue | hvalue | hvalue | hvalue | hvalue <;>
    simp [OperandStart.of, hkind, hvalue]

theorem fails_expression_stalled (hgrammar : grammar.Halts) {mark : String}
    (hmark : mark ∈ Token.closingMarks) :
    Fails (Session.Stalled fun token => token.isPunctuation mark) (grammar.expression true) := by
  intro session value after hstalled hrun
  have hrefused := OperandStart.of_closing hmark hstalled.current_uncommented
  exact (hgrammar.expression_refused true hrefused).of_ok hrun

theorem fails_loopInit_stalled (hgrammar : grammar.Halts) (varToken : Option Token) {mark : String}
    (hmark : mark ∈ Token.closingMarks) :
    Fails (Session.Stalled fun token => token.isPunctuation mark) (loopInit grammar varToken) := by
  unfold loopInit
  split
  · apply Fails.bind
    intro session value after hstalled hrun
    have hkind := ((Token.is_iff _ _ _).mp hstalled.current_uncommented).1
    have hrefused : session.uncommented.cursor.current.kind ≠ .identifier := by
      rw [hkind]
      exact Token.Kind.noConfusion
    exact (hgrammar.declarations_refused hrefused).of_ok hrun
  · exact (fails_expression_stalled hgrammar hmark).bind

/-- A clause of a loop, of which the first run cannot miss the end. -/
theorem clause_agrees (hgrammar : grammar.Agrees thinning other) {mark : String}
    (hmark : mark ∈ Token.closingMarks) :
    thinning.Agree True thinning.Beside
      (readUnless (fun token => token.isPunctuation mark) (grammar.expression true))
      (readUnless (fun token => token.isPunctuation mark) (other.expression true))
      (lostOr (fun _ => False) (HaltsEarly true)) (Option.Rel thinning.Same) thinning.Beside :=
  Agree.readUnless (fun _ => Token.isWord_of_isPunctuation) (hgrammar.expression true)
    (fails_expression_stalled hgrammar.halts hmark)

/-- Behind a clause that stops at a comment there is no mark. -/
theorem dooms_clause {Clause : Type} (clause : Option Clause) (mark : String)
    {next : Token → Parse NodeId} {doomed : NodeId → Session → Prop} :
    thinning.Dooms (lostOr (fun _ => False) (HaltsEarly true) clause)
      (expectPunctuation mark >>= next) doomed := by
  cases clause with
  | none => exact fun _ _ _ => False.elim
  | some value => exact (fails_expect_stalled fun _ => Token.isWord_of_isPunctuation).bind.dooms

theorem clausesFrom_agrees (hgrammar : grammar.Agrees thinning other) (first : Token)
    (varToken : Option Token) {init init' : Option (LoopInit NodeId)}
    (hinit : known → Option.Rel thinning.SameInit init init') :
    thinning.Agree known thinning.Beside (clausesFrom grammar first varToken init)
      (clausesFrom other first varToken init') BreaksOff thinning.Same thinning.Beside := by
  apply (agree_expectPunctuation ";").andThen
  intro _
  apply (clause_agrees hgrammar (by decide)).bind
  case hdoomed => exact fun test => dooms_clause test ";"
  case hnext =>
    intro test test'
    apply (agree_expectPunctuation ";").andThen
    intro _
    apply (clause_agrees hgrammar (by decide)).bind
    case hdoomed => exact fun step => dooms_clause step ")"
    case hnext =>
      intro step step'
      apply (agree_expectPunctuation ")").andThen
      intro _
      apply (hgrammar.statement false).bind
      case hdoomed =>
        intro body
        exact dooms_add_body (by simp [Draft.forLoop, Shape.ownSlots, Shape.children])
      case hnext =>
        intro body body'
        apply agree_add
        rintro ⟨⟨⟨hyes, htest⟩, hstep⟩, hbody⟩
        have hsame : init.map (LoopInit.mapIdx fun _ => thinning.first.term) =
            init'.map (LoopInit.mapIdx fun _ => thinning.second.term) := by
          cases hinit hyes with
          | none => rfl
          | some hloop => exact congrArg some hloop
        constructor
        case shape => simp [Draft.forLoop, Shape.map, Shape.mapIdx, Shape.uncommented, hsame,
          term_of_rel htest, term_of_rel hstep, hbody.term]
        all_goals simp [Draft.forLoop, Shape.isRoot, Shape.children, Edge.token, Edge.span,
          Edge.nodes, hbody.span]

theorem forClauses_agrees (hgrammar : grammar.Agrees thinning other) (first : Token)
    (varToken : Option Token) :
    thinning.Agree True thinning.Beside (forClauses grammar first varToken)
      (forClauses other first varToken) BreaksOff thinning.Same thinning.Beside := by
  rw [forClauses_eq, forClauses_eq]
  apply (Agree.readUnless (fun _ => Token.isWord_of_isPunctuation)
    (loopInit_agrees hgrammar varToken)
    (fails_loopInit_stalled hgrammar.halts varToken (by decide))).bind
  case hdoomed => exact fun init => dooms_clause init ";"
  case hnext =>
    intro init init'
    exact clausesFrom_agrees hgrammar first varToken fun ⟨_, hinit⟩ => hinit

/-! ## The header -/

theorem loopFrom_eq (grammar : Grammar) (first : Token) (varToken : Option Token)
    (session : Session) :
    loopFrom grammar first varToken session =
      if header session.cursor.current session.cursor.next then forIn grammar first varToken session
      else forClauses grammar first varToken session := by
  change (if header session.cursor.current session.cursor.next then forIn grammar first varToken
    else forClauses grammar first varToken) session = _
  split <;> rfl

/-- A loop with three clauses, if it is read, has a semicolon behind what it does first. -/
theorem exists_loopInit (hgrammar : grammar.Agrees thinning other) {first : Token}
    {varToken : Option Token} {session after : Session} {value : NodeId}
    (hcurrent : session.cursor.current.isPunctuation ";" = false)
    (hrun : forClauses grammar first varToken session = .ok value after) :
    ∃ init middle, loopInit grammar varToken session = .ok init middle ∧
      middle.cursor.current.isPunctuation ";" = true ∧ middle.tree.StandsIn after.tree := by
  rw [forClauses_eq] at hrun
  obtain ⟨clause, middle, hclause, hrest⟩ := exists_of_bind hrun
  have hinit : (loopInit grammar varToken >>= fun init => pure (some init)) session =
      .ok clause middle := by
    rw [← hclause]
    exact (look_of_false hcurrent).symm
  obtain ⟨init, _, hread, hpure⟩ := exists_of_bind hinit
  cases hpure
  obtain ⟨_, _, hmark, -⟩ := exists_of_bind hrest
  have hretains : thinning.Agree False thinning.Beside
      (clausesFrom grammar first varToken (some init))
      (clausesFrom other first varToken (some init)) BreaksOff thinning.Same
      thinning.Beside :=
    clausesFrom_agrees hgrammar first varToken False.elim
  exact ⟨init, _, hread, (expect_eq_ok hmark).1, hretains.retains _ _ _ hrest⟩

/-- A loop over names, if it is read, has a closing parenthesis behind the object. -/
theorem exists_object (hgrammar : grammar.Agrees thinning other) {first : Token}
    {varToken : Option Token} {session after : Session} {value : NodeId}
    (hrun : forIn other first varToken session = .ok value after) :
    ∃ object middle,
      (do
        let _ ← advance
        let _ ← advance
        other.expression true : Parse NodeId) session = .ok object middle ∧
      middle.cursor.current.isPunctuation ")" = true ∧ middle.tree.StandsIn after.tree := by
  rw [forIn_eq] at hrun
  obtain ⟨name, _, hname, hafterName⟩ := exists_of_bind hrun
  cases hname
  obtain ⟨_, _, hoperator, hafterOperator⟩ := exists_of_bind hafterName
  cases hoperator
  obtain ⟨object, middle, hobject, hrest⟩ := exists_of_bind hafterOperator
  obtain ⟨_, _, hmark, -⟩ := exists_of_bind hrest
  have hretains : thinning.Agree False thinning.Beside
      (forInBody grammar first varToken session.cursor.current object)
      (forInBody other first varToken session.cursor.current object) BreaksOff
      thinning.Same thinning.Beside :=
    forInBody_agrees hgrammar first varToken session.cursor.current False.elim
  exact ⟨object, middle, hobject, (expect_eq_ok hmark).1, hretains.retains_other _ _ _ hrest⟩

/-- A name without a value is all that is declared. -/
theorem loopInit_declared (hgrammar : grammar.Halts) {varToken : Token} {session middle : Session}
    {init : LoopInit NodeId}
    (hequals : session.uncommented.cursor.next.isOperator "=" = false)
    (hcomma : session.uncommented.cursor.next.isPunctuation "," = false)
    (hinit : loopInit grammar (some varToken) session = .ok init middle) :
    middle.cursor = session.uncommented.cursor.advance := by
  obtain ⟨declarations, _, hdeclarations, hpure⟩ := exists_of_bind hinit
  cases hpure
  exact (hgrammar.declarations_name hequals hcomma).of_ok hdeclarations

/-- A loop over names hides behind a comment before its variable.  The first clause of the
other loop ends where the object does, and different marks have to follow. -/
theorem hidden_clash (hgrammar : grammar.Agrees thinning other)
    (hmeshes : grammar.Meshes thinning other) {first : Token}
    {session middle later final : Session} {init : LoopInit NodeId} {result : NodeId}
    (hhidden : thinning.Hidden session later)
    (hinit : loopInit grammar none session = .ok init middle)
    (hsemicolon : middle.cursor.current.isPunctuation ";" = true)
    (hother : forIn other first none later = .ok result final)
    (hmiddle : middle.tree.StandsIn thinning.first)
    (hfinal : final.tree.StandsIn thinning.second) : False := by
  obtain ⟨expression, _, hexpression, hpure⟩ := exists_of_bind hinit
  cases hpure
  obtain ⟨object, last, hobject, hparenthesis, hlast⟩ := exists_object hgrammar hother
  have hboth := hmeshes.run trivial hhidden hexpression hobject hmiddle (hlast.trans hfinal)
  rcases hboth with hstalled | ⟨-, hend⟩
  · rw [Token.isPunctuation, Token.is_iff, Cursor.Stalled.comment hstalled] at hsemicolon
    cases hsemicolon.1
  · have hsame := (hend.level (Token.isWord_of_isPunctuation hsemicolon)).current
    rw [hsame, Token.isPunctuation, Token.is_iff] at hsemicolon
    rw [Token.isPunctuation, Token.is_iff, hsemicolon.2] at hparenthesis
    exact absurd hparenthesis.2 (by decide)

/-- Where the second run stands on a name, the first one comes to it behind comments. -/
theorem level_uncommented_of_name {session later : Session}
    (hbeside : thinning.Beside session later)
    (hname : later.cursor.current.kind = .identifier) :
    thinning.Level session.uncommented later := by
  have hskipped := Cursor.Thinned.skipComments hbeside
  have hword : later.cursor.current.isComment = false := by
    simp [Token.isComment, hname]
  rwa [Cursor.skipComments_eq hword] at hskipped

theorem isPunctuation_of_name {session later : Session}
    (hbeside : thinning.Beside session later)
    (hname : later.cursor.current.kind = .identifier) (mark : String) :
    session.cursor.current.isPunctuation mark = false := by
  cases hmark : session.cursor.current.isPunctuation mark with
  | false => rfl
  | true =>
      have hsame := (hbeside.level (Token.isWord_of_isPunctuation hmark)).current
      rw [hsame, Token.isPunctuation, Token.is_iff, hname] at hmark
      cases hmark.1

/-- A loop with three clauses is not read where the other run reads a loop over names. -/
theorem clauses_clash (hgrammar : grammar.Agrees thinning other)
    (hmeshes : grammar.Meshes thinning other) (first : Token) (varToken : Option Token)
    {session later after final : Session} {value result : NodeId}
    (hbeside : thinning.Beside session later)
    (hlater : header later.cursor.current later.cursor.next = true)
    (hrun : forClauses grammar first varToken session = .ok value after)
    (hother : forIn other first varToken later = .ok result final)
    (hafter : after.tree.StandsIn thinning.first)
    (hfinal : final.tree.StandsIn thinning.second) : False := by
  rw [header, Bool.and_eq_true, beq_iff_eq] at hlater
  obtain ⟨hname, hoperator⟩ := hlater
  have hlevel := level_uncommented_of_name hbeside hname
  obtain ⟨init, middle, hinit, hsemicolon, hmiddle⟩ :=
    exists_loopInit hgrammar (isPunctuation_of_name hbeside hname ";") hrun
  -- No semicolon is behind the variable, so the first run does not stop there.
  have hstops : session.uncommented.cursor.next.kind ≠ .punctuation →
      middle.cursor ≠ session.uncommented.cursor.advance := by
    intro hnext hcursor
    have hmark : session.uncommented.cursor.next.isPunctuation ";" = true := by
      rw [← hsemicolon, hcursor]
      rfl
    exact hnext ((Token.is_iff _ _ _).mp hmark).1
  rcases Cursor.Thinned.level_or_atSpare (Cursor.Level.advance hlevel) with hnext | hspare
  · have hin : session.uncommented.cursor.next.isOperator "in" = true := by
      rw [← hoperator]
      exact congrArg (fun token => token.isOperator "in") hnext.current
    obtain ⟨hkind, hvalue⟩ := (Token.is_iff _ _ _).mp hin
    cases varToken with
    | some varToken =>
        refine hstops (by simp [hkind]) (loopInit_declared hgrammar.halts ?_ ?_ hinit)
        · simp [Token.isOperator, Token.is, hvalue]
        · simp [Token.isPunctuation, Token.is, hvalue]
    | none =>
        exact hidden_clash hgrammar hmeshes ⟨hlevel, hname, hin⟩ hinit hsemicolon hother
          (hmiddle.trans hafter) hfinal
  · have hkind : session.uncommented.cursor.next.kind = .blockComment := hspare.kind
    cases varToken with
    | some varToken =>
        refine hstops (by simp [hkind]) (loopInit_declared hgrammar.halts ?_ ?_ hinit)
        · simp [Token.isOperator, Token.is, hkind]
        · simp [Token.isPunctuation, Token.is, hkind]
    | none =>
        obtain ⟨expression, _, hexpression, hpure⟩ := exists_of_bind hinit
        cases hpure
        have hidentifier : session.uncommented.cursor.current.kind = .identifier := by
          rw [hlevel.current, hname]
        have hcontinues : session.uncommented.cursor.next.continues true = false :=
          test_of_blockComment (fun _ => Token.isWord_of_continues) hkind
        exact hstops (by simp [hkind])
          ((hgrammar.halts.expression_name true hidentifier hcontinues).of_ok hexpression)

/-- A loop does not begin with a comment and a declaration. -/
theorem fails_loopFrom_stalled (hgrammar : grammar.Halts) (first : Token) :
    Fails (Session.Stalled fun token => token.isKeyword "var") (loopFrom grammar first none) := by
  intro session value after hstalled hrun
  have hrefused : OperandStart.of session.uncommented.cursor.current = .refused := by
    obtain ⟨hkind, hvalue⟩ := (Token.is_iff _ _ _).mp hstalled.current_uncommented
    have hother : session.uncommented.cursor.current.isValueKeyword = false := by
      simp [Token.isValueKeyword, hvalue, Token.valueKeywords]
    simp [OperandStart.of, hkind, hvalue, hother]
  have hclosed : header session.cursor.current session.cursor.next = false := by
    rw [header, hstalled.test_current fun _ => Token.isWord_of_isIdentifier, Bool.false_and]
  rw [loopFrom_eq, hclosed, if_neg Bool.false_ne_true, forClauses_eq] at hrun
  obtain ⟨clause, middle, hclause, -⟩ := exists_of_bind hrun
  have hinit : (loopInit grammar none >>= fun init => pure (some init)) session =
      .ok clause middle := by
    rw [← hclause]
    exact (look_of_false (hstalled.test_current fun _ => Token.isWord_of_isPunctuation)).symm
  obtain ⟨_, _, hread, -⟩ := exists_of_bind hinit
  obtain ⟨_, _, hexpression, -⟩ := exists_of_bind hread
  exact (hgrammar.expression_refused true hrefused).of_ok hexpression

theorem loopFrom_agrees (hgrammar : grammar.Agrees thinning other)
    (hmeshes : grammar.Meshes thinning other) (first : Token) (varToken : Option Token) :
    thinning.Agree True thinning.Beside (loopFrom grammar first varToken)
      (loopFrom other first varToken) BreaksOff thinning.Same thinning.Beside where
  retains session value after hrun := by
    rw [loopFrom_eq] at hrun
    split at hrun
    · exact (forIn_agrees hgrammar first varToken).retains session value after hrun
    · exact (forClauses_agrees hgrammar first varToken).retains session value after hrun
  retains_other session value after hrun := by
    rw [loopFrom_eq] at hrun
    split at hrun
    · exact (forIn_agrees hgrammar first varToken).retains_other session value after hrun
    · exact (forClauses_agrees hgrammar first varToken).retains_other session value after hrun
  run {session later after final value result} hyes hbeside hrun hother hafter hfinal := by
    rw [loopFrom_eq] at hrun hother
    cases hsession : header session.cursor.current session.cursor.next <;>
      cases hlater : header later.cursor.current later.cursor.next <;>
      rw [hsession] at hrun <;> rw [hlater] at hother
    case false.false =>
      exact (forClauses_agrees hgrammar first varToken).run hyes hbeside hrun hother hafter hfinal
    case false.true =>
      exact (clauses_clash hgrammar hmeshes first varToken hbeside hlater hrun hother hafter
        hfinal).elim
    case true.false =>
      rw [header, Bool.and_eq_true] at hsession
      have hlevel := hbeside.level (Token.isWord_of_isIdentifier hsession.1)
      have hpassed : thinning.Beside session.passed later.passed := hlevel.advance
      have hnext : session.cursor.next = later.cursor.next :=
        (hpassed.level (Token.isWord_of_isOperator hsession.2)).current
      have hcurrent : session.cursor.current = later.cursor.current := hlevel.current
      rw [header, ← hcurrent, ← hnext, hsession.1, hsession.2] at hlater
      cases hlater
    case true.true =>
      rw [header, Bool.and_eq_true] at hsession
      have hlevel := hbeside.level (Token.isWord_of_isIdentifier hsession.1)
      exact (forIn_agrees hgrammar first varToken).run hyes
        ⟨hlevel, Token.isWord_of_isOperator hsession.2⟩ hrun hother hafter hfinal

theorem forLoop_agrees (hgrammar : grammar.Agrees thinning other)
    (hmeshes : grammar.Meshes thinning other) :
    thinning.Agree True thinning.Level (forLoop grammar) (forLoop other) BreaksOff
      thinning.Same thinning.Beside := by
  change thinning.Agree True thinning.Level
    (advance >>= fun first => expectPunctuation "(" >>= fun _ =>
      accept? (fun token => token.isKeyword "var") >>= loopFrom grammar first)
    (advance >>= fun first => expectPunctuation "(" >>= fun _ =>
      accept? (fun token => token.isKeyword "var") >>= loopFrom other first)
    BreaksOff thinning.Same thinning.Beside
  apply agree_advance.andThen
  intro first
  apply (agree_expectPunctuation "(").andThen
  intro opening
  apply (agree_accept? fun _ => Token.isWord_of_isKeyword).bindEq
  case hdoomed =>
    rintro (- | varToken)
    · exact (fails_loopFrom_stalled hgrammar.halts first).dooms
    · exact dooms_never varToken
  case hnext => exact loopFrom_agrees hgrammar hmeshes first

end Production

end ScriptSyntax

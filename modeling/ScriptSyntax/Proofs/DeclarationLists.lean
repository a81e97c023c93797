import ScriptSyntax.Proofs.Concatenation
import ScriptSyntax.Proofs.Conservation
import ScriptSyntax.Proofs.Foresight
import ScriptSyntax.Proofs.Reach.Statement
import ScriptSyntax.Proofs.Thinning.Program

/-!
# Lists of declarations

Declarations are read in two places, behind the `var` of a statement and behind that of a loop.
They are read by what comes before the semicolon alone, so each of the two programs that have a
list in one of these places and nothing else is read with the same declarations as the other.
Only the block comments before a semicolon belong to the end of a statement; in the head of a
loop nothing passes them.
-/

namespace ScriptSyntax

open Parse Thinning

namespace Token

/-- The semicolon behind declarations. -/
abbrev semicolon : Token :=
  .plain .punctuation ";"

/-- A program that declares variables in a statement. -/
def varStatement (list : List Token) : List Token :=
  .plain .keyword "var" :: (list ++ [semicolon])

/-- What follows the declarations in a loop that does nothing else. -/
def idleLoop : List Token :=
  [semicolon, .plain .punctuation ")", semicolon]

/-- The tokens are the marks of a loop that has neither a test nor a step. -/
def AreIdle (marks : List Token) : Prop :=
  marks.map (fun token => (token.kind, token.value)) =
    [(.punctuation, ";"), (.punctuation, ";"), (.punctuation, ")")]

/-- A program that declares variables in a loop. -/
def varLoop (list : List Token) : List Token :=
  .plain .keyword "for" :: .plain .punctuation "(" :: .plain .keyword "var" ::
    (list ++ semicolon :: idleLoop)

end Token

open Token (semicolon idleLoop)

namespace Tree

/-- The program is one statement, which declares variables. -/
def IsVarStatement (tree : Tree) (entries : List NodeId) : Prop :=
  ∃ id, tree.statements = [id] ∧ tree.shape? id = some (.varStatement entries)

/-- The program is one loop, which declares variables and does nothing else. -/
def IsVarLoop (tree : Tree) (entries : List NodeId) : Prop :=
  ∃ id word body, tree.statements = [id] ∧
    tree.shape? id =
      some (.forLoop (some word) (some (.declarations entries)) none none body) ∧
    tree.shape? body = some (.expression none)

end Tree

/-! ## Declarations before a semicolon -/

section Declarations

variable {semicolons : Semicolons} {depth : Nat} {list behind other : List Token}
variable {first second mid : Session} {entries : List NodeId}

/-- What is behind the semicolon does not matter for the declarations before it. -/
theorem declarations_before_semicolon
    (hfirst : first.cursor.pending = list ++ semicolon :: behind)
    (hsecond : second.cursor.pending = list ++ semicolon :: other)
    (htree : first.tree = second.tree)
    (hread : (Grammar.upTo semicolons depth).declarations first = .ok entries mid)
    (hmid : mid.cursor.pending = semicolon :: behind) :
    ∃ final, (Grammar.upTo semicolons depth).declarations second = .ok entries final ∧
      final.tree = mid.tree ∧ final.cursor.pending = semicolon :: other := by
  let lockstep := Lockstep.sharing (show semicolon.kind ≠ .blockComment by decide)
    (behind ++ [first.cursor.last]) (other ++ [second.cursor.last])
  have hbeside : lockstep.Beside first second := by
    refine ⟨⟨list, ?_, ?_⟩, htree⟩
    · rw [Cursor.upcoming, hfirst, List.append_assoc, List.cons_append]
    · rw [Cursor.upcoming, hsecond, List.append_assoc, List.cons_append]
  have houtcome := (Grammar.upTo_inStep semicolons depth).declarations.steps.beside hbeside trivial
  rw [hread] at houtcome
  rcases houtcome with hastray | ⟨final, hagain, ⟨front, hmids, hfinals⟩, hsame⟩
  · -- The first run stands before the semicolon.
    change mid.cursor.upcoming.length ≤ _ at hastray
    simp only [Cursor.upcoming, hmid, List.length_append, List.length_cons, List.length_nil]
      at hastray
    omega
  · have hfront : front = [] := by
      have hlength := congrArg List.length hmids
      simp only [Cursor.upcoming, hmid, List.length_append, List.length_cons, List.length_nil]
        at hlength
      exact List.eq_nil_of_length_eq_zero (by omega)
    refine ⟨final, hagain, hsame.symm, ?_⟩
    rw [hfront, List.nil_append, Cursor.upcoming] at hfinals
    exact List.append_inj_left' hfinals rfl

/-- Declarations end with a token of their own, not with a comment. -/
theorem exists_last_of_declarations
    (hread : (Grammar.upTo semicolons depth).declarations first = .ok entries mid) :
    ∃ last : Token, last.mayEnd = true ∧ last :: mid.cursor.pending <:+ first.cursor.pending := by
  have hgrammar := Grammar.upTo_reaching semicolons first.cursor.pending depth
  obtain ⟨-, id, -, hstops⟩ := (hgrammar.declarations first List.suffix_rfl).of_ok hread
  exact hstops.covers.exists_last

/-- The last token of declarations is one of those before the semicolon. -/
theorem exists_rest_of_suffix {last : Token} {pending : List Token} (hlast : last.mayEnd = true)
    (hsuffix : last :: pending <:+ list ++ [semicolon]) :
    ∃ front rest, list = front ++ last :: rest ∧ pending = rest ++ [semicolon] := by
  obtain ⟨front, hfront⟩ := hsuffix
  rcases List.eq_nil_or_concat pending with rfl | ⟨rest, mark, rfl⟩
  · have hmark := (List.append_inj' hfront rfl).2
    cases hmark
    cases hlast
  · rw [List.concat_eq_append] at hfront ⊢
    rw [← List.cons_append, ← List.append_assoc] at hfront
    obtain ⟨hlist, hmark⟩ := List.append_inj' hfront rfl
    exact ⟨front, rest, hlist.symm, congrArg _ hmark⟩

end Declarations

/-! ## Programs of one statement -/

theorem run_advance (session : Session) :
    advance session = .ok session.cursor.current session.passed :=
  rfl

/-- The statement that is read last is in the tree. -/
theorem shape?_sole (session : Session) (draft : Draft) (ids : List NodeId) (last : Token) :
    ((session.grown draft).tree.add (.root ids last)).2.shape? (session.tree.size + 1) =
      some draft.shape :=
  Tree.partOf_insert _ _ _ _ _ (Tree.shape?_insert_self ..)

section Sole

variable {semicolons : Semicolons} {depth : Nat} {head : Token} {others : List Token} {tree : Tree}
variable {id : NodeId} {after : Session}
variable (htokens : ∀ token ∈ head :: others, token.isEnd = false)

include htokens

theorem pending_start : (Session.start (head :: others)).cursor.pending = head :: others :=
  Cursor.pending_ofTokens htokens

theorem current_start : (Session.start (head :: others)).cursor.current = head := by
  rw [Cursor.current, pending_start htokens]
  rfl

/-- The statement of a program that has only one is read up to the end. -/
theorem exists_sole_statement (hdepth : others.length < depth)
    (hparse : parse semicolons (head :: others) = .ok tree) (hsole : tree.statements = [id]) :
    ∃ after, Production.statement (.upTo semicolons (depth + 1)) false
        (.start (head :: others)) = .ok id after ∧ after.cursor.current.isEnd = true ∧
      tree = (after.tree.add (.root [id] after.cursor.current)).2 := by
  have hpending : (Cursor.ofTokens (head :: others)).pending.length < depth + 1 := by
    rw [Cursor.pending_ofTokens htokens, List.length_cons]
    omega
  have hfirst : (Session.start (head :: others)).cursor.current.isEnd = false := by
    rw [current_start htokens]
    exact htokens head List.mem_cons_self
  obtain ⟨body, after, hread, rfl, -, -⟩ := exists_statements_of_parse hpending hparse
  have hbody : (after.tree.add (.root body after.cursor.current)).2.statements = body :=
    Tree.children_insert_self ..
  rw [hsole] at hbody
  subst hbody
  obtain ⟨_, _, between, ⟨rfl, rfl⟩, hstatement, hrest⟩ :=
    Production.exists_first_of_statements hfirst hread
  have hend := Production.isEnd_of_statements_nil hrest
  have hnone : Production.statements (.upTo semicolons depth) .program between = .ok [] after :=
    hrest
  rw [Production.statements_of_isEnd hend] at hnone
  cases hnone
  exact ⟨after, hstatement, hend, rfl⟩

theorem parse_of_sole_statement (hdepth : others.length < depth)
    (hread : Production.statement (.upTo semicolons (depth + 1)) false
      (.start (head :: others)) = .ok id after) (hend : after.cursor.current.isEnd = true) :
    parse semicolons (head :: others) =
      .ok (after.tree.add (.root [id] after.cursor.current)).2 := by
  have hpending : (Cursor.ofTokens (head :: others)).pending.length < depth + 1 := by
    rw [Cursor.pending_ofTokens htokens, List.length_cons]
    omega
  have hfirst : (Session.start (head :: others)).cursor.current.isEnd = false := by
    rw [current_start htokens]
    exact htokens head List.mem_cons_self
  exact parse_of_statements hpending
    (Production.statements_of_first hfirst hread (Production.statements_of_isEnd hend))

end Sole

/-! ## Statements -/

section Statements

variable {semicolons : Semicolons} {depth : Nat} {list : List Token} {tree : Tree}
variable {session ended mid : Session} {entries : List NodeId}

/-- A statement that is ended by the last token, a semicolon, has only block comments before it. -/
theorem isBlockComment_of_endStatement {rest : List Token} {mark : Option Token}
    (hpending : session.cursor.pending = rest ++ [semicolon])
    (hrest : ∀ token ∈ rest, token.isEnd = false)
    (hrun : endStatement semicolons session = .ok mark ended)
    (hended : ended.cursor.current.isEnd = true) :
    ∀ token ∈ rest, token.kind = .blockComment := by
  have hall : ∀ token ∈ session.cursor.pending, token.isEnd = false := by
    intro token htoken
    rw [hpending, List.mem_append, List.mem_singleton] at htoken
    rcases htoken with htoken | rfl
    · exact hrest token htoken
    · rfl
  have hnil (hsuffix : ended.cursor.pending <:+ session.cursor.pending) :
      ended.cursor.pending = [] :=
    Cursor.pending_nil_of_isEnd (fun token htoken => hall token (hsuffix.mem htoken)) hended
  rw [endStatement_eq] at hrun
  split at hrun
  · cases hrun
    have hdropped : (session.cursor.pending.dropWhile fun token => token.kind == .blockComment).tail
        = [] := hnil ((List.tail_suffix _).trans (List.dropWhile_suffix _))
    rw [hpending, List.dropWhile_append] at hdropped
    split at hdropped
    · rename_i hempty
      intro token htoken
      rw [List.isEmpty_iff, List.dropWhile_eq_nil_iff] at hempty
      exact beq_iff_eq.mp (hempty token htoken)
    · rename_i hfilled
      rw [List.tail_append_of_ne_nil (by simpa using hfilled)] at hdropped
      simp at hdropped
  · cases semicolons with
    | required =>
        obtain ⟨_, _, hmark, hpure⟩ := exists_of_bind hrun
        obtain ⟨-, rfl, rfl⟩ := expect_eq_ok hmark
        cases hpure
        have htail : session.cursor.pending.tail = [] := hnil (List.tail_suffix _)
        cases rest with
        | nil => exact fun _ htoken => nomatch htoken
        | cons token rest => simp [hpending] at htail
    | inserted =>
        dsimp only at hrun
        split at hrun
        · cases hrun
          simp [hpending] at hnil
        · cases hrun

variable (hlist : ∀ token ∈ list, token.isEnd = false)

include hlist

theorem not_isEnd_varStatement : ∀ token ∈ Token.varStatement list, token.isEnd = false :=
  List.forall_mem_cons.mpr ⟨rfl, List.forall_mem_append.mpr ⟨hlist, by decide⟩⟩

theorem pending_varStatement :
    (Session.start (Token.varStatement list)).passed.cursor.pending = list ++ [semicolon] :=
  congrArg List.tail (pending_start (not_isEnd_varStatement hlist))

theorem statement_varStatement (grammar : Grammar) :
    Production.statement grammar false (.start (Token.varStatement list)) =
      Production.varStatement grammar (.start (Token.varStatement list)) := by
  have hof (next : Token) : Production.Opening.of false (.plain .keyword "var") next =
      .varStatement := rfl
  rw [Production.statement_eq_opened, Token.varStatement,
    current_start (not_isEnd_varStatement hlist), hof]
  rfl

theorem exists_declarations_of_varStatement (hdepth : list.length + 1 < depth)
    (hcomment : ∀ last ∈ list.getLast?, last.kind ≠ .blockComment)
    (hparse : parse semicolons (Token.varStatement list) = .ok tree)
    (hsole : tree.IsVarStatement entries) :
    ∃ mid, (Grammar.upTo semicolons (depth + 1)).declarations
        (Session.start (Token.varStatement list)).passed = .ok entries mid ∧
      mid.cursor.pending = [semicolon] := by
  obtain ⟨id, hid, hshape⟩ := hsole
  obtain ⟨after, hrun, hend, rfl⟩ := exists_sole_statement (not_isEnd_varStatement hlist)
    (show (list ++ [semicolon]).length < depth by simpa using hdepth) hparse hid
  rw [← Token.varStatement, statement_varStatement hlist] at hrun
  obtain ⟨ids, mid, hread, hrest⟩ := exists_of_bind ((bind_of_ok (run_advance _)).symm.trans hrun)
  obtain ⟨mark, ended, hmark, hadd⟩ := exists_of_bind hrest
  obtain ⟨rfl, rfl⟩ := add_eq_ok hadd
  rw [shape?_sole] at hshape
  cases hshape
  obtain ⟨last, hlast, hsuffix⟩ := exists_last_of_declarations hread
  obtain ⟨front, rest, hfront, hmid⟩ := exists_rest_of_suffix hlast
    (pending_varStatement hlist ▸ hsuffix)
  have hblock := isBlockComment_of_endStatement hmid
    (fun token htoken => hlist token (by simp [hfront, htoken])) hmark hend
  have hnone : rest = [] := by
    rcases List.eq_nil_or_concat rest with rfl | ⟨others, comment, rfl⟩
    · rfl
    · refine absurd (hblock comment (by simp)) (hcomment comment ?_)
      rw [hfront, List.concat_eq_append, ← List.cons_append, ← List.append_assoc,
        List.getLast?_concat]
      rfl
  exact ⟨mid, hread, by rw [hmid, hnone, List.nil_append]⟩

theorem parse_varStatement (hdepth : list.length + 1 < depth)
    (hread : (Grammar.upTo semicolons (depth + 1)).declarations
      (Session.start (Token.varStatement list)).passed = .ok entries mid)
    (hmid : mid.cursor.pending = [semicolon]) :
    ∃ tree, parse semicolons (Token.varStatement list) = .ok tree ∧
      tree.IsVarStatement entries := by
  have hmark : endStatement (Grammar.upTo semicolons (depth + 1)).semicolons mid =
      .ok (some semicolon) mid.passed := by
    obtain ⟨⟨pending, last, hlast⟩, tree⟩ := mid
    subst hmid
    rfl
  have hrun : Production.statement (.upTo semicolons (depth + 1)) false
      (.start (Token.varStatement list)) = .ok (mid.tree.size + 1) (mid.passed.grown
        (.varStatement (Session.start (Token.varStatement list)).cursor.current entries
          (some semicolon))) := by
    rw [statement_varStatement hlist]
    exact (bind_of_ok (run_advance _)).trans ((bind_of_ok hread).trans (bind_of_ok hmark))
  have hend : mid.passed.cursor.current.isEnd = true :=
    Cursor.isEnd_of_pending_nil (congrArg List.tail hmid)
  have hparse := parse_of_sole_statement (not_isEnd_varStatement hlist) (by simpa using hdepth)
    hrun hend
  exact ⟨_, hparse, mid.tree.size + 1, Tree.children_insert_self .., shape?_sole ..⟩

end Statements

/-! ## Loops -/

section Loops

variable {semicolons : Semicolons} {depth : Nat} {list : List Token} {tree : Tree}
variable {session mid : Session} {entries : List NodeId}

variable (semicolons depth) in
/-- The rest of a loop that does nothing but declare. -/
theorem clausesFrom_idle (first : Token) (varToken : Option Token)
    (init : Option (LoopInit NodeId)) (hmid : mid.cursor.pending = semicolon :: idleLoop) :
    ∃ idle : Session, idle.cursor.pending = [] ∧
      idle.tree = (mid.tree.add (.expression none (some semicolon))).2 ∧
      Production.clausesFrom (.upTo semicolons (depth + 1)) first varToken init mid =
        .ok (idle.tree.size + 1)
          (idle.grown (.forLoop first varToken init none none (mid.tree.size + 1))) := by
  obtain ⟨⟨pending, last, hlast⟩, tree⟩ := mid
  subst hmid
  exact ⟨⟨⟨[], last, hlast⟩, (tree.add (.expression none (some semicolon))).2⟩, rfl, rfl, rfl⟩

theorem pending_eq_cons_of_isPunctuation {mark : String}
    (hcurrent : session.cursor.current.isPunctuation mark = true) :
    session.cursor.pending = session.cursor.current :: session.passed.cursor.pending :=
  Cursor.pending_eq_cons (Token.isEnd_of_isWord (Token.isWord_of_isPunctuation hcurrent))

/-- The rest of a loop that is read.  Without a test and a step there are three marks in front
of the body. -/
theorem exists_of_clausesFrom {grammar : Grammar} {first : Token} {varToken : Option Token}
    {init : Option (LoopInit NodeId)} {id : NodeId} {after : Session}
    (hrun : Production.clausesFrom grammar first varToken init mid = .ok id after) :
    ∃ test step body closed ended, id = ended.tree.size + 1 ∧
      after = ended.grown (.forLoop first varToken init test step body) ∧
      grammar.statement false closed = .ok body ended ∧
      (test = none → step = none → ∃ marks : List Token,
        mid.cursor.pending = marks ++ closed.cursor.pending ∧ Token.AreIdle marks) := by
  obtain ⟨_, _, hmark, hrest⟩ := exists_of_bind hrun
  obtain ⟨hfirst, -, rfl⟩ := expect_eq_ok hmark
  obtain ⟨test, tested, htest, hrest⟩ := exists_of_bind hrest
  obtain ⟨_, _, hmark, hrest⟩ := exists_of_bind hrest
  obtain ⟨hsecond, -, rfl⟩ := expect_eq_ok hmark
  obtain ⟨step, stepped, hstep, hrest⟩ := exists_of_bind hrest
  obtain ⟨_, _, hmark, hrest⟩ := exists_of_bind hrest
  obtain ⟨hthird, -, rfl⟩ := expect_eq_ok hmark
  obtain ⟨body, ended, hbody, hadd⟩ := exists_of_bind hrest
  obtain ⟨rfl, rfl⟩ := add_eq_ok hadd
  refine ⟨test, step, body, _, ended, rfl, rfl, hbody, ?_⟩
  rintro rfl rfl
  obtain ⟨-, rfl⟩ | ⟨_, ⟨⟩, -⟩ := readUnless_eq_ok htest
  obtain ⟨-, rfl⟩ | ⟨_, ⟨⟩, -⟩ := readUnless_eq_ok hstep
  refine ⟨[mid.cursor.current, mid.passed.cursor.current, mid.passed.passed.cursor.current],
    ?_, ?_⟩
  · rw [pending_eq_cons_of_isPunctuation hfirst, pending_eq_cons_of_isPunctuation hsecond,
      pending_eq_cons_of_isPunctuation hthird]
    rfl
  · rw [Token.isPunctuation, Token.is_iff] at hfirst hsecond hthird
    simp [Token.AreIdle, hfirst, hsecond, hthird]

/-- Where declarations are read up to a semicolon, the reader does not stand on it already, nor
before a loop over names. -/
theorem not_header_of_declarations
    (hread : (Grammar.upTo semicolons depth).declarations session = .ok entries mid)
    (hmid : mid.cursor.current.isPunctuation ";" = true) :
    Production.header session.cursor.current session.cursor.next = false ∧
      session.cursor.current.isPunctuation ";" = false := by
  have hhalts := Grammar.upTo_halts semicolons depth
  constructor
  · by_contra hheader
    simp only [Production.header, Bool.not_eq_false, Bool.and_eq_true, beq_iff_eq, Token.isOperator,
      Token.is_iff] at hheader
    obtain ⟨hname, hkind, hvalue⟩ := hheader
    have huncommented : session.uncommented = session := by
      rw [Session.uncommented, Cursor.skipComments_eq (by simp [Token.isComment, hname])]
    have hcursor : mid.cursor = session.cursor.advance := by
      rw [← congrArg Session.cursor huncommented]
      apply (hhalts.declarations_name ?_ ?_).of_ok hread
      all_goals simp [huncommented, Token.isOperator, Token.isPunctuation, Token.is, hkind, hvalue]
    have hnext : mid.cursor.current = session.cursor.next := congrArg Cursor.current hcursor
    rw [hnext, Token.isPunctuation, Token.is_iff, hkind] at hmid
    cases hmid.1
  · by_contra hmark
    simp only [Bool.not_eq_false, Token.isPunctuation, Token.is_iff] at hmark
    have huncommented : session.uncommented = session := by
      rw [Session.uncommented, Cursor.skipComments_eq (by simp [Token.isComment, hmark.1])]
    refine (hhalts.declarations_refused ?_).of_ok hread
    simp [huncommented, hmark.1]

/-- A loop that declares and has neither a test nor a step is read clause by clause. -/
theorem exists_declarations_of_loopFrom {grammar : Grammar} {first word other last : Token}
    {id body : NodeId} {ids : List NodeId} {after : Session}
    (hrun : Production.loopFrom grammar first (some word) session = .ok id after)
    (hshape : (after.tree.add (.root ids last)).2.shape? id =
      some (.forLoop (some other) (some (.declarations entries)) none none body)) :
    ∃ mid closed ended, grammar.declarations session = .ok entries mid ∧
      grammar.statement false closed = .ok body ended ∧ after.cursor = ended.cursor ∧
      ended.tree.PartOf after.tree ∧ ∃ marks : List Token,
        mid.cursor.pending = marks ++ closed.cursor.pending ∧ Token.AreIdle marks := by
  rw [Production.loopFrom_eq] at hrun
  split at hrun
  · obtain ⟨_, _, -, hrest⟩ := exists_of_bind hrun
    obtain ⟨_, _, -, hrest⟩ := exists_of_bind hrest
    obtain ⟨_, _, -, hrest⟩ := exists_of_bind hrest
    obtain ⟨_, _, -, hrest⟩ := exists_of_bind hrest
    obtain ⟨_, _, -, hadd⟩ := exists_of_bind hrest
    obtain ⟨rfl, rfl⟩ := add_eq_ok hadd
    rw [shape?_sole] at hshape
    cases hshape
  · rw [Production.forClauses_eq] at hrun
    obtain ⟨clause, mid, hclause, hrest⟩ := exists_of_bind hrun
    obtain ⟨test, step, body, closed, ended, rfl, rfl, hbody, hmarks⟩ :=
      exists_of_clausesFrom hrest
    rw [shape?_sole] at hshape
    cases hshape
    refine ⟨mid, closed, ended, ?_, hbody, rfl, Tree.partOf_insert _ _ _, hmarks rfl rfl⟩
    obtain ⟨⟨⟩, -⟩ | ⟨init, ⟨⟩, hinit⟩ := readUnless_eq_ok hclause
    obtain ⟨_, _, hdeclarations, hpure⟩ := exists_of_bind hinit
    cases hpure
    exact hdeclarations

theorem Production.forLoop_eq_loopFrom (grammar : Grammar)
    (hopening : session.passed.cursor.current.isPunctuation "(" = true)
    (hvar : session.passed.passed.cursor.current.isKeyword "var" = true) :
    forLoop grammar session = loopFrom grammar session.cursor.current
      (some session.passed.passed.cursor.current) session.passed.passed.passed := by
  have hopened : expectPunctuation "(" session.passed =
      .ok session.passed.cursor.current session.passed.passed := look_of_true hopening
  have hdeclares : accept? (fun token => token.isKeyword "var") session.passed.passed =
      .ok (some session.passed.passed.cursor.current) session.passed.passed.passed :=
    look_of_true hvar
  change (advance >>= fun first => expectPunctuation "(" >>= fun _ =>
    accept? (fun token => token.isKeyword "var") >>= loopFrom grammar first) session = _
  rw [bind_of_ok (run_advance session), bind_of_ok hopened, bind_of_ok hdeclares]

/-- A body that says nothing, in front of the end, has no word in it. -/
theorem contents_of_empty_body {closed ended : Session} {body : NodeId} {whole : Tree}
    (hread : (Grammar.upTo semicolons depth).statement false closed = .ok body ended)
    (hclosed : ∀ token ∈ closed.cursor.pending, token.isEnd = false)
    (hend : ended.cursor.current.isEnd = true) (hwhole : whole.Ordered)
    (hpart : ended.tree.PartOf whole) (hshape : whole.shape? body = some (.expression none)) :
    Token.contents (Token.spoken closed.cursor.pending) = [] := by
  have htrace := ((Grammar.upTo_traced semicolons depth).statement false closed).of_ok hread
  obtain ⟨passed, hpasses, hcontents⟩ := htrace.contents hwhole hpart
  have hnone : ended.cursor.pending = [] := by
    apply Cursor.pending_nil_of_isEnd _ hend
    intro token htoken
    exact hclosed token (hpasses.pending_eq ▸ List.mem_append_right passed htoken)
  have hpassed : closed.cursor.pending = passed := by
    rw [hpasses.pending_eq, hnone, List.append_nil]
  rw [hpassed, hcontents, Part.one, List.flatMap_singleton, Part.words,
    Tree.words_eq hwhole hshape]
  rfl

/-- Where three marks come before a body that says nothing, they are the last marks of the
program but one. -/
theorem eq_idleLoop_of_marks {pending marks behind : List Token}
    (hsuffix : pending <:+ list ++ semicolon :: idleLoop) (hpending : pending = marks ++ behind)
    (hmarks : Token.AreIdle marks)
    (hbehind : Token.contents (Token.spoken behind) = []) :
    pending = semicolon :: idleLoop := by
  have hthree : marks.length = 3 := by
    have hlength := congrArg List.length hmarks
    rwa [List.length_map] at hlength
  have hwithin {last : List Token} (hlast : last <:+ list ++ semicolon :: idleLoop)
      (hlength : last.length ≤ pending.length) : last <:+ pending :=
    List.suffix_of_suffix_length_le hlast hsuffix hlength
  rcases behind with _ | ⟨token, _ | ⟨other, others⟩⟩
  · -- The last three marks are others.
    rw [List.append_nil] at hpending
    have hidle : idleLoop <:+ pending :=
      hwithin ⟨list ++ [semicolon], by simp⟩ (by rw [hpending, hthree]; rfl)
    rw [hpending] at hidle
    rw [← hidle.eq_of_length (by rw [hthree]; rfl), Token.AreIdle] at hmarks
    exact absurd hmarks (by decide)
  · refine ((hwithin (List.suffix_append list _) ?_).eq_of_length ?_).symm
    all_goals simp [hpending, hthree, idleLoop]
  · -- The closing parenthesis would be in the body.
    have hclosing : [Token.plain .punctuation ")", semicolon] <:+ token :: other :: others := by
      refine List.suffix_of_suffix_length_le ⟨list ++ [semicolon, semicolon], by simp [idleLoop]⟩
        (List.IsSuffix.trans ⟨marks, hpending.symm⟩ hsuffix) (by simp)
    obtain ⟨front, hfront⟩ := hclosing
    rw [← hfront, Token.spoken_append, Token.contents_append, List.append_eq_nil_iff] at hbehind
    exact absurd hbehind.2 (by decide)

variable (hlist : ∀ token ∈ list, token.isEnd = false)

include hlist

theorem not_isEnd_varLoop : ∀ token ∈ Token.varLoop list, token.isEnd = false := by
  have hhead : ∀ token ∈ [Token.plain .keyword "for", .plain .punctuation "(",
      .plain .keyword "var"], token.isEnd = false := by decide
  exact List.forall_mem_append.mpr ⟨hhead, List.forall_mem_append.mpr ⟨hlist, by decide⟩⟩

theorem pending_varLoop :
    (Session.start (Token.varLoop list)).passed.passed.passed.cursor.pending =
      list ++ semicolon :: idleLoop :=
  congrArg (fun tokens => tokens.tail.tail.tail) (pending_start (not_isEnd_varLoop hlist))

theorem statement_varLoop (grammar : Grammar) :
    Production.statement grammar false (.start (Token.varLoop list)) =
      Production.loopFrom grammar (Session.start (Token.varLoop list)).cursor.current
        (some (Session.start (Token.varLoop list)).passed.passed.cursor.current)
        (Session.start (Token.varLoop list)).passed.passed.passed := by
  have hof (next : Token) : Production.Opening.of false (.plain .keyword "for") next =
      .forLoop := rfl
  have hpending : (Session.start (Token.varLoop list)).cursor.pending = Token.varLoop list :=
    pending_start (not_isEnd_varLoop hlist)
  have hfirst : (Session.start (Token.varLoop list)).cursor.current = .plain .keyword "for" :=
    current_start (not_isEnd_varLoop hlist)
  rw [Production.statement_eq_opened, hfirst, hof, ← hfirst]
  apply Production.forLoop_eq_loopFrom
  · change (List.headD (List.tail _) _ : Token).isPunctuation "(" = true
    rw [hpending]
    rfl
  · change (List.headD (List.tail (List.tail _)) _ : Token).isKeyword "var" = true
    rw [hpending]
    rfl

theorem exists_declarations_of_varLoop (hdepth : list.length + 6 < depth)
    (hparse : parse semicolons (Token.varLoop list) = .ok tree) (hsole : tree.IsVarLoop entries) :
    (∀ last ∈ list.getLast?, last.kind ≠ .blockComment) ∧
      ∃ mid, (Grammar.upTo semicolons (depth + 1)).declarations
          (Session.start (Token.varLoop list)).passed.passed.passed = .ok entries mid ∧
        mid.cursor.pending = semicolon :: idleLoop := by
  have hall := not_isEnd_varLoop hlist
  have hwhole := (grown_of_parse hparse).1.ordered Tree.empty_ordered
  obtain ⟨id, word, body, hid, hshape, hbody⟩ := hsole
  have hlength : (Token.varLoop list).tail.length < depth := by
    simpa [Token.varLoop, idleLoop] using hdepth
  obtain ⟨after, hrun, hend, rfl⟩ := exists_sole_statement hall hlength hparse hid
  rw [← Token.varLoop, statement_varLoop hlist] at hrun
  obtain ⟨mid, closed, ended, hread, hstatement, hsame, hpart, marks, hpending, hmarks⟩ :=
    exists_declarations_of_loopFrom hrun hshape
  rw [hsame] at hend
  obtain ⟨last, hlast, hsuffix⟩ := exists_last_of_declarations hread
  rw [pending_varLoop hlist] at hsuffix
  have hmid : mid.cursor.pending = semicolon :: idleLoop := by
    have hinside : mid.cursor.pending <:+ list ++ semicolon :: idleLoop :=
      (List.suffix_cons last _).trans hsuffix
    refine eq_idleLoop_of_marks hinside hpending hmarks (contents_of_empty_body hstatement ?_ hend
      hwhole (hpart.trans (Tree.partOf_insert _ _ _)) hbody)
    intro token htoken
    apply hall token
    have hwithin : token ∈ list ++ semicolon :: idleLoop :=
      hinside.mem (hpending ▸ List.mem_append_right marks htoken)
    exact List.mem_cons_of_mem _ (List.mem_cons_of_mem _ (List.mem_cons_of_mem _ hwithin))
  refine ⟨?_, mid, hread, hmid⟩
  obtain ⟨front, hfront⟩ := hsuffix
  rw [hmid, ← List.singleton_append, ← List.append_assoc] at hfront
  rw [← List.append_cancel_right hfront, List.getLast?_concat]
  rintro _ ⟨⟩ hkind
  rw [Token.mayEnd, hkind] at hlast
  cases hlast

theorem parse_varLoop (hdepth : list.length + 6 < depth)
    (hread : (Grammar.upTo semicolons (depth + 1)).declarations
      (Session.start (Token.varLoop list)).passed.passed.passed = .ok entries mid)
    (hmid : mid.cursor.pending = semicolon :: idleLoop) :
    ∃ tree, parse semicolons (Token.varLoop list) = .ok tree ∧ tree.IsVarLoop entries := by
  let session := (Session.start (Token.varLoop list)).passed.passed.passed
  let first := (Session.start (Token.varLoop list)).cursor.current
  let word := (Session.start (Token.varLoop list)).passed.passed.cursor.current
  obtain ⟨idle, hidle, htree, hclauses⟩ := clausesFrom_idle semicolons depth first (some word)
    (some (.declarations entries)) hmid
  have hcurrent : mid.cursor.current.isPunctuation ";" = true := by
    rw [Cursor.current, hmid]
    rfl
  obtain ⟨hheader, hmark⟩ := not_header_of_declarations hread hcurrent
  have hinit : Production.loopInit (.upTo semicolons (depth + 1)) (some word) session =
      .ok (.declarations entries) mid := bind_of_ok hread
  have hclause : readUnless (fun token => token.isPunctuation ";")
      (Production.loopInit (.upTo semicolons (depth + 1)) (some word)) session =
        .ok (some (.declarations entries)) mid :=
    (look_of_false hmark).trans (bind_of_ok hinit)
  have hrun : Production.statement (.upTo semicolons (depth + 1)) false
      (.start (Token.varLoop list)) = .ok (idle.tree.size + 1) (idle.grown (.forLoop first
        (some word) (some (.declarations entries)) none none (mid.tree.size + 1))) := by
    rw [statement_varLoop hlist, Production.loopFrom_eq, if_neg (by simpa using hheader),
      Production.forClauses_eq]
    exact (bind_of_ok hclause).trans hclauses
  have hparse := parse_of_sole_statement (not_isEnd_varLoop hlist)
    (by simpa [idleLoop] using hdepth) hrun (Cursor.isEnd_of_pending_nil hidle)
  refine ⟨_, hparse, idle.tree.size + 1, word, mid.tree.size + 1,
    Tree.children_insert_self .., shape?_sole .., ?_⟩
  apply Tree.partOf_insert
  apply Tree.partOf_insert
  rw [htree]
  exact Tree.shape?_insert_self ..

end Loops

/-! ## The same lists -/

/-- A loop declares the same variables as a statement, unless a comment stands before the
semicolon. -/
theorem varLoop_iff_varStatement {semicolons : Semicolons} {list : List Token}
    (hlist : ∀ token ∈ list, token.isEnd = false) (entries : List NodeId) :
    (∃ tree, parse semicolons (Token.varLoop list) = .ok tree ∧ tree.IsVarLoop entries) ↔
      (∃ tree, parse semicolons (Token.varStatement list) = .ok tree ∧
        tree.IsVarStatement entries) ∧
      ∀ last ∈ list.getLast?, last.kind ≠ .blockComment := by
  have hstatement : list.length + 1 < list.length + 7 := by omega
  have hloop : list.length + 6 < list.length + 7 := by omega
  constructor
  · rintro ⟨tree, hparse, hsole⟩
    obtain ⟨hcomment, mid, hread, hmid⟩ := exists_declarations_of_varLoop hlist hloop hparse hsole
    obtain ⟨final, hagain, -, hfinal⟩ := declarations_before_semicolon (pending_varLoop hlist)
      (pending_varStatement hlist) rfl hread hmid
    exact ⟨parse_varStatement hlist hstatement hagain hfinal, hcomment⟩
  · rintro ⟨⟨tree, hparse, hsole⟩, hcomment⟩
    obtain ⟨mid, hread, hmid⟩ :=
      exists_declarations_of_varStatement hlist hstatement hcomment hparse hsole
    obtain ⟨final, hagain, -, hfinal⟩ := declarations_before_semicolon (pending_varStatement hlist)
      (pending_varLoop hlist) rfl hread hmid
    exact parse_varLoop hlist hloop hagain hfinal

end ScriptSyntax

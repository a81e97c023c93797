import ScriptSyntax.Proofs.Accord.Statement
import ScriptSyntax.Proofs.Thinning.Meshing

/-!
# Programs over thinned tokens

Lists of statements are the only place for the comments that are left out: where the first run
stands on one, it reads it as a statement of its own, and the second run waits.
-/

namespace ScriptSyntax

open Parse Thinning

namespace Production

variable {thinning : Thinning} {grammar other : Grammar} {labels : Bool}

/-! ## Statements -/

/-- The statement that the first tokens open. -/
def opened (grammar : Grammar) : Opening → Parse NodeId
  | .comment => comment
  | .labelled => labelled grammar
  | .expression => expressionStatement grammar
  | .block => block grammar
  | .empty => emptyStatement
  | .jump kind => jump grammar kind
  | .caseLabel => caseLabel grammar
  | .debugger => debugger grammar
  | .defaultLabel => defaultLabel
  | .doWhile => doWhile grammar
  | .forLoop => forLoop grammar
  | .function => function grammar .definition
  | .ifElse => ifElse grammar
  | .returns => returns grammar
  | .switch => switch grammar
  | .throws => throws grammar
  | .tryCatch => tryCatch grammar
  | .varStatement => varStatement grammar
  | .whileLoop => whileLoop grammar
  | .withScope => withScope grammar
  | .refused reason => refuse reason

theorem statement_eq_opened (grammar : Grammar) (labels : Bool) (session : Session) :
    statement grammar labels session =
      opened grammar (Opening.of labels session.cursor.current session.cursor.next) session :=
  rfl

theorem Opening.next_of_labelled {token next : Token}
    (hof : Opening.of labels token next = .labelled) : next.isWord = true := by
  have hopens := Opening.of_opens labels token next
  rw [hof] at hopens
  exact Token.isWord_of_isPunctuation hopens.2

theorem opened_agrees (hgrammar : grammar.Agrees thinning other)
    (hmeshes : grammar.Meshes thinning other) (opening : Opening) :
    thinning.Agree True
      (fun first second =>
        thinning.Level first second ∧ (opening = .labelled → first.cursor.next.isWord = true))
      (opened grammar opening) (opened other opening) BreaksOff thinning.Same
      thinning.Beside := by
  have hlevel : ∀ {reader another : Parse NodeId} {doomed : NodeId → Session → Prop},
      thinning.Agree True thinning.Level reader another doomed thinning.Same thinning.Beside →
      (∀ id session, doomed id session → BreaksOff id session) →
      thinning.Agree True
        (fun first second =>
          thinning.Level first second ∧ (opening = .labelled → first.cursor.next.isWord = true))
        reader another BreaksOff thinning.Same thinning.Beside :=
    fun hreader hdoomed => hreader.imp id (fun _ _ => And.left) hdoomed
      (fun _ _ _ => id) fun _ _ => id
  have hclosed : ∀ {reader another : Parse NodeId},
      thinning.Agree True thinning.Level reader another never thinning.Same thinning.Beside →
      thinning.Agree True
        (fun first second =>
          thinning.Level first second ∧ (opening = .labelled → first.cursor.next.isWord = true))
        reader another BreaksOff thinning.Same thinning.Beside :=
    fun hreader => hlevel hreader fun _ _ => False.elim
  cases opening with
  | comment => exact hclosed comment_agrees
  | labelled =>
      exact (labelled_agrees hgrammar).imp id (fun _ _ hstart => ⟨hstart.1, hstart.2 rfl⟩)
        (fun _ _ => id) (fun _ _ _ => id) fun _ _ => id
  | expression => exact hclosed (expressionStatement_agrees hgrammar).ofBeside
  | block => exact hclosed (block_agrees hgrammar).ofBeside
  | empty => exact hclosed emptyStatement_agrees
  | jump kind => exact hclosed (jump_agrees hgrammar kind)
  | caseLabel => exact hclosed (caseLabel_agrees hgrammar)
  | debugger => exact hclosed (debugger_agrees hgrammar)
  | defaultLabel => exact hclosed defaultLabel_agrees
  | doWhile => exact hclosed (doWhile_agrees hgrammar)
  | forLoop => exact hlevel (forLoop_agrees hgrammar hmeshes) fun _ _ => id
  | function => exact hclosed (function_agrees hgrammar .definition)
  | ifElse => exact hlevel (ifElse_agrees hgrammar) fun _ _ => id
  | returns => exact hclosed (returns_agrees hgrammar)
  | switch => exact hclosed (switch_agrees hgrammar)
  | throws => exact hclosed (throws_agrees hgrammar)
  | tryCatch => exact hlevel (tryCatch_agrees hgrammar) fun _ _ => id
  | varStatement => exact hclosed (varStatement_agrees hgrammar)
  | whileLoop => exact hlevel (whileLoop_agrees hgrammar) fun _ _ => id
  | withScope => exact hlevel (withScope_agrees hgrammar) fun _ _ => id
  | refused reason => exact agree_refuse reason reason

/-- Sessions at the same token open the same statement, unless a comment that is left out
hides the colon behind a label. -/
theorem opening_eq_or {first second : Session} (hlevel : thinning.Level first second) :
    Opening.of labels first.cursor.current first.cursor.next =
        Opening.of labels second.cursor.current second.cursor.next ∨
      first.cursor.current.kind = .identifier ∧
        first.passed.Stalled fun token => token.isPunctuation ":" := by
  have hcurrent : first.cursor.current = second.cursor.current := hlevel.current
  rcases Cursor.Thinned.level_or_atSpare (Cursor.Level.advance hlevel) with hnext | hspare
  · have hnext : first.cursor.next = second.cursor.next := hnext.current
    rw [hcurrent, hnext]
    exact .inl rfl
  · have hkind : first.cursor.next.kind = .blockComment := hspare.kind
    have hcolon : first.cursor.next.isPunctuation ":" = false :=
      test_of_blockComment (fun _ => Token.isWord_of_isPunctuation) hkind
    rw [← hcurrent, Opening.of, Opening.of, hcolon]
    cases hother : second.cursor.next.isPunctuation ":" with
    | false => exact .inl rfl
    | true =>
        cases hname : first.cursor.current.kind
        case identifier =>
          exact .inr ⟨rfl, hkind, _, hspare.ahead (Token.isWord_of_isPunctuation hother), hother⟩
        all_goals exact .inl rfl

/-- A name before a comment is no statement if a colon comes behind. -/
theorem fails_statement_name (hgrammar : grammar.Halts) :
    Fails (fun session => session.cursor.current.kind = .identifier ∧
      session.passed.Stalled fun token => token.isPunctuation ":") (statement grammar labels) := by
  rintro session value after ⟨hname, hstalled⟩ hrun
  have hkind : session.cursor.next.kind = .blockComment := hstalled.comment
  have hof : Opening.of labels session.cursor.current session.cursor.next = .expression := by
    have hcolon : session.cursor.next.isPunctuation ":" = false :=
      test_of_blockComment (fun _ => Token.isWord_of_isPunctuation) hkind
    simp [Opening.of, hname, hcolon]
  rw [statement_eq_opened, hof] at hrun
  obtain ⟨name, middle, hexpression, hrest⟩ := exists_of_bind hrun
  have huncommented : session.uncommented = session := by
    rw [Session.uncommented, Cursor.skipComments_eq (by simp [Token.isComment, hname])]
  have hcursor : middle.cursor = session.cursor.advance := by
    have hcontinues : session.cursor.next.continues true = false :=
      test_of_blockComment (fun _ => Token.isWord_of_continues) hkind
    have hread := expression_name hgrammar true (by rwa [huncommented]) (by rwa [huncommented])
    rw [huncommented] at hread
    exact hread.of_ok hexpression
  obtain ⟨_, _, hend, -⟩ := exists_of_bind hrest
  have hmiddle : middle.Stalled fun token => token.isPunctuation ":" := by
    rwa [Session.Stalled, hcursor]
  refine fails_endStatement grammar.semicolons ?_ ?_ _ _ _ hmiddle hend
  all_goals
    intro token htoken
    obtain ⟨-, hvalue⟩ := (token.is_iff _ _).mp htoken
    simp [Token.isPunctuation, Token.is, hvalue]

theorem retains_statement (hgrammar : grammar.Agrees thinning other)
    (hmeshes : grammar.Meshes thinning other) (labels : Bool) :
    (statement grammar labels).Retains ∧ (statement other labels).Retains := by
  constructor
  · intro session
    rw [statement_eq_opened]
    exact (opened_agrees hgrammar hmeshes _).retains session
  · intro session
    rw [statement_eq_opened]
    exact (opened_agrees hgrammar hmeshes _).retains_other session

/-- At the same token both runs read the same statement. -/
theorem statement_agrees_level (hgrammar : grammar.Agrees thinning other)
    (hmeshes : grammar.Meshes thinning other) (labels : Bool) :
    thinning.Agree True thinning.Level (statement grammar labels) (statement other labels)
      BreaksOff thinning.Same thinning.Beside where
  retains := (retains_statement hgrammar hmeshes labels).1
  retains_other := (retains_statement hgrammar hmeshes labels).2
  run {first second after final value result} hyes hlevel hrun hother hafter hfinal := by
    rcases opening_eq_or hlevel with hof | hname
    · rw [statement_eq_opened] at hrun hother
      rw [← hof] at hother
      exact (opened_agrees hgrammar hmeshes _).run hyes ⟨hlevel, Opening.next_of_labelled⟩ hrun
        hother hafter hfinal
    · exact absurd hrun (fails_statement_name hgrammar.halts first value after hname)

theorem statement_agrees (hgrammar : grammar.Agrees thinning other)
    (hmeshes : grammar.Meshes thinning other) (labels : Bool) :
    thinning.Agree True thinning.Beside (statement grammar labels) (statement other labels)
      thinning.Strays thinning.Same thinning.Beside where
  retains := (retains_statement hgrammar hmeshes labels).1
  retains_other := (retains_statement hgrammar hmeshes labels).2
  run {first second after final value result} hyes hbeside hrun hother hafter hfinal := by
    rcases Cursor.Thinned.level_or_atSpare hbeside with hlevel | hspare
    · rcases (statement_agrees_level hgrammar hmeshes labels).run hyes hlevel hrun hother hafter
        hfinal with hbroken | hboth
      · exact .inl (.inr hbroken)
      · exact .inr hboth
    · have hcomment := Cursor.isComment_of_blockComment hspare.kind
      obtain ⟨rfl, rfl⟩ := (statement_comment labels hcomment).of_ok hrun
      have hshape : thinning.first.shape? (first.tree.size + 1) =
          some (.leaf .comment first.cursor.current) :=
        hafter.shape?_eq (Tree.shape?_insert_self ..)
      have hstray : thinning.Stray (first.tree.size + 1) := by
        refine ⟨first.cursor.current, ?_, hspare.spare⟩
        rw [Tree.comment?, hshape]
      exact .inl (.inl hstray)

/-! ## Lists of statements -/

theorem statements_agrees_level (hgrammar : grammar.Agrees thinning other)
    (hmeshes : grammar.Meshes thinning other) (enclosure : Enclosure) :
    thinning.Agree True thinning.Level (statements grammar enclosure)
      (statements other enclosure) never thinning.SameStatements thinning.Level := by
  apply Agree.current
  intro token
  apply Agree.ite
  · intro _
    exact agree_pure fun _ => rfl
  intro _
  apply (statement_agrees_level hgrammar hmeshes enclosure.admitsLabels).bind
  case hdoomed =>
    intro first
    apply Fails.dooms
    apply Fails.bind
    intro session rest after hbroken hrun
    exact (hgrammar.halts.statements_stalled enclosure (.inl hbroken)).of_ok hrun
  case hnext =>
    intro first result
    apply (hgrammar.statements enclosure).follow
    intro rest others
    apply agree_pure
    rintro ⟨⟨-, hfirst⟩, hrest⟩
    unfold Thinning.SameStatements at hrest ⊢
    rw [List.map_cons, List.map_cons, List.filter_cons, List.filter_cons, hfirst.term, hrest]

/-- Where the first run stands on a comment that is left out, it reads it and goes on, and the
second run stays where it is. -/
theorem statements_agrees (hgrammar : grammar.Agrees thinning other)
    (hmeshes : grammar.Meshes thinning other) (enclosure : Enclosure)
    (hahead : thinning.Agree True thinning.Beside (grammar.statements enclosure)
      (statements other enclosure) never thinning.SameStatements thinning.Level) :
    thinning.Agree True thinning.Beside (statements grammar enclosure)
      (statements other enclosure) never thinning.SameStatements thinning.Level where
  retains := (statements_agrees_level hgrammar hmeshes enclosure).retains
  retains_other := (statements_agrees_level hgrammar hmeshes enclosure).retains_other
  run {first second after final value result} hyes hbeside hrun hother hafter hfinal := by
    rcases Cursor.Thinned.level_or_atSpare hbeside with hlevel | hspare
    · exact (statements_agrees_level hgrammar hmeshes enclosure).run hyes hlevel hrun hother hafter
        hfinal
    · have hopen : enclosure.closedBy first.cursor.current = false :=
        enclosure.closedBy_of_kind (by simp [hspare.kind]) (by simp [hspare.kind])
      have hread : (statement grammar enclosure.admitsLabels >>= fun id => do
          return id :: (← grammar.statements enclosure)) first = .ok value after := by
        rw [← hrun]
        exact (look_of_false hopen).symm
      obtain ⟨comment, _, hcomment, hrest⟩ := exists_of_bind hread
      have hkind := Cursor.isComment_of_blockComment hspare.kind
      obtain ⟨rfl, rfl⟩ := (statement_comment _ hkind).of_ok hcomment
      obtain ⟨rest, _, hstatements, hpure⟩ := exists_of_bind hrest
      cases hpure
      have hpassed : thinning.Beside
          (first.passed.grown (.leaf .comment first.cursor.current)) second := hspare.advance
      rcases hahead.run hyes hpassed hstatements hother hafter hfinal with hnever | ⟨hsame, hend⟩
      · exact hnever.elim
      · have hstands := (hahead.retains _ _ _ hstatements).trans hafter
        have hshape : thinning.first.shape? (first.tree.size + 1) =
            some (.leaf .comment first.cursor.current) :=
          hstands.shape?_eq (Tree.shape?_insert_self ..)
        have hdropped : (thinning.first.term (first.tree.size + 1)).isComment = true := by
          rw [Tree.term_eq thinning.first_ordered hshape]
          rfl
        refine .inr ⟨?_, hend⟩
        rw [Thinning.SameStatements, List.map_cons, List.filter_cons, hdropped]
        exact hsame

end Production

/-! ## Grammars and programs -/

/-- Where one run is refused nothing is to be compared. -/
theorem agree_of_refused {Result : Type} {thinning : Thinning} {semicolons : Semicolons}
    {known : Prop} {start beside : Session → Session → Prop} {reader other : Parse Result}
    {doomed : Result → Session → Prop} {same : Result → Result → Prop}
    (hreader : reader.Points semicolons) (hother : other.Points semicolons)
    (hrefused : reader = refuse .outOfDepth ∨ other = refuse .outOfDepth) :
    thinning.Agree known start reader other doomed same beside where
  retains := hreader.retains
  retains_other := hother.retains
  run _ _ hrun hread _ _ := by
    rcases hrefused with rfl | rfl
    · cases hrun
    · cases hread

namespace Grammar

variable {thinning : Thinning} {semicolons : Semicolons}

/-- A grammar that reads nothing agrees with every other. -/
theorem agrees_of_exhausted {grammar other : Grammar} (hgrammar : grammar.Points semicolons)
    (hother : other.Points semicolons) (hends : grammar.semicolons = other.semicolons)
    (hhalts : grammar.Halts)
    (hexhausted : grammar = exhausted semicolons ∨ other = exhausted semicolons) :
    grammar.Agrees thinning other := by
  have hread : ∀ {Result : Type} (read : Grammar → Parse Result),
      read grammar = read (exhausted semicolons) ∨ read other = read (exhausted semicolons) :=
    fun read => hexhausted.imp (congrArg read) (congrArg read)
  constructor
  case semicolons => exact hends
  case halts => exact hhalts
  case statement =>
    intro labels
    exact agree_of_refused (hgrammar.statement labels) (hother.statement labels)
      (hread fun grammar => grammar.statement labels)
  case statements =>
    intro enclosure
    exact agree_of_refused (hgrammar.statements enclosure) (hother.statements enclosure)
      (hread fun grammar => grammar.statements enclosure)
  case parameters =>
    exact agree_of_refused hgrammar.parameters hother.parameters (hread Grammar.parameters)
  case declarations =>
    exact agree_of_refused hgrammar.declarations hother.declarations (hread Grammar.declarations)
  case expression =>
    intro commas
    exact agree_of_refused (hgrammar.expression commas) (hother.expression commas)
      (hread fun grammar => grammar.expression commas)
  case assignment =>
    exact agree_of_refused hgrammar.assignment hother.assignment (hread Grammar.assignment)
  case operand =>
    intro calls
    exact agree_of_refused (hgrammar.operand calls) (hother.operand calls)
      (hread fun grammar => grammar.operand calls)
  case operations =>
    intro left right floor
    exact agree_of_refused (hgrammar.operations left floor) (hother.operations right floor)
      (hexhausted.imp (congrArg fun grammar : Grammar => grammar.operations left floor)
        (congrArg fun grammar : Grammar => grammar.operations right floor))
  case suffixes =>
    intro target result calls
    exact agree_of_refused (hgrammar.suffixes target calls) (hother.suffixes result calls)
      (hexhausted.imp (congrArg fun grammar : Grammar => grammar.suffixes target calls)
        (congrArg fun grammar : Grammar => grammar.suffixes result calls))
  case items =>
    intro closing _
    exact agree_of_refused (hgrammar.items closing) (hother.items closing)
      (hread fun grammar => grammar.items closing)
  case properties =>
    exact agree_of_refused hgrammar.properties hother.properties (hread Grammar.properties)

theorem unfold_agrees {grammar other : Grammar} (hgrammar : grammar.Agrees thinning other)
    (hmeshes : grammar.Meshes thinning other)
    (hahead : grammar.Agrees thinning other.unfold) :
    grammar.unfold.Agrees thinning other.unfold where
  semicolons := hgrammar.semicolons
  halts := unfold_halts hgrammar.halts
  statement := Production.statement_agrees hgrammar hmeshes
  statements enclosure :=
    Production.statements_agrees hgrammar hmeshes enclosure (hahead.statements enclosure)
  parameters := Production.parameters_agrees hgrammar
  declarations := Production.declarations_agrees hgrammar
  expression := Production.expression_agrees hgrammar
  assignment := Production.assignment_agrees hgrammar
  operand := Production.operand_agrees hgrammar
  operations := Production.operations_agrees hgrammar
  suffixes := Production.suffixes_agrees hgrammar
  items := Production.items_agrees hgrammar
  properties := Production.properties_agrees hgrammar

theorem upTo_agrees (thinning : Thinning) (semicolons : Semicolons) (depth : Nat) :
    ∀ level ≤ depth, ∀ deep, (upTo semicolons level).Agrees thinning (upTo semicolons deep) := by
  have hidle : ∀ level deep, upTo semicolons level = exhausted semicolons ∨
      upTo semicolons deep = exhausted semicolons →
      (upTo semicolons level).Agrees thinning (upTo semicolons deep) := by
    intro level deep
    apply agrees_of_exhausted (upTo_points semicolons level) (upTo_points semicolons deep)
    · rw [upTo_semicolons, upTo_semicolons]
    · exact upTo_halts semicolons level
  induction depth with
  | zero =>
      intro level hlevel deep
      obtain rfl := Nat.le_zero.mp hlevel
      exact hidle 0 deep (.inl rfl)
  | succ depth ih =>
      intro level hlevel deep
      rcases Nat.le_succ_iff.mp hlevel with hbelow | rfl
      · exact ih level hbelow deep
      · cases deep with
        | zero => exact hidle (depth + 1) 0 (.inr rfl)
        | succ deep =>
            have hgrammar := ih depth (Nat.le_refl depth)
            exact unfold_agrees (hgrammar deep) (upTo_meshes ih deep) (hgrammar (deep + 1))

end Grammar

end ScriptSyntax

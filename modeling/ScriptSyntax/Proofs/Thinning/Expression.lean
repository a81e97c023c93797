import ScriptSyntax.Proofs.Thinning.Grammar

/-!
# Expressions over thinned tokens

Operands, what follows them, and the operations that join them, each read by both runs.  What
stands behind an operand is given a reader of its own, because it is also read behind what
another production has begun.
-/

namespace ScriptSyntax

open Parse Thinning

namespace Production

variable {thinning : Thinning} {known : Prop} {grammar other : Grammar}

/-! ## Blocks and functions -/

theorem block_agrees (hgrammar : grammar.Agrees thinning other) :
    thinning.Agree True thinning.Beside (block grammar) (block other) never thinning.Same
      thinning.Beside := by
  apply (agree_expectPunctuation "\x7b").andThen
  intro first
  apply (hgrammar.statements .block).follow
  intro statements others
  apply agree_advance.andThen
  intro last
  apply agree_add
  rintro ⟨-, hstatements⟩
  constructor
  case shape => simpa [Draft.block, Shape.map, Shape.mapIdx, Shape.mapIdx_eq_map, Shape.uncommented,
    Thinning.SameStatements] using hstatements
  all_goals simp [Draft.block, Shape.isRoot, Edge.token, Edge.span, Edge.nodes]

theorem parameters_agrees (hgrammar : grammar.Agrees thinning other) :
    thinning.Agree True thinning.Beside (parameters grammar) (parameters other) never Eq
      thinning.Level := by
  have hword : Fails (fun session => session.cursor.current.isWord = false)
      (parameters grammar) := by
    intro session value after hcurrent hrun
    have hidentifier : (session.cursor.current.kind == .identifier) = false :=
      test_of_not_isWord (fun _ => Token.isWord_of_isIdentifier) hcurrent
    have hname : (expectIdentifier .expectedParameter).Meets session (fun _ _ => False)
        (fun _ => True) := by
      unfold expectIdentifier
      rw [meets_expect, hidentifier, if_neg Bool.false_ne_true]
      trivial
    have hfails : (parameters grammar).Meets session (fun _ _ => False) (fun _ => True) := by
      unfold parameters
      rw [meets_bind_current,
        test_of_not_isWord (fun _ => Token.isWord_of_isPunctuation) hcurrent,
        if_neg Bool.false_ne_true]
      split
      · exact meets_refuse.mpr trivial
      · exact hname.bind fun _ _ => False.elim
    exact hfails.of_ok hrun
  apply Agree.ofWord _ hword
  apply Agree.current
  intro token
  apply Agree.ite
  · intro _
    exact agree_pure fun _ => rfl
  intro _
  apply Agree.ite
  · intro _
    exact agree_refuse _ _
  intro _
  apply (agree_expect fun _ => Token.isWord_of_isIdentifier).ofBeside.andThen
  intro name
  apply (agree_separator ")").andThen
  intro _
  apply hgrammar.parameters.andThen
  intro others
  exact agree_pure fun _ => rfl

theorem function_agrees (hgrammar : grammar.Agrees thinning other) (role : FunctionRole) :
    thinning.Agree True thinning.Level (function grammar role) (function other role) never
      thinning.Same thinning.Beside := by
  apply agree_advance.andThen
  intro first
  apply (agree_accept? fun _ => Token.isWord_of_isIdentifier).bindEq
  case hdoomed =>
    rintro (- | name)
    · exact (fails_expect_stalled fun _ => Token.isWord_of_isPunctuation).bind.dooms
    · exact dooms_never name
  case hnext =>
    intro name
    apply (agree_expectPunctuation "(").andThen
    intro opening
    apply hgrammar.parameters.andThen
    intro parameters
    apply agree_advance.andThen
    intro closing
    apply (block_agrees hgrammar).follow
    intro body result
    apply Agree.ite
    · intro _
      exact agree_throw _ _
    · intro _
      apply agree_add
      rintro ⟨-, hbody⟩
      constructor
      all_goals simp [Draft.function, Shape.map, Shape.mapIdx, Shape.uncommented, Shape.isRoot,
        Shape.children, Edge.token, Edge.span, Edge.nodes, hbody.term, hbody.span]

theorem parenthesized_agrees (hgrammar : grammar.Agrees thinning other) :
    thinning.Agree True thinning.Beside (parenthesized grammar) (parenthesized other) never
      thinning.Same thinning.Beside := by
  apply (agree_expectPunctuation "(").andThen
  intro first
  apply (hgrammar.expression true).bind
  · intro inner
    apply Fails.dooms
    apply fails_eatComments
    intro comment
    exact (fails_expect fun _ hcurrent =>
      Token.isPunctuation_of_continues hcurrent (by decide)).bind
  intro inner result
  apply agree_eatComments.follow
  intro comment another
  apply (agree_expectPunctuation ")").ofBeside.andThen
  intro last
  apply agree_add
  rintro ⟨⟨-, hinner⟩, -⟩
  constructor
  case shape => simp [Draft.parenthesized, Shape.map, Shape.mapIdx, Shape.uncommented, hinner.term]
  all_goals simp [Draft.parenthesized, Shape.isRoot, Edge.token, Edge.span, Edge.nodes]

/-! ## Operands -/

theorem array_agrees (hgrammar : grammar.Agrees thinning other) :
    thinning.Agree True thinning.Level (array grammar) (array other) never thinning.Same
      thinning.Beside := by
  apply agree_advance.andThen
  intro first
  apply (hgrammar.items (by decide)).follow
  intro elements others
  apply agree_advance.andThen
  intro last
  apply agree_add
  rintro ⟨-, helements⟩
  have hterms := terms_of_forall₂ helements
  constructor
  all_goals simp [Draft.array, Shape.map, Shape.mapIdx, Shape.mapIdx_eq_map, Shape.uncommented,
    Shape.isRoot, Edge.token, Edge.span, Edge.nodes, hterms]

theorem property_agrees (hgrammar : grammar.Agrees thinning other) :
    thinning.Agree True thinning.Beside (property grammar) (property other)
      (HaltsEarly false) thinning.Same thinning.Beside := by
  apply (agree_expect fun _ => Token.isWord_of_isPropertyName).andThen
  intro name
  apply (agree_expectPunctuation ":").andThen
  intro colon
  apply (hgrammar.expression false).bind
  case hdoomed => exact fun _ => leads_add.dooms
  case hnext =>
    intro value result
    apply agree_add
    rintro ⟨-, hvalue⟩
    constructor
    all_goals simp [Draft.property, Shape.map, Shape.mapIdx, Shape.uncommented, Shape.isRoot,
      Shape.children, Edge.token, Edge.span, Edge.nodes, hvalue.term, hvalue.span]

theorem properties_agrees (hgrammar : grammar.Agrees thinning other) :
    thinning.Agree True thinning.Beside (properties grammar) (properties other) never
      (List.Forall₂ thinning.Same) thinning.Level := by
  apply agree_eatComments.follow
  intro comment another
  apply Agree.current
  intro token
  apply Agree.ite
  · intro _
    exact agree_pure fun _ => .nil
  intro _
  apply (property_agrees hgrammar).ofBeside.bind
  case hdoomed =>
    intro first
    apply Fails.dooms
    apply fails_eatComments
    intro comment
    exact (fails_separator (by decide)).bind
  case hnext =>
    intro first second
    apply agree_eatComments.follow
    intro comment another
    apply (agree_separator "\x7d").ofBeside.andThen
    intro _
    apply hgrammar.properties.follow
    intro rest others
    exact agree_pure fun ⟨⟨⟨_, hfirst⟩, _⟩, hrest⟩ => .cons hfirst hrest

/-- The comment of an object is not compared. -/
theorem object_agrees (hgrammar : grammar.Agrees thinning other)
    (comment another : Option Token) :
    thinning.Agree True thinning.Level (object grammar comment) (object other another) never
      thinning.Same thinning.Beside := by
  apply agree_advance.andThen
  intro first
  apply hgrammar.properties.follow
  intro properties others
  apply agree_advance.andThen
  intro last
  apply agree_add
  rintro ⟨-, hproperties⟩
  have hterms := terms_of_forall₂ hproperties
  constructor
  all_goals simp [Draft.object, Shape.map, Shape.mapIdx, Shape.mapIdx_eq_map, Shape.uncommented,
    Shape.isRoot, Edge.token, Edge.span, Edge.nodes, hterms]

theorem arguments_agrees (hgrammar : grammar.Agrees thinning other) :
    thinning.Agree True thinning.Level (arguments grammar) (arguments other) never
      thinning.Same thinning.Beside := by
  apply agree_advance.andThen
  intro first
  apply (hgrammar.items (by decide)).follow
  intro expressions others
  apply agree_advance.andThen
  intro last
  apply agree_add
  rintro ⟨-, hexpressions⟩
  have hterms := terms_of_forall₂ hexpressions
  constructor
  all_goals simp [Draft.exprList, Shape.map, Shape.mapIdx, Shape.mapIdx_eq_map,
    Shape.uncommented, Shape.isRoot, Edge.token, Edge.span, Edge.nodes, hterms]

/-- Behind an operand the first run is stalled until something takes up what comes next. -/
theorem suffixes_leads (hgrammar : grammar.Halts) (target : NodeId) (calls : Bool) :
    Leads (Session.Stalled (Token.continues false)) (grammar.suffixes target calls)
      (HaltsEarly false) := by
  intro session id after hstalled hrun
  have hcurrent := hstalled.test_current fun _ => Token.isWord_of_isSuffix
  obtain ⟨-, rfl⟩ := (hgrammar.suffixes target calls hcurrent).of_ok hrun
  exact hstalled

/-- An operand with what follows it. -/
theorem suffixed_agrees (hgrammar : grammar.Agrees thinning other) (calls : Bool)
    (condition : Prop) {start : Session → Session → Prop} {reader another : Parse NodeId}
    {lost : NodeId → Session → Prop}
    (hreader : thinning.Agree True start reader another lost
      (fun target result => condition → thinning.Same target result) thinning.Beside)
    (hlost : ∀ target session, lost target session → session.Stalled (Token.continues false)) :
    thinning.Agree True start (reader >>= fun target => grammar.suffixes target calls)
      (another >>= fun target => other.suffixes target calls) (HaltsEarly false)
      (fun id result => condition → thinning.Same id result) thinning.Beside := by
  apply hreader.bind
  case hdoomed =>
    intro target session id after hbefore
    exact (suffixes_leads hgrammar.halts target calls).dooms session id after
      (hlost target session hbefore)
  case hnext =>
    intro target result
    exact (hgrammar.suffixes target result calls).deduce
      fun ⟨_, htarget⟩ _ _ hsame hcondition => hsame (htarget hcondition)

theorem newObject_agrees (hgrammar : grammar.Agrees thinning other) :
    thinning.Agree True thinning.Level (newObject grammar) (newObject other)
      (HaltsEarly false) thinning.Same thinning.Beside := by
  have hlost : ∀ (first : Token) (callee : NodeId) (arguments : Option NodeId),
      thinning.Dooms (Session.Stalled (Token.continues false))
        (add (.newObject first callee arguments) >>= fun object => grammar.suffixes object true)
        (HaltsEarly false) := by
    intro first callee arguments
    exact Dooms.bind leads_add fun object => (suffixes_leads hgrammar.halts object true).dooms
  apply agree_advance.andThen
  intro first
  apply (hgrammar.operand false).bind
  case hdoomed =>
    intro callee
    apply Dooms.look
    · intro session hstalled
      exact Session.Stalled.test_current hstalled fun _ => Token.isWord_of_isPunctuation
    · exact hlost first callee none
  case hnext =>
    intro callee result
    have hadded : ∀ {known : Prop} {arguments others : Option NodeId},
        (known → thinning.Same callee result ∧ Option.Rel thinning.Same arguments others) →
        thinning.Agree known thinning.Beside
          (add (.newObject first callee arguments) >>= fun object => grammar.suffixes object true)
          (add (.newObject first result others) >>= fun object => other.suffixes object true)
          (HaltsEarly false) thinning.Same thinning.Beside := by
      intro known arguments others hknown
      refine (suffixed_agrees hgrammar true _ (agree_addIf ?_) fun _ _ hlost => hlost).deduce
        fun hyes _ _ hsame => hsame (hknown hyes)
      rintro - ⟨hcallee, harguments⟩
      cases harguments with
      | none =>
          constructor
          all_goals simp [Draft.newObject, Shape.map, Shape.mapIdx, Shape.uncommented, Shape.isRoot,
            Shape.children, Edge.token, Edge.nodeOr, Edge.span, Edge.nodes, hcallee.term,
            hcallee.span]
      | some hlist =>
          constructor
          all_goals simp [Draft.newObject, Shape.map, Shape.mapIdx, Shape.uncommented, Shape.isRoot,
            Shape.children, Edge.token, Edge.nodeOr, Edge.span, Edge.nodes, hcallee.term,
            hlist.term, hlist.span]
    apply Agree.look fun _ => Token.isWord_of_isPunctuation
    case hyes =>
      intro token _
      apply (arguments_agrees hgrammar).follow
      intro list lists
      exact hadded fun hyes => ⟨hyes.1.2, .some hyes.2⟩
    case hno => exact hadded fun hyes => ⟨hyes.2, .none⟩
    case hdoomed =>
      intro session id after hstalled
      refine hlost first callee none session id after (hstalled.mono ?_)
      intro token hopening
      exact Token.continues_of_isSuffix (by simp [Token.isSuffix, hopening])

/-- A token that is an operand by itself. -/
theorem leaf_agrees (hgrammar : grammar.Agrees thinning other) (kind : Leaf) (token : Token)
    (calls : Bool) :
    thinning.Agree known thinning.Level
      (do
        let _ ← advance
        grammar.suffixes (← add (.leaf kind token)) calls)
      (do
        let _ ← advance
        other.suffixes (← add (.leaf kind token)) calls) (HaltsEarly false) thinning.Same
      thinning.Beside := by
  apply agree_advance.andThen
  intro _
  apply (suffixed_agrees hgrammar calls True (agree_addIf _) fun _ _ => False.elim).deduce
  · exact fun _ _ _ hsame => hsame trivial
  · exact fun _ _ => leaf_drafted kind token

theorem operand_agrees (hgrammar : grammar.Agrees thinning other) (calls : Bool) :
    thinning.Agree True thinning.Beside (operand grammar calls) (operand other calls)
      (HaltsEarly false) thinning.Same thinning.Beside := by
  have hsuffixed : ∀ {reader another : Parse NodeId} (calls : Bool),
      thinning.Agree True thinning.Level reader another never thinning.Same thinning.Beside →
      thinning.Agree (True ∧ True) thinning.Level
        (reader >>= fun target => grammar.suffixes target calls)
        (another >>= fun target => other.suffixes target calls) (HaltsEarly false) thinning.Same
        thinning.Beside := by
    intro reader another calls hreader
    have hread := suffixed_agrees hgrammar calls True
      (hreader.deduce fun _ _ _ hsame _ => hsame) fun _ _ => False.elim
    exact hread.deduce fun _ _ _ hsame => hsame trivial
  apply agree_eatComments.follow
  intro comment another
  apply Agree.current
  intro token
  cases hof : OperandStart.of token
  case newObject => exact (newObject_agrees hgrammar).knowing fun _ => trivial
  case unary =>
    apply agree_advance.andThen
    intro _
    apply (hgrammar.operand calls).bind
    · exact fun _ => leads_add.dooms
    · intro inner result
      apply agree_add
      rintro ⟨-, hinner⟩
      constructor
      all_goals simp [Draft.unaryBefore, Shape.map, Shape.mapIdx, Shape.uncommented, Shape.isRoot,
        Shape.children, Edge.token, Edge.span, Edge.nodes, hinner.term, hinner.span]
  case function => exact hsuffixed true (function_agrees hgrammar .literal)
  case valueKeyword => exact leaf_agrees hgrammar .name token.asName calls
  case leaf kind => exact leaf_agrees hgrammar kind token calls
  case parenthesis => exact hsuffixed calls (parenthesized_agrees hgrammar).ofBeside
  case bracket => exact hsuffixed calls (array_agrees hgrammar)
  case brace => exact hsuffixed calls (object_agrees hgrammar comment another)
  case refused => exact agree_refuse _ _

/-- A member of what was read before. -/
theorem member_agrees (hgrammar : grammar.Agrees thinning other) (target result : NodeId)
    (dot : Token) (calls : Bool) :
    thinning.Agree True thinning.Level
      (do
        let _ ← advance
        let name ← expect Token.isMemberName .expectedName
        let member ← add (.leaf .name name.asName)
        grammar.suffixes (← add (.binary target dot member)) calls)
      (do
        let _ ← advance
        let name ← expect Token.isMemberName .expectedName
        let member ← add (.leaf .name name.asName)
        other.suffixes (← add (.binary result dot member)) calls) (HaltsEarly false)
      (fun id another => thinning.Same target result → thinning.Same id another)
      thinning.Beside := by
  apply agree_advance.andThen
  intro _
  apply (agree_expect fun _ => Token.isWord_of_isMemberName).andThen
  intro name
  apply (agree_add fun _ => leaf_drafted .name name.asName).follow
  intro member another
  apply (suffixed_agrees hgrammar calls
    (thinning.Same target result ∧ thinning.Same member another) (agree_addIf _)
      fun _ _ => False.elim).deduce
  · exact fun hmember _ _ hsame htarget => hsame ⟨htarget, hmember.2⟩
  rintro - ⟨htarget, hmember⟩
  exact binary_drafted dot htarget hmember

theorem subscript_agrees (hgrammar : grammar.Agrees thinning other) (target result : NodeId)
    (calls : Bool) :
    thinning.Agree True thinning.Level
      (do
        let _ ← advance
        let index ← grammar.expression true
        let last ← expectPunctuation "]"
        grammar.suffixes (← add (.subscript target index last)) calls)
      (do
        let _ ← advance
        let index ← other.expression true
        let last ← expectPunctuation "]"
        other.suffixes (← add (.subscript result index last)) calls) (HaltsEarly false)
      (fun id another => thinning.Same target result → thinning.Same id another)
      thinning.Beside := by
  apply agree_advance.andThen
  intro _
  apply (hgrammar.expression true).bind
  case hdoomed =>
    intro index
    exact (fails_expect_stalled fun _ => Token.isWord_of_isPunctuation).bind.dooms
  case hnext =>
    intro index another
    apply (agree_expectPunctuation "]").andThen
    intro last
    apply (suffixed_agrees hgrammar calls
      (thinning.Same target result ∧ thinning.Same index another) (agree_addIf _)
        fun _ _ => False.elim).deduce
    · exact fun hindex _ _ hsame htarget => hsame ⟨htarget, hindex.2⟩
    rintro - ⟨htarget, hindex⟩
    constructor
    all_goals simp [Draft.subscript, Shape.map, Shape.mapIdx, Shape.uncommented, Shape.isRoot,
      Shape.children, Edge.token, Edge.span, Edge.nodes, htarget.term, htarget.span, hindex.term]

theorem application_agrees (hgrammar : grammar.Agrees thinning other) (target result : NodeId)
    (calls : Bool) :
    thinning.Agree True thinning.Level
      (do
        let _ ← advance
        let items ← grammar.items ")"
        let last ← advance
        grammar.suffixes (← add (.application target items last)) calls)
      (do
        let _ ← advance
        let items ← other.items ")"
        let last ← advance
        other.suffixes (← add (.application result items last)) calls) (HaltsEarly false)
      (fun id another => thinning.Same target result → thinning.Same id another)
      thinning.Beside := by
  apply agree_advance.andThen
  intro _
  apply (hgrammar.items (by decide)).follow
  intro items others
  apply agree_advance.andThen
  intro last
  apply (suffixed_agrees hgrammar calls
    (thinning.Same target result ∧ List.Forall₂ thinning.Same items others) (agree_addIf _)
      fun _ _ => False.elim).deduce
  · exact fun hitems _ _ hsame htarget => hsame ⟨htarget, hitems.2⟩
  rintro - ⟨htarget, hitems⟩
  have hterms := terms_of_forall₂ hitems
  constructor
  all_goals simp [Draft.application, Shape.map, Shape.mapIdx, Shape.mapIdx_eq_map,
    Shape.uncommented, Shape.isRoot, Shape.children, Edge.token, Edge.span, Edge.nodes,
    htarget.term, htarget.span, hterms]

theorem suffixes_agrees (hgrammar : grammar.Agrees thinning other) (target result : NodeId)
    (calls : Bool) :
    thinning.Agree True thinning.Beside (suffixes grammar target calls)
      (suffixes other result calls) (HaltsEarly false)
      (fun id another => thinning.Same target result → thinning.Same id another)
      thinning.Beside := by
  apply Agree.settle fun _ => Token.isWord_of_isSuffix
  case hstop => exact fun _ => suffixes_eq target calls
  case hstop_other => exact fun _ => suffixes_eq result calls
  case hsame => exact fun _ => id
  case hdoomed =>
    intro session hstalled
    exact hstalled.mono fun _ => Token.continues_of_isSuffix
  case hlevel =>
    apply Agree.current
    intro token
    apply Agree.ite
    · intro _
      exact member_agrees hgrammar target result token calls
    intro _
    apply Agree.ite
    · intro _
      exact subscript_agrees hgrammar target result calls
    intro _
    apply Agree.ite
    · intro _
      exact application_agrees hgrammar target result calls
    intro _
    apply Agree.ite
    · intro _
      apply agree_advance.andThen
      intro _
      apply agree_addIf
      intro _ htarget
      constructor
      all_goals simp [Draft.unaryAfter, Shape.map, Shape.mapIdx, Shape.uncommented, Shape.isRoot,
        Shape.children, Edge.token, Edge.span, Edge.nodes, htarget.term, htarget.span]
    · intro _
      exact (agree_pure fun _ => id).ofBeside

/-! ## Operations -/

/-- Operations do not pass the comment at which the first run is stalled. -/
theorem operations_leads (hgrammar : grammar.Halts) (left : NodeId) (floor : Token.Binding) :
    Leads (Session.Stalled (Token.continues false)) (grammar.operations left floor)
      (HaltsEarly false) := by
  intro session id after hstalled hrun
  have hcurrent : session.cursor.current.binding = .lowest := by
    rw [Token.binding, if_neg (by simp [hstalled.comment])]
  obtain ⟨-, rfl⟩ := (hgrammar.operations left floor hcurrent).of_ok hrun
  exact hstalled

theorem operations_agrees (hgrammar : grammar.Agrees thinning other) (left right : NodeId)
    (floor : Token.Binding) :
    thinning.Agree True thinning.Beside (operations grammar left floor)
      (operations other right floor) (HaltsEarly false)
      (fun id result => thinning.Same left right → thinning.Same id result) thinning.Beside := by
  have hoperator : ∀ token : Token, (!decide (token.binding ≤ floor)) = true →
      token.kind = .operator := by
    intro token htoken
    by_contra hkind
    rw [Token.binding, if_neg hkind, decide_eq_true (Token.Binding.lowest_le floor)] at htoken
    cases htoken
  have hstop : ∀ token : Token, (!decide (token.binding ≤ floor)) = false →
      token.binding ≤ floor := by
    intro token htoken
    simpa using htoken
  apply Agree.settle fun token htoken => Token.isWord_of_kind (hoperator token htoken) rfl
  case hstop => exact fun session hcurrent => operations_eq left floor (hstop _ hcurrent)
  case hstop_other => exact fun session hcurrent => operations_eq right floor (hstop _ hcurrent)
  case hsame => exact fun _ => id
  case hdoomed =>
    intro session hstalled
    exact hstalled.mono fun token htoken => Token.continues_of_kind (hoperator token htoken)
  case hlevel =>
    have hlost : ∀ operator operand : _, thinning.Dooms (Session.Stalled (Token.continues false))
        (add (.binary left operator operand) >>= fun joined => grammar.operations joined floor)
        (HaltsEarly false) := by
      intro operator operand
      exact Dooms.bind leads_add fun joined => (operations_leads hgrammar.halts joined floor).dooms
    apply Agree.current
    intro token
    apply Agree.ite
    · intro _
      exact (agree_pure fun _ => id).ofBeside
    intro _
    apply agree_advance.andThen
    intro operator
    apply (hgrammar.operand true).bind
    case hdoomed =>
      intro first
      exact Dooms.bind (operations_leads hgrammar.halts first _) (hlost operator)
    case hnext =>
      intro first another
      apply (hgrammar.operations first another token.binding).bind
      case hdoomed => exact fun operand => hlost operator operand
      case hnext =>
        intro operand result
        have hdrafted : thinning.Same left right ∧ thinning.Same operand result →
            thinning.Drafted (.binary left operator operand) (.binary right operator result) :=
          fun hboth => binary_drafted operator hboth.1 hboth.2
        apply (agree_addIf fun _ => hdrafted).follow
        intro joined another
        apply (hgrammar.operations joined another floor).deduce
        rintro ⟨⟨⟨-, hfirst⟩, hoperand⟩, hjoined⟩ _ _ hsame hleft
        exact hsame (hjoined ⟨hleft, hoperand hfirst⟩)

/-! ## What follows an operation -/

/-- The rest of a conditional, behind its test. -/
def choice (grammar : Grammar) (test : NodeId) : Parse NodeId := do
  if (← current).isOperator "?" then
    let _ ← advance
    let consequent ← grammar.assignment
    let _ ← expectPunctuation ":"
    let alternate ← grammar.assignment
    add (.conditional test consequent alternate)
  else
    return test

theorem conditional_eq (grammar : Grammar) :
    conditional grammar =
      operand grammar true >>= fun first => grammar.operations first .lowest >>= choice grammar :=
  rfl

/-- The rest of an assignment, behind its left side. -/
def assigned (grammar : Grammar) (left : NodeId) : Parse NodeId := do
  if !(← current).isAssignment then
    return left
  else if (← node left).shape.isAssignable then
    let operator ← advance
    let right ← grammar.assignment
    add (.binary left operator right)
  else
    refuse .notAssignable

theorem assignment_eq (grammar : Grammar) :
    assignment grammar = conditional grammar >>= assigned grammar :=
  rfl

/-- The rest of an expression, behind what stands before the first comma. -/
def joined (grammar : Grammar) (commas : Bool) (first : NodeId) : Parse NodeId := do
  if commas && (← current).isPunctuation "," then
    let comma ← advance
    let rest ← grammar.expression true
    add (.binary first comma rest)
  else
    return first

theorem expression_eq (grammar : Grammar) (commas : Bool) :
    expression grammar commas = assignment grammar >>= joined grammar commas :=
  rfl

theorem choice_leads (grammar : Grammar) (test : NodeId) :
    Leads (Session.Stalled (Token.continues false)) (choice grammar test) (HaltsEarly false) := by
  intro session id after hstalled hrun
  have hcurrent : session.cursor.current.isOperator "?" = false :=
    hstalled.test_current fun _ => Token.isWord_of_isOperator
  have hstop : choice grammar test session = .ok test session := look_of_false hcurrent
  rw [hstop] at hrun
  cases hrun
  exact hstalled

theorem choice_agrees (hgrammar : grammar.Agrees thinning other) (test result : NodeId) :
    thinning.Agree True thinning.Beside (choice grammar test) (choice other result)
      (HaltsEarly false) (fun id another => thinning.Same test result → thinning.Same id another)
      thinning.Beside := by
  apply Agree.look fun _ => Token.isWord_of_isOperator
  case hyes =>
    intro token _
    apply agree_advance.andThen
    intro _
    apply hgrammar.assignment.bind
    case hdoomed =>
      intro consequent
      exact (fails_expect_stalled fun _ => Token.isWord_of_isPunctuation).bind.dooms
    case hnext =>
      intro consequent consequent'
      apply (agree_expectPunctuation ":").andThen
      intro _
      apply hgrammar.assignment.bind
      case hdoomed => exact fun _ => leads_add.dooms
      case hnext =>
        intro alternate alternate'
        apply agree_addIf
        rintro ⟨⟨-, hconsequent⟩, halternate⟩ htest
        constructor
        all_goals simp [Draft.conditional, Shape.map, Shape.mapIdx, Shape.uncommented,
          Shape.isRoot, Shape.children, Edge.span, Edge.nodes, htest.term, htest.span,
          hconsequent.term, halternate.term, halternate.span]
  case hno => exact agree_pure fun _ => id
  case hdoomed =>
    apply dooms_pure
    intro session hstalled
    apply hstalled.mono
    intro token hquestion
    exact Token.continues_of_kind ((token.is_iff _ _).mp hquestion).1

theorem conditional_agrees (hgrammar : grammar.Agrees thinning other) :
    thinning.Agree True thinning.Beside (conditional grammar) (conditional other)
      (HaltsEarly false) thinning.Same thinning.Beside := by
  rw [conditional_eq, conditional_eq]
  apply (operand_agrees hgrammar true).bind
  case hdoomed =>
    intro first
    exact Dooms.bind (operations_leads hgrammar.halts first .lowest)
      fun test => (choice_leads grammar test).dooms
  case hnext =>
    intro first another
    apply (hgrammar.operations first another .lowest).bind
    case hdoomed => exact fun test => (choice_leads grammar test).dooms
    case hnext =>
      intro test result
      exact (choice_agrees hgrammar test result).deduce
        fun ⟨⟨_, hfirst⟩, htest⟩ _ _ hsame => hsame (htest hfirst)

theorem assigned_eq (grammar : Grammar) (left : NodeId) {session : Session}
    (hcurrent : session.cursor.current.isAssignment = false) :
    assigned grammar left session = .ok left session :=
  look_of_true (by rw [hcurrent]; rfl)

theorem assigned_leads (grammar : Grammar) (left : NodeId) :
    Leads (Session.Stalled (Token.continues false)) (assigned grammar left)
      (HaltsEarly false) := by
  intro session id after hstalled hrun
  have hcurrent : session.cursor.current.isAssignment = false :=
    hstalled.test_current fun _ => Token.isWord_of_isAssignment
  rw [assigned_eq grammar left hcurrent] at hrun
  cases hrun
  exact hstalled

theorem assigned_agrees (hgrammar : grammar.Agrees thinning other) (left result : NodeId) :
    thinning.Agree True thinning.Beside (assigned grammar left) (assigned other result)
      (HaltsEarly false) (fun id another => thinning.Same left result → thinning.Same id another)
      thinning.Beside := by
  apply Agree.settle fun _ => Token.isWord_of_isAssignment
  case hstop => exact fun session => assigned_eq grammar left
  case hstop_other => exact fun session => assigned_eq other result
  case hsame => exact fun _ => id
  case hdoomed =>
    intro session hstalled
    apply hstalled.mono
    intro token hassignment
    rw [Token.isAssignment, Bool.and_eq_true, beq_iff_eq] at hassignment
    exact Token.continues_of_kind hassignment.1
  case hlevel =>
    apply Agree.current
    intro token
    apply Agree.ite
    · intro _
      exact (agree_pure fun _ => id).ofBeside
    intro _
    apply Agree.node
    apply agree_advance.andThen
    intro operator
    apply hgrammar.assignment.bind
    case hdoomed => exact fun _ => leads_add.dooms
    case hnext =>
      intro right another
      exact agree_addIf fun hyes hleft => binary_drafted operator hleft hyes.2

theorem assignment_agrees (hgrammar : grammar.Agrees thinning other) :
    thinning.Agree True thinning.Beside (assignment grammar) (assignment other)
      (HaltsEarly false) thinning.Same thinning.Beside := by
  rw [assignment_eq, assignment_eq]
  apply (conditional_agrees hgrammar).bind
  case hdoomed => exact fun left => (assigned_leads grammar left).dooms
  case hnext =>
    intro left result
    exact (assigned_agrees hgrammar left result).deduce fun ⟨_, hleft⟩ _ _ hsame => hsame hleft

theorem isWord_of_isComma {commas : Bool} {token : Token}
    (htoken : (commas && token.isPunctuation ",") = true) : token.isWord = true :=
  Token.isWord_of_isPunctuation (Bool.and_eq_true_iff.mp htoken).2

theorem joined_leads (grammar : Grammar) (commas : Bool) (first : NodeId) :
    Leads (Session.Stalled (Token.continues false)) (joined grammar commas first)
      (HaltsEarly commas) := by
  intro session id after hstalled hrun
  have hcurrent : (commas && session.cursor.current.isPunctuation ",") = false :=
    hstalled.test_current fun _ => isWord_of_isComma
  have hstop : joined grammar commas first session = .ok first session := look_of_false hcurrent
  rw [hstop] at hrun
  cases hrun
  exact hstalled.mono fun token htoken => Token.continues_of_false htoken commas

theorem joined_agrees (hgrammar : grammar.Agrees thinning other) (commas : Bool)
    (first result : NodeId) :
    thinning.Agree True thinning.Beside (joined grammar commas first)
      (joined other commas result) (HaltsEarly commas)
      (fun id another => thinning.Same first result → thinning.Same id another)
      thinning.Beside := by
  apply Agree.look fun _ => isWord_of_isComma
  case hyes =>
    intro token htoken
    obtain rfl : commas = true := (Bool.and_eq_true_iff.mp htoken).1
    apply agree_advance.andThen
    intro comma
    apply (hgrammar.expression true).bind
    case hdoomed => exact fun _ => leads_add.dooms
    case hnext =>
      intro rest another
      exact agree_addIf fun ⟨_, hrest⟩ hfirst => binary_drafted comma hfirst hrest
  case hno => exact agree_pure fun _ => id
  case hdoomed =>
    apply dooms_pure
    intro session hstalled
    apply hstalled.mono
    intro token htoken
    rw [Token.continues, htoken, Bool.or_true]

theorem expression_agrees (hgrammar : grammar.Agrees thinning other) (commas : Bool) :
    thinning.Agree True thinning.Beside (expression grammar commas) (expression other commas)
      (HaltsEarly commas) thinning.Same thinning.Beside := by
  rw [expression_eq, expression_eq]
  apply (assignment_agrees hgrammar).bind
  case hdoomed => exact fun first => (joined_leads grammar commas first).dooms
  case hnext =>
    intro first result
    exact (joined_agrees hgrammar commas first result).deduce
      fun ⟨_, hfirst⟩ _ _ hsame => hsame hfirst

theorem items_agrees (hgrammar : grammar.Agrees thinning other) {closing : String}
    (hclosing : closing ∈ Token.closingMarks) :
    thinning.Agree True thinning.Beside (items grammar closing) (items other closing) never
      (List.Forall₂ thinning.Same) thinning.Level := by
  apply agree_eatComments.follow
  intro comment another
  apply Agree.current
  intro token
  apply Agree.ite
  · intro _
    exact agree_pure fun _ => .nil
  intro _
  apply (expression_agrees hgrammar false).ofBeside.bind
  case hdoomed =>
    intro first
    apply Fails.dooms
    apply fails_eatComments
    intro comment
    exact (fails_separator hclosing).bind
  case hnext =>
    intro first second
    apply agree_eatComments.follow
    intro comment another
    apply (agree_separator closing).ofBeside.andThen
    intro _
    apply (hgrammar.items hclosing).follow
    intro rest others
    exact agree_pure fun ⟨⟨⟨_, hfirst⟩, _⟩, hrest⟩ => .cons hfirst hrest

end Production

end ScriptSyntax

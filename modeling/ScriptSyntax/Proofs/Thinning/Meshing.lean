import ScriptSyntax.Proofs.Thinning.Loop

/-!
# Expressions that begin with `in`

Where the second run reads a loop over names, the first one may take the variable for the
first operand of an expression.  Both then read the same operands and operators, but join them
differently: the first run has an operation to end before it goes on as the second one does.
Wherever that operation ends, the runs end at the same place.
-/

namespace ScriptSyntax

open Parse Thinning

namespace Thinning

variable {thinning : Thinning} {known : Prop}

/-- Only the first run adds a node. -/
theorem Agree.addFirst {draft : Draft} {next : NodeId → Parse NodeId} {other : Parse NodeId}
    {doomed : NodeId → Session → Prop} {same : NodeId → NodeId → Prop}
    {beside : Session → Session → Prop}
    (hnext : ∀ id, thinning.Agree known thinning.Beside (next id) other doomed same beside) :
    thinning.Agree known thinning.Beside (add draft >>= next) other doomed same beside where
  retains := by
    have hadd : (add draft).Retains := (points_add draft : (add draft).Points .required).retains
    exact hadd.bind fun id => (hnext id).retains
  retains_other := (hnext 0).retains_other
  run {first _ _ _ _ _} hyes hbeside hrun := by
    have hgrown : thinning.Beside (first.grown draft) _ := hbeside
    exact (hnext _).run hyes hgrown hrun

/-- Only the first run passes a token. -/
theorem Agree.advanceFirst {Result : Type} {next : Token → Parse Result} {other : Parse Result}
    {doomed : Result → Session → Prop} {same : Result → Result → Prop}
    {beside : Session → Session → Prop}
    (hnext : ∀ token, thinning.Agree known thinning.Beside (next token) other doomed same beside) :
    thinning.Agree known (fun first second => thinning.Beside first.passed second)
      (advance >>= next) other doomed same beside where
  retains := by
    have hadvance : advance.Retains := (points_advance : advance.Points .required).retains
    exact hadvance.bind fun token => (hnext token).retains
  retains_other := (hnext (.endOfInput .null false)).retains_other
  run hyes hbeside hrun := (hnext _).run hyes hbeside hrun

end Thinning

namespace Production

variable {thinning : Thinning} {grammar other : Grammar}

/-- An operation and those that follow it, from its operator on. -/
def operated (grammar : Grammar) (left : NodeId) (floor level : Token.Binding) :
    Parse NodeId := do
  let operator ← advance
  let first ← grammar.operand true
  let right ← grammar.operations first level
  let joined ← add (.binary left operator right)
  grammar.operations joined floor

theorem operations_eq_operated (grammar : Grammar) (left : NodeId) {floor : Token.Binding}
    {session : Session} (hcurrent : ¬session.cursor.current.binding ≤ floor) :
    operations grammar left floor session =
      operated grammar left floor session.cursor.current.binding session := by
  have hread : operations grammar left floor session =
      (if session.cursor.current.binding ≤ floor then pure left
        else operated grammar left floor session.cursor.current.binding) session :=
    rfl
  rw [hread, if_neg hcurrent]

/-- What follows the operations of an expression. -/
def rest (grammar : Grammar) (test : NodeId) : Parse NodeId := do
  let left ← choice grammar test
  let first ← assigned grammar left
  joined grammar true first

theorem expression_eq_rest (grammar : Grammar) :
    expression grammar true =
      operand grammar true >>= fun first => grammar.operations first .lowest >>= rest grammar := by
  simp only [expression_eq, assignment_eq, conditional_eq, bind_assoc]
  rfl

theorem rest_dooms (grammar : Grammar) (test : NodeId) :
    thinning.Dooms (Session.Stalled (Token.continues false)) (rest grammar test)
      (HaltsEarly true) :=
  Dooms.bind (choice_leads grammar test) fun left =>
    Dooms.bind (assigned_leads grammar left) fun first => (joined_leads grammar true first).dooms

theorem rest_agrees (hgrammar : grammar.Agrees thinning other) (test result : NodeId) :
    thinning.Agree True thinning.Beside (rest grammar test) (rest other result)
      (HaltsEarly true) (fun _ _ => True) thinning.Beside := by
  apply (choice_agrees hgrammar test result).bind
  case hdoomed =>
    exact fun left => Dooms.bind (assigned_leads grammar left)
      fun first => (joined_leads grammar true first).dooms
  case hnext =>
    intro left left'
    apply (assigned_agrees hgrammar left left').bind
    case hdoomed => exact fun first => (joined_leads grammar true first).dooms
    case hnext =>
      intro first first'
      exact (joined_agrees hgrammar true first first').deduce fun _ _ _ _ => trivial

/-- The first run takes the variable of the loop alone for an operand, and then stands on an
operator. -/
theorem operand_of_hidden (hgrammar : grammar.Halts) {first second middle : Session}
    {left : NodeId} (hhidden : thinning.Hidden first second)
    (hoperand : operand grammar true first = .ok left middle) :
    middle.cursor = first.uncommented.cursor.advance ∧
      ¬middle.cursor.current.binding ≤ .lowest := by
  obtain ⟨hlevel, hname, hoperator⟩ := hhidden
  obtain ⟨hkind, hvalue⟩ := (Token.is_iff _ _ _).mp hoperator
  have hidentifier : first.uncommented.cursor.current.kind = .identifier := by
    rw [hlevel.current, hname]
  have hsuffix : first.uncommented.cursor.next.isSuffix = false := by
    simp [Token.isSuffix, Token.isPunctuation, Token.is, Token.isPostfix, hkind, hvalue,
      Token.postfixOperators]
  have hmiddle : middle.cursor = first.uncommented.cursor.advance :=
    (operand_name hgrammar true hidentifier hsuffix).of_ok hoperand
  have hcurrent : middle.cursor.current = first.uncommented.cursor.next := by
    rw [hmiddle]
    rfl
  refine ⟨hmiddle, ?_⟩
  rw [hcurrent, Token.binding, if_pos hkind, hvalue]
  decide

/-- Operations to be ended in the first run alone, one level below. -/
theorem operated_mesh (hgrammar : grammar.Agrees thinning other) {next : NodeId → Parse NodeId}
    {floor : Token.Binding}
    (hbelow : ∀ left right : NodeId,
      thinning.Agree True thinning.Beside (grammar.operations left floor >>= next)
        (other.operations right .lowest) (HaltsEarly false) (fun _ _ => True) thinning.Beside)
    (hlost : ∀ right, thinning.Dooms (Session.Stalled (Token.continues false)) (next right)
      (HaltsEarly false))
    (left right : NodeId) (level : Token.Binding) :
    thinning.Agree True thinning.Level (operated grammar left floor level >>= next)
      (operated other right .lowest level) (HaltsEarly false) (fun _ _ => True)
      thinning.Beside := by
  have hjoined : ∀ operator operand, thinning.Dooms (Session.Stalled (Token.continues false))
      (add (.binary left operator operand) >>= fun joined =>
        grammar.operations joined floor >>= next) (HaltsEarly false) := by
    intro operator operand
    exact Dooms.bind leads_add fun joined =>
      Dooms.bind (operations_leads hgrammar.halts joined floor) hlost
  simp only [operated, bind_assoc]
  apply agree_advance.andThen
  intro operator
  apply (hgrammar.operand true).bind
  case hdoomed =>
    exact fun first => Dooms.bind (operations_leads hgrammar.halts first level) (hjoined operator)
  case hnext =>
    intro first first'
    apply (hgrammar.operations first first' level).bind
    case hdoomed => exact hjoined operator
    case hnext =>
      intro operand operand'
      -- The operations have different left operands, so nothing is said about the nodes.
      have hadded : thinning.Agree True thinning.Beside (add (.binary left operator operand))
          (add (.binary right operator operand')) never
          (fun id result => False → thinning.Same id result) thinning.Beside :=
        agree_addIf fun _ => False.elim
      apply hadded.follow
      intro joined joined'
      exact (hbelow joined joined').knowing fun _ => trivial

end Production

namespace Grammar

variable {thinning : Thinning} {semicolons : Semicolons} {depth : Nat}

/-- The first run ends operations and goes on with others, which the second run reads in one
go. -/
theorem operations_mesh
    (hagrees : ∀ level ≤ depth, ∀ deep,
      (upTo semicolons level).Agrees thinning (upTo semicolons deep))
    {next : NodeId → Parse NodeId}
    (hnext : ∀ left right deep,
      thinning.Agree True thinning.Beside (next left)
        ((upTo semicolons deep).operations right .lowest) (HaltsEarly false) (fun _ _ => True)
        thinning.Beside)
    (hlost : ∀ right, thinning.Dooms (Session.Stalled (Token.continues false)) (next right)
      (HaltsEarly false))
    {level : Nat} (hlevel : level ≤ depth) (floor : Token.Binding) (left right : NodeId)
    (deep : Nat) :
    thinning.Agree True thinning.Beside
      ((upTo semicolons level).operations left floor >>= next)
      ((upTo semicolons deep).operations right .lowest) (HaltsEarly false) (fun _ _ => True)
      thinning.Beside := by
  have hretains : ∀ level ≤ depth, ∀ left,
      ((upTo semicolons level).operations left floor >>= next).Retains := by
    intro level hlevel left
    exact ((hagrees level hlevel 0).operations left left floor).retains.bind
      fun id => (hnext id id 0).retains
  have hretains_other : ∀ deep right,
      ((upTo semicolons deep).operations right .lowest).Retains :=
    fun deep right => ((hagrees level hlevel deep).operations right right .lowest).retains_other
  induction level generalizing left right deep with
  | zero =>
      apply agree_of_fails (hretains 0 hlevel left) (hretains_other deep right)
      intro first second _ value after hrun
      obtain ⟨_, _, hread, -⟩ := exists_of_bind hrun
      cases hread
  | succ level ih =>
      refine ⟨hretains (level + 1) hlevel left, hretains_other deep right, ?_⟩
      intro first second after final value result _ hbeside hrun hother hafter hfinal
      by_cases hfloor : first.cursor.current.binding ≤ floor
      · have hread : (upTo semicolons (level + 1)).operations left floor first = .ok left first :=
          Production.operations_eq left floor hfloor
        rw [bind_of_ok hread] at hrun
        exact (hnext left right deep).run trivial hbeside hrun hother hafter hfinal
      · have hkind : first.cursor.current.kind = .operator := by
          by_contra hkind
          rw [Token.binding, if_neg hkind] at hfloor
          exact hfloor (Token.Binding.lowest_le floor)
        have hboth := hbeside.level (Token.isWord_of_kind hkind rfl)
        have hlowest : ¬second.cursor.current.binding ≤ .lowest := by
          rw [← hboth.current]
          exact fun hle => hfloor (Nat.le_trans hle (Token.Binding.lowest_le floor))
        cases deep with
        | zero => cases hother
        | succ deep =>
            have hread : (upTo semicolons (level + 1)).operations left floor first =
                Production.operated (upTo semicolons level) left floor
                  first.cursor.current.binding first :=
              Production.operations_eq_operated _ left hfloor
            have hread_other : (upTo semicolons (deep + 1)).operations right .lowest second =
                Production.operated (upTo semicolons deep) right .lowest
                  second.cursor.current.binding second :=
              Production.operations_eq_operated _ right hlowest
            rw [bind_eq_of_eq hread] at hrun
            rw [hread_other, ← hboth.current] at hother
            have hbelow : level ≤ depth := Nat.le_of_succ_le hlevel
            exact (Production.operated_mesh (hagrees level hbelow deep)
              (fun left right => ih hbelow left right deep) hlost left right _).run trivial hboth
              hrun hother hafter hfinal

/-- The first run reads an operation, of which the second one reads what is behind the
operator. -/
theorem operated_meshes
    (hagrees : ∀ level ≤ depth, ∀ deep,
      (upTo semicolons level).Agrees thinning (upTo semicolons deep))
    {level above : Nat} (hlevel : level ≤ depth) (habove : above ≤ depth) (left : NodeId)
    (binding : Token.Binding) (deep : Nat) :
    thinning.Agree True (fun first second => thinning.Beside first.passed second)
      (Production.operated (upTo semicolons level) left .lowest binding >>=
        Production.rest (upTo semicolons above))
      (Production.expression (upTo semicolons deep) true) (HaltsEarly true) (fun _ _ => True)
      thinning.Beside := by
  have hhalts := (hagrees level hlevel deep).halts
  -- What ends the operation in the first run, which the second run does not have to end.
  have hlost : ∀ operator right, thinning.Dooms (Session.Stalled (Token.continues false))
      (add (.binary left operator right) >>= fun joined =>
        (upTo semicolons level).operations joined .lowest) (HaltsEarly false) :=
    fun operator right => Dooms.bind leads_add
      fun joined => (Production.operations_leads hhalts joined .lowest).dooms
  have hended : ∀ operator right right' deep, thinning.Agree True thinning.Beside
      (add (.binary left operator right) >>= fun joined =>
        (upTo semicolons level).operations joined .lowest)
      ((upTo semicolons deep).operations right' .lowest) (HaltsEarly false) (fun _ _ => True)
      thinning.Beside := by
    intro operator right right' deep
    apply Agree.addFirst
    intro joined
    exact ((hagrees level hlevel deep).operations joined right' .lowest).deduce
      fun _ _ _ _ => trivial
  rw [Production.expression_eq_rest]
  simp only [Production.operated, bind_assoc]
  apply Agree.advanceFirst
  intro operator
  apply ((hagrees level hlevel (deep + 1)).operand true).bind
  case hdoomed =>
    exact fun first => Dooms.bind (Production.operations_leads hhalts first binding) fun right =>
      Dooms.bind leads_add fun joined =>
        Dooms.bind (Production.operations_leads hhalts joined .lowest)
          (Production.rest_dooms (upTo semicolons above))
  case hnext =>
    intro first first'
    have hmesh := operations_mesh hagrees (hended operator) (hlost operator) hlevel binding first
      first' deep
    have hboth : thinning.Agree (True ∧ thinning.Same first first') thinning.Beside
        (((upTo semicolons level).operations first binding >>= fun right =>
          add (.binary left operator right) >>= fun joined =>
            (upTo semicolons level).operations joined .lowest) >>=
          Production.rest (upTo semicolons above))
        ((upTo semicolons deep).operations first' .lowest >>=
          Production.rest (upTo semicolons deep))
        (HaltsEarly true) (fun _ _ => True) thinning.Beside :=
      hmesh.bind (Production.rest_dooms (upTo semicolons above)) fun right right' =>
        (Production.rest_agrees (hagrees above habove deep) right right').knowing fun _ => trivial
    simpa only [bind_assoc] using hboth

theorem upTo_meshes
    (hagrees : ∀ level ≤ depth, ∀ deep,
      (upTo semicolons level).Agrees thinning (upTo semicolons deep)) (deep : Nat) :
    (upTo semicolons depth).Meshes thinning (upTo semicolons deep) := by
  have hexpressions := (hagrees depth (Nat.le_refl depth) deep).expression true
  refine ⟨hexpressions.retains, ?retains_other, ?run⟩
  case retains_other =>
    have hadvance : advance.Retains := (points_advance : advance.Points .required).retains
    exact hadvance.bind fun _ => hadvance.bind fun _ => hexpressions.retains_other
  case run =>
    intro first second after final value result _ hhidden hrun hother hafter hfinal
    have hpassed : thinning.Beside first.uncommented.passed second.passed :=
      Cursor.Level.advance hhidden.level
    have hboth : thinning.Level first.uncommented.passed second.passed :=
      hpassed.level (Token.isWord_of_isOperator hhidden.operator)
    cases depth with
    | zero => cases hrun
    | succ above =>
        cases deep with
        | zero => cases hother
        | succ deep =>
            have hread : Production.expression (upTo semicolons above) true first =
                .ok value after := hrun
            have hread_other : Production.expression (upTo semicolons deep) true
                second.passed.passed = .ok result final := hother
            rw [Production.expression_eq_rest] at hread
            obtain ⟨left, middle, hoperand, hrest⟩ := exists_of_bind hread
            obtain ⟨hmiddle, hbinding⟩ :=
              Production.operand_of_hidden (upTo_halts semicolons above) hhidden hoperand
            cases above with
            | zero =>
                obtain ⟨_, _, hnone, -⟩ := exists_of_bind hrest
                cases hnone
            | succ level =>
                have hoperated : (upTo semicolons (level + 1)).operations left .lowest middle =
                    Production.operated (upTo semicolons level) left .lowest
                      middle.cursor.current.binding middle :=
                  Production.operations_eq_operated _ left hbinding
                rw [bind_eq_of_eq hoperated] at hrest
                have hstart : thinning.Beside middle.passed second.passed.passed := by
                  have hadvanced := Cursor.Level.advance hboth
                  rwa [Thinning.Beside, Session.passed, hmiddle]
                exact (operated_meshes hagrees (by omega) (Nat.le_succ _) left _ deep).run trivial
                  hstart hrest hread_other hafter hfinal

end Grammar

end ScriptSyntax

import ScriptSyntax.Proofs.Accord.Basic
import ScriptSyntax.Proofs.Trace.Expression

/-!
# Expressions in accord

Productions over two grammars whose readers are in accord are in accord themselves.
Each passes a token before it turns to the grammar.
-/

namespace ScriptSyntax

open Parse

/-- The readers of two grammars are in accord, those of the first leave traces, and
statements end in the same way. -/
structure Grammar.Accords (pact : Pact) (first second : Grammar) : Prop where
  traced : first.Traced
  ending : Steady pact (endStatement first.semicolons) (endStatement second.semicolons)
  statement (labels : Bool) : Steady pact (first.statement labels) (second.statement labels)
  statements (enclosure : Enclosure) :
    Steady pact (first.statements enclosure) (second.statements enclosure)
  parameters : Steady pact first.parameters second.parameters
  declarations : Steady pact first.declarations second.declarations
  expression (commas : Bool) : Steady pact (first.expression commas) (second.expression commas)
  assignment : Steady pact first.assignment second.assignment
  operand (calls : Bool) : Steady pact (first.operand calls) (second.operand calls)
  operations (left : NodeId) (floor : Token.Binding) :
    Steady pact (first.operations left floor) (second.operations left floor)
  suffixes (target : NodeId) (calls : Bool) :
    Steady pact (first.suffixes target calls) (second.suffixes target calls)
  items (closing : String) : Steady pact (first.items closing) (second.items closing)
  properties : Steady pact first.properties second.properties

/-- The parts left over on the way to a session are in its tree. -/
theorem Trace.mem_ids {start session : Session} {parts : List (Part NodeId)}
    (htrace : Trace start parts session) :
    ∀ id : Nat, id ∈ Part.refs parts → 0 < id ∧ id ≤ session.tree.size := by
  have hgrown : ∀ (session : Session) (draft : Draft) (done : List (Part NodeId)),
      (∀ id : Nat, id ∈ Part.refs done → 0 < id ∧ id ≤ session.tree.size) →
      ∀ id : Nat, id ∈ Part.refs (done ++ [.below (session.tree.size + 1)]) →
        0 < id ∧ id ≤ (session.grown draft).tree.size := by
    intro session draft done hdone id hid
    have hsize : (session.grown draft).tree.size = session.tree.size + 1 := Tree.size_insert ..
    rw [Part.refs_append, List.mem_append] at hid
    rcases hid with hid | hid
    · have := hdone id hid
      omega
    · have : id = session.tree.size + 1 := List.mem_singleton.mp hid
      omega
  induction htrace with
  | start => exact fun id hid => nomatch hid
  | shift _ _ ih =>
      intro id hid
      rw [Part.refs_append, Part.refs_cons_own, Part.refs_nil, List.append_nil] at hid
      exact ih id hid
  | skip _ _ ih => exact ih
  | @comment parts session _ _ ih => exact hgrown session.passed _ parts ih
  | @reduce parts taken session draft _ _ ih =>
      apply hgrown session draft parts
      intro id hid
      apply ih
      rw [Part.refs_append]
      exact List.mem_append_left _ hid

/-- A node that a reader has pushed can be looked up. -/
theorem Parse.Pushes.exists_node {reader : Parse NodeId} {session after : Session} {id : NodeId}
    (hreader : reader.Pushes session Part.one) (hok : reader session = .ok id after) :
    ∃ node, after.tree.find? id = some node := by
  have htrace : Trace session [.below id] after := hreader.of_ok hok
  obtain ⟨hpos, hle⟩ := htrace.mem_ids id List.mem_cons_self
  exact Tree.exists_find? after.tree hpos hle

namespace Production

variable {pact : Pact} {first second : Grammar} {session : Session}

theorem block_enters (hgrammar : first.Accords pact second) :
    Enters pact (block first) (block second) := by
  apply (enters_expectPunctuation "\x7b").andThen
  intro opening
  apply (hgrammar.statements .block).andThen
  intro statements
  apply steady_advance.andThen
  intro closing
  exact steady_add _

theorem parameters_stays (hgrammar : first.Accords pact second) :
    Stays pact (parameters first) (parameters second) := by
  intro session hsession
  unfold parameters
  rw [accords_bind_current]
  split
  · exact accords_pure hsession
  · split
    · exact accords_refuse rfl
    · refine Accords.mono ?_ fun _ => pact.outer_of_inner
      apply (enters_expectIdentifier rfl session hsession).andThen
      intro name
      apply (steady_separator ")").andThen
      intro _
      apply hgrammar.parameters.andThen
      intro others
      exact steady_pure _

/-- A function starts with any token.  Only at the very end there is none to pass, and
then the parenthesis is missing. -/
theorem function_enters (hgrammar : first.Accords pact second) (role : FunctionRole) :
    Enters pact (function first role) (function second role) := by
  intro session hsession
  unfold function
  rw [accords_bind_advance]
  cases hpending : session.cursor.pending with
  | nil =>
      have hpassed : session.passed.cursor.pending = [] := by
        simp [Session.passed, Cursor.advance, hpending]
      have hkind := Cursor.current_kind_of_pending_nil hpassed
      have hname : accept? (fun token => token.kind == .identifier) session.passed =
          .ok none session.passed := by
        refine congrFun (if_neg ?_) session.passed
        simp [hkind]
      have hmark : expectPunctuation "(" session.passed =
          .error (session.passed.cursor.current.unexpected (.expected "(")) session.passed := by
        refine congrFun (if_neg ?_) session.passed
        simp [Token.isPunctuation, Token.is, hkind]
      unfold Accords
      rw [bind_of_ok hname, bind_of_ok hname, bind_of_error hmark, bind_of_error hmark]
      exact .inr ⟨rfl, rfl⟩
  | cons token tokens =>
      have hinner : pact.inner session.passed.cursor.pending := by
        rw [hpending] at hsession
        simpa [Session.passed, Cursor.advance, hpending] using pact.inner_of_outer hsession
      refine (steady_accept? _).andThen ?_ session.passed hinner
      intro name
      apply (enters_expectPunctuation "(").steady.andThen
      intro opening
      apply hgrammar.parameters.andThen
      intro parameters
      apply steady_advance.andThen
      intro closing
      apply (block_enters hgrammar).steady.andThen
      intro body
      apply Steady.ite
      · intro _ session _
        exact .inr ⟨rfl, rfl⟩
      · intro _
        exact steady_add _

theorem parenthesized_enters (hgrammar : first.Accords pact second) :
    Enters pact (parenthesized first) (parenthesized second) := by
  apply (enters_expectPunctuation "(").andThen
  intro opening
  apply (hgrammar.expression true).andThen
  intro inner
  apply steady_eatComments.andThen
  intro comment
  apply (enters_expectPunctuation ")").steady.andThen
  intro closing
  exact steady_add _

theorem array_accords (hgrammar : first.Accords pact second)
    (hsession : pact.outer session.cursor.pending)
    (hcurrent : session.cursor.current.isEnd = false) :
    Accords pact pact.inner (array first) (array second) session := by
  apply accords_advance_andThen hsession hcurrent
  apply (hgrammar.items "]").andThen
  intro elements
  apply steady_advance.andThen
  intro closing
  exact steady_add _

theorem property_enters (hgrammar : first.Accords pact second) :
    Enters pact (property first) (property second) := by
  apply (enters_expect (fun _ => Token.isWord_of_isPropertyName) rfl).andThen
  intro name
  apply (enters_expectPunctuation ":").steady.andThen
  intro colon
  apply (hgrammar.expression false).andThen
  intro value
  exact steady_add _

theorem properties_stays (hgrammar : first.Accords pact second) :
    Stays pact (properties first) (properties second) := by
  intro session hsession
  unfold properties
  rw [accords_bind_eatComments, accords_bind_current]
  have huncommented : pact.outer session.uncommented.cursor.pending :=
    pact.outer_suffix (List.dropWhile_suffix _) hsession
  split
  · exact accords_pure huncommented
  · refine Accords.mono ?_ fun _ => pact.outer_of_inner
    apply (property_enters hgrammar _ huncommented).andThen
    intro property
    apply steady_eatComments.andThen
    intro comment
    apply (steady_separator "\x7d").andThen
    intro _
    apply hgrammar.properties.andThen
    intro others
    exact steady_pure _

theorem object_accords (hgrammar : first.Accords pact second) (comment : Option Token)
    (hsession : pact.outer session.cursor.pending)
    (hcurrent : session.cursor.current.isEnd = false) :
    Accords pact pact.inner (object first comment) (object second comment) session := by
  apply accords_advance_andThen hsession hcurrent
  apply hgrammar.properties.andThen
  intro properties
  apply steady_advance.andThen
  intro closing
  exact steady_add _

theorem arguments_steady (hgrammar : first.Accords pact second) :
    Steady pact (arguments first) (arguments second) := by
  apply steady_advance.andThen
  intro opening
  apply (hgrammar.items ")").andThen
  intro expressions
  apply steady_advance.andThen
  intro closing
  exact steady_add _

theorem newObject_accords (hgrammar : first.Accords pact second)
    (hsession : pact.outer session.cursor.pending)
    (hcurrent : session.cursor.current.isEnd = false) :
    Accords pact pact.inner (newObject first) (newObject second) session := by
  have hadded : ∀ (callee : NodeId) (arguments : Option NodeId),
      Steady pact
        (do
          let object ← add (.newObject session.cursor.current callee arguments)
          first.suffixes object true)
        (do
          let object ← add (.newObject session.cursor.current callee arguments)
          second.suffixes object true) := by
    intro callee arguments
    exact (steady_add _).andThen fun object => hgrammar.suffixes object true
  apply accords_advance_andThen hsession hcurrent
  apply (hgrammar.operand false).andThen
  intro callee
  apply steady_current.andThen
  intro token
  apply Steady.ite
  · intro _
    exact (arguments_steady hgrammar).andThen fun list => hadded callee (some list)
  · intro _
    exact hadded callee none

theorem operand_enters (hgrammar : first.Accords pact second) (calls : Bool) :
    Enters pact (operand first calls) (operand second calls) := by
  intro session hsession
  unfold operand
  rw [accords_bind_eatComments, accords_bind_current]
  have huncommented : pact.outer session.uncommented.cursor.pending :=
    pact.outer_suffix (List.dropWhile_suffix _) hsession
  have hcurrent : OperandStart.of session.uncommented.cursor.current ≠ .refused →
      session.uncommented.cursor.current.isEnd = false := OperandStart.isEnd_of_ne_refused
  cases hof : OperandStart.of session.uncommented.cursor.current
  all_goals rw [hof] at hcurrent
  case newObject => exact newObject_accords hgrammar huncommented (hcurrent (by simp))
  case unary =>
    apply accords_advance_andThen huncommented (hcurrent (by simp))
    apply (hgrammar.operand calls).andThen
    intro inner
    exact steady_add _
  case function =>
    apply (function_enters hgrammar .literal _ huncommented).andThen
    intro function
    exact hgrammar.suffixes function true
  case valueKeyword =>
    apply accords_advance_andThen huncommented (hcurrent (by simp))
    exact (steady_add _).andThen fun name => hgrammar.suffixes name calls
  case leaf =>
    apply accords_advance_andThen huncommented (hcurrent (by simp))
    exact (steady_add _).andThen fun leaf => hgrammar.suffixes leaf calls
  case parenthesis =>
    apply (parenthesized_enters hgrammar _ huncommented).andThen
    intro inner
    exact hgrammar.suffixes inner calls
  case bracket =>
    apply (array_accords hgrammar huncommented (hcurrent (by simp))).andThen
    intro array
    exact hgrammar.suffixes array calls
  case brace =>
    apply (object_accords hgrammar _ huncommented (hcurrent (by simp))).andThen
    intro object
    exact hgrammar.suffixes object calls
  case refused => exact accords_refuse rfl

theorem suffixes_stays (hgrammar : first.Accords pact second) (target : NodeId) (calls : Bool) :
    Stays pact (suffixes first target calls) (suffixes second target calls) := by
  intro session hsession
  unfold suffixes
  rw [accords_bind_current]
  split
  · rename_i hdot
    refine Accords.mono ?_ fun _ => pact.outer_of_inner
    apply accords_advance_andThen hsession
      (Token.isEnd_of_isWord (Token.isWord_of_isPunctuation hdot))
    apply (enters_expect (fun _ => Token.isWord_of_isMemberName) rfl).steady.andThen
    intro name
    apply (steady_add _).andThen
    intro member
    exact (steady_add _).andThen fun access => hgrammar.suffixes access calls
  split
  · rename_i hbracket
    refine Accords.mono ?_ fun _ => pact.outer_of_inner
    apply accords_advance_andThen hsession
      (Token.isEnd_of_isWord (Token.isWord_of_isPunctuation hbracket))
    apply (hgrammar.expression true).andThen
    intro index
    apply (enters_expectPunctuation "]").steady.andThen
    intro closing
    exact (steady_add _).andThen fun subscript => hgrammar.suffixes subscript calls
  split
  · rename_i hcall
    refine Accords.mono ?_ fun _ => pact.outer_of_inner
    apply accords_advance_andThen hsession
      (Token.isEnd_of_isWord (Token.isWord_of_isPunctuation (Bool.and_eq_true_iff.mp hcall).2))
    apply (hgrammar.items ")").andThen
    intro items
    apply steady_advance.andThen
    intro closing
    exact (steady_add _).andThen fun call => hgrammar.suffixes call calls
  split
  · rename_i hpostfix
    have hoperator := (Bool.and_eq_true_iff.mp (Bool.and_eq_true_iff.mp hpostfix).1).2
    refine Accords.mono ?_ fun _ => pact.outer_of_inner
    apply accords_advance_andThen hsession
      (Token.isEnd_of_isWord (Token.isWord_of_isPostfix hoperator))
    exact steady_add _
  · exact accords_pure hsession

theorem operations_stays (hgrammar : first.Accords pact second) (left : NodeId)
    (floor : Token.Binding) :
    Stays pact (operations first left floor) (operations second left floor) := by
  intro session hsession
  unfold operations
  rw [accords_bind_current]
  dsimp only
  split
  · exact accords_pure hsession
  · rename_i hlevel
    refine Accords.mono ?_ fun _ => pact.outer_of_inner
    apply accords_advance_andThen hsession
      (Token.isEnd_of_isWord (Token.isWord_of_not_binding_le hlevel))
    apply (hgrammar.operand true).andThen
    intro operand
    apply (hgrammar.operations operand _).andThen
    intro right
    exact (steady_add _).andThen fun joined => hgrammar.operations joined floor

theorem conditional_enters (hgrammar : first.Accords pact second) :
    Enters pact (conditional first) (conditional second) := by
  apply (operand_enters hgrammar true).andThen
  intro operand
  apply (hgrammar.operations operand .lowest).andThen
  intro test
  apply steady_current.andThen
  intro token
  apply Steady.ite
  · intro _
    apply steady_advance.andThen
    intro mark
    apply hgrammar.assignment.andThen
    intro consequent
    apply (enters_expectPunctuation ":").steady.andThen
    intro colon
    apply hgrammar.assignment.andThen
    intro alternate
    exact steady_add _
  · intro _
    exact steady_pure _

/-- The left side of an assignment is looked up in the tree, where it stands. -/
theorem assignment_enters (hgrammar : first.Accords pact second) :
    Enters pact (assignment first) (assignment second) := by
  intro session hsession
  apply (conditional_enters hgrammar session hsession).bind
  intro left read hread hinner
  obtain ⟨node, hnode⟩ := (conditional_pushes hgrammar.traced).exists_node hread
  rw [accords_bind_current]
  split
  · exact accords_pure hinner
  · apply accords_bind_node hnode
    split
    · apply steady_advance.andThen _ read hinner
      intro operator
      apply hgrammar.assignment.andThen
      intro right
      exact steady_add _
    · exact accords_refuse rfl

theorem expression_enters (hgrammar : first.Accords pact second) (commas : Bool) :
    Enters pact (expression first commas) (expression second commas) := by
  apply (assignment_enters hgrammar).andThen
  intro left
  apply steady_current.andThen
  intro token
  apply Steady.ite
  · intro _
    apply steady_advance.andThen
    intro comma
    apply (hgrammar.expression true).andThen
    intro rest
    exact steady_add _
  · intro _
    exact steady_pure _

theorem items_stays (hgrammar : first.Accords pact second) (closing : String) :
    Stays pact (items first closing) (items second closing) := by
  intro session hsession
  unfold items
  rw [accords_bind_eatComments, accords_bind_current]
  have huncommented : pact.outer session.uncommented.cursor.pending :=
    pact.outer_suffix (List.dropWhile_suffix _) hsession
  split
  · exact accords_pure huncommented
  · refine Accords.mono ?_ fun _ => pact.outer_of_inner
    apply (expression_enters hgrammar false _ huncommented).andThen
    intro item
    apply steady_eatComments.andThen
    intro comment
    apply (steady_separator closing).andThen
    intro _
    apply (hgrammar.items closing).andThen
    intro others
    exact steady_pure _

end Production

end ScriptSyntax

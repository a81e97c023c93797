import ScriptSyntax.Proofs.Lockstep.Basic
import ScriptSyntax.Proofs.Trace.Expression

/-!
# Expressions in lockstep

The productions of expressions are in step over a grammar that is.  They pass a token only once
they have looked at it, and a dot only before the name of a member.
-/

namespace ScriptSyntax

open Parse

/-- The readers of a grammar are in step. -/
structure Grammar.InStep (grammar : Grammar) (lockstep : Lockstep) : Prop where
  traced : grammar.Traced
  statement (labels : Bool) : lockstep.Steps (grammar.statement labels)
  statements (enclosure : Enclosure) : lockstep.Steps (grammar.statements enclosure)
  parameters : lockstep.Steps grammar.parameters
  declarations : lockstep.StepsPast grammar.declarations
  expression (commas : Bool) : lockstep.StepsPast (grammar.expression commas)
  assignment : lockstep.Steps grammar.assignment
  operand (calls : Bool) : lockstep.Steps (grammar.operand calls)
  operations (left : NodeId) (floor : Token.Binding) :
    lockstep.Steps (grammar.operations left floor)
  suffixes (target : NodeId) (calls : Bool) : lockstep.Steps (grammar.suffixes target calls)
  items (closing : String) : lockstep.Steps (grammar.items closing)
  properties : lockstep.Steps grammar.properties

namespace Production

open Lockstep

/-- A token that opens an operand can be passed, and it is no dot. -/
theorem OperandStart.ordinary_of_ne_refused {token : Token}
    (htoken : OperandStart.of token ≠ .refused) : token.Ordinary := by
  refine ⟨isEnd_of_ne_refused htoken, ?_⟩
  rw [Bool.eq_false_iff]
  intro hdot
  obtain ⟨hkind, hvalue⟩ := (token.is_iff _ _).mp hdot
  exact htoken (by simp [OperandStart.of, hkind, hvalue])

variable {lockstep : Lockstep} {grammar : Grammar} (hgrammar : grammar.InStep lockstep)

include hgrammar

theorem block_steps : lockstep.Steps (block grammar) := by
  apply (steps_expectPunctuation (by decide)).bind
  intro opening
  apply (hgrammar.statements .block).bindTo (hgrammar.traced.statements .block) (by decide)
  intro statements
  apply steps_bind_advance
  intro closing
  exact steps_add _

theorem parameters_steps : lockstep.Steps (parameters grammar) := by
  apply steps_bind_current
  intro token
  apply StepsFrom.ite
  · intro _
    exact (steps_pure _).anywhere
  · intro _
    apply StepsFrom.ite
    · intro _
      exact (steps_refuse _).anywhere
    · intro _
      apply (steps_expectIdentifier _).anywhere.bind
      intro name
      apply (steps_separator ")").bind
      intro _
      exact hgrammar.parameters.bind fun others => steps_pure _

theorem function_steps (role : FunctionRole) :
    lockstep.StepsFrom Cursor.Ordinary (function grammar role) := by
  apply steps_bind_advance
  intro keyword
  apply (steps_accept? fun _ hname => Token.ordinary_of_identifier (beq_iff_eq.mp hname)).bind
  intro name
  apply (steps_expectPunctuation (by decide)).bind
  intro opening
  apply hgrammar.parameters.bindTo hgrammar.traced.parameters (by decide)
  intro parameters
  apply steps_bind_advance
  intro closing
  apply (block_steps hgrammar).bind
  intro body
  apply StepsFrom.ite
  · intro _
    exact steps_throw _
  · intro _
    exact steps_add _

theorem parenthesized_steps : lockstep.Steps (parenthesized grammar) := by
  apply (steps_expectPunctuation (by decide)).bind
  intro opening
  apply (hgrammar.expression true).steps.bind
  intro inner
  apply steps_eatComments.bind
  intro comment
  apply (steps_expectPunctuation (by decide)).bind
  intro closing
  exact steps_add _

theorem array_steps : lockstep.StepsFrom Cursor.Ordinary (array grammar) := by
  apply steps_bind_advance
  intro opening
  apply (hgrammar.items "]").bindTo (hgrammar.traced.items "]") (by decide)
  intro elements
  apply steps_bind_advance
  intro closing
  exact steps_add _

theorem property_steps : lockstep.Steps (property grammar) := by
  apply (steps_expect _ fun _ => Token.ordinary_of_isPropertyName).bind
  intro name
  apply (steps_expectPunctuation (by decide)).bind
  intro colon
  apply (hgrammar.expression false).steps.bind
  intro value
  exact steps_add _

theorem properties_steps : lockstep.Steps (properties grammar) := by
  apply steps_eatComments.bind
  intro comment
  apply steps_bind_current
  intro token
  apply StepsFrom.ite
  · intro _
    exact (steps_pure _).anywhere
  · intro _
    apply (property_steps hgrammar).anywhere.bind
    intro property
    apply steps_eatComments.bind
    intro comment
    apply (steps_separator "\x7d").bind
    intro _
    exact hgrammar.properties.bind fun others => steps_pure _

theorem object_steps (comment : Option Token) :
    lockstep.StepsFrom Cursor.Ordinary (object grammar comment) := by
  apply steps_bind_advance
  intro opening
  apply hgrammar.properties.bindTo hgrammar.traced.properties (by decide)
  intro properties
  apply steps_bind_advance
  intro closing
  exact steps_add _

theorem arguments_steps : lockstep.StepsFrom Cursor.Ordinary (arguments grammar) := by
  apply steps_bind_advance
  intro opening
  apply (hgrammar.items ")").bindTo (hgrammar.traced.items ")") (by decide)
  intro expressions
  apply steps_bind_advance
  intro closing
  exact steps_add _

theorem newObject_steps : lockstep.StepsFrom Cursor.Ordinary (newObject grammar) := by
  apply steps_bind_advance
  intro keyword
  have hadded : ∀ (callee : NodeId) (arguments : Option NodeId), lockstep.Steps
      (do
        let object ← add (.newObject keyword callee arguments)
        grammar.suffixes object true) := by
    intro callee arguments
    exact (steps_add _).bind fun object => hgrammar.suffixes object true
  apply (hgrammar.operand false).bind
  intro callee
  apply steps_bind_current
  intro token
  apply StepsFrom.ite
  · intro hopening
    apply ((arguments_steps hgrammar).bind fun list => hadded callee (some list)).mono
    rintro cursor ⟨rfl, -⟩
    exact Token.ordinary_of_isPunctuation hopening (by decide)
  · intro _
    exact (hadded callee none).anywhere

theorem suffixes_steps (target : NodeId) (calls : Bool) :
    lockstep.Steps (suffixes grammar target calls) := by
  apply steps_bind_current
  intro token
  apply StepsFrom.ite
  · intro hdot
    have hnamed : ∀ name : Token, lockstep.Steps
        (do
          let member ← add (.leaf .name name)
          let access ← add (.binary target token member)
          grammar.suffixes access calls) := by
      intro name
      apply (steps_add _).bind
      intro member
      exact (steps_add _).bind fun access => hgrammar.suffixes access calls
    apply (steps_bind_member hnamed).mono
    rintro cursor ⟨rfl, -⟩
    exact hdot
  · intro _
    apply StepsFrom.ite
    · intro hbracket
      refine StepsFrom.mono (steps_bind_advance fun opening => ?_) ?_
      · apply (hgrammar.expression true).steps.bind
        intro index
        apply (steps_expectPunctuation (by decide)).bind
        intro closing
        exact (steps_add _).bind fun subscript => hgrammar.suffixes subscript calls
      · rintro cursor ⟨rfl, -⟩
        exact Token.ordinary_of_isPunctuation hbracket (by decide)
    · intro _
      apply StepsFrom.ite
      · intro hcall
        refine StepsFrom.mono (steps_bind_advance fun opening => ?_) ?_
        · apply (hgrammar.items ")").bindTo (hgrammar.traced.items ")") (by decide)
          intro items
          apply steps_bind_advance
          intro closing
          exact (steps_add _).bind fun call => hgrammar.suffixes call calls
        · rintro cursor ⟨rfl, -⟩
          exact Token.ordinary_of_isPunctuation (Bool.and_eq_true_iff.mp hcall).2 (by decide)
      · intro _
        apply StepsFrom.ite
        · intro hpostfix
          refine StepsFrom.mono (steps_bind_advance fun operator => steps_add _) ?_
          rintro cursor ⟨rfl, -⟩
          exact Token.ordinary_of_isPostfix
            (Bool.and_eq_true_iff.mp (Bool.and_eq_true_iff.mp hpostfix).1).2
        · intro _
          exact (steps_pure _).anywhere

theorem operand_steps (calls : Bool) : lockstep.Steps (operand grammar calls) := by
  apply steps_eatComments.bind
  intro comment
  apply steps_bind_current
  intro token
  have hopens : OperandStart.of token ≠ .refused → ∀ cursor : Cursor,
      cursor.current = token ∧ True → cursor.Ordinary := by
    rintro hof cursor ⟨rfl, -⟩
    exact OperandStart.ordinary_of_ne_refused hof
  cases hof : OperandStart.of token
  all_goals
    rw [hof] at hopens
    dsimp only
  case newObject => exact (newObject_steps hgrammar).mono (hopens nofun)
  case unary =>
    refine StepsFrom.mono (steps_bind_advance fun operator => ?_) (hopens nofun)
    exact (hgrammar.operand calls).bind fun inner => steps_add _
  case function =>
    refine StepsFrom.mono ((function_steps hgrammar .literal).bind fun function => ?_)
      (hopens nofun)
    exact hgrammar.suffixes function true
  case valueKeyword =>
    refine StepsFrom.mono (steps_bind_advance fun word => ?_) (hopens nofun)
    exact (steps_add _).bind fun name => hgrammar.suffixes name calls
  case leaf kind =>
    refine StepsFrom.mono (steps_bind_advance fun word => ?_) (hopens nofun)
    exact (steps_add _).bind fun leaf => hgrammar.suffixes leaf calls
  case parenthesis =>
    apply (parenthesized_steps hgrammar).anywhere.bind
    intro inner
    exact hgrammar.suffixes inner calls
  case bracket =>
    refine StepsFrom.mono ((array_steps hgrammar).bind fun array => ?_) (hopens nofun)
    exact hgrammar.suffixes array calls
  case brace =>
    refine StepsFrom.mono ((object_steps hgrammar comment).bind fun object => ?_) (hopens nofun)
    exact hgrammar.suffixes object calls
  case refused => exact (steps_refuse _).anywhere

/-- A name is an operand, which is passed before anything is read. -/
theorem operand_stepsPast (calls : Bool) : lockstep.StepsPast (operand grammar calls) where
  steps := operand_steps hgrammar calls
  passesName := by
    intro session hname hastray
    have hcurrent : current session = .ok session.cursor.current session := rfl
    have hof : OperandStart.of session.cursor.current = .leaf .name := by
      rw [OperandStart.of, hname]
    unfold operand
    rw [bind_of_ok (eatComments_of_name hname), bind_of_ok hcurrent, hof]
    apply passesName_bind_advance _ session hname hastray
    intro word
    exact (steps_add _).bind fun name => hgrammar.suffixes name calls

theorem operations_steps (left : NodeId) (floor : Token.Binding) :
    lockstep.Steps (operations grammar left floor) := by
  apply steps_bind_current
  intro token
  apply StepsFrom.ite
  · intro _
    exact (steps_pure _).anywhere
  · intro hlevel
    refine StepsFrom.mono (steps_bind_advance fun operator => ?_) ?_
    · apply (hgrammar.operand true).bind
      intro operand
      apply (hgrammar.operations operand _).bind
      intro right
      exact (steps_add _).bind fun joined => hgrammar.operations joined floor
    · rintro cursor ⟨rfl, -⟩
      exact Token.ordinary_of_not_binding_le hlevel

theorem conditional_stepsPast : lockstep.StepsPast (conditional grammar) := by
  apply (operand_stepsPast hgrammar true).bind
  intro operand
  apply (hgrammar.operations operand .lowest).bind
  intro test
  apply steps_bind_current
  intro token
  apply StepsFrom.ite
  · intro hmark
    refine StepsFrom.mono (steps_bind_advance fun mark => ?_) ?_
    · apply hgrammar.assignment.bind
      intro consequent
      apply (steps_expectPunctuation (by decide)).bind
      intro colon
      exact hgrammar.assignment.bind fun alternate => steps_add _
    · rintro cursor ⟨rfl, -⟩
      exact Token.ordinary_of_isOperator hmark
  · intro _
    exact (steps_pure _).anywhere

theorem assignment_stepsPast : lockstep.StepsPast (assignment grammar) := by
  apply (conditional_stepsPast hgrammar).bind
  intro left
  apply steps_bind_current
  intro token
  apply StepsFrom.ite
  · intro _
    exact (steps_pure _).anywhere
  · intro hoperator
    apply steps_bind_node
    intro node
    apply StepsFrom.ite
    · intro _
      refine StepsFrom.mono (steps_bind_advance fun operator => ?_) ?_
      · exact hgrammar.assignment.bind fun right => steps_add _
      · rintro cursor ⟨rfl, -⟩
        exact Token.ordinary_of_isAssignment (by simpa using hoperator)
    · intro _
      exact (steps_refuse _).anywhere

theorem expression_stepsPast (commas : Bool) :
    lockstep.StepsPast (expression grammar commas) := by
  apply (assignment_stepsPast hgrammar).bind
  intro left
  apply steps_bind_current
  intro token
  apply StepsFrom.ite
  · intro hcomma
    refine StepsFrom.mono (steps_bind_advance fun comma => ?_) ?_
    · exact (hgrammar.expression true).steps.bind fun rest => steps_add _
    · rintro cursor ⟨rfl, -⟩
      exact Token.ordinary_of_isPunctuation (Bool.and_eq_true_iff.mp hcomma).2 (by decide)
  · intro _
    exact (steps_pure _).anywhere

theorem items_steps (closing : String) : lockstep.Steps (items grammar closing) := by
  apply steps_eatComments.bind
  intro comment
  apply steps_bind_current
  intro token
  apply StepsFrom.ite
  · intro _
    exact (steps_pure _).anywhere
  · intro _
    apply (expression_stepsPast hgrammar false).steps.anywhere.bind
    intro item
    apply steps_eatComments.bind
    intro comment
    apply (steps_separator closing).bind
    intro _
    exact (hgrammar.items closing).bind fun others => steps_pure _

end Production

end ScriptSyntax

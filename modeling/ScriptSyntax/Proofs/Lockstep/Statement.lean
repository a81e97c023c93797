import ScriptSyntax.Proofs.Accord.Statement
import ScriptSyntax.Proofs.Lockstep.Expression
import ScriptSyntax.Proofs.Progress

/-!
# Statements in lockstep

The productions of statements are in step over a grammar that is.  Two of them look beyond the
token under the cursor: a statement that begins with a name, and a loop.  Either way that token
is a name, and what is read then passes it.  All readers of a grammar of any depth are in step.
-/

namespace ScriptSyntax

open Parse

namespace Production

open Lockstep

/-- A token that opens a statement of its own can be passed, and it is no dot. -/
theorem Opening.ordinary_of_ne_refused {labels : Bool} {token next : Token}
    (hof : ∀ reason, Opening.of labels token next ≠ .refused reason) : token.Ordinary := by
  refine ⟨isEnd_of_ne_refused hof, ?_⟩
  rw [Bool.eq_false_iff]
  intro hdot
  obtain ⟨hkind, hvalue⟩ := (token.is_iff _ _).mp hdot
  exact hof .unexpectedToken (by simp [Opening.of, hkind, hvalue, Opening.ofPunctuation])

variable {lockstep : Lockstep} {grammar : Grammar} (hgrammar : grammar.InStep lockstep)

theorem comment_steps : lockstep.StepsFrom Cursor.Ordinary comment :=
  steps_bind_advance fun _ => steps_add _

theorem emptyStatement_steps : lockstep.StepsFrom Cursor.Ordinary emptyStatement :=
  steps_bind_advance fun _ => steps_add _

theorem defaultLabel_steps : lockstep.StepsFrom Cursor.Ordinary defaultLabel := by
  apply steps_bind_advance
  intro keyword
  exact (steps_expectPunctuation (by decide)).bind fun colon => steps_add _

theorem jump_steps (kind : Jump) : lockstep.StepsFrom Cursor.Ordinary (jump grammar kind) := by
  apply steps_bind_advance
  intro keyword
  refine (steps_accept? fun token hname => ?_).bind fun label => ?_
  · rw [Bool.and_eq_true, beq_iff_eq] at hname
    exact Token.ordinary_of_identifier hname.1
  · exact (steps_endStatement _).bind fun semicolon => steps_add _

theorem debugger_steps : lockstep.StepsFrom Cursor.Ordinary (debugger grammar) := by
  apply steps_bind_advance
  intro keyword
  exact (steps_endStatement _).bind fun semicolon => steps_add _

include hgrammar

/-- A label is passed together with the colon behind it. -/
theorem labelled_steps : lockstep.StepsFrom
    (fun cursor => cursor.Ordinary ∧ cursor.advance.Ordinary) (labelled grammar) := by
  apply steps_bind_advance_twice
  intro label colon
  exact (hgrammar.statement false).bind fun statement => steps_add _

theorem labelled_passesName : lockstep.PassesName (labelled grammar) := by
  apply passesName_bind_advance_twice
  intro label colon
  exact (hgrammar.statement false).bind fun statement => steps_add _

theorem expressionStatement_stepsPast : lockstep.StepsPast (expressionStatement grammar) := by
  apply (expression_stepsPast hgrammar true).bind
  intro value
  exact (steps_endStatement _).bind fun semicolon => steps_add _

theorem caseLabel_steps : lockstep.StepsFrom Cursor.Ordinary (caseLabel grammar) := by
  apply steps_bind_advance
  intro keyword
  apply (hgrammar.expression true).steps.bind
  intro test
  exact (steps_expectPunctuation (by decide)).bind fun colon => steps_add _

theorem doWhile_steps : lockstep.StepsFrom Cursor.Ordinary (doWhile grammar) := by
  apply steps_bind_advance
  intro keyword
  apply (hgrammar.statement false).bind
  intro body
  apply (steps_expectKeyword "while").bind
  intro word
  apply (parenthesized_steps hgrammar).bind
  intro condition
  exact (steps_endStatement _).bind fun semicolon => steps_add _

theorem forIn_steps (keyword : Token) (varToken : Option Token) : lockstep.StepsFrom
    (fun cursor => cursor.Ordinary ∧ cursor.advance.Ordinary)
    (forIn grammar keyword varToken) := by
  apply steps_bind_advance_twice
  intro name operator
  apply (hgrammar.expression true).steps.bind
  intro object
  apply (steps_expectPunctuation (by decide)).bind
  intro closing
  exact (hgrammar.statement false).bind fun body => steps_add _

theorem forIn_passesName (keyword : Token) (varToken : Option Token) :
    lockstep.PassesName (forIn grammar keyword varToken) := by
  apply passesName_bind_advance_twice
  intro name operator
  apply (hgrammar.expression true).steps.bind
  intro object
  apply (steps_expectPunctuation (by decide)).bind
  intro closing
  exact (hgrammar.statement false).bind fun body => steps_add _

theorem loopInit_stepsPast (varToken : Option Token) :
    lockstep.StepsPast (loopInit grammar varToken) := by
  unfold loopInit
  split
  · exact hgrammar.declarations.bind fun declarations => steps_pure _
  · exact (hgrammar.expression true).bind fun value => steps_pure _

theorem forClauses_stepsPast (keyword : Token) (varToken : Option Token) :
    lockstep.StepsPast (forClauses grammar keyword varToken) := by
  have hinit := loopInit_stepsPast hgrammar varToken
  refine StepsPast.bind ⟨hinit.steps.readUnless _, hinit.passesName.readUnless⟩ fun init => ?_
  apply (steps_expectPunctuation (by decide)).bind
  intro afterInit
  apply ((hgrammar.expression true).steps.readUnless _).bind
  intro test
  apply (steps_expectPunctuation (by decide)).bind
  intro afterTest
  apply ((hgrammar.expression true).steps.readUnless _).bind
  intro step
  apply (steps_expectPunctuation (by decide)).bind
  intro closing
  exact (hgrammar.statement false).bind fun body => steps_add _

theorem forLoop_steps : lockstep.StepsFrom Cursor.Ordinary (forLoop grammar) := by
  apply steps_bind_advance
  intro keyword
  apply (steps_expectPunctuation (by decide)).bind
  intro opening
  apply (steps_accept? fun _ => Token.ordinary_of_isKeyword).bind
  intro varToken
  apply steps_bind_current_next
  · intro token next
    apply StepsFrom.ite
    · intro hin
      rw [Bool.and_eq_true, beq_iff_eq] at hin
      apply (forIn_steps hgrammar keyword varToken).mono
      rintro cursor ⟨rfl, rfl⟩
      exact ⟨Token.ordinary_of_identifier hin.1, Token.ordinary_of_isOperator hin.2⟩
    · intro _
      exact (forClauses_stepsPast hgrammar keyword varToken).steps.anywhere
  · intro token next other hkind
    rw [beq_false_of_ne hkind, Bool.false_and, Bool.false_and]
  · intro token next _
    split
    · exact forIn_passesName hgrammar keyword varToken
    · exact (forClauses_stepsPast hgrammar keyword varToken).passesName

theorem ifElse_steps : lockstep.StepsFrom Cursor.Ordinary (ifElse grammar) := by
  apply steps_bind_advance
  intro keyword
  apply (parenthesized_steps hgrammar).bind
  intro condition
  apply (hgrammar.statement false).bind
  intro thenBranch
  apply (Steps.readAfter? (fun _ => Token.ordinary_of_isKeyword) (hgrammar.statement false)).bind
  intro elseBranch
  exact steps_add _

theorem returns_steps : lockstep.StepsFrom Cursor.Ordinary (returns grammar) := by
  apply steps_bind_advance
  intro keyword
  apply steps_bind_lines
  · intro cursor other hlines
    rw [Cursor.atSemicolon, Cursor.atSemicolon, Cursor.atLineEnd, Cursor.atLineEnd, hlines]
  · intro cursor
    apply StepsFrom.ite
    · intro _
      exact (steps_endStatement _).bind fun semicolon => steps_add _
    · intro _
      apply StepsFrom.ite
      · intro _
        exact steps_add _
      · intro _
        apply (hgrammar.expression true).steps.bind
        intro value
        exact (steps_endStatement _).bind fun semicolon => steps_add _

theorem switch_steps : lockstep.StepsFrom Cursor.Ordinary (switch grammar) := by
  apply steps_bind_advance
  intro keyword
  apply (parenthesized_steps hgrammar).bind
  intro discriminant
  apply (steps_expectPunctuation (by decide)).bind
  intro opening
  apply (hgrammar.statements .switch).bindTo (hgrammar.traced.statements .switch) (by decide)
  intro cases
  apply steps_bind_advance
  intro closing
  exact steps_add _

theorem throws_steps : lockstep.StepsFrom Cursor.Ordinary (throws grammar) := by
  apply steps_bind_advance
  intro keyword
  apply (hgrammar.expression true).steps.bind
  intro value
  exact (steps_endStatement _).bind fun semicolon => steps_add _

theorem handler_steps : lockstep.Steps (handler grammar) := by
  apply (steps_expectPunctuation (by decide)).bind
  intro opening
  apply (steps_expectIdentifier _).bind
  intro name
  apply (steps_expectPunctuation (by decide)).bind
  intro closing
  exact (hgrammar.statement false).bind fun body => steps_pure _

theorem tryCatch_steps : lockstep.StepsFrom Cursor.Ordinary (tryCatch grammar) := by
  apply steps_bind_advance
  intro keyword
  apply (hgrammar.statement false).bind
  intro body
  apply (Steps.readAfter? (fun _ => Token.ordinary_of_isKeyword) (handler_steps hgrammar)).bind
  intro handler
  apply (Steps.readAfter? (fun _ => Token.ordinary_of_isKeyword) (hgrammar.statement false)).bind
  intro finalizer
  apply StepsFrom.ite
  · intro _
    exact steps_refuse _
  · intro _
    exact steps_add _

theorem declaration_stepsPast : lockstep.StepsPast (declaration grammar) := by
  refine StepsPast.bind ⟨steps_expectIdentifier _, ?_⟩ fun name => ?_
  · intro session hname hastray
    change lockstep.Strays ((if session.cursor.current.kind == .identifier then _ else _ :
      Parse Token) session)
    rw [if_pos (beq_iff_eq.mpr hname)]
    exact hastray
  · apply (Steps.readAfter? (fun _ => Token.ordinary_of_isOperator)
      (hgrammar.expression false).steps).bind
    intro initializer
    exact steps_add _

theorem declarations_stepsPast : lockstep.StepsPast (declarations grammar) := by
  have hrest : lockstep.StepsPast
      (do
        let first ← declaration grammar
        if (← current).isPunctuation "," then
          let _ ← Parse.advance
          return first :: (← grammar.declarations)
        else
          return [first]) := by
    apply (declaration_stepsPast hgrammar).bind
    intro declared
    apply steps_bind_current
    intro token
    apply StepsFrom.ite
    · intro hcomma
      refine StepsFrom.mono (steps_bind_advance fun comma => ?_) ?_
      · exact hgrammar.declarations.steps.bind fun others => steps_pure _
      · rintro cursor ⟨rfl, -⟩
        exact Token.ordinary_of_isPunctuation hcomma (by decide)
    · intro _
      exact (steps_pure _).anywhere
  refine ⟨steps_eatComments.bind fun comment => hrest.steps, ?_⟩
  intro session hname hastray
  rw [declarations, bind_of_ok (eatComments_of_name hname)]
  exact hrest.passesName session hname hastray

theorem varStatement_steps : lockstep.StepsFrom Cursor.Ordinary (varStatement grammar) := by
  apply steps_bind_advance
  intro keyword
  apply hgrammar.declarations.steps.bind
  intro declarations
  exact (steps_endStatement _).bind fun semicolon => steps_add _

theorem whileLoop_steps : lockstep.StepsFrom Cursor.Ordinary (whileLoop grammar) := by
  apply steps_bind_advance
  intro keyword
  apply (parenthesized_steps hgrammar).bind
  intro condition
  exact (hgrammar.statement false).bind fun body => steps_add _

theorem withScope_steps : lockstep.StepsFrom Cursor.Ordinary (withScope grammar) := by
  apply steps_bind_advance
  intro keyword
  apply (parenthesized_steps hgrammar).bind
  intro object
  exact (hgrammar.statement false).bind fun body => steps_add _

theorem statement_steps (labels : Bool) : lockstep.Steps (statement grammar labels) := by
  apply steps_bind_current_next
  · intro token next
    have hopens := Opening.of_opens labels token next
    have hcursor : (∀ reason, Opening.of labels token next ≠ .refused reason) →
        ∀ cursor : Cursor, cursor.current = token ∧ cursor.next = next → cursor.Ordinary := by
      rintro hof cursor ⟨rfl, -⟩
      exact Opening.ordinary_of_ne_refused hof
    cases hof : Opening.of labels token next
    all_goals
      rw [hof] at hopens hcursor
      dsimp only
    case comment => exact comment_steps.mono (hcursor nofun)
    case labelled =>
      apply (labelled_steps hgrammar).mono
      rintro cursor ⟨rfl, rfl⟩
      exact ⟨Token.ordinary_of_identifier hopens.1,
        Token.ordinary_of_isPunctuation hopens.2 (by decide)⟩
    case expression => exact (expressionStatement_stepsPast hgrammar).steps.anywhere
    case block => exact (block_steps hgrammar).anywhere
    case empty => exact emptyStatement_steps.mono (hcursor nofun)
    case jump kind => exact (jump_steps kind).mono (hcursor nofun)
    case caseLabel => exact (caseLabel_steps hgrammar).mono (hcursor nofun)
    case debugger => exact debugger_steps.mono (hcursor nofun)
    case defaultLabel => exact defaultLabel_steps.mono (hcursor nofun)
    case doWhile => exact (doWhile_steps hgrammar).mono (hcursor nofun)
    case forLoop => exact (forLoop_steps hgrammar).mono (hcursor nofun)
    case function => exact (function_steps hgrammar .definition).mono (hcursor nofun)
    case ifElse => exact (ifElse_steps hgrammar).mono (hcursor nofun)
    case returns => exact (returns_steps hgrammar).mono (hcursor nofun)
    case switch => exact (switch_steps hgrammar).mono (hcursor nofun)
    case throws => exact (throws_steps hgrammar).mono (hcursor nofun)
    case tryCatch => exact (tryCatch_steps hgrammar).mono (hcursor nofun)
    case varStatement => exact (varStatement_steps hgrammar).mono (hcursor nofun)
    case whileLoop => exact (whileLoop_steps hgrammar).mono (hcursor nofun)
    case withScope => exact (withScope_steps hgrammar).mono (hcursor nofun)
    case refused => exact (steps_refuse _).anywhere
  · intro token next other hkind
    have hof : Opening.of labels token next = Opening.of labels token other := by
      unfold Opening.of
      split <;> first | rfl | exact absurd ‹_› hkind
    rw [hof]
  · intro token next hkind
    cases hcolon : next.isPunctuation ":" with
    | true =>
        have hof : Opening.of labels token next = .labelled := by simp [Opening.of, hkind, hcolon]
        rw [hof]
        exact labelled_passesName hgrammar
    | false =>
        have hof : Opening.of labels token next = .expression := by
          simp [Opening.of, hkind, hcolon]
        rw [hof]
        exact (expressionStatement_stepsPast hgrammar).passesName

theorem statements_steps (enclosure : Enclosure) :
    lockstep.Steps (statements grammar enclosure) := by
  apply steps_bind_current
  intro token
  apply StepsFrom.ite
  · intro _
    exact (steps_pure _).anywhere
  · intro _
    apply (statement_steps hgrammar enclosure.admitsLabels).anywhere.bind
    intro statement
    exact (hgrammar.statements enclosure).bind fun others => steps_pure _

theorem program_steps : lockstep.Steps (program grammar) := by
  apply (statements_steps hgrammar .program).bind
  intro body
  apply steps_bind_current
  intro token
  exact (steps_add _).anywhere

end Production

namespace Grammar

open Lockstep

variable {lockstep : Lockstep}

theorem exhausted_inStep (semicolons : Semicolons) :
    (Grammar.exhausted semicolons).InStep lockstep where
  traced := exhausted_traced semicolons
  statement _ := steps_refuse _
  statements _ := steps_refuse _
  parameters := steps_refuse _
  declarations := ⟨steps_refuse _, fun _ _ _ => .inl rfl⟩
  expression _ := ⟨steps_refuse _, fun _ _ _ => .inl rfl⟩
  assignment := steps_refuse _
  operand _ := steps_refuse _
  operations _ _ := steps_refuse _
  suffixes _ _ := steps_refuse _
  items _ := steps_refuse _
  properties := steps_refuse _

theorem InStep.unfold {grammar : Grammar} (hgrammar : grammar.InStep lockstep) :
    grammar.unfold.InStep lockstep where
  traced := unfold_traced hgrammar.traced
  statement labels := Production.statement_steps hgrammar labels
  statements enclosure := Production.statements_steps hgrammar enclosure
  parameters := Production.parameters_steps hgrammar
  declarations := Production.declarations_stepsPast hgrammar
  expression commas := Production.expression_stepsPast hgrammar commas
  assignment := (Production.assignment_stepsPast hgrammar).steps
  operand calls := Production.operand_steps hgrammar calls
  operations left floor := Production.operations_steps hgrammar left floor
  suffixes target calls := Production.suffixes_steps hgrammar target calls
  items closing := Production.items_steps hgrammar closing
  properties := Production.properties_steps hgrammar

theorem upTo_inStep (semicolons : Semicolons) (depth : Nat) :
    (Grammar.upTo semicolons depth).InStep lockstep := by
  induction depth with
  | zero => exact exhausted_inStep semicolons
  | succ depth ih => exact ih.unfold

end Grammar

/-- Both runs over whole lists are in step if their cursors are level at the start. -/
theorem Lockstep.program_outcome (lockstep : Lockstep) (semicolons : Semicolons)
    {tokens others : List Token}
    (hlevel : lockstep.level (Cursor.ofTokens tokens) (Cursor.ofTokens others)) :
    lockstep.Outcome (Parse.reading semicolons Production.program (.start tokens))
      (Parse.reading semicolons Production.program (.start others)) := by
  -- One grammar that is deep enough for both lists.
  let depth := (Cursor.ofTokens tokens).pending.length +
    (Cursor.ofTokens others).pending.length + 1
  have hfirst : (Cursor.ofTokens tokens).pending.length < depth := by omega
  have hsecond : (Cursor.ofTokens others).pending.length < depth := by omega
  rw [← (program_accords semicolons tokens hfirst).eq,
    ← (program_accords semicolons others hsecond).eq]
  exact (Production.program_steps (Grammar.upTo_inStep semicolons depth)).beside ⟨hlevel, rfl⟩
    trivial

/-- Lists that never part for good are read alike. -/
theorem Lockstep.parse_eq (lockstep : Lockstep) (hnever : ∀ cursor, ¬lockstep.astray cursor)
    (semicolons : Semicolons) {tokens others : List Token}
    (hlevel : lockstep.level (Cursor.ofTokens tokens) (Cursor.ofTokens others)) :
    parse semicolons others = parse semicolons tokens := by
  have houtcome := lockstep.program_outcome semicolons hlevel
  have hsettles := parse_settles semicolons tokens
  unfold parse EStateM.run at hsettles ⊢
  cases hrun : Parse.reading semicolons Production.program (.start tokens) with
  | ok root after =>
      rw [hrun] at houtcome
      rcases houtcome with hastray | ⟨final, hother, hbeside⟩
      · exact absurd hastray (hnever after.cursor)
      · rw [hother]
        exact congrArg Except.ok hbeside.tree.symm
  | error diagnostic after =>
      rw [hrun] at houtcome hsettles
      rcases houtcome with (hdefect | hastray) | ⟨final, hother, -⟩
      · exact absurd hsettles (by simp [hdefect])
      · exact absurd hastray (hnever after.cursor)
      · rw [hother]

end ScriptSyntax

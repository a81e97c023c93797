import ScriptSyntax.Proofs.Accord.Expression
import ScriptSyntax.Proofs.Trace.Statement

/-!
# Statements in accord

Statements over two grammars in accord are in accord.  Jumps and `return` look at how
semicolons are treated, so what is needed of them is left to the two grammars.
-/

namespace ScriptSyntax

open Parse

/-- Statements that depend on how semicolons are treated are in accord. -/
structure Grammar.JumpsAlike (pact : Pact) (first second : Grammar) : Prop where
  jump (kind : Jump) (session : Session) : pact.outer session.cursor.pending →
    (Production.Opening.jump kind).Opens session.cursor.current session.cursor.next →
    Parse.Accords pact pact.inner (Production.jump first kind) (Production.jump second kind)
      session
  returns (session : Session) : pact.outer session.cursor.pending →
    session.cursor.current.isKeyword "return" = true →
    Parse.Accords pact pact.inner (Production.returns first) (Production.returns second) session

namespace Production

variable {pact : Pact} {first second : Grammar} {session : Session}

theorem Opening.reason_of_ofKeyword {labels : Bool} {word : String} {reason : Reason}
    (hof : Opening.ofKeyword labels word = .refused reason) : reason = .unexpectedToken := by
  unfold ofKeyword at hof
  split at hof <;> grind

theorem Opening.reason_of_ofPunctuation {mark : String} {reason : Reason}
    (hof : Opening.ofPunctuation mark = .refused reason) : reason = .unexpectedToken := by
  unfold ofPunctuation at hof
  split at hof <;> grind

/-- A token that opens no statement is refused as such. -/
theorem Opening.reason_of_refused {labels : Bool} {token next : Token} {reason : Reason}
    (hof : Opening.of labels token next = .refused reason) :
    reason = .unexpectedToken ∨ reason = .unexpectedEnd := by
  cases hkind : token.kind <;> simp only [Opening.of, hkind] at hof
  case keyword => exact .inl (reason_of_ofKeyword hof)
  case punctuation => exact .inl (reason_of_ofPunctuation hof)
  case identifier => split at hof <;> cases hof
  case eof =>
    cases hof
    exact .inr rfl
  all_goals cases hof

theorem Opening.isDefect_of_refused {labels : Bool} {token next : Token} {reason : Reason}
    (hof : Opening.of labels token next = .refused reason) : reason.isDefect = false := by
  rcases reason_of_refused hof with rfl | rfl <;> rfl

/-- A statement opens with a token that can be passed. -/
theorem Opening.isEnd_of_ne_refused {labels : Bool} {token next : Token}
    (hof : ∀ reason, Opening.of labels token next ≠ .refused reason) : token.isEnd = false := by
  cases hkind : token.kind <;> simp_all [Opening.of, Token.isEnd]

section Openings

variable (hgrammar : first.Accords pact second) (hsession : pact.outer session.cursor.pending)
variable (hcurrent : session.cursor.current.isEnd = false)

include hsession hcurrent

theorem comment_accords : Accords pact pact.inner comment comment session :=
  accords_advance_andThen hsession hcurrent (steady_add _)

theorem emptyStatement_accords : Accords pact pact.inner emptyStatement emptyStatement session :=
  accords_advance_andThen hsession hcurrent (steady_add _)

theorem defaultLabel_accords : Accords pact pact.inner defaultLabel defaultLabel session := by
  apply accords_advance_andThen hsession hcurrent
  apply (enters_expectPunctuation ":").steady.andThen
  intro colon
  exact steady_add _

include hgrammar

theorem labelled_accords :
    Accords pact pact.inner (labelled first) (labelled second) session := by
  apply accords_advance_andThen hsession hcurrent
  apply steady_advance.andThen
  intro colon
  apply (hgrammar.statement false).andThen
  intro statement
  exact steady_add _

theorem caseLabel_accords :
    Accords pact pact.inner (caseLabel first) (caseLabel second) session := by
  apply accords_advance_andThen hsession hcurrent
  apply (hgrammar.expression true).andThen
  intro test
  apply (enters_expectPunctuation ":").steady.andThen
  intro colon
  exact steady_add _

theorem debugger_accords :
    Accords pact pact.inner (debugger first) (debugger second) session := by
  apply accords_advance_andThen hsession hcurrent
  apply hgrammar.ending.andThen
  intro semicolon
  exact steady_add _

theorem doWhile_accords :
    Accords pact pact.inner (doWhile first) (doWhile second) session := by
  apply accords_advance_andThen hsession hcurrent
  apply (hgrammar.statement false).andThen
  intro body
  apply (enters_expectKeyword "while").steady.andThen
  intro keyword
  apply (parenthesized_enters hgrammar).steady.andThen
  intro condition
  apply hgrammar.ending.andThen
  intro semicolon
  exact steady_add _

theorem ifElse_accords :
    Accords pact pact.inner (ifElse first) (ifElse second) session := by
  apply accords_advance_andThen hsession hcurrent
  apply (parenthesized_enters hgrammar).steady.andThen
  intro condition
  apply (hgrammar.statement false).andThen
  intro thenBranch
  apply (hgrammar.statement false).readAfter?.andThen
  intro elseBranch
  exact steady_add _

theorem switch_accords :
    Accords pact pact.inner (switch first) (switch second) session := by
  apply accords_advance_andThen hsession hcurrent
  apply (parenthesized_enters hgrammar).steady.andThen
  intro discriminant
  apply (enters_expectPunctuation "\x7b").steady.andThen
  intro opening
  apply (hgrammar.statements .switch).andThen
  intro cases
  apply steady_advance.andThen
  intro closing
  exact steady_add _

theorem throws_accords :
    Accords pact pact.inner (throws first) (throws second) session := by
  apply accords_advance_andThen hsession hcurrent
  apply (hgrammar.expression true).andThen
  intro value
  apply hgrammar.ending.andThen
  intro semicolon
  exact steady_add _

theorem varStatement_accords :
    Accords pact pact.inner (varStatement first) (varStatement second) session := by
  apply accords_advance_andThen hsession hcurrent
  apply hgrammar.declarations.andThen
  intro declarations
  apply hgrammar.ending.andThen
  intro semicolon
  exact steady_add _

theorem whileLoop_accords :
    Accords pact pact.inner (whileLoop first) (whileLoop second) session := by
  apply accords_advance_andThen hsession hcurrent
  apply (parenthesized_enters hgrammar).steady.andThen
  intro condition
  apply (hgrammar.statement false).andThen
  intro body
  exact steady_add _

theorem withScope_accords :
    Accords pact pact.inner (withScope first) (withScope second) session := by
  apply accords_advance_andThen hsession hcurrent
  apply (parenthesized_enters hgrammar).steady.andThen
  intro object
  apply (hgrammar.statement false).andThen
  intro body
  exact steady_add _

omit hsession hcurrent in
theorem handler_steady : Steady pact (handler first) (handler second) := by
  apply (enters_expectPunctuation "(").steady.andThen
  intro opening
  apply (enters_expectIdentifier rfl).steady.andThen
  intro name
  apply (enters_expectPunctuation ")").steady.andThen
  intro closing
  apply (hgrammar.statement false).andThen
  intro body
  exact steady_pure _

theorem tryCatch_accords :
    Accords pact pact.inner (tryCatch first) (tryCatch second) session := by
  apply accords_advance_andThen hsession hcurrent
  apply (hgrammar.statement false).andThen
  intro body
  apply (handler_steady hgrammar).readAfter?.andThen
  intro handler
  apply (hgrammar.statement false).readAfter?.andThen
  intro finalizer
  apply Steady.ite
  · intro _
    exact steady_refuse rfl
  · intro _
    exact steady_add _

omit hsession hcurrent in
theorem forIn_steady (keyword : Token) (varToken : Option Token) :
    Steady pact (forIn first keyword varToken) (forIn second keyword varToken) := by
  apply steady_advance.andThen
  intro name
  apply steady_advance.andThen
  intro operator
  apply (hgrammar.expression true).andThen
  intro object
  apply (enters_expectPunctuation ")").steady.andThen
  intro closing
  apply (hgrammar.statement false).andThen
  intro body
  exact steady_add _

omit hsession hcurrent in
theorem loopInit_steady (varToken : Option Token) :
    Steady pact (loopInit first varToken) (loopInit second varToken) := by
  apply Steady.ite
  · intro _
    exact hgrammar.declarations.andThen fun declarations => steady_pure _
  · intro _
    exact (hgrammar.expression true).andThen fun value => steady_pure _

omit hsession hcurrent in
theorem forClauses_steady (keyword : Token) (varToken : Option Token) :
    Steady pact (forClauses first keyword varToken) (forClauses second keyword varToken) := by
  apply (loopInit_steady hgrammar varToken).readUnless.andThen
  intro init
  apply (enters_expectPunctuation ";").steady.andThen
  intro afterInit
  apply (hgrammar.expression true).readUnless.andThen
  intro test
  apply (enters_expectPunctuation ";").steady.andThen
  intro afterTest
  apply (hgrammar.expression true).readUnless.andThen
  intro step
  apply (enters_expectPunctuation ")").steady.andThen
  intro closing
  apply (hgrammar.statement false).andThen
  intro body
  exact steady_add _

theorem forLoop_accords :
    Accords pact pact.inner (forLoop first) (forLoop second) session := by
  apply accords_advance_andThen hsession hcurrent
  apply (enters_expectPunctuation "(").steady.andThen
  intro opening
  apply (steady_accept? _).andThen
  intro varToken
  apply steady_current.andThen
  intro token
  apply steady_next.andThen
  intro following
  apply Steady.ite
  · intro _
    exact forIn_steady hgrammar _ varToken
  · intro _
    exact forClauses_steady hgrammar _ varToken

omit hgrammar in
/-- A jump over grammars that treat semicolons alike. -/
theorem jump_accords (hsemicolons : second.semicolons = first.semicolons) (kind : Jump) :
    Accords pact pact.inner (jump first kind) (jump second kind) session := by
  unfold jump
  rw [hsemicolons]
  apply accords_advance_andThen hsession hcurrent
  apply (steady_accept? _).andThen
  intro label
  apply (steady_endStatement _).andThen
  intro semicolon
  exact steady_add _

/-- A `return` over grammars that treat semicolons alike. -/
theorem returns_accords (hsemicolons : second.semicolons = first.semicolons) :
    Accords pact pact.inner (returns first) (returns second) session := by
  unfold returns
  rw [hsemicolons]
  apply accords_advance_andThen hsession hcurrent
  apply steady_cursor.andThen
  intro cursor
  apply Steady.ite
  · intro _
    exact (steady_endStatement _).andThen fun semicolon => steady_add _
  · intro _
    apply Steady.ite
    · intro _
      exact steady_add _
    · intro _
      apply (hgrammar.expression true).andThen
      intro value
      exact (steady_endStatement _).andThen fun semicolon => steady_add _

end Openings

theorem expressionStatement_enters (hgrammar : first.Accords pact second) :
    Enters pact (expressionStatement first) (expressionStatement second) := by
  apply (expression_enters hgrammar true).andThen
  intro value
  apply hgrammar.ending.andThen
  intro semicolon
  exact steady_add _

theorem declaration_enters (hgrammar : first.Accords pact second) :
    Enters pact (declaration first) (declaration second) := by
  apply (enters_expectIdentifier rfl).andThen
  intro name
  apply (hgrammar.expression false).readAfter?.andThen
  intro initializer
  exact steady_add _

theorem declarations_enters (hgrammar : first.Accords pact second) :
    Enters pact (declarations first) (declarations second) := by
  intro session hsession
  unfold declarations
  rw [accords_bind_eatComments]
  have huncommented : pact.outer session.uncommented.cursor.pending :=
    pact.outer_suffix (List.dropWhile_suffix _) hsession
  apply (declaration_enters hgrammar _ huncommented).andThen
  intro declared
  apply steady_current.andThen
  intro token
  apply Steady.ite
  · intro _
    apply steady_advance.andThen
    intro comma
    exact hgrammar.declarations.andThen fun others => steady_pure _
  · intro _
    exact steady_pure _

theorem statement_enters (hgrammar : first.Accords pact second)
    (hjumps : first.JumpsAlike pact second) (labels : Bool) :
    Enters pact (statement first labels) (statement second labels) := by
  intro session hsession
  unfold statement
  rw [accords_bind_current, accords_bind_next]
  have hopens := Opening.of_opens labels session.cursor.current session.cursor.next
  have hcurrent : (∀ reason, Opening.of labels session.cursor.current session.cursor.next ≠
      .refused reason) → session.cursor.current.isEnd = false := Opening.isEnd_of_ne_refused
  cases hof : Opening.of labels session.cursor.current session.cursor.next
  all_goals rw [hof] at hopens hcurrent
  case comment => exact comment_accords hsession (hcurrent (by simp))
  case labelled => exact labelled_accords hgrammar hsession (hcurrent (by simp))
  case expression => exact expressionStatement_enters hgrammar session hsession
  case block => exact block_enters hgrammar session hsession
  case empty => exact emptyStatement_accords hsession (hcurrent (by simp))
  case jump => exact hjumps.jump _ session hsession hopens
  case caseLabel => exact caseLabel_accords hgrammar hsession (hcurrent (by simp))
  case debugger => exact debugger_accords hgrammar hsession (hcurrent (by simp))
  case defaultLabel => exact defaultLabel_accords hsession (hcurrent (by simp))
  case doWhile => exact doWhile_accords hgrammar hsession (hcurrent (by simp))
  case forLoop => exact forLoop_accords hgrammar hsession (hcurrent (by simp))
  case function => exact function_enters hgrammar .definition session hsession
  case ifElse => exact ifElse_accords hgrammar hsession (hcurrent (by simp))
  case returns => exact hjumps.returns session hsession hopens
  case switch => exact switch_accords hgrammar hsession (hcurrent (by simp))
  case throws => exact throws_accords hgrammar hsession (hcurrent (by simp))
  case tryCatch => exact tryCatch_accords hgrammar hsession (hcurrent (by simp))
  case varStatement => exact varStatement_accords hgrammar hsession (hcurrent (by simp))
  case whileLoop => exact whileLoop_accords hgrammar hsession (hcurrent (by simp))
  case withScope => exact withScope_accords hgrammar hsession (hcurrent (by simp))
  case refused => exact accords_refuse (Opening.isDefect_of_refused hof)

theorem statements_stays (hgrammar : first.Accords pact second)
    (hjumps : first.JumpsAlike pact second) (enclosure : Enclosure) :
    Stays pact (statements first enclosure) (statements second enclosure) := by
  intro session hsession
  unfold statements
  rw [accords_bind_current]
  split
  · exact accords_pure hsession
  · refine Accords.mono ?_ fun _ => pact.outer_of_inner
    apply (statement_enters hgrammar hjumps _ session hsession).andThen
    intro statement
    exact (hgrammar.statements enclosure).andThen fun others => steady_pure _

theorem program_stays (hgrammar : first.Accords pact second)
    (hjumps : first.JumpsAlike pact second) :
    Stays pact (program first) (program second) := by
  intro session hsession
  apply (statements_stays hgrammar hjumps .program session hsession).bind
  intro body after _ hafter
  rw [accords_bind_current]
  exact accords_add hafter

end Production

/-- Grammars that treat semicolons alike. -/
theorem Grammar.Accords.jumpsAlike {pact : Pact} {first second : Grammar}
    (hgrammar : first.Accords pact second)
    (hsemicolons : second.semicolons = first.semicolons) : first.JumpsAlike pact second where
  jump kind session hsession hopens := by
    have hword : session.cursor.current.isWord = true := by
      cases kind <;> exact Token.isWord_of_isKeyword hopens
    exact Production.jump_accords hsession (Token.isEnd_of_isWord hword) hsemicolons kind
  returns session hsession hreturn :=
    Production.returns_accords hgrammar hsession
      (Token.isEnd_of_isWord (Token.isWord_of_isKeyword hreturn)) hsemicolons

theorem Grammar.upTo_semicolons (semicolons : Semicolons) (depth : Nat) :
    (Grammar.upTo semicolons depth).semicolons = semicolons := by
  induction depth with
  | zero => rfl
  | succ depth ih => exact ih

/-- One more unfolding carries an accord from the inner condition of a pact to its
outer one, which may be the inner one of another pact. -/
theorem Grammar.Accords.unfold {pact wider : Pact} {first second : Grammar}
    (hgrammar : first.Accords pact second) (hjumps : first.JumpsAlike pact second)
    (hinner : ∀ tokens, wider.inner tokens ↔ pact.outer tokens)
    (hlenient : wider.lenient ↔ pact.lenient)
    (hending : Steady wider (endStatement first.semicolons) (endStatement second.semicolons)) :
    first.unfold.Accords wider second.unfold := by
  have hsteady : ∀ {Result : Type} {reader other : Parse Result},
      Stays pact reader other → Steady wider reader other := by
    intro Result reader other hstays session hsession
    have haccords := hstays session ((hinner _).mp hsession)
    unfold Parse.Accords at haccords ⊢
    split at haccords
    · exact ⟨haccords.1, (hinner _).mpr haccords.2⟩
    · exact haccords.imp hlenient.mpr id
  constructor
  case traced => exact Grammar.unfold_traced hgrammar.traced
  case ending => exact hending
  case statement =>
    intro labels
    exact hsteady (Production.statement_enters hgrammar hjumps labels).stays
  case statements =>
    intro enclosure
    exact hsteady (Production.statements_stays hgrammar hjumps enclosure)
  case parameters => exact hsteady (Production.parameters_stays hgrammar)
  case declarations => exact hsteady (Production.declarations_enters hgrammar).stays
  case expression =>
    intro commas
    exact hsteady (Production.expression_enters hgrammar commas).stays
  case assignment => exact hsteady (Production.assignment_enters hgrammar).stays
  case operand =>
    intro calls
    exact hsteady (Production.operand_enters hgrammar calls).stays
  case operations =>
    intro left floor
    exact hsteady (Production.operations_stays hgrammar left floor)
  case suffixes =>
    intro target calls
    exact hsteady (Production.suffixes_stays hgrammar target calls)
  case items =>
    intro closing
    exact hsteady (Production.items_stays hgrammar closing)
  case properties => exact hsteady (Production.properties_stays hgrammar)

end ScriptSyntax

import ScriptSyntax.Proofs.Faults.Reader

/-!
# Where statements fail

Statements, like expressions, fail at the token that they stand before, or at the keyword of
a definition without a name.  So do all grammars, and programs.
-/

namespace ScriptSyntax

open Parse

namespace Production

variable {grammar : Grammar} {semicolons : Semicolons}

theorem comment_points : comment.Points semicolons :=
  points_advance.bind fun _ => points_add _

theorem labelled_points (hgrammar : grammar.Points semicolons) :
    (labelled grammar).Points semicolons := by
  apply points_advance.bind
  intro label
  apply points_advance.bind
  intro colon
  exact (hgrammar.statement false).bind fun statement => points_add _

theorem expressionStatement_points (hgrammar : grammar.Points semicolons) :
    (expressionStatement grammar).Points semicolons := by
  apply (expression_points hgrammar true).bind
  intro value
  exact (points_endStatement _).bind fun semicolon => points_add _

theorem emptyStatement_points : emptyStatement.Points semicolons :=
  points_advance.bind fun _ => points_add _

theorem jump_points (grammar : Grammar) (kind : Jump) : (jump grammar kind).Points semicolons := by
  apply points_advance.bind
  intro first
  apply (points_accept? _).bind
  intro label
  exact (points_endStatement _).bind fun semicolon => points_add _

theorem caseLabel_points (hgrammar : grammar.Points semicolons) :
    (caseLabel grammar).Points semicolons := by
  apply points_advance.bind
  intro first
  apply (hgrammar.expression true).bind
  intro test
  exact (points_expectPunctuation ":").bind fun colon => points_add _

theorem defaultLabel_points : defaultLabel.Points semicolons := by
  apply points_advance.bind
  intro first
  exact (points_expectPunctuation ":").bind fun colon => points_add _

theorem debugger_points (grammar : Grammar) : (debugger grammar).Points semicolons := by
  apply points_advance.bind
  intro first
  exact (points_endStatement _).bind fun semicolon => points_add _

theorem doWhile_points (hgrammar : grammar.Points semicolons) :
    (doWhile grammar).Points semicolons := by
  apply points_advance.bind
  intro first
  apply (hgrammar.statement false).bind
  intro body
  apply (points_expectKeyword "while").bind
  intro word
  apply (parenthesized_points hgrammar).bind
  intro condition
  exact (points_endStatement _).bind fun semicolon => points_add _

theorem forIn_points (hgrammar : grammar.Points semicolons) (first : Token)
    (varToken : Option Token) : (forIn grammar first varToken).Points semicolons := by
  apply points_advance.bind
  intro name
  apply points_advance.bind
  intro operator
  apply (hgrammar.expression true).bind
  intro object
  apply (points_expectPunctuation ")").bind
  intro closing
  exact (hgrammar.statement false).bind fun body => points_add _

theorem loopInit_points (hgrammar : grammar.Points semicolons) (varToken : Option Token) :
    (loopInit grammar varToken).Points semicolons := by
  apply Points.ite
  · exact hgrammar.declarations.bind fun declarations => points_pure _
  · exact (hgrammar.expression true).bind fun value => points_pure _

theorem forClauses_points (hgrammar : grammar.Points semicolons) (first : Token)
    (varToken : Option Token) : (forClauses grammar first varToken).Points semicolons := by
  apply (loopInit_points hgrammar varToken).readUnless.bind
  intro init
  apply (points_expectPunctuation ";").bind
  intro afterInit
  apply (hgrammar.expression true).readUnless.bind
  intro test
  apply (points_expectPunctuation ";").bind
  intro afterTest
  apply (hgrammar.expression true).readUnless.bind
  intro step
  apply (points_expectPunctuation ")").bind
  intro closing
  exact (hgrammar.statement false).bind fun body => points_add _

theorem forLoop_points (hgrammar : grammar.Points semicolons) :
    (forLoop grammar).Points semicolons := by
  apply points_advance.bind
  intro first
  apply (points_expectPunctuation "(").bind
  intro opening
  apply (points_accept? _).bind
  intro varToken
  apply points_current.bind
  intro token
  apply points_next.bind
  intro next
  exact (forIn_points hgrammar first varToken).ite (forClauses_points hgrammar first varToken)

theorem ifElse_points (hgrammar : grammar.Points semicolons) :
    (ifElse grammar).Points semicolons := by
  apply points_advance.bind
  intro first
  apply (parenthesized_points hgrammar).bind
  intro condition
  apply (hgrammar.statement false).bind
  intro thenBranch
  exact (hgrammar.statement false).readAfter?.bind fun elseBranch => points_add _

theorem returns_points (hgrammar : grammar.Points semicolons) :
    (returns grammar).Points semicolons := by
  apply points_advance.bind
  intro first
  apply points_cursor.bind
  intro cursor
  apply Points.ite
  · exact (points_endStatement _).bind fun semicolon => points_add _
  apply (points_add _).ite
  apply (hgrammar.expression true).bind
  intro value
  exact (points_endStatement _).bind fun semicolon => points_add _

theorem switch_points (hgrammar : grammar.Points semicolons) :
    (switch grammar).Points semicolons := by
  apply points_advance.bind
  intro first
  apply (parenthesized_points hgrammar).bind
  intro discriminant
  apply (points_expectPunctuation "\x7b").bind
  intro opening
  apply (hgrammar.statements .switch).bind
  intro cases
  exact points_advance.bind fun closing => points_add _

theorem throws_points (hgrammar : grammar.Points semicolons) :
    (throws grammar).Points semicolons := by
  apply points_advance.bind
  intro first
  apply (hgrammar.expression true).bind
  intro value
  exact (points_endStatement _).bind fun semicolon => points_add _

theorem handler_points (hgrammar : grammar.Points semicolons) :
    (handler grammar).Points semicolons := by
  apply (points_expectPunctuation "(").bind
  intro opening
  apply (points_expectIdentifier .expectedCatchName nofun).bind
  intro name
  apply (points_expectPunctuation ")").bind
  intro closing
  exact (hgrammar.statement false).bind fun body => points_pure _

theorem tryCatch_points (hgrammar : grammar.Points semicolons) :
    (tryCatch grammar).Points semicolons := by
  apply points_advance.bind
  intro first
  apply (hgrammar.statement false).bind
  intro body
  apply (handler_points hgrammar).readAfter?.bind
  intro handler
  apply (hgrammar.statement false).readAfter?.bind
  intro finalizer
  exact (points_refuse .expectedCatchOrFinally nofun).ite (points_add _)

theorem declaration_points (hgrammar : grammar.Points semicolons) :
    (declaration grammar).Points semicolons := by
  apply (points_expectIdentifier .expectedIdentifier nofun).bind
  intro name
  exact (hgrammar.expression false).readAfter?.bind fun initializer => points_add _

theorem declarations_points (hgrammar : grammar.Points semicolons) :
    (declarations grammar).Points semicolons := by
  apply points_eatComments.bind
  intro comment
  apply (declaration_points hgrammar).bind
  intro declared
  apply points_current.bind
  intro token
  apply Points.ite
  · apply points_advance.bind
    intro comma
    exact hgrammar.declarations.bind fun others => points_pure _
  · exact points_pure _

theorem varStatement_points (hgrammar : grammar.Points semicolons) :
    (varStatement grammar).Points semicolons := by
  apply points_advance.bind
  intro first
  apply hgrammar.declarations.bind
  intro declarations
  exact (points_endStatement _).bind fun semicolon => points_add _

theorem whileLoop_points (hgrammar : grammar.Points semicolons) :
    (whileLoop grammar).Points semicolons := by
  apply points_advance.bind
  intro first
  apply (parenthesized_points hgrammar).bind
  intro condition
  exact (hgrammar.statement false).bind fun body => points_add _

theorem withScope_points (hgrammar : grammar.Points semicolons) :
    (withScope grammar).Points semicolons := by
  apply points_advance.bind
  intro first
  apply (parenthesized_points hgrammar).bind
  intro object
  exact (hgrammar.statement false).bind fun body => points_add _

/-- A statement that is a function is a definition, which its keyword opens. -/
theorem statement_points (hgrammar : grammar.Points semicolons) (labels : Bool) :
    (statement grammar labels).Points semicolons := by
  intro session
  apply (points_current session).bind
  rintro token _ ⟨⟩
  apply (points_next session).bind
  rintro next _ ⟨⟩
  have hopens := Opening.of_opens labels session.cursor.current session.cursor.next
  cases hof : Opening.of labels session.cursor.current session.cursor.next
  all_goals dsimp only
  all_goals rw [hof] at hopens
  case comment => exact comment_points session
  case labelled => exact labelled_points hgrammar session
  case expression => exact expressionStatement_points hgrammar session
  case block => exact block_points hgrammar session
  case empty => exact emptyStatement_points session
  case jump kind => exact jump_points grammar kind session
  case caseLabel => exact caseLabel_points hgrammar session
  case debugger => exact debugger_points grammar session
  case defaultLabel => exact defaultLabel_points session
  case doWhile => exact doWhile_points hgrammar session
  case forLoop => exact forLoop_points hgrammar session
  case function => exact function_pointsFrom hgrammar .definition hopens
  case ifElse => exact ifElse_points hgrammar session
  case returns => exact returns_points hgrammar session
  case switch => exact switch_points hgrammar session
  case throws => exact throws_points hgrammar session
  case tryCatch => exact tryCatch_points hgrammar session
  case varStatement => exact varStatement_points hgrammar session
  case whileLoop => exact whileLoop_points hgrammar session
  case withScope => exact withScope_points hgrammar session
  case refused reason =>
    -- No statement is refused for the lack of a name.
    have hname : reason ≠ .expectedFunctionName := by
      rcases Opening.reason_of_refused hof with rfl | rfl <;> exact Reason.noConfusion
    exact points_refuse reason hname session

theorem statements_points (hgrammar : grammar.Points semicolons) (enclosure : Enclosure) :
    (statements grammar enclosure).Points semicolons := by
  apply points_current.bind
  intro token
  apply (points_pure _).ite
  apply (statement_points hgrammar _).bind
  intro first
  exact (hgrammar.statements enclosure).bind fun others => points_pure _

theorem program_points (hgrammar : grammar.Points semicolons) :
    (program grammar).Points semicolons := by
  apply (statements_points hgrammar .program).bind
  intro body
  exact points_current.bind fun token => points_add _

end Production

theorem Grammar.unfold_points {grammar : Grammar} {semicolons : Semicolons}
    (hgrammar : grammar.Points semicolons) : grammar.unfold.Points semicolons where
  level := by
    obtain ⟨depth, rfl⟩ := hgrammar.level
    exact ⟨depth + 1, rfl⟩
  statement := Production.statement_points hgrammar
  statements := Production.statements_points hgrammar
  parameters := Production.parameters_points hgrammar
  declarations := Production.declarations_points hgrammar
  expression := Production.expression_points hgrammar
  assignment := Production.assignment_points hgrammar
  operand := Production.operand_points hgrammar
  operations := Production.operations_points hgrammar
  suffixes := Production.suffixes_points hgrammar
  items := Production.items_points hgrammar
  properties := Production.properties_points hgrammar

/-- However deep, a grammar points at what is at fault. -/
theorem Grammar.upTo_points (semicolons : Semicolons) (depth : Nat) :
    (Grammar.upTo semicolons depth).Points semicolons := by
  induction depth with
  | zero =>
      have hrefuse : ∀ {Result : Type},
          (refuse .outOfDepth : Parse Result).Points semicolons := points_refuse _ nofun
      exact ⟨⟨0, rfl⟩, fun _ => hrefuse, fun _ => hrefuse, hrefuse, hrefuse, fun _ => hrefuse,
        hrefuse, fun _ => hrefuse, fun _ _ => hrefuse, fun _ _ => hrefuse, fun _ => hrefuse,
        hrefuse⟩
  | succ depth ih => exact unfold_points ih

theorem Parse.reading_program_points (semicolons : Semicolons) :
    (Parse.reading semicolons Production.program).Points semicolons :=
  points_cursor.bind fun _ => Production.program_points (Grammar.upTo_points semicolons _)

end ScriptSyntax

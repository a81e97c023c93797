import ScriptSyntax.Proofs.Categories.Expression
import ScriptSyntax.Proofs.Trace.Statement

/-!
# Categories of statements

Each production of a statement makes a statement, but for the labels of a switch,
which are read only where they are admitted.  So all readers of an unfolded grammar
make nodes of their categories, and the tree of every program conforms.
-/

namespace ScriptSyntax

open Parse

namespace Production

variable {grammar : Grammar}

/-- Labels of a switch are read where they are admitted. -/
theorem Opening.isLabel_of {labels : Bool} {token next : Token}
    (hof : of labels token next = .caseLabel ∨ of labels token next = .defaultLabel) :
    labels = true := by
  have hkeyword : ofKeyword labels token.value = .caseLabel ∨
      ofKeyword labels token.value = .defaultLabel := by
    unfold of ofPunctuation at hof
    grind
  unfold ofKeyword at hkeyword
  grind

theorem comment_yields : comment.Yields fun id => [(id, .statement)] := by
  intro session known hknown
  apply meets_bind_advance_of_settled hknown
  intro hpassed
  exact meets_add_childless hpassed rfl rfl rfl

theorem labelled_yields (hgrammar : grammar.Sorted) :
    (labelled grammar).Yields fun id => [(id, .statement)] := by
  intro session known hknown
  apply meets_bind_advance_of_settled hknown
  intro hnamed
  apply meets_bind_advance_of_settled hnamed
  intro hmarked
  apply (hgrammar.statement false).andThen hmarked
  intro statement after hafter
  apply meets_add_of_settled hafter
  · constructor
    · rfl
    · simp [Draft.labelled, Shape.demands, Category.ofStatement]
    · rfl
  · simp

theorem expressionStatement_yields (hgrammar : grammar.Sorted) :
    (expressionStatement grammar).Yields fun id => [(id, .statement)] := by
  intro session known hknown
  apply (expression_yields hgrammar true).andThen hknown
  intro value read hread
  apply (endStatement_still _).andThen hread
  intro semicolon after hafter
  apply meets_add_of_settled hafter
  · constructor
    · rfl
    · simp [Draft.expression, Shape.demands, Category.each, Category.ofExpression]
    · rfl
  · simp

theorem emptyStatement_yields : emptyStatement.Yields fun id => [(id, .statement)] := by
  intro session known hknown
  apply meets_bind_advance_of_settled hknown
  intro hpassed
  exact meets_add_childless hpassed rfl rfl rfl

theorem jump_yields (kind : Jump) :
    (jump grammar kind).Yields fun id => [(id, .statement)] := by
  intro session known hknown
  apply meets_bind_advance_of_settled hknown
  intro hpassed
  apply (accept?_still _).andThen hpassed
  intro label named hnamed
  apply (endStatement_still _).andThen hnamed
  intro semicolon after hafter
  exact meets_add_childless hafter rfl rfl (by cases kind <;> rfl)

theorem caseLabel_yields (hgrammar : grammar.Sorted) :
    (caseLabel grammar).Yields fun id => [(id, .clause)] := by
  intro session known hknown
  apply meets_bind_advance_of_settled hknown
  intro hpassed
  apply (hgrammar.expression true).andThen hpassed
  intro test read hread
  apply (expectPunctuation_still ":").andThen hread
  intro last after hafter
  apply meets_add_of_settled hafter
  · constructor
    · rfl
    · simp [Draft.caseLabel, Shape.demands, Category.ofExpression]
    · rfl
  · simp

theorem defaultLabel_yields : defaultLabel.Yields fun id => [(id, .clause)] := by
  intro session known hknown
  apply meets_bind_advance_of_settled hknown
  intro hpassed
  apply (expectPunctuation_still ":").andThen hpassed
  intro last after hafter
  exact meets_add_childless hafter rfl rfl rfl

theorem debugger_yields : (debugger grammar).Yields fun id => [(id, .statement)] := by
  intro session known hknown
  apply meets_bind_advance_of_settled hknown
  intro hpassed
  apply (endStatement_still _).andThen hpassed
  intro semicolon after hafter
  exact meets_add_childless hafter rfl rfl rfl

theorem doWhile_yields (hgrammar : grammar.Sorted) :
    (doWhile grammar).Yields fun id => [(id, .statement)] := by
  intro session known hknown
  apply meets_bind_advance_of_settled hknown
  intro hpassed
  apply (hgrammar.statement false).andThen hpassed
  intro body read hread
  apply (expect_still _ _).andThen hread
  intro _ worded hworded
  apply (parenthesized_yields hgrammar).andThen hworded
  intro condition tested htested
  apply (endStatement_still _).andThen htested
  intro semicolon after hafter
  apply meets_add_of_settled hafter
  · constructor
    · rfl
    · simp [Draft.doWhile, Shape.demands, Category.ofStatement]
    · rfl
  · simp

/-! ## Loops -/

theorem forIn_yields (hgrammar : grammar.Sorted) (first : Token) (varToken : Option Token) :
    (forIn grammar first varToken).Yields fun id => [(id, .statement)] := by
  intro session known hknown
  apply meets_bind_advance_of_settled hknown
  intro hnamed
  apply meets_bind_advance_of_settled hnamed
  intro hworded
  apply (hgrammar.expression true).andThen hworded
  intro object read hread
  apply (expectPunctuation_still ")").andThen hread
  intro closing closed hclosed
  apply (hgrammar.statement false).andThen hclosed
  intro body after hafter
  apply meets_add_of_settled hafter
  · constructor
    · rfl
    · simp [Draft.forIn, Shape.demands, Category.ofExpression, Category.ofStatement]
    · rfl
  · simp

theorem loopInit_yields (hgrammar : grammar.Sorted) (varToken : Option Token) :
    (loopInit grammar varToken).Yields LoopInit.demands := by
  intro session known hknown
  unfold loopInit
  split
  · apply hgrammar.declarations.andThen hknown
    intro declarations after hafter
    exact hafter
  · apply (hgrammar.expression true).andThen hknown
    intro value after hafter
    exact hafter

theorem forClauses_yields (hgrammar : grammar.Sorted) (first : Token)
    (varToken : Option Token) :
    (forClauses grammar first varToken).Yields fun id => [(id, .statement)] := by
  intro session known hknown
  apply (readUnless_yields (loopInit_yields hgrammar varToken) _).andThen hknown
  intro init begun hbegun
  apply (expectPunctuation_still ";").andThen hbegun
  intro semicolon marked hmarked
  apply (readUnless_yields (hgrammar.expression true) _).andThen hmarked
  intro test tested htested
  apply (expectPunctuation_still ";").andThen htested
  intro second halved hhalved
  apply (readUnless_yields (hgrammar.expression true) _).andThen hhalved
  intro step stepped hstepped
  apply (expectPunctuation_still ")").andThen hstepped
  intro closing closed hclosed
  apply (hgrammar.statement false).andThen hclosed
  intro body after hafter
  apply meets_add_of_settled hafter
  · constructor
    · rfl
    · simp only [Draft.forLoop, Shape.demands, Category.ofExpression, Category.ofStatement,
        Category.flatMap_singleton]
      grind
    · rfl
  · grind

theorem forLoop_yields (hgrammar : grammar.Sorted) :
    (forLoop grammar).Yields fun id => [(id, .statement)] := by
  intro session known hknown
  apply meets_bind_advance_of_settled hknown
  intro hpassed
  apply (expectPunctuation_still "(").andThen hpassed
  intro opening opened hopened
  apply (accept?_still _).andThen hopened
  intro varToken begun hbegun
  rw [meets_bind_current, meets_bind_next]
  split
  · exact forIn_yields hgrammar _ varToken begun known hbegun
  · exact forClauses_yields hgrammar _ varToken begun known hbegun

theorem whileLoop_yields (hgrammar : grammar.Sorted) :
    (whileLoop grammar).Yields fun id => [(id, .statement)] := by
  intro session known hknown
  apply meets_bind_advance_of_settled hknown
  intro hpassed
  apply (parenthesized_yields hgrammar).andThen hpassed
  intro condition tested htested
  apply (hgrammar.statement false).andThen htested
  intro body after hafter
  apply meets_add_of_settled hafter
  · constructor
    · rfl
    · simp [Draft.whileLoop, Shape.demands, Category.ofStatement]
    · rfl
  · simp

theorem withScope_yields (hgrammar : grammar.Sorted) :
    (withScope grammar).Yields fun id => [(id, .statement)] := by
  intro session known hknown
  apply meets_bind_advance_of_settled hknown
  intro hpassed
  apply (parenthesized_yields hgrammar).andThen hpassed
  intro object tested htested
  apply (hgrammar.statement false).andThen htested
  intro body after hafter
  apply meets_add_of_settled hafter
  · constructor
    · rfl
    · simp [Draft.withScope, Shape.demands, Category.ofStatement]
    · rfl
  · simp

/-! ## Branches -/

theorem ifElse_yields (hgrammar : grammar.Sorted) :
    (ifElse grammar).Yields fun id => [(id, .statement)] := by
  intro session known hknown
  apply meets_bind_advance_of_settled hknown
  intro hpassed
  apply (parenthesized_yields hgrammar).andThen hpassed
  intro condition tested htested
  apply (hgrammar.statement false).andThen htested
  intro thenBranch chosen hchosen
  apply (readAfter?_yields (hgrammar.statement false) _).andThen hchosen
  intro elseBranch after hafter
  apply meets_add_of_settled hafter
  · constructor
    · rfl
    · simp [Draft.ifElse, Shape.demands, Category.ofStatement]
    · rfl
  · grind

theorem switch_yields (hgrammar : grammar.Sorted) :
    (switch grammar).Yields fun id => [(id, .statement)] := by
  intro session known hknown
  apply meets_bind_advance_of_settled hknown
  intro hpassed
  apply (parenthesized_yields hgrammar).andThen hpassed
  intro discriminant tested htested
  apply (expectPunctuation_still _).andThen htested
  intro opening opened hopened
  apply (hgrammar.statements .switch).andThen hopened
  intro cases read hread
  apply meets_bind_advance_of_settled hread
  intro hclosed
  apply meets_add_of_settled hclosed
  · constructor
    · rfl
    · simp [Draft.switch, Shape.demands, Category.ofStatement, Enclosure.admitsLabels]
    · rfl
  · simp

theorem handler_yields (hgrammar : grammar.Sorted) :
    (handler grammar).Yields fun clause => [(clause.2, .statement)] := by
  intro session known hknown
  apply (expectPunctuation_still "(").andThen hknown
  intro opening opened hopened
  apply (expect_still _ _).andThen hopened
  intro name named hnamed
  apply (expectPunctuation_still ")").andThen hnamed
  intro closing closed hclosed
  apply (hgrammar.statement false).andThen hclosed
  intro body after hafter
  exact hafter

theorem tryCatch_yields (hgrammar : grammar.Sorted) :
    (tryCatch grammar).Yields fun id => [(id, .statement)] := by
  intro session known hknown
  apply meets_bind_advance_of_settled hknown
  intro hpassed
  apply (hgrammar.statement false).andThen hpassed
  intro body read hread
  apply (readAfter?_yields (handler_yields hgrammar) _).andThen hread
  intro handler caught hcaught
  apply (readAfter?_yields (hgrammar.statement false) _).andThen hcaught
  intro finalizer after hafter
  split
  · trivial
  · rename_i hpresent
    apply meets_add_of_settled hafter
    · constructor
      · cases handler <;> cases finalizer <;> simp_all [Draft.tryCatch, Shape.isProper]
      · cases handler <;>
          simp [Draft.tryCatch, Shape.demands, Category.ofStatement, Category.each]
      · rfl
    · grind

/-! ## Jumps with a value -/

theorem returns_yields (hgrammar : grammar.Sorted) :
    (returns grammar).Yields fun id => [(id, .statement)] := by
  intro session known hknown
  apply meets_bind_advance_of_settled hknown
  intro hpassed
  rw [meets_bind_cursor]
  split
  · apply (endStatement_still _).andThen hpassed
    intro semicolon after hafter
    exact meets_add_childless hafter rfl rfl rfl
  · split
    · exact meets_add_childless hpassed rfl rfl rfl
    · apply (hgrammar.expression true).andThen hpassed
      intro value read hread
      apply (endStatement_still _).andThen hread
      intro semicolon after hafter
      apply meets_add_of_settled hafter
      · constructor
        · rfl
        · simp [Draft.returns, Shape.demands, Category.each, Category.ofExpression]
        · rfl
      · simp

theorem throws_yields (hgrammar : grammar.Sorted) :
    (throws grammar).Yields fun id => [(id, .statement)] := by
  intro session known hknown
  apply meets_bind_advance_of_settled hknown
  intro hpassed
  apply (hgrammar.expression true).andThen hpassed
  intro value read hread
  apply (endStatement_still _).andThen hread
  intro semicolon after hafter
  apply meets_add_of_settled hafter
  · constructor
    · rfl
    · simp [Draft.throws, Shape.demands, Category.ofExpression]
    · rfl
  · simp

/-! ## Declarations -/

theorem declaration_yields (hgrammar : grammar.Sorted) :
    (declaration grammar).Yields fun id => [(id, .declaration)] := by
  intro session known hknown
  apply (expect_still _ _).andThen hknown
  intro name named hnamed
  apply (readAfter?_yields (hgrammar.expression false) _).andThen hnamed
  intro initializer after hafter
  apply meets_add_of_settled hafter
  · constructor
    · rfl
    · simp [Draft.declaration, Shape.demands, Category.ofExpression]
    · rfl
  · simp

theorem declarations_yields (hgrammar : grammar.Sorted) :
    (declarations grammar).Yields Category.declaration.each := by
  intro session known hknown
  apply meets_bind_eatComments_of_settled hknown
  intro _ huncommented
  apply (declaration_yields hgrammar).andThen huncommented
  intro first read hread
  rw [meets_bind_current]
  split
  · apply meets_bind_advance_of_settled hread
    intro hpassed
    apply hgrammar.declarations.andThen hpassed
    intro others after hafter
    apply hafter.mono
    simp [Category.each]
  · exact hread

theorem declarations_ne_nil (session : Session) :
    (declarations grammar).Meets session (fun ids _ => ids ≠ []) Anyhow := by
  apply meets_bind_anyhow
  intro _ uncommented
  apply meets_bind_anyhow
  intro first read
  rw [meets_bind_current]
  split
  · apply meets_bind_anyhow
    intro _ passed
    apply meets_bind_anyhow
    intro others after
    exact List.cons_ne_nil first others
  · exact List.cons_ne_nil first []

theorem varStatement_yields (hgrammar : grammar.Sorted) :
    (varStatement grammar).Yields fun id => [(id, .statement)] := by
  intro session known hknown
  apply meets_bind_advance_of_settled hknown
  intro hpassed
  apply Meets.bind ((hgrammar.declarations _ known hpassed).and (hgrammar.declarations_ne_nil _))
  rintro declarations read ⟨hread, hdeclarations⟩
  apply (endStatement_still _).andThen hread
  intro semicolon after hafter
  apply meets_add_of_settled hafter
  · constructor
    · simpa [Draft.varStatement, Shape.isProper] using hdeclarations
    · simp [Draft.varStatement, Shape.demands]
    · rfl
  · simp

/-! ## Statements and programs -/

theorem yields_ofStatement {reader : Parse NodeId}
    (hreader : reader.Yields fun id => [(id, .statement)]) (labels : Bool) :
    reader.Yields fun id => [(id, .ofStatement labels)] := by
  cases labels with
  | false => exact hreader
  | true => exact hreader.weaken Category.clause_of_statement

theorem statement_yields (hgrammar : grammar.Sorted) (labels : Bool) :
    (statement grammar labels).Yields fun id => [(id, .ofStatement labels)] := by
  intro session known hknown
  have hstatement : ∀ {reader : Parse NodeId}, (reader.Yields fun id => [(id, .statement)]) →
      reader.Meets session
        (fun id after => after.tree.Settled ([(id, .ofStatement labels)] ++ known)) Anyhow :=
    fun hreader => yields_ofStatement hreader labels session known hknown
  unfold statement
  rw [meets_bind_current, meets_bind_next]
  cases hof : Opening.of labels session.cursor.current session.cursor.next
  case comment => exact hstatement comment_yields
  case labelled => exact hstatement (labelled_yields hgrammar)
  case expression => exact hstatement (expressionStatement_yields hgrammar)
  case block => exact hstatement ((block_yields hgrammar).weaken Category.statement_of_block)
  case empty => exact hstatement emptyStatement_yields
  case jump kind => exact hstatement (jump_yields kind)
  case caseLabel =>
    rw [Opening.isLabel_of (.inl hof)]
    exact caseLabel_yields hgrammar session known hknown
  case debugger => exact hstatement debugger_yields
  case defaultLabel =>
    rw [Opening.isLabel_of (.inr hof)]
    exact defaultLabel_yields session known hknown
  case doWhile => exact hstatement (doWhile_yields hgrammar)
  case forLoop => exact hstatement (forLoop_yields hgrammar)
  case function => exact hstatement (function_yields hgrammar .definition)
  case ifElse => exact hstatement (ifElse_yields hgrammar)
  case returns => exact hstatement (returns_yields hgrammar)
  case switch => exact hstatement (switch_yields hgrammar)
  case throws => exact hstatement (throws_yields hgrammar)
  case tryCatch => exact hstatement (tryCatch_yields hgrammar)
  case varStatement => exact hstatement (varStatement_yields hgrammar)
  case whileLoop => exact hstatement (whileLoop_yields hgrammar)
  case withScope => exact hstatement (withScope_yields hgrammar)
  case refused => trivial

theorem statements_yields (hgrammar : grammar.Sorted) (enclosure : Enclosure) :
    (statements grammar enclosure).Yields
      (Category.ofStatement enclosure.admitsLabels).each := by
  intro session known hknown
  unfold statements
  rw [meets_bind_current]
  split
  · exact hknown
  · apply (statement_yields hgrammar _).andThen hknown
    intro first read hread
    apply (hgrammar.statements enclosure).andThen hread
    intro others after hafter
    apply hafter.mono
    simp [Category.each]

end Production

theorem Grammar.unfold_sorted {grammar : Grammar} (hgrammar : grammar.Sorted) :
    grammar.unfold.Sorted where
  statement := Production.statement_yields hgrammar
  statements := Production.statements_yields hgrammar
  parameters := Production.parameters_yields hgrammar
  declarations := Production.declarations_yields hgrammar
  declarations_ne_nil := Production.declarations_ne_nil
  expression := Production.expression_yields hgrammar
  assignment := Production.assignment_yields hgrammar
  operand := Production.operand_yields hgrammar
  operations := Production.operations_meets hgrammar
  suffixes := Production.suffixes_yields hgrammar
  items := Production.items_yields hgrammar
  properties := Production.properties_yields hgrammar

theorem Grammar.upTo_sorted (semicolons : Semicolons) (depth : Nat) :
    (Grammar.upTo semicolons depth).Sorted := by
  induction depth with
  | zero => exact exhausted_sorted semicolons
  | succ depth ih => exact unfold_sorted ih

theorem Tree.empty_settled : Tree.empty.Settled [] := by
  refine ⟨?_, fun fact hfact => nomatch hfact⟩
  intro id shape hshape
  cases id <;> cases hshape

/-- In the tree of a program every slot holds what it demands. -/
theorem conforms_of_parse {semicolons : Semicolons} {tokens : List Token} {tree : Tree}
    (hparse : parse semicolons tokens = .ok tree) : tree.Conforms := by
  obtain ⟨id, final, rfl, hrun⟩ := run_of_parse hparse
  have hgrammar := Grammar.upTo_sorted semicolons
    ((Cursor.ofTokens tokens).pending.length + 1)
  have hread : (Production.program
      (.upTo semicolons ((Cursor.ofTokens tokens).pending.length + 1))).Meets (.start tokens)
      (fun _ final => final.tree.Conforms) Anyhow := by
    apply (Production.statements_yields hgrammar .program).andThen Tree.empty_settled
    intro body after hafter
    rw [meets_bind_current, meets_add]
    exact (hafter.insert rfl (List.subset_append_left _ []) _).conforms
  exact hread.of_ok hrun

end ScriptSyntax

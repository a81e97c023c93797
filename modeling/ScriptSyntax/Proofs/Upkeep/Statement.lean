import ScriptSyntax.Proofs.Trace.Statement
import ScriptSyntax.Proofs.Upkeep.Expression

/-!
# Laws and statements

Statements leave nothing open.  Each expression in a statement is read right behind a token that
says something, but for one that the statement begins with: no comment stands before that, and it
does not begin with a brace.  So the productions keep up every law whose operands do.
-/

namespace ScriptSyntax

open Parse

namespace Production

variable {law : Law} {grammar : Grammar} {session : Session}

/-- A statement that is an expression begins with a token that says something, and not with a
brace. -/
theorem Opening.isWord_of_expression {labels : Bool} {token next : Token}
    (hof : Opening.of labels token next = .expression) :
    token.isWord = true ∧ token.isPunctuation "\x7b" = false := by
  cases hkind : token.kind with
  | punctuation =>
      refine ⟨Token.isWord_of_kind hkind rfl, ?_⟩
      rw [Bool.eq_false_iff]
      intro hbrace
      simp [Opening.of, hkind, ((token.is_iff _ _).mp hbrace).2, Opening.ofPunctuation] at hof
  | _ => simp_all [Opening.of, Token.isWord, Token.Kind.isWord, Token.isPunctuation, Token.is]

theorem comment_keeps : law.Keeps comment session := by
  intro start pending hsession
  apply meets_bind_advance.mpr
  exact Law.meets_add_plain hsession.passed rfl rfl

theorem emptyStatement_keeps : law.Keeps emptyStatement session := by
  intro start pending hsession
  apply meets_bind_advance.mpr
  exact Law.meets_add_plain hsession.passed rfl rfl

theorem defaultLabel_keeps : law.Keeps defaultLabel session := by
  intro start pending hsession
  apply meets_bind_advance.mpr
  apply (Law.keeps_expect hsession.passed).bind
  intro last after hafter
  exact Law.meets_add_plain hafter rfl rfl

theorem jump_keeps (kind : Jump) : law.Keeps (jump grammar kind) session := by
  intro start pending hsession
  apply meets_bind_advance.mpr
  apply (Law.keeps_accept? hsession.passed).bind
  intro label named hnamed
  apply (Law.keeps_endStatement _ hnamed).bind
  intro semicolon after hafter
  exact Law.meets_add_plain hafter rfl rfl

theorem debugger_keeps : law.Keeps (debugger grammar) session := by
  intro start pending hsession
  apply meets_bind_advance.mpr
  apply (Law.keeps_endStatement _ hsession.passed).bind
  intro semicolon after hafter
  exact Law.meets_add_plain hafter rfl rfl

section Compound

variable (hgrammar : grammar.Lawful law)

include hgrammar

theorem labelled_keeps : law.Keeps (labelled grammar) session := by
  intro start pending hsession
  apply meets_bind_advance.mpr
  apply meets_bind_advance.mpr
  apply (hgrammar.statement false hsession.passed.passed).bind
  intro statement after hafter
  exact Law.meets_add_plain hafter rfl rfl

theorem doWhile_keeps : law.Keeps (doWhile grammar) session := by
  intro start pending hsession
  apply meets_bind_advance.mpr
  apply (hgrammar.statement false hsession.passed).bind
  intro body read hread
  apply (Law.keeps_expect hread).bind
  intro _ worded hworded
  apply (parenthesized_keeps hgrammar hworded).bind
  intro condition tested htested
  apply (Law.keeps_endStatement _ htested).bind
  intro semicolon after hafter
  exact Law.meets_add_plain hafter rfl rfl

theorem whileLoop_keeps : law.Keeps (whileLoop grammar) session := by
  intro start pending hsession
  apply meets_bind_advance.mpr
  apply (parenthesized_keeps hgrammar hsession.passed).bind
  intro condition tested htested
  apply (hgrammar.statement false htested).bind
  intro body after hafter
  exact Law.meets_add_plain hafter rfl rfl

theorem withScope_keeps : law.Keeps (withScope grammar) session := by
  intro start pending hsession
  apply meets_bind_advance.mpr
  apply (parenthesized_keeps hgrammar hsession.passed).bind
  intro object tested htested
  apply (hgrammar.statement false htested).bind
  intro body after hafter
  exact Law.meets_add_plain hafter rfl rfl

theorem ifElse_keeps : law.Keeps (ifElse grammar) session := by
  intro start pending hsession
  apply meets_bind_advance.mpr
  apply (parenthesized_keeps hgrammar hsession.passed).bind
  intro condition tested htested
  apply (hgrammar.statement false htested).bind
  intro thenBranch chosen hchosen
  apply (Law.keeps_readAfter? (fun _ => hgrammar.statement false) hchosen).bind
  intro elseBranch after hafter
  exact Law.meets_add_plain hafter rfl rfl

theorem switch_keeps : law.Keeps (switch grammar) session := by
  intro start pending hsession
  apply meets_bind_advance.mpr
  apply (parenthesized_keeps hgrammar hsession.passed).bind
  intro discriminant tested htested
  apply (Law.keeps_expect htested).bind
  intro opening opened hopened
  apply (hgrammar.statements .switch hopened).bind
  intro cases read hread
  apply meets_bind_advance.mpr
  exact Law.meets_add_plain hread.passed rfl rfl

theorem handler_keeps : law.Keeps (handler grammar) session := by
  intro start pending hsession
  apply (Law.keeps_expect hsession).bind
  intro opening opened hopened
  apply (Law.keeps_expect hopened).bind
  intro name named hnamed
  apply (Law.keeps_expect hnamed).bind
  intro closing closed hclosed
  exact (hgrammar.statement false hclosed).bind fun _ _ hafter => hafter

theorem tryCatch_keeps : law.Keeps (tryCatch grammar) session := by
  intro start pending hsession
  apply meets_bind_advance.mpr
  apply (hgrammar.statement false hsession.passed).bind
  intro body read hread
  apply (Law.keeps_readAfter? (fun _ => handler_keeps hgrammar) hread).bind
  intro handler caught hcaught
  apply (Law.keeps_readAfter? (fun _ => hgrammar.statement false) hcaught).bind
  intro finalizer after hafter
  split
  · trivial
  · exact Law.meets_add_plain hafter rfl rfl

end Compound

/-! ## Statements with expressions -/

section Expressions

variable (hgrammar : grammar.Lawful law)

include hgrammar

theorem caseLabel_keeps (hfirst : session.cursor.current.isKeyword "case" = true) :
    law.Keeps (caseLabel grammar) session := by
  intro start pending hsession
  have hready := law.ready_passed (Token.isWord_of_isKeyword hfirst) hsession.holds
  apply meets_bind_advance.mpr
  apply ((hgrammar.expression true).prompt hready hsession.passed).bind
  intro test read hread
  apply (Law.keeps_expect hread).bind
  intro last after hafter
  exact Law.meets_add_plain hafter rfl rfl

theorem throws_keeps (hfirst : session.cursor.current.isKeyword "throw" = true) :
    law.Keeps (throws grammar) session := by
  intro start pending hsession
  have hready := law.ready_passed (Token.isWord_of_isKeyword hfirst) hsession.holds
  apply meets_bind_advance.mpr
  apply ((hgrammar.expression true).prompt hready hsession.passed).bind
  intro value read hread
  apply (Law.keeps_endStatement _ hread).bind
  intro semicolon after hafter
  exact Law.meets_add_plain hafter rfl rfl

theorem returns_keeps (hfirst : session.cursor.current.isKeyword "return" = true) :
    law.Keeps (returns grammar) session := by
  intro start pending hsession
  have hready := law.ready_passed (Token.isWord_of_isKeyword hfirst) hsession.holds
  apply meets_bind_advance.mpr
  rw [meets_bind_cursor]
  split
  · apply (Law.keeps_endStatement _ hsession.passed).bind
    intro semicolon after hafter
    exact Law.meets_add_plain hafter rfl rfl
  · split
    · exact Law.meets_add_plain hsession.passed rfl rfl
    · apply ((hgrammar.expression true).prompt hready hsession.passed).bind
      intro value read hread
      apply (Law.keeps_endStatement _ hread).bind
      intro semicolon after hafter
      exact Law.meets_add_plain hafter rfl rfl

theorem declaration_keeps : law.Keeps (declaration grammar) session := by
  intro start pending hsession
  apply (Law.keeps_expect hsession).bind
  intro name named hnamed
  have hinitializer : named.cursor.current.isOperator "=" = true →
      law.Keeps (grammar.expression false) named.passed := fun hassign =>
    (hgrammar.expression false).prompt
      (law.ready_passed (Token.isWord_of_isOperator hassign) hnamed.holds)
  apply (Law.keeps_readAfter? hinitializer hnamed).bind
  intro initializer after hafter
  exact Law.meets_add_plain hafter rfl rfl

theorem declarations_keeps : law.Keeps (declarations grammar) session := by
  intro start pending hsession
  apply meets_bind_eatComments.mpr
  apply (declaration_keeps hgrammar hsession.uncommented).bind
  intro first read hread
  rw [meets_bind_current]
  split
  · apply meets_bind_advance.mpr
    exact (hgrammar.declarations hread.passed).bind fun _ _ hafter => hafter
  · exact hread

theorem varStatement_keeps : law.Keeps (varStatement grammar) session := by
  intro start pending hsession
  apply meets_bind_advance.mpr
  apply (hgrammar.declarations hsession.passed).bind
  intro declarations read hread
  apply (Law.keeps_endStatement _ hread).bind
  intro semicolon after hafter
  exact Law.meets_add_plain hafter rfl rfl

theorem loopInit_keeps (varToken : Option Token)
    (hready : varToken.isSome = false → law.ready session) :
    law.Keeps (loopInit grammar varToken) session := by
  intro start pending hsession
  unfold loopInit
  split
  · exact (hgrammar.declarations hsession).bind fun _ _ hafter => hafter
  · rename_i hnone
    have hprompt := hready (Bool.eq_false_iff.mpr hnone)
    exact ((hgrammar.expression true).prompt hprompt hsession).bind fun _ _ hafter => hafter

theorem forClauses_keeps (first : Token) (varToken : Option Token)
    (hready : varToken.isSome = false → law.ready session) :
    law.Keeps (forClauses grammar first varToken) session := by
  intro start pending hsession
  apply (Law.keeps_readUnless (loopInit_keeps hgrammar varToken hready) hsession).bind
  intro init begun hbegun
  apply Law.meets_bind_expect hbegun (fun _ => Token.isWord_of_isPunctuation)
  intro _ marked hmarked htestable
  apply (Law.keeps_readUnless ((hgrammar.expression true).prompt htestable) hmarked).bind
  intro test tested htested
  apply Law.meets_bind_expect htested (fun _ => Token.isWord_of_isPunctuation)
  intro _ halved hhalved hsteppable
  apply (Law.keeps_readUnless ((hgrammar.expression true).prompt hsteppable) hhalved).bind
  intro step stepped hstepped
  apply (Law.keeps_expect hstepped).bind
  intro closing closed hclosed
  apply (hgrammar.statement false hclosed).bind
  intro body after hafter
  exact Law.meets_add_plain hafter rfl rfl

theorem forIn_keeps (first : Token) (varToken : Option Token)
    (hword : session.cursor.next.isOperator "in" = true) :
    law.Keeps (forIn grammar first varToken) session := by
  intro start pending hsession
  have hready : law.ready session.passed.passed :=
    law.ready_passed (Token.isWord_of_isOperator hword) hsession.passed.holds
  apply meets_bind_advance.mpr
  apply meets_bind_advance.mpr
  apply ((hgrammar.expression true).prompt hready hsession.passed.passed).bind
  intro object read hread
  apply (Law.keeps_expect hread).bind
  intro closing closed hclosed
  apply (hgrammar.statement false hclosed).bind
  intro body after hafter
  exact Law.meets_add_plain hafter rfl rfl

theorem forLoop_keeps : law.Keeps (forLoop grammar) session := by
  intro start pending hsession
  apply meets_bind_advance.mpr
  apply Law.meets_bind_expect hsession.passed (fun _ => Token.isWord_of_isPunctuation)
  intro opening opened hopened hready
  have haccept : (accept? fun token => token.isKeyword "var").Meets opened
      (fun varToken begun => law.Upheld start pending begun ∧
        (varToken.isSome = false → law.ready begun)) Anyhow := by
    rw [meets_accept?]
    split
    · exact ⟨hopened.passed, nofun⟩
    · exact ⟨hopened, fun _ => hready⟩
  apply haccept.bind
  rintro varToken begun ⟨hbegun, hlater⟩
  rw [meets_bind_current, meets_bind_next]
  split
  · rename_i hname
    exact forIn_keeps hgrammar _ varToken (Bool.and_eq_true_iff.mp hname).2 hbegun
  · exact forClauses_keeps hgrammar _ varToken hlater hbegun

variable (hoperand : ∀ session, law.Reads (operand grammar true) session)

include hoperand

theorem expressionStatement_keeps (hready : law.ready session) :
    law.Keeps (expressionStatement grammar) session := by
  intro start pending hsession
  apply ((expression_reads hgrammar hoperand true).prompt hready hsession).bind
  intro value read hread
  apply (Law.keeps_endStatement _ hread).bind
  intro semicolon after hafter
  exact Law.meets_add_plain hafter rfl rfl

theorem statement_keeps (labels : Bool) : law.Keeps (statement grammar labels) session := by
  intro start pending hsession
  unfold statement
  rw [meets_bind_current, meets_bind_next]
  have hopens := Opening.of_opens labels session.cursor.current session.cursor.next
  cases hof : Opening.of labels session.cursor.current session.cursor.next
  all_goals rw [hof] at hopens
  case comment => exact comment_keeps hsession
  case labelled => exact labelled_keeps hgrammar hsession
  case expression =>
    obtain ⟨hword, hbrace⟩ := Opening.isWord_of_expression hof
    exact expressionStatement_keeps hgrammar hoperand (law.ready_of_isWord hword hbrace) hsession
  case block => exact block_keeps hgrammar hsession
  case empty => exact emptyStatement_keeps hsession
  case jump kind => exact jump_keeps kind hsession
  case caseLabel => exact caseLabel_keeps hgrammar hopens hsession
  case debugger => exact debugger_keeps hsession
  case defaultLabel => exact defaultLabel_keeps hsession
  case doWhile => exact doWhile_keeps hgrammar hsession
  case forLoop => exact forLoop_keeps hgrammar hsession
  case function => exact function_keeps hgrammar .definition hsession
  case ifElse => exact ifElse_keeps hgrammar hsession
  case returns => exact returns_keeps hgrammar hopens hsession
  case switch => exact switch_keeps hgrammar hsession
  case throws => exact throws_keeps hgrammar hopens hsession
  case tryCatch => exact tryCatch_keeps hgrammar hsession
  case varStatement => exact varStatement_keeps hgrammar hsession
  case whileLoop => exact whileLoop_keeps hgrammar hsession
  case withScope => exact withScope_keeps hgrammar hsession
  case refused => trivial

theorem statements_keeps (enclosure : Enclosure) :
    law.Keeps (statements grammar enclosure) session := by
  intro start pending hsession
  unfold statements
  rw [meets_bind_current]
  split
  · exact hsession
  · apply (statement_keeps hgrammar hoperand _ hsession).bind
    intro first read hread
    exact (hgrammar.statements enclosure hread).bind fun _ _ hafter => hafter

theorem program_keeps : law.Keeps (program grammar) session := by
  intro start pending hsession
  apply (statements_keeps hgrammar hoperand .program hsession).bind
  intro body after hafter
  rw [meets_bind_current]
  exact Law.meets_add_plain hafter rfl rfl

end Expressions

end Production

/-- A grammar keeps up a law once more if its operands do. -/
theorem Grammar.Lawful.unfold {law : Law} {grammar : Grammar} (hgrammar : grammar.Lawful law)
    (hoperand : ∀ calls session, law.Reads (Production.operand grammar calls) session) :
    grammar.unfold.Lawful law where
  statement labels _ := Production.statement_keeps hgrammar (hoperand true) labels
  statements enclosure _ := Production.statements_keeps hgrammar (hoperand true) enclosure
  parameters hsession := Production.parameters_keeps hgrammar hsession
  declarations hsession := Production.declarations_keeps hgrammar hsession
  expression commas _ := Production.expression_reads hgrammar (hoperand true) commas
  assignment hentry := Production.assignment_reads hgrammar (hoperand true) hentry
  operand calls session := hoperand calls session
  operations left floor _ := Production.operations_keeps hgrammar left floor
  items closing _ := Production.items_collects hgrammar (hoperand true) closing
  properties hsession := Production.properties_keeps hgrammar hsession

/-- A law that the empty tree satisfies is kept up by every program. -/
theorem Law.holds_of_parse (law : Law) {semicolons : Semicolons} {tokens : List Token} {tree : Tree}
    (hparse : parse semicolons tokens = .ok tree) (hstart : law.holds [] (.start tokens))
    (hgrammar : ∀ depth, (Grammar.upTo semicolons depth).Lawful law)
    (hoperand : ∀ depth session,
      law.Reads (Production.operand (.upTo semicolons depth) true) session) :
    ∃ final, final.tree = tree ∧ law.holds [] final := by
  obtain ⟨id, final, rfl, hrun⟩ := run_of_parse hparse
  let depth := (Cursor.ofTokens tokens).pending.length + 1
  have hread := Production.program_keeps (hgrammar depth) (hoperand depth) (.refl hstart)
  exact ⟨final, rfl, (hread.of_ok hrun).holds⟩

end ScriptSyntax

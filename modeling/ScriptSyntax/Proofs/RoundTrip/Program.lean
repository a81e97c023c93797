import ScriptSyntax.Proofs.Conservation
import ScriptSyntax.Proofs.RoundTrip.Loop
import ScriptSyntax.Proofs.RoundTrip.Statement

/-!
# Reading back what was printed

A statement is told from its first words, which are enough like its first tokens to
open the same.  With this all productions are retold, and a program that was read
without comments is read again from its canonical form: the tree is the same up to
places, whether semicolons have to be written or not.
-/

namespace ScriptSyntax

open Parse

namespace Production

variable {semicolons : Semicolons} {grammar : Grammar} {start : Session}

/-- Whatever opens a statement does not end or continue another. -/
theorem begins_of_opening {labels : Bool} {token next : Token} {opening : Opening}
    (hopening : Opening.of labels token next = opening)
    (hadmitted : ∀ reason, opening ≠ .refused reason) : token.Begins where
  not_isEnd := by
    rw [← Bool.not_eq_true]
    intro hend
    have hkind : token.kind = .eof := by simpa [Token.isEnd] using hend
    apply hadmitted .unexpectedEnd
    rw [← hopening, Opening.of, hkind]
  not_closing := by
    rw [← Bool.not_eq_true]
    intro hclosing
    obtain ⟨hkind, hvalue⟩ := (token.is_iff _ _).mp hclosing
    apply hadmitted .unexpectedToken
    rw [← hopening, Opening.of, hkind, hvalue]
    rfl
  not_continuation word hword := by
    rw [← Bool.not_eq_true]
    intro hkeyword
    obtain ⟨hkind, hvalue⟩ := (token.is_iff _ _).mp hkeyword
    have hrefused : ∀ labels, ∀ word ∈ Token.continuations,
        Opening.ofKeyword labels word = .refused .unexpectedToken := by decide
    apply hadmitted .unexpectedToken
    rw [← hopening, Opening.of, hkind, hvalue]
    exact hrefused labels word hword

/-- A statement is retold if what it opens is. -/
theorem opened_retells {labels : Bool} {opening : Opening} {production : Grammar → Parse NodeId}
    {reader : Parse NodeId}
    (hproduction : Task.Retells ⟨semicolons, start, production, []⟩ reader
      (.opened labels opening))
    (hrun : ∀ (grammar : Grammar) (session : Session),
      Opening.of labels session.cursor.current session.cursor.next = opening →
        statement grammar labels session = production grammar session)
    (hadmitted : ∀ reason, opening ≠ .refused reason) :
    Task.Retells ⟨semicolons, start, (statement · labels), []⟩ reader .statement := by
  intro hquiet
  apply (hproduction hquiet).mono _ fun _ _ => trivial
  rintro id after ⟨words, hwords, hne, hopens⟩
  have hstart := (Task.start_reaches ⟨semicolons, start, (statement · labels), []⟩).turn
    fun tail (htail : Opening.of labels tail.current tail.next = opening) =>
      ⟨trivial, fun grammar => hrun grammar (start.canonical tail) htail⟩
  refine ⟨words, hstart.last.inline hwords fun tail _ => hopens tail, ?_⟩
  cases words with
  | nil => exact absurd rfl hne
  | cons first others =>
      -- What the first words open does not depend on what follows them.
      exact ⟨first, others, rfl, begins_of_opening (hopens start.cursor) hadmitted⟩

/-- A statement that begins with a token of its own is retold. -/
theorem headed_retells {labels : Bool} {opening : Opening} {production : Grammar → Parse NodeId}
    {reader : Parse NodeId}
    (hproduction : Task.Retells ⟨semicolons, start, production, []⟩ reader .headed)
    (hrun : ∀ (grammar : Grammar) (session : Session),
      Opening.of labels session.cursor.current session.cursor.next = opening →
        statement grammar labels session = production grammar session)
    (hopening : Opening.of labels start.cursor.current start.cursor.next = opening)
    (hadmitted : ∀ reason, opening ≠ .refused reason)
    (hkind : start.cursor.current.kind ≠ .identifier) :
    Task.Retells ⟨semicolons, start, (statement · labels), []⟩ reader .statement := by
  apply opened_retells _ hrun hadmitted
  intro hquiet
  apply (hproduction hquiet).mono _ fun _ _ => trivial
  rintro id after ⟨words, hwords, others, rfl⟩
  refine ⟨_, hwords, List.cons_ne_nil _ _, fun tail => ?_⟩
  exact (Opening.of_bare hkind start.cursor.next _).trans hopening

/-- A statement in brackets is one that begins with a token of its own. -/
theorem headed_of_bracketed {production : Grammar → Parse NodeId} {reader : Parse NodeId}
    (hproduction : Task.Retells ⟨semicolons, start, production, []⟩ reader .bracketed) :
    Task.Retells ⟨semicolons, start, production, []⟩ reader .headed := by
  intro hquiet
  apply (hproduction hquiet).mono _ fun _ _ => trivial
  rintro id after ⟨words, hwords, others, heq, -⟩
  exact ⟨words, hwords.strengthen fun _ _ => trivial, others, heq⟩

theorem run_current_next {Result : Type} {next : Token → Token → Parse Result}
    {session : Session} :
    (current >>= fun token => Parse.next >>= fun other => next token other) session =
      next session.cursor.current session.cursor.next session := rfl

theorem statement_retells (hgrammar : grammar.Retold semicolons) (labels : Bool) :
    Task.Retells ⟨semicolons, start, (statement · labels), []⟩ (statement grammar labels)
      .statement := by
  intro hquiet
  have hopens := Opening.of_opens labels start.cursor.current start.cursor.next
  unfold statement
  rw [meets_bind_current, meets_bind_next]
  generalize hopening : Opening.of labels start.cursor.current start.cursor.next = opening
  rw [hopening] at hopens
  cases opening with
  | comment =>
      have hnone := hquiet.current
      rw [hopens] at hnone
      cases hnone
  | labelled =>
      refine opened_retells (labelled_retells hgrammar hopens.1 hopens.2) ?_ nofun hquiet
      intro grammar session hsession
      rw [statement, run_current_next, hsession]
  | expression =>
      refine opened_retells (expressionStatement_retells hgrammar hopening) ?_ nofun hquiet
      intro grammar session hsession
      rw [statement, run_current_next, hsession]
  | block =>
      refine headed_retells (headed_of_bracketed (block_retells hgrammar)) ?_ hopening nofun
        (Token.kind_ne_of_is hopens nofun) hquiet
      intro grammar session hsession
      rw [statement, run_current_next, hsession]
  | empty =>
      refine headed_retells (emptyStatement_retells hopens) ?_ hopening nofun
        (Token.kind_ne_of_is hopens nofun) hquiet
      intro grammar session hsession
      rw [statement, run_current_next, hsession]
  | jump kind =>
      have hkind : start.cursor.current.kind ≠ .identifier := by
        cases kind <;> exact Token.kind_ne_of_is hopens nofun
      refine headed_retells (jump_retells hopens) ?_ hopening nofun hkind hquiet
      intro grammar session hsession
      rw [statement, run_current_next, hsession]
  | caseLabel =>
      refine headed_retells (caseLabel_retells hgrammar hopens) ?_ hopening nofun
        (Token.kind_ne_of_is hopens nofun) hquiet
      intro grammar session hsession
      rw [statement, run_current_next, hsession]
  | debugger =>
      refine headed_retells (debugger_retells hopens) ?_ hopening nofun
        (Token.kind_ne_of_is hopens nofun) hquiet
      intro grammar session hsession
      rw [statement, run_current_next, hsession]
  | defaultLabel =>
      refine headed_retells (defaultLabel_retells hopens) ?_ hopening nofun
        (Token.kind_ne_of_is hopens nofun) hquiet
      intro grammar session hsession
      rw [statement, run_current_next, hsession]
  | doWhile =>
      refine headed_retells (doWhile_retells hgrammar hopens) ?_ hopening nofun
        (Token.kind_ne_of_is hopens nofun) hquiet
      intro grammar session hsession
      rw [statement, run_current_next, hsession]
  | forLoop =>
      refine headed_retells (forLoop_retells hgrammar hopens) ?_ hopening nofun
        (Token.kind_ne_of_is hopens nofun) hquiet
      intro grammar session hsession
      rw [statement, run_current_next, hsession]
  | function =>
      have hfunction := function_retells hgrammar .definition hopens
      refine headed_retells (headed_of_bracketed hfunction) ?_ hopening nofun
        (Token.kind_ne_of_is hopens nofun) hquiet
      intro grammar session hsession
      rw [statement, run_current_next, hsession]
  | ifElse =>
      refine headed_retells (ifElse_retells hgrammar hopens) ?_ hopening nofun
        (Token.kind_ne_of_is hopens nofun) hquiet
      intro grammar session hsession
      rw [statement, run_current_next, hsession]
  | returns =>
      refine headed_retells (returns_retells hgrammar hopens) ?_ hopening nofun
        (Token.kind_ne_of_is hopens nofun) hquiet
      intro grammar session hsession
      rw [statement, run_current_next, hsession]
  | switch =>
      refine headed_retells (switch_retells hgrammar hopens) ?_ hopening nofun
        (Token.kind_ne_of_is hopens nofun) hquiet
      intro grammar session hsession
      rw [statement, run_current_next, hsession]
  | throws =>
      refine headed_retells (throws_retells hgrammar hopens) ?_ hopening nofun
        (Token.kind_ne_of_is hopens nofun) hquiet
      intro grammar session hsession
      rw [statement, run_current_next, hsession]
  | tryCatch =>
      refine headed_retells (tryCatch_retells hgrammar hopens) ?_ hopening nofun
        (Token.kind_ne_of_is hopens nofun) hquiet
      intro grammar session hsession
      rw [statement, run_current_next, hsession]
  | varStatement =>
      refine headed_retells (varStatement_retells hgrammar hopens) ?_ hopening nofun
        (Token.kind_ne_of_is hopens nofun) hquiet
      intro grammar session hsession
      rw [statement, run_current_next, hsession]
  | whileLoop =>
      refine headed_retells (whileLoop_retells hgrammar hopens) ?_ hopening nofun
        (Token.kind_ne_of_is hopens nofun) hquiet
      intro grammar session hsession
      rw [statement, run_current_next, hsession]
  | withScope =>
      refine headed_retells (withScope_retells hgrammar hopens) ?_ hopening nofun
        (Token.kind_ne_of_is hopens nofun) hquiet
      intro grammar session hsession
      rw [statement, run_current_next, hsession]
  | refused reason => trivial

theorem statements_retells (hgrammar : grammar.Retold semicolons) (enclosure : Enclosure) :
    Task.Retells ⟨semicolons, start, (statements · enclosure), []⟩
      (statements grammar enclosure) (.statements enclosure) := by
  intro hquiet
  have hstart := Task.start_reaches ⟨semicolons, start, (statements · enclosure), []⟩
  unfold statements
  rw [meets_bind_current]
  split
  · rename_i hclosed
    refine ⟨[], hstart.ifTrue.overlook.strengthen fun _ htail => ⟨trivial, htail⟩, hclosed, ?_⟩
    intro first hfirst
    cases hfirst
  · apply (statement_retells hgrammar _ hquiet).bind
    rintro first read ⟨words, hfirst, head, others, rfl, hhead⟩
    have hopened := hstart.ifFalse.overlook.inline hfirst fun _ _ =>
      ⟨trivial, hhead.not_closedBy enclosure⟩
    apply (hgrammar.statements enclosure read (hopened.quiet hquiet)).bind
    rintro rest after ⟨more, hrest, hclosed, hmore⟩
    have hafter := hopened.call hrest (fun _ => rfl) (List.cons_ne_nil _ _)
      fun tail htail word hword _ => by
        cases more with
        | nil => exact Enclosure.not_isKeyword htail word
        | cons next more => exact (hmore next rfl).not_continuation word hword
    refine ⟨_, hafter, hclosed, ?_⟩
    rintro first ⟨⟩
    exact hhead

end Production

theorem Grammar.unfold_retold {semicolons : Semicolons} {grammar : Grammar}
    (hgrammar : grammar.Retold semicolons) : grammar.unfold.Retold semicolons where
  statement labels _ := Production.statement_retells hgrammar labels
  statements enclosure _ := Production.statements_retells hgrammar enclosure
  parameters _ := Production.parameters_retells hgrammar
  declarations _ := Production.declarations_retells hgrammar
  expression commas _ := Production.expression_retells hgrammar commas
  assignment _ := Production.assignment_retells hgrammar
  operand calls _ := Production.operand_retells hgrammar calls
  operations left floor _ := Production.operations_retells hgrammar left floor
  suffixes target calls _ := Production.suffixes_retells hgrammar target calls
  items _ hclosing _ := Production.items_retells hgrammar hclosing
  properties _ := Production.properties_retells hgrammar

/-- The productions are retold however deep they are unfolded in the first run. -/
theorem Grammar.upTo_retold (semicolons other : Semicolons) (depth : Nat) :
    (Grammar.upTo other depth).Retold semicolons := by
  induction depth with
  | zero => exact exhausted_retold semicolons other
  | succ depth ih => exact unfold_retold ih

/-- The end of the tokens of a canonical form. -/
def Cursor.atEnd : Cursor :=
  .ofTokens []

theorem Cursor.mem_of_mem_ofTokens {tokens : List Token} {token : Token}
    (htoken : token ∈ (ofTokens tokens).pending) : token ∈ tokens := by
  unfold ofTokens at htoken
  split at htoken
  · cases htoken
  · split at htoken
    · exact (List.dropLast_prefix tokens).subset htoken
    · exact htoken

/-- Tokens without places end where they say nothing more. -/
theorem Cursor.ofTokens_bare {words : List Token} (hbare : ∀ token ∈ words, token.bare = token)
    (hend : ∀ token ∈ words, token.isEnd = false) : ofTokens words = atEnd.before words := by
  unfold ofTokens
  split
  · rename_i hlast
    rw [List.getLast?_eq_none_iff.mp hlast]
    rfl
  · rename_i last hlast
    have hmem : last ∈ words := List.mem_of_getLast? hlast
    have hkind : ¬last.kind = .eof := by
      intro hkind
      have hnot := hend last hmem
      rw [Token.isEnd, hkind] at hnot
      cases hnot
    have hspan : last.span = .null := congrArg Token.span (hbare last hmem).symm
    rw [dif_neg hkind]
    simp only [before, atEnd, hspan, mk.injEq]
    exact ⟨(List.append_nil words).symm, rfl⟩

/-- A program is retold. -/
def Account.program : Account NodeId where
  parts id := [.below id]
  again id := id
  follow _ tail := tail = .atEnd
  edge _ id words after := after.tree.rootId = id ∧ ∀ token ∈ words, token.isEnd = false

/-- The words of a program hold no end token: its statements are read from them to
the end. -/
theorem not_isEnd_of_reaches {semicolons : Semicolons} {tokens words : List Token}
    {parts : List (Part NodeId)} {body : List NodeId} {after : Session}
    (hreaches : Task.Reaches
      ⟨semicolons, .start tokens, (Production.statements · .program), []⟩ parts words
      (fun tail => Enclosure.program.closedBy tail.current = true) after fun _ => pure body) :
    ∀ token ∈ words, token.isEnd = false := by
  have hrun := hreaches.run words.length .atEnd (Nat.le_refl _) rfl
  have hgrammar := Grammar.upTo_traced semicolons words.length
  rw [Session.canonical_start] at hrun
  obtain ⟨htrace, -⟩ := (Production.statements_pushesTo hgrammar .program).of_ok hrun
  have hordered := (htrace.grown Tree.empty_ordered).ordered Tree.empty_ordered
  obtain ⟨passed, hpasses, -⟩ := htrace.contents hordered (Tree.PartOf.refl _)
  have hwords : words = passed := by
    have hpending := hpasses.pending_eq
    change words ++ [] = passed ++ [] at hpending
    rwa [List.append_nil, List.append_nil] at hpending
  rw [hwords]
  exact hpasses.not_end

theorem Production.program_retells {semicolons : Semicolons} {grammar : Grammar}
    (hgrammar : grammar.Retold semicolons) (tokens : List Token) :
    Task.Retells ⟨semicolons, .start tokens, program, []⟩ (program grammar) .program := by
  intro hquiet
  have hstart := Task.start_reaches ⟨semicolons, .start tokens, program, []⟩
  apply (statements_retells hgrammar .program hquiet).bind
  rintro body after ⟨words, hbody, -⟩
  have hread := hstart.inline (hbody.strengthen fun tail (htail : tail = .atEnd) => htail ▸ rfl)
    fun _ _ => trivial
  have hnowhere : (Edge.token (.endOfInput .null false)).Nowhere := rfl
  have hadded := (hread.look (.endOfInput .null false)).last.addAll
    (.root body after.cursor.current) ⟨rfl, hnowhere.nodeOr _, hnowhere.nodeOr _⟩ rfl
  have hended := hadded.strengthen fun tail (htail : tail = .atEnd) => ⟨htail, htail ▸ rfl⟩
  exact ⟨words, hended, rfl, not_isEnd_of_reaches hbody⟩

/-- A program without comments, once it is printed, is read again: in either way to
end statements, and as the same tree without places. -/
theorem parse_print {semicolons : Semicolons} {tokens : List Token} {tree : Tree}
    (hcomments : ∀ token ∈ tokens, token.isComment = false)
    (hparse : parse semicolons tokens = .ok tree) (again : Semicolons) :
    parse again tree.print = .ok tree.bare := by
  obtain ⟨id, after, rfl, hrun⟩ := run_of_parse hparse
  have hquiet : (Session.start tokens).Quiet := fun token htoken =>
    hcomments token (Cursor.mem_of_mem_ofTokens htoken)
  have hgrammar := Grammar.upTo_retold again semicolons
    ((Cursor.ofTokens tokens).pending.length + 1)
  obtain ⟨words, hreaches, rfl, hend⟩ :=
    (Production.program_retells hgrammar tokens hquiet).of_ok hrun
  obtain ⟨hgrown, -⟩ := grown_of_parse hparse
  have hprint : after.tree.print = words := by
    rw [Tree.print_eq_spells]
    exact hreaches.spells after.tree (hgrown.ordered Tree.empty_ordered) (Tree.PartOf.refl _)
  have hcursor : Cursor.ofTokens words = Cursor.atEnd.before words := by
    apply Cursor.ofTokens_bare _ hend
    rw [← hprint, Tree.print]
    intro token htoken
    obtain ⟨word, -, rfl⟩ := List.mem_map.mp htoken
    exact word.bare_bare
  have hagain := hreaches.run (words.length + 1) .atEnd (Nat.le_succ _) rfl
  rw [Session.canonical_start] at hagain
  have hstart : Session.start words = ⟨Cursor.atEnd.before words, .empty⟩ := by
    rw [Session.start, hcursor]
  have hreread : Production.program
      (.upTo again ((Cursor.ofTokens words).pending.length + 1)) (.start words) =
        .ok after.tree.rootId (after.canonical .atEnd) := by
    rw [hstart, hcursor, Cursor.length_before]
    exact hagain
  rw [hprint]
  exact parse_of_run hreread

/-- A branch without a semicolon, in it an array with a comma after its last item. -/
theorem parse_print_branch :
    let tokens := [Token.plain .keyword "if", .plain .punctuation "(", .plain .keyword "this",
      .plain .punctuation ")", .plain .identifier "x", .plain .operator "=",
      .plain .punctuation "[", .plain .number "1", .plain .punctuation ",",
      .plain .punctuation "]"]
    let printed := [Token.plain .keyword "if", .plain .punctuation "(", .plain .keyword "this",
      .plain .punctuation ")", .plain .identifier "x", .plain .operator "=",
      .plain .punctuation "[", .plain .number "1", .plain .punctuation "]",
      .plain .punctuation ";"]
    ∃ tree, parse .inserted tokens = .ok tree ∧ tree.print = printed ∧
      ∀ again, parse again printed = .ok tree.bare := by
  intro tokens printed
  have hok : ((parse .inserted tokens).map Tree.print).toOption = some printed := by
    decide +kernel
  cases hparse : parse .inserted tokens with
  | error diagnostic =>
      rw [hparse] at hok
      cases hok
  | ok tree =>
      have hprint : tree.print = printed := by
        rw [hparse] at hok
        exact Option.some.inj hok
      have hcomments : ∀ token ∈ tokens, token.isComment = false := by decide
      refine ⟨tree, rfl, hprint, fun again => ?_⟩
      rw [← hprint]
      exact parse_print hcomments hparse again

end ScriptSyntax

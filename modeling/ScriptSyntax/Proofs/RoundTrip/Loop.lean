import ScriptSyntax.Proofs.RoundTrip.Expression

/-!
# Retelling declarations and loops

What stands first in the header of a loop decides of what kind it is.  The header of
a loop with clauses is none of a loop over names in its canonical words either,
because its first two words are its first two tokens, or a semicolon comes second.
-/

namespace ScriptSyntax

open Parse

namespace Production

variable {semicolons : Semicolons} {grammar : Grammar} {start : Session}

theorem declaration_retells (hgrammar : grammar.Retold semicolons) :
    Task.Retells ⟨semicolons, start, declaration, []⟩ (declaration grammar) .declaration := by
  intro hquiet
  apply meets_bind_expect_of_true
  intro hname
  have hkind : start.cursor.current.kind = .identifier := beq_iff_eq.mp hname
  have hnamed := (Task.start_reaches ⟨semicolons, start, declaration, []⟩).expect
    start.cursor.current hname fun _ => trivial
  rw [meets_bind_readAfter?]
  split
  · rename_i hequals
    have hpassed := hnamed.readAfter start.passed.cursor.current hequals fun _ => trivial
    apply hpassed.called (hgrammar.expression false _) (fun _ => rfl)
      (List.cons_ne_nil _ _) hquiet
    intro value after more hafter _
    have hadded := hafter.last.addAll (.declaration start.cursor.current (some value))
      ⟨rfl, rfl, trivial⟩ (by
        simp [Draft.declaration, Shape.layout, Part.operator, Account.expression,
          Token.bare_of_isOperator hequals])
    refine ⟨_, hadded, _, _, rfl, hkind, ?_⟩
    rintro second ⟨⟩
    rw [Token.bare_of_isOperator hequals]
    rfl
  · rename_i hequals
    have hadded := hnamed.readNone.last.addAll (.declaration start.cursor.current none)
      ⟨rfl, rfl, rfl⟩ (by simp [Draft.declaration, Shape.layout])
    refine ⟨_, hadded.strengthen fun tail htail => ⟨trivial, ?_⟩, _, _, rfl, hkind, ?_⟩
    · exact Token.Follows.isOperator_eq_false htail ((Bool.not_eq_true _).mp hequals)
    · intro second hsecond
      cases hsecond

theorem declarations_retells (hgrammar : grammar.Retold semicolons) :
    Task.Retells ⟨semicolons, start, declarations, []⟩ (declarations grammar)
      .declarations := by
  intro hquiet
  have hstart := (Task.start_reaches ⟨semicolons, start, declarations, []⟩).eatComments
  apply meets_bind_eatComments_of_quiet hquiet
  apply (declaration_retells hgrammar hquiet).bind
  rintro first read ⟨words, hfirst, head, others, rfl, hkind, hsecond⟩
  have hread := hstart.inline hfirst fun _ _ => ⟨trivial, by simp [Token.isComment, hkind]⟩
  rw [meets_bind_current]
  split
  · rename_i hcomma
    rw [meets_bind_advance]
    have hpassed := hread.ifTrue.overlook.advance (.plain .punctuation ",") fun _ =>
      ⟨Token.follows_of_isPunctuation hcomma, rfl⟩
    apply hpassed.called (hgrammar.declarations _) (fun _ => rfl)
      (List.cons_ne_nil _ _) hquiet
    rintro rest after more hafter ⟨hne, -⟩
    have hparts : Part.separated ((first :: rest).map .below) =
        [.below first] ++ [Part.mark ","] ++ Part.separated (rest.map .below) :=
      Part.separated_cons _ (by simpa using hne)
    refine ⟨_, hparts ▸ hafter, List.cons_ne_nil _ _, _, _, rfl, hkind, ?_⟩
    cases others with
    | nil =>
        rintro second ⟨⟩
        rfl
    | cons other others => exact hsecond
  · rename_i hcomma
    refine ⟨_, hread.ifFalse.overlook.strengthen fun tail htail => ⟨htail, ?_⟩,
      List.cons_ne_nil _ _, _, _, rfl, hkind, hsecond⟩
    exact Token.Follows.isPunctuation_eq_false htail ((Bool.not_eq_true _).mp hcomma)
      (by decide)

theorem varStatement_retells (hgrammar : grammar.Retold semicolons)
    (hfirst : start.cursor.current.isKeyword "var" = true) :
    Task.Retells ⟨semicolons, start, varStatement, []⟩ (varStatement grammar) .headed := by
  intro hquiet
  have hpassed := (Task.start_reaches ⟨semicolons, start, varStatement, []⟩).advance
    start.cursor.current fun _ => trivial
  unfold varStatement
  rw [meets_bind_advance]
  apply hpassed.called (hgrammar.declarations _) (fun _ => rfl)
    (List.cons_ne_nil _ _) hquiet
  intro declarations read more hread _
  apply hread.ended (fun _ => Token.follows_mark (by decide)) hquiet
  intro semicolon after hended
  have hadded := hended.last.addAll (.varStatement start.cursor.current declarations semicolon)
    ⟨rfl, rfl, rfl⟩ (by
      simp [Draft.varStatement, Shape.layout, Part.mark, Part.word, Account.declarations,
        Token.bare_of_isKeyword hfirst])
  exact ⟨_, hadded.strengthen fun _ _ => trivial, _, rfl⟩

/-- An optional expression and the mark behind it. -/
theorem clause_retells {Result : Type} {task : Task Result} {parts : List (Part NodeId)}
    {words : List Token} {session : Session} {mark : String}
    {next : Option NodeId → Parse Result} {copyNext : Grammar → Option NodeId → Parse Result}
    {success : Result → Session → Prop} (hgrammar : grammar.Retold task.semicolons)
    (hreaches : task.Reaches parts words (fun _ => True) session fun grammar =>
      readUnless (fun token => token.isPunctuation mark) (grammar.expression true) >>=
        fun value => expectPunctuation mark >>= fun _ => copyNext grammar value)
    (hmark : mark ∈ Token.closingMarks) (hwords : words ≠ []) (hquiet : task.start.Quiet)
    (hnext : ∀ value after more,
      task.Reaches (parts ++ value.toList.map .below ++ [Part.mark mark]) (words ++ more)
        (fun _ => True) after (fun grammar => copyNext grammar value) →
      (next value).Meets after success Unasked) :
    (readUnless (fun token => token.isPunctuation mark) (grammar.expression true) >>=
      fun value => expectPunctuation mark >>= fun _ => next value).Meets session success
      Unasked := by
  rw [meets_bind_readUnless]
  split
  · apply meets_bind_expect_of_true
    intro _
    have hclosed := hreaches.leaveOut.expect (.plain .punctuation mark)
      (Token.isPunctuation_plain mark) fun _ => ⟨trivial, Token.isPunctuation_plain mark⟩
    apply hnext none _ [.plain .punctuation mark]
    rw [Option.toList_none, List.map_nil, List.append_nil]
    exact hclosed
  · apply (hgrammar.expression true session (hreaches.quiet hquiet)).bind
    rintro value read ⟨more, hvalue, hleads⟩
    obtain ⟨head, others, rfl, hhead⟩ := hleads.proper
    have hread := hreaches.readUnless.call hvalue (fun _ => rfl) hwords fun _ _ =>
      ⟨trivial, hhead.not_closing mark hmark⟩
    apply meets_bind_expect_of_true
    intro hlast
    have hclosed := hread.expect (.plain .punctuation mark) (Token.isPunctuation_plain mark)
      fun _ => Token.follows_mark hmark
    apply hnext (some value) _ (head :: others ++ [.plain .punctuation mark])
    rw [← List.append_assoc]
    exact hclosed

theorem clausesFrom_retells (hgrammar : grammar.Retold semicolons) {read : Session}
    {varToken : Option Token} {init : Option (LoopInit NodeId)} {parts : List (Part NodeId)}
    {words : List Token}
    (hread : Task.Reaches ⟨semicolons, start, forLoop, []⟩ parts
      (start.cursor.current.bare :: words)
      (fun tail => tail.current = .plain .punctuation ";") read fun grammar =>
        clausesFrom grammar start.cursor.current.bare (varToken.map Token.bare) init)
    (hparts : parts.map Part.bare = [Part.word "for", Part.mark "("] ++
      varToken.toList.map (fun token => .own token.bare) ++
      ((init.map LoopInit.layout).getD []).map Part.bare)
    (hquiet : start.Quiet) :
    (clausesFrom grammar start.cursor.current varToken init).Meets read
      (Task.Ends ⟨semicolons, start, forLoop, []⟩ .headed) Unasked := by
  apply meets_bind_expect_of_true
  intro _
  have hmarked := hread.expect (.plain .punctuation ";") rfl fun _ => rfl
  apply clause_retells hgrammar hmarked (by decide) (List.cons_ne_nil _ _) hquiet
  intro test tested more htested
  apply clause_retells hgrammar htested (by decide) (List.cons_ne_nil _ _) hquiet
  intro step stepped more' hstepped
  apply hstepped.called (hgrammar.statement false _) (fun _ => rfl)
    (List.cons_ne_nil _ _) hquiet
  intro body after last hafter _
  have hadded := hafter.last.addAll
    (.forLoop start.cursor.current varToken init test step body) ⟨rfl, rfl, trivial⟩ (by
      simp [Draft.forLoop, Shape.layout, Part.mark, Part.word, Account.statement, hparts])
  exact ⟨_, hadded, _, rfl⟩

/-- A name stands under the cursor, with `in` behind it. -/
def header (token next : Token) : Bool :=
  token.kind == .identifier && next.isOperator "in"

theorem forIn_retells (hgrammar : grammar.Retold semicolons) {begun : Session}
    {varToken : Option Token} {parts : List (Part NodeId)} {words : List Token}
    (hbegun : Task.Reaches ⟨semicolons, start, forLoop, []⟩ parts
      (start.cursor.current.bare :: words)
      (fun tail => (varToken = none → ∀ _ : Grammar, tail.current.isKeyword "var" = false) ∧
        header tail.current tail.next = true) begun fun grammar =>
          forIn grammar start.cursor.current.bare (varToken.map Token.bare))
    (hparts : parts.map Part.bare = [Part.word "for", Part.mark "("] ++
      varToken.toList.map (fun token => .own token.bare))
    (hheader : header begun.cursor.current begun.cursor.next = true) (hquiet : start.Quiet) :
    (forIn grammar start.cursor.current varToken).Meets begun
      (Task.Ends ⟨semicolons, start, forLoop, []⟩ .headed) Unasked := by
  obtain ⟨hname, hin⟩ := Bool.and_eq_true_iff.mp hheader
  have hnamed := hbegun.pass begun.cursor.current
    (fun tail => tail.current = .plain .operator "in") fun tail htail => by
      refine ⟨fun _ _ => ?_, Bool.and_eq_true_iff.mpr ⟨hname, ?_⟩⟩
      · simp [Token.isKeyword, Token.is, beq_iff_eq.mp hname]
      · have hnext : (tail.before [begun.cursor.current.bare]).next = tail.current := rfl
        rw [hnext, htail]
        rfl
  have hworded := hnamed.advance (.plain .operator "in") fun _ => rfl
  unfold forIn
  rw [meets_bind_advance, meets_bind_advance]
  apply hworded.called (hgrammar.expression true _) (fun _ => rfl)
    (List.cons_ne_nil _ _) hquiet
  intro source read more hread _
  apply meets_bind_expect_of_true
  intro hlast
  have hclosed := hread.expect (.plain .punctuation ")") rfl fun _ =>
    Token.follows_mark (by decide)
  apply hclosed.called (hgrammar.statement false _) (fun _ => rfl)
    (List.cons_ne_nil _ _) hquiet
  intro body after last hafter _
  have hadded := hafter.last.addAll
    (.forIn start.cursor.current varToken begun.cursor.current source body)
    ⟨rfl, rfl, trivial⟩ (by
      simp [Draft.forIn, Shape.layout, Part.mark, Part.word, Part.operator, Account.statement,
        Account.expression, hparts])
  exact ⟨_, hadded, _, rfl⟩

/-- What begins with a name that is not followed by `in` is no header. -/
theorem header_of_second {first : Token} {others : List Token} {tail : Cursor}
    (hsecond : ∀ second ∈ others.head?, second.isOperator "in" = false)
    (htail : tail.current = .plain .punctuation ";") :
    header (tail.before (first :: others)).current (tail.before (first :: others)).next =
      false := by
  rw [header, Bool.and_eq_false_iff]
  right
  cases others with
  | nil =>
      change tail.current.isOperator "in" = false
      rw [htail]
      rfl
  | cons second others => exact hsecond second rfl

/-- The words of an expression are no header if its tokens are not. -/
theorem header_of_leads {read : Session} {words : List Token} (hleads : start.Leads words read)
    (hheader : header start.cursor.current start.cursor.next = false) {tail : Cursor}
    (htail : tail.current = .plain .punctuation ";") :
    header (tail.before words).current (tail.before words).next = false := by
  obtain ⟨others, rfl, -, hname⟩ := hleads.words_eq
  by_cases hkind : start.cursor.current.kind = .identifier
  · apply header_of_second _ htail
    intro second hsecond
    rw [hname hkind second hsecond]
    simpa [header, hkind] using hheader
  · rw [header, Bool.and_eq_false_iff]
    left
    rw [Token.asWritten_of_kind hkind]
    exact beq_eq_false_iff_ne.mpr hkind

/-- An expression does not begin with the keyword of declarations. -/
theorem not_var_of_leads {read : Session} {words : List Token} (hleads : start.Leads words read)
    (tail : Cursor) : (tail.before words).current.isKeyword "var" = false := by
  obtain ⟨others, rfl, -, -⟩ := hleads.words_eq
  change start.cursor.current.asWritten.bare.isKeyword "var" = false
  rw [← Bool.not_eq_true]
  intro hvar
  obtain ⟨hkind, hvalue⟩ := (Token.is_iff _ _ _).mp hvar
  rw [Token.bare_value, Token.asWritten_value] at hvalue
  have hplain : start.cursor.current.asWritten = start.cursor.current := by
    apply Token.asWritten_of_value
    rw [hvalue]
    decide
  rw [hplain, Token.bare_kind] at hkind
  apply hleads.opens
  simp [OperandStart.of, hkind, hvalue, Token.isValueKeyword, Token.valueKeywords]

theorem loopInit_some (grammar : Grammar) (varToken : Token) :
    loopInit grammar (some varToken) =
      grammar.declarations >>= fun entries => pure (.declarations entries) := rfl

theorem loopInit_none (grammar : Grammar) :
    loopInit grammar none =
      grammar.expression true >>= fun value => pure (.expression value) := rfl

theorem forClauses_retells (hgrammar : grammar.Retold semicolons) {begun : Session}
    {varToken : Option Token} {parts : List (Part NodeId)} {words : List Token}
    (hbegun : Task.Reaches ⟨semicolons, start, forLoop, []⟩ parts
      (start.cursor.current.bare :: words)
      (fun tail => (varToken = none → ∀ _ : Grammar, tail.current.isKeyword "var" = false) ∧
        header tail.current tail.next = false) begun fun grammar =>
          forClauses grammar start.cursor.current.bare (varToken.map Token.bare))
    (hparts : parts.map Part.bare = [Part.word "for", Part.mark "("] ++
      varToken.toList.map (fun token => .own token.bare))
    (hheader : header begun.cursor.current begun.cursor.next = false) (hquiet : start.Quiet) :
    (forClauses grammar start.cursor.current varToken).Meets begun
      (Task.Ends ⟨semicolons, start, forLoop, []⟩ .headed) Unasked := by
  have hcopy : Task.Reaches ⟨semicolons, start, forLoop, []⟩ parts
      (start.cursor.current.bare :: words) _ begun fun grammar =>
        readUnless (fun token => token.isPunctuation ";")
            (loopInit grammar (varToken.map Token.bare)) >>=
          clausesFrom grammar start.cursor.current.bare (varToken.map Token.bare) := hbegun
  rw [forClauses_eq, meets_bind_readUnless]
  split
  · have hnone := hcopy.leaveOut.strengthen fun tail
        (htail : tail.current = .plain .punctuation ";") => by
      rw [htail]
      exact ⟨⟨fun _ _ => rfl, rfl⟩, rfl⟩
    apply clausesFrom_retells hgrammar hnone _ hquiet
    rw [hparts, Option.map_none, Option.getD_none, List.map_nil, List.append_nil]
  · have hinit := hcopy.readUnless
    have hsilent := hinit.quiet hquiet
    cases varToken with
    | some varToken =>
        have hflat := hinit.unwrap (·.declarations) LoopInit.declarations
        rw [loopInit_some, bind_assoc]
        apply (hgrammar.declarations begun hsilent).bind
        rintro ids read ⟨more, hids, -, head, others, rfl, hkind, hsecond⟩
        have hclosing := hids.strengthen fun tail
            (htail : tail.current = .plain .punctuation ";") =>
          (htail ▸ Token.follows_mark (by decide) : read.cursor.current.Follows tail.current)
        have hread := hflat.call hclosing (fun _ => rfl) (List.cons_ne_nil _ _)
          fun tail htail => ⟨⟨nofun, header_of_second hsecond htail⟩, by
            simp [Token.isPunctuation, Token.is, hkind]⟩
        apply clausesFrom_retells hgrammar hread _ hquiet
        rw [List.map_append, hparts]
        rfl
    | none =>
        have hflat := hinit.unwrap (·.expression true) LoopInit.expression
        rw [loopInit_none, bind_assoc]
        apply (hgrammar.expression true begun hsilent).bind
        rintro value read ⟨more, hvalue, hleads⟩
        have hclosing := hvalue.strengthen fun tail
            (htail : tail.current = .plain .punctuation ";") =>
          (htail ▸ Token.follows_mark (by decide) : read.cursor.current.Follows tail.current)
        have hread := hflat.call hclosing (fun _ => rfl) (List.cons_ne_nil _ _)
          fun tail htail => ⟨⟨fun _ _ => not_var_of_leads hleads tail,
            header_of_leads hleads hheader htail⟩, by
            obtain ⟨head, others, rfl, hhead⟩ := hleads.proper
            exact hhead.not_closing ";" (by decide)⟩
        apply clausesFrom_retells hgrammar hread _ hquiet
        rw [List.map_append, hparts]
        rfl

theorem forLoop_retells (hgrammar : grammar.Retold semicolons)
    (hfirst : start.cursor.current.isKeyword "for" = true) :
    Task.Retells ⟨semicolons, start, forLoop, []⟩ (forLoop grammar) .headed := by
  intro hquiet
  have hpassed := (Task.start_reaches ⟨semicolons, start, forLoop, []⟩).advance
    start.cursor.current fun _ => trivial
  unfold forLoop
  rw [meets_bind_advance]
  apply meets_bind_expect_of_true
  intro hopening
  have hopened := hpassed.expect start.passed.cursor.current hopening fun _ => trivial
  apply hopened.accept fun _ _ htoken => htoken
  intro varToken begun hbegun _
  have hparts : ([Part.own start.cursor.current] ++ [Part.own start.passed.cursor.current] ++
      varToken.toList.map Part.own).map Part.bare = [Part.word "for", Part.mark "("] ++
        varToken.toList.map (fun token => (.own token.bare : Part NodeId)) := by
    simp [Part.mark, Part.word, Token.bare_of_isKeyword hfirst,
      Token.bare_of_isPunctuation hopening]
  rw [meets_bind_current, meets_bind_next]
  split
  · rename_i hheader
    exact forIn_retells hgrammar hbegun.aheadTrue hparts hheader hquiet
  · rename_i hheader
    exact forClauses_retells hgrammar hbegun.aheadFalse hparts ((Bool.not_eq_true _).mp hheader)
      hquiet

end Production

end ScriptSyntax

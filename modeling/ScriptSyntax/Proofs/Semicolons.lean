import ScriptSyntax.Proofs.Accord.Statement

/-!
# Written semicolons and inserted ones

Where semicolons are inserted a line break can end a statement.  It does so in three
places: where a semicolon is due, after a jump, and after `return`.  A list of tokens
without line breaks in these places that is read with all semicolons required is
therefore read in the same way with semicolons inserted: each semicolon that was
required is found on its line, and neither a label nor a value is cut off.
-/

namespace ScriptSyntax

open Parse

namespace Token

/-- The token is a keyword that a label may follow. -/
def isJump (token : Token) : Bool :=
  token.isKeyword "break" || token.isKeyword "continue"

/-- The tokens up to and including the first that is no comment. -/
def lead : List Token → List Token
  | [] => []
  | token :: tokens => if token.isComment then token :: lead tokens else [token]

/-- No line break stands before a semicolon, behind a jump, or between `return` and
the token after it that is no comment, and no line comment stands there. -/
def Unbroken : List Token → Prop
  | [] => True
  | token :: tokens =>
      (token.isPunctuation ";" = true → token.newlineBefore = false) ∧
      (token.isJump = true → ∀ next ∈ tokens.take 1, next.newlineBefore = false) ∧
      (token.isKeyword "return" = true →
        ∀ next ∈ lead tokens, next.newlineBefore = false ∧ next.kind ≠ .lineComment) ∧
      Unbroken tokens

instance decidableUnbroken : (tokens : List Token) → Decidable (Unbroken tokens)
  | [] => inferInstanceAs (Decidable True)
  | _ :: tokens =>
      have := decidableUnbroken tokens
      inferInstanceAs (Decidable (_ ∧ _ ∧ _ ∧ _))

theorem Unbroken.of_suffix {tokens later : List Token} (hlater : later <:+ tokens)
    (htokens : Unbroken tokens) : Unbroken later := by
  induction tokens with
  | nil =>
      rw [List.suffix_nil.mp hlater]
      trivial
  | cons token tokens ih =>
      rcases List.suffix_cons_iff.mp hlater with rfl | hlater
      · exact htokens
      · exact ih hlater htokens.2.2.2

theorem mem_lead_append {tokens others : List Token} {token : Token}
    (htoken : token ∈ lead tokens) : token ∈ lead (tokens ++ others) := by
  induction tokens with
  | nil => cases htoken
  | cons first tokens ih =>
      rw [lead] at htoken
      rw [List.cons_append, lead]
      by_cases hcomment : first.isComment = true
      · rw [if_pos hcomment] at htoken ⊢
        rcases List.mem_cons.mp htoken with rfl | htoken
        · exact List.mem_cons_self
        · exact List.mem_cons_of_mem _ (ih htoken)
      · rw [if_neg hcomment] at htoken ⊢
        exact htoken

theorem Unbroken.of_append {tokens others : List Token} (htokens : Unbroken (tokens ++ others)) :
    Unbroken tokens := by
  induction tokens with
  | nil => trivial
  | cons token tokens ih =>
      obtain ⟨hsemicolon, hjump, hreturn, hrest⟩ := htokens
      refine ⟨hsemicolon, ?_, ?_, ih hrest⟩
      · intro hkeyword next hnext
        apply hjump hkeyword next
        cases tokens with
        | nil => cases hnext
        | cons head tail => exact hnext
      · intro hkeyword next hnext
        exact hreturn hkeyword next (mem_lead_append hnext)

end Token

open Token (Unbroken lead)

/-- The end token that is added to a list stands behind the tokens that can be
passed. -/
theorem Cursor.pending_ofTokens_prefix (tokens : List Token) :
    (Cursor.ofTokens tokens).pending <+: tokens := by
  unfold ofTokens
  split
  · exact List.nil_prefix
  · split
    · exact List.dropLast_prefix tokens
    · exact List.prefix_rfl

/-- A semicolon under the cursor is found on its line. -/
theorem Cursor.atSemicolon_of_current {cursor : Cursor} (hcursor : Unbroken cursor.pending)
    (hcurrent : cursor.current.isPunctuation ";" = true) : cursor.atSemicolon = true := by
  have hword := Token.isWord_of_isPunctuation hcurrent
  have hend := Token.isEnd_of_isWord hword
  have hpending := pending_eq_cons hend
  rw [hpending] at hcursor
  have hkind := ((cursor.current.is_iff _ _).mp hcurrent).1
  rw [atSemicolon, hpending, firstOnLine?, hcursor.1 hcurrent, hend, hkind]
  simpa using hcurrent

/-- If the line goes on up to the first token that is no comment, this token is the
first on the line. -/
theorem Cursor.firstOnLine?_of_lead {tokens : List Token}
    (hlead : ∀ next ∈ lead tokens, next.newlineBefore = false ∧ next.kind ≠ .lineComment) :
    firstOnLine? tokens =
      (tokens.dropWhile Token.isComment).head?.filter fun token => !token.isEnd := by
  induction tokens with
  | nil => rfl
  | cons token tokens ih =>
      rw [lead] at hlead
      rw [firstOnLine?, List.dropWhile_cons]
      by_cases hcomment : token.isComment = true
      · rw [if_pos hcomment] at hlead ⊢
        obtain ⟨⟨hnewline, hkind⟩, hrest⟩ := List.forall_mem_cons.mp hlead
        have hblock : token.kind = .blockComment := by
          simpa [Token.isComment, hkind] using hcomment
        rw [← ih hrest, hnewline, Token.isEnd, hblock]
        rfl
      · rw [if_neg hcomment] at hlead ⊢
        obtain ⟨hnewline, hkind⟩ := hlead token List.mem_cons_self
        have hblock : token.kind ≠ .blockComment := by
          intro hblock
          simp [Token.isComment, hblock] at hcomment
        cases hend : token.isEnd <;>
          simp [hnewline, hkind, hblock, hend, Option.filter_some]

/-- Where the line goes on up to the first token that is no comment and ends there, no
operand starts. -/
theorem Cursor.operandStart_of_atLineEnd {cursor : Cursor}
    (hlead : ∀ next ∈ lead cursor.pending, next.newlineBefore = false ∧ next.kind ≠ .lineComment)
    (hline : cursor.atLineEnd = true) :
    Production.OperandStart.of cursor.skipComments.current = .refused := by
  rw [atLineEnd, firstOnLine?_of_lead hlead] at hline
  rw [current, skipComments]
  cases hrest : cursor.pending.dropWhile Token.isComment with
  | nil => simp [Production.OperandStart.of, cursor.last_kind]
  | cons token tokens =>
      rw [hrest] at hline
      rw [List.headD_cons]
      cases hend : token.isEnd with
      | true =>
          have hkind : token.kind = .eof := by simpa [Token.isEnd] using hend
          simp [Production.OperandStart.of, hkind]
      | false =>
          have hbrace : token.isPunctuation "\x7d" = true := by simpa [hend] using hline
          obtain ⟨hkind, hvalue⟩ := (token.is_iff _ _).mp hbrace
          simp [Production.OperandStart.of, hkind, hvalue]

namespace Parse

variable {Result Other : Type} {session : Session}

theorem exists_ok_of_bind_ok {reader : Parse Other} {next : Other → Parse Result}
    {result : Result} {after : Session} (hok : (reader >>= next) session = .ok result after) :
    ∃ value between, reader session = .ok value between := by
  cases houtcome : reader session with
  | ok value between => exact ⟨value, between, rfl⟩
  | error diagnostic between =>
      rw [bind_of_error houtcome] at hok
      cases hok

theorem accept?_congr {test other : Token → Bool}
    (htest : test session.cursor.current = other session.cursor.current) :
    accept? test session = accept? other session := by
  change (if test session.cursor.current = true then _ else _ : Parse (Option Token)) session =
    (if other session.cursor.current = true then _ else _ : Parse (Option Token)) session
  rw [htest]

end Parse

/-- An expression that is read starts with an operand. -/
def Grammar.StartsOperand (grammar : Grammar) : Prop :=
  ∀ (commas : Bool) (session : Session) (id : NodeId) (after : Session),
    grammar.expression commas session = .ok id after →
    Production.OperandStart.of session.cursor.skipComments.current ≠ .refused

theorem Grammar.upTo_startsOperand (semicolons : Semicolons) (depth : Nat) :
    (Grammar.upTo semicolons depth).StartsOperand := by
  intro commas session id after hexpression hrefused
  cases depth with
  | zero => cases hexpression
  | succ depth =>
      obtain ⟨_, _, hassignment⟩ := exists_ok_of_bind_ok hexpression
      obtain ⟨_, _, hconditional⟩ := exists_ok_of_bind_ok hassignment
      obtain ⟨_, _, hoperand⟩ := exists_ok_of_bind_ok hconditional
      have hfails : Production.operand (upTo semicolons depth) true session =
          .error (session.uncommented.cursor.current.unexpected .expectedOperand)
            session.uncommented := by
        have hcomments : eatComments session =
            .ok session.cursor.comment? session.uncommented := rfl
        have hcurrent : Parse.current session.uncommented =
            .ok session.cursor.skipComments.current session.uncommented := rfl
        rw [Production.operand, bind_of_ok hcomments, bind_of_ok hcurrent, hrefused]
        rfl
      rw [hfails] at hoperand
      cases hoperand

/-- Tokens without line breaks where these could end a statement; only programs that are
read matter. -/
def unbrokenPact : Pact where
  outer := Unbroken
  inner := Unbroken
  lenient := True
  inner_of_outer htokens := htokens.2.2.2
  outer_of_inner := id
  outer_suffix := Unbroken.of_suffix
  inner_suffix := Unbroken.of_suffix

/-- A semicolon that was required is found on its line. -/
theorem Parse.endStatement_required_inserted :
    Steady unbrokenPact (endStatement .required) (endStatement .inserted) := by
  intro session hsession
  unfold endStatement
  rw [accords_bind_cursor]
  split
  · exact ⟨rfl, Unbroken.of_suffix ((List.tail_suffix _).trans (List.dropWhile_suffix _)) hsession⟩
  · rename_i hsemicolon
    have hcurrent : ¬session.cursor.current.isPunctuation ";" = true := fun hcurrent =>
      hsemicolon (Cursor.atSemicolon_of_current hsession hcurrent)
    have hfails : expectPunctuation ";" session =
        .error (session.cursor.current.unexpected (.expected ";")) session :=
      congrFun (if_neg hcurrent) session
    unfold Parse.Accords
    dsimp only
    rw [bind_of_error hfails]
    exact .inl trivial

section Modes

variable {first second : Grammar} (hgrammar : first.Accords unbrokenPact second)
variable (hfirst : first.semicolons = .required) (hsecond : second.semicolons = .inserted)

include hgrammar

/-- The label of a jump is on its line. -/
theorem Production.jump_required_inserted (kind : Jump) {session : Session}
    (hsession : Unbroken session.cursor.pending)
    (hjump : session.cursor.current.isJump = true) :
    Parse.Accords unbrokenPact Unbroken (jump first kind) (jump second kind) session := by
  have hcurrent : session.cursor.current.isEnd = false := by
    rcases Bool.or_eq_true_iff.mp hjump with hword | hword
    · exact Token.isEnd_of_isWord (Token.isWord_of_isKeyword hword)
    · exact Token.isEnd_of_isWord (Token.isWord_of_isKeyword hword)
  rw [Cursor.pending_eq_cons hcurrent] at hsession
  obtain ⟨-, hlabel, -, hpassed⟩ := hsession
  -- The two tests differ on an identifier behind a line break only.
  have htest : (session.passed.cursor.current.kind == .identifier &&
        (!session.passed.cursor.current.newlineBefore || first.semicolons == .required)) =
      (session.passed.cursor.current.kind == .identifier &&
        (!session.passed.cursor.current.newlineBefore || second.semicolons == .required)) := by
    cases hpending : session.passed.cursor.pending with
    | nil =>
        rw [Cursor.current_kind_of_pending_nil hpending]
        rfl
    | cons token tokens =>
        have hnewline : session.passed.cursor.current.newlineBefore = false := by
          apply hlabel hjump
          change _ ∈ session.passed.cursor.pending.take 1
          rw [Cursor.current, hpending]
          exact List.mem_cons_self
        simp [hnewline]
  unfold jump
  rw [accords_bind_advance]
  have hlabelled : Steady unbrokenPact _ _ := steady_accept? fun token : Token =>
    token.kind == .identifier && (!token.newlineBefore || first.semicolons == .required)
  apply ((hlabelled session.passed hpassed).congr (accept?_congr htest)).andThen
  intro label
  apply hgrammar.ending.andThen
  intro semicolon
  exact steady_add _

include hfirst hsecond

/-- The value of a `return` is on its line. -/
theorem Production.returns_required_inserted (hstarts : first.StartsOperand) {session : Session}
    (hsession : Unbroken session.cursor.pending)
    (hreturn : session.cursor.current.isKeyword "return" = true) :
    Parse.Accords unbrokenPact Unbroken (returns first) (returns second) session := by
  have hcurrent := Token.isEnd_of_isWord (Token.isWord_of_isKeyword hreturn)
  rw [Cursor.pending_eq_cons hcurrent] at hsession
  obtain ⟨-, -, hlead, hpassed⟩ := hsession
  unfold returns
  rw [accords_bind_advance, accords_bind_cursor, hfirst, hsecond]
  by_cases hsemicolon : session.passed.cursor.atSemicolon = true
  · rw [if_pos hsemicolon, if_pos hsemicolon]
    refine endStatement_required_inserted.andThen ?_ session.passed hpassed
    intro semicolon
    exact steady_add _
  · rw [if_neg hsemicolon, if_neg hsemicolon, if_neg (by simp)]
    by_cases hline : session.passed.cursor.atLineEnd = true
    · have hrefused := Cursor.operandStart_of_atLineEnd (hlead hreturn) hline
      cases hvalue : first.expression true session.passed with
      | ok value after => exact absurd hrefused (hstarts true session.passed value after hvalue)
      | error diagnostic after =>
          unfold Parse.Accords
          rw [bind_of_error hvalue]
          exact .inl trivial
    · rw [if_neg (by simpa using hline)]
      refine (hgrammar.expression true).andThen ?_ session.passed hpassed
      intro value
      apply endStatement_required_inserted.andThen
      intro semicolon
      exact steady_add _

theorem Grammar.jumpsAlike_required_inserted (hstarts : first.StartsOperand) :
    first.JumpsAlike unbrokenPact second where
  jump kind session hsession hopens := by
    apply Production.jump_required_inserted hgrammar kind hsession
    cases kind with
    | breaks => exact Bool.or_eq_true_iff.mpr (.inl hopens)
    | continues => exact Bool.or_eq_true_iff.mpr (.inr hopens)
  returns session hsession hreturn :=
    Production.returns_required_inserted hgrammar hfirst hsecond hstarts hsession hreturn

end Modes

/-- However deep, the grammar with inserted semicolons reads what the one with required
semicolons reads. -/
theorem Grammar.upTo_required_inserted (depth : Nat) :
    (Grammar.upTo .required depth).Accords unbrokenPact (Grammar.upTo .inserted depth) := by
  have hrefuse : ∀ {Result : Type} {reason : Reason},
      Steady unbrokenPact (refuse reason : Parse Result) (refuse reason) :=
    fun _ _ => .inl trivial
  induction depth with
  | zero =>
      exact ⟨exhausted_traced .required, endStatement_required_inserted, fun _ => hrefuse,
        fun _ => hrefuse, hrefuse, hrefuse, fun _ => hrefuse, hrefuse, fun _ => hrefuse,
        fun _ _ => hrefuse, fun _ _ => hrefuse, fun _ => hrefuse, hrefuse⟩
  | succ depth ih =>
      have hjumps := jumpsAlike_required_inserted ih (upTo_semicolons .required depth)
        (upTo_semicolons .inserted depth) (upTo_startsOperand .required depth)
      apply ih.unfold hjumps
      · intro tokens
        exact Iff.rfl
      · exact Iff.rfl
      · rw [upTo_semicolons, upTo_semicolons]
        exact endStatement_required_inserted

/-- A program that is read with all semicolons required is read as the same tree with
semicolons inserted, if no line break stands where it could end a statement. -/
theorem parse_inserted_of_required {tokens : List Token} {tree : Tree}
    (htokens : Token.Unbroken tokens) (hparse : parse .required tokens = .ok tree) :
    parse .inserted tokens = .ok tree := by
  obtain ⟨id, after, rfl, hrun⟩ := run_of_parse hparse
  obtain ⟨others, hothers⟩ := Cursor.pending_ofTokens_prefix tokens
  have hpending : Unbroken (Session.start tokens).cursor.pending := by
    rw [← hothers] at htokens
    exact htokens.of_append
  have hgrammar := Grammar.upTo_required_inserted ((Cursor.ofTokens tokens).pending.length + 1)
  have hjumps := Grammar.jumpsAlike_required_inserted hgrammar (Grammar.upTo_semicolons _ _)
    (Grammar.upTo_semicolons _ _) (Grammar.upTo_startsOperand _ _)
  have haccords := Production.program_stays hgrammar hjumps (.start tokens) hpending
  unfold Parse.Accords at haccords
  rw [hrun] at haccords
  exact parse_of_run haccords.1

/-- A comment between a jump and what it gives back, and a label, do no harm. -/
theorem parse_inserted_of_required_return :
    let tokens := [Token.plain .keyword "return", Token.plain .blockComment "/* c */",
      Token.plain .identifier "x", Token.plain .punctuation ";",
      Token.plain .keyword "break", Token.plain .identifier "l", Token.plain .punctuation ";"]
    Token.Unbroken tokens ∧
      ∃ tree, parse .required tokens = .ok tree ∧ parse .inserted tokens = .ok tree ∧
        tree.ids.map tree.shape? =
          [some (.leaf .name (.plain .identifier "x")), some (.returns (some 1)),
            some (.jump .breaks (some (.plain .identifier "l"))), some (.root [2, 3])] := by
  intro tokens
  have htokens : Token.Unbroken tokens := by decide
  have hread : (parse .required tokens).toOption.map (fun tree => tree.ids.map tree.shape?) =
      some [some (.leaf .name (.plain .identifier "x")), some (.returns (some 1)),
        some (.jump .breaks (some (.plain .identifier "l"))), some (.root [2, 3])] := by
    decide +kernel
  obtain ⟨tree, hparse, hshapes⟩ := exists_parse_eq hread
  exact ⟨htokens, tree, hparse, parse_inserted_of_required htokens hparse, hshapes⟩

end ScriptSyntax

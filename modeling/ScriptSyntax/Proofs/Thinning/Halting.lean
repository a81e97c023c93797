import ScriptSyntax.Proofs.RoundTrip.Neighbours
import ScriptSyntax.Proofs.Thinning.Reader

/-!
# Where readers halt

What the readers of one run do at a comment, or before a token that they cannot use: those
that continue a construct give it back as it is, and most others fail.
-/

namespace ScriptSyntax

open Parse Thinning

namespace Token

/-- The token continues an operand. -/
def isSuffix (token : Token) : Bool :=
  token.isPunctuation "." || token.isPunctuation "[" || token.isPunctuation "(" || token.isPostfix

/-- The token continues an expression; a comma does so where commas join expressions. -/
def continues (commas : Bool) (token : Token) : Bool :=
  token.kind == .operator || token.isPunctuation "." || token.isPunctuation "[" ||
    token.isPunctuation "(" || (commas && token.isPunctuation ",")

/-- The token continues a statement that a branch or a clause may follow. -/
def continuesStatement (token : Token) : Bool :=
  token.isKeyword "else" || token.isKeyword "catch" || token.isKeyword "finally"

variable {token : Token} {commas : Bool}

theorem isWord_of_isIdentifier (htoken : (token.kind == .identifier) = true) :
    token.isWord = true :=
  isWord_of_kind (beq_iff_eq.mp htoken) rfl

theorem isWord_of_continues (htoken : token.continues commas = true) : token.isWord = true := by
  simp only [continues, Bool.or_eq_true, Bool.and_eq_true, beq_iff_eq] at htoken
  rcases htoken with (((hkind | hmark) | hmark) | hmark) | ⟨-, hmark⟩
  · exact isWord_of_kind hkind rfl
  all_goals exact isWord_of_isPunctuation hmark

theorem isWord_of_isSuffix (htoken : token.isSuffix = true) : token.isWord = true := by
  simp only [isSuffix, Bool.or_eq_true] at htoken
  rcases htoken with ((hmark | hmark) | hmark) | hpostfix
  · exact isWord_of_isPunctuation hmark
  · exact isWord_of_isPunctuation hmark
  · exact isWord_of_isPunctuation hmark
  · exact isWord_of_isPostfix hpostfix

theorem continues_of_kind (htoken : token.kind = .operator) :
    token.continues commas = true := by
  simp [continues, htoken]

theorem continues_of_false (htoken : token.continues false = true) (commas : Bool) :
    token.continues commas = true := by
  simp only [continues, Bool.false_and, Bool.or_false] at htoken
  rw [continues, htoken, Bool.true_or]

theorem kind_of_not_continues (htoken : token.continues commas = false) :
    token.kind ≠ .operator := by
  intro hkind
  simp [continues, hkind] at htoken

theorem isOperator_of_not_continues (htoken : token.continues commas = false) (symbol : String) :
    token.isOperator symbol = false := by
  simp [isOperator, is, kind_of_not_continues htoken]

theorem isAssignment_of_not_continues (htoken : token.continues commas = false) :
    token.isAssignment = false := by
  simp [isAssignment, kind_of_not_continues htoken]

theorem binding_of_not_continues (htoken : token.continues commas = false) :
    token.binding = .lowest := by
  rw [binding, if_neg (kind_of_not_continues htoken)]

theorem isSuffix_of_not_continues (htoken : token.continues commas = false) :
    token.isSuffix = false := by
  have hpostfix : token.isPostfix = false := by
    simp [isPostfix, kind_of_not_continues htoken]
  simp only [continues, Bool.or_eq_false_iff] at htoken
  simp [isSuffix, hpostfix, htoken.1.1.1.2, htoken.1.1.2, htoken.1.2]

theorem continues_of_isSuffix (htoken : token.isSuffix = true) :
    token.continues commas = true := by
  cases hcontinues : token.continues commas with
  | true => rfl
  | false => rw [← htoken, isSuffix_of_not_continues hcontinues]

theorem isComma_of_not_continues (htoken : token.continues commas = false) :
    (commas && token.isPunctuation ",") = false := by
  simp only [continues, Bool.or_eq_false_iff] at htoken
  exact htoken.2

/-- What continues an expression does not close anything. -/
theorem isPunctuation_of_continues (htoken : token.continues commas = true) {mark : String}
    (hmark : mark ∈ closingMarks) : token.isPunctuation mark = false := by
  cases hclosing : token.isPunctuation mark with
  | false => rfl
  | true =>
      obtain ⟨hkind, rfl⟩ := (token.is_iff _ _).mp hclosing
      simp only [closingMarks, List.mem_cons, List.not_mem_nil, or_false] at hmark
      rcases hmark with hvalue | hvalue | hvalue | hvalue | hvalue <;>
        simp [continues, isPunctuation, is, hkind, hvalue] at htoken

theorem isComma_of_continues (htoken : token.continues false = true) :
    token.isPunctuation "," = false := by
  cases hcomma : token.isPunctuation "," with
  | false => rfl
  | true =>
      obtain ⟨hkind, hvalue⟩ := (token.is_iff _ _).mp hcomma
      simp [continues, isPunctuation, is, hkind, hvalue] at htoken

theorem kind_of_continuesStatement (htoken : token.continuesStatement = true) :
    token.kind = .keyword := by
  simp only [continuesStatement, Bool.or_eq_true] at htoken
  rcases htoken with (hword | hword) | hword <;> exact ((token.is_iff _ _).mp hword).1

end Token

/-- Behind the comments comes what is first on the line. -/
theorem Cursor.current_skipComments {cursor : Cursor} {token : Token}
    (hfirst : firstOnLine? cursor.pending = some token) :
    cursor.skipComments.current = token := by
  have hdropped : ∃ others, cursor.pending.dropWhile Token.isComment = token :: others := by
    generalize cursor.pending = tokens at hfirst
    induction tokens with
    | nil => cases hfirst
    | cons next tokens ih =>
        rw [firstOnLine?] at hfirst
        split at hfirst
        · cases hfirst
        · rename_i hon
          split at hfirst
          · rename_i hblock
            rw [List.dropWhile_cons, if_pos (isComment_of_blockComment (beq_iff_eq.mp hblock))]
            exact ih hfirst
          · rename_i hblock
            cases hfirst
            have hword : token.isComment = false := by
              simp_all [Token.isComment]
            rw [List.dropWhile_cons, hword, if_neg Bool.false_ne_true]
            exact ⟨tokens, rfl⟩
  obtain ⟨others, hothers⟩ := hdropped
  rw [current, skipComments, hothers]
  rfl

namespace Session.Stalled

variable {test : Token → Bool} {session : Session}

theorem mono {wider : Token → Bool} (hstalled : session.Stalled test)
    (htest : ∀ token, test token = true → wider token = true) : session.Stalled wider := by
  obtain ⟨hcomment, token, hahead, htoken⟩ := hstalled
  exact ⟨hcomment, token, hahead, htest token htoken⟩

/-- No word stands where a run is stalled. -/
theorem test_current {other : Token → Bool} (hstalled : session.Stalled test)
    (hother : ∀ token, other token = true → token.isWord = true) :
    other session.cursor.current = false :=
  test_of_blockComment hother hstalled.comment

theorem current_uncommented (hstalled : session.Stalled test) :
    test session.uncommented.cursor.current = true := by
  obtain ⟨-, token, hahead, htoken⟩ := hstalled
  rw [uncommented, Cursor.current_skipComments hahead]
  exact htoken

/-- Behind a comment the run is still stalled, or stands on the word. -/
theorem passed (hstalled : session.Stalled test) :
    session.passed.Stalled test ∨ test session.passed.cursor.current = true := by
  obtain ⟨hcomment, token, hahead, htoken⟩ := hstalled
  obtain ⟨⟨pending, last, hlast⟩, tree⟩ := session
  cases pending with
  | nil => cases hahead
  | cons first pending =>
      have hkind : first.kind = .blockComment := hcomment
      have hrest : Cursor.firstOnLine? pending = some token := by
        change Cursor.firstOnLine? (first :: pending) = some token at hahead
        rw [Cursor.firstOnLine?] at hahead
        split at hahead
        · cases hahead
        · rwa [if_pos (beq_iff_eq.mpr hkind)] at hahead
      cases pending with
      | nil => cases hrest
      | cons second pending =>
          by_cases hsecond : second.kind = .blockComment
          · exact .inl ⟨hsecond, token, hrest, htoken⟩
          · right
            rw [Cursor.firstOnLine?] at hrest
            split at hrest
            · cases hrest
            · rw [if_neg (by simpa using hsecond)] at hrest
              cases hrest
              exact htoken

end Session.Stalled

/-- Only punctuation and the end of the input close a list of statements. -/
theorem Enclosure.closedBy_of_kind (enclosure : Enclosure) {token : Token}
    (hpunctuation : token.kind ≠ .punctuation) (hend : token.kind ≠ .eof) :
    enclosure.closedBy token = false := by
  cases enclosure <;>
    simp [closedBy, Token.isPunctuation, Token.is, Token.isEnd, hpunctuation, hend]

namespace Thinning

variable {Result : Type} {test : Token → Bool}

/-- A word is not expected where a run is stalled. -/
theorem fails_expect_stalled {expected : Token → Bool} {reason : Reason}
    (hexpected : ∀ token, expected token = true → token.isWord = true) :
    Fails (Session.Stalled test) (expect expected reason) :=
  fails_expect fun _ hstalled => hstalled.test_current hexpected

/-- Behind the comments a stalled run stands on what comes next. -/
theorem fails_eatComments {next : Option Token → Parse Result}
    (hnext : ∀ comment, Fails (fun session => test session.cursor.current = true) (next comment)) :
    Fails (Session.Stalled test) (eatComments >>= next) := by
  intro session value after hstalled hrun
  exact hnext _ session.uncommented value after hstalled.current_uncommented hrun

theorem fails_separator {closing : String} (hclosing : closing ∈ Token.closingMarks) :
    Fails (fun session => session.cursor.current.continues false = true)
      (Production.separator closing) := by
  intro session value after hcurrent hrun
  have hfails : (Production.separator closing).Meets session (fun _ _ => False)
      (fun _ => True) := by
    unfold Production.separator
    rw [meets_bind_current, Token.isComma_of_continues hcurrent, if_neg Bool.false_ne_true,
      Token.isPunctuation_of_continues hcurrent hclosing, Bool.not_false, if_pos rfl]
    exact meets_refuse.mpr trivial
  exact hfails.of_ok hrun

/-- A statement does not end before a word other than a semicolon and a closing brace. -/
theorem fails_endStatement (semicolons : Semicolons)
    (hsemicolon : ∀ token, test token = true → token.isPunctuation ";" = false)
    (hbrace : ∀ token, test token = true → token.isPunctuation "\x7d" = false) :
    Fails (Session.Stalled test) (endStatement semicolons) := by
  intro session value after hstalled hrun
  obtain ⟨hcomment, token, hahead, htoken⟩ := hstalled
  have hopen : session.cursor.atSemicolon = false := by
    rw [Cursor.atSemicolon, hahead]
    exact hsemicolon token htoken
  have hline : session.cursor.atLineEnd = false := by
    rw [Cursor.atLineEnd, hahead]
    exact hbrace token htoken
  have hfails : (endStatement semicolons).Meets session (fun _ _ => False) (fun _ => True) := by
    unfold endStatement
    rw [meets_bind_cursor, hopen, if_neg Bool.false_ne_true]
    cases semicolons with
    | required =>
        have hmark : (expectPunctuation ";").Meets session (fun _ _ => False) (fun _ => True) := by
          unfold expectPunctuation
          rw [meets_expect, if_neg]
          · trivial
          · simp [Token.isPunctuation, Token.is, hcomment]
        exact hmark.bind fun _ _ => False.elim
    | inserted =>
        dsimp only
        rw [hline, if_neg Bool.false_ne_true]
        exact meets_refuse.mpr trivial
  exact hfails.of_ok hrun

/-- What continues an expression does not end a statement. -/
theorem fails_endStatement_of_continues (semicolons : Semicolons) (commas : Bool) :
    Fails (Session.Stalled (Token.continues commas)) (endStatement semicolons) :=
  fails_endStatement semicolons
    (fun _ htoken => Token.isPunctuation_of_continues htoken (by decide))
    fun _ htoken => Token.isPunctuation_of_continues htoken (by decide)

end Thinning

/-- What the readers of a grammar do, if they succeed, at a comment or before a token that they
cannot use. -/
structure Grammar.Halts (grammar : Grammar) : Prop where
  suffixes (target : NodeId) (calls : Bool) {session : Session} :
    session.cursor.current.isSuffix = false →
    (grammar.suffixes target calls).Meets session
      (fun id after => id = target ∧ after = session) (fun _ => True)
  operations (left : NodeId) (floor : Token.Binding) {session : Session} :
    session.cursor.current.binding = .lowest →
    (grammar.operations left floor).Meets session
      (fun id after => id = left ∧ after = session) (fun _ => True)
  /-- A name that nothing continues is read alone. -/
  expression_name (commas : Bool) {session : Session} :
    session.uncommented.cursor.current.kind = .identifier →
    session.uncommented.cursor.next.continues commas = false →
    (grammar.expression commas).Meets session
      (fun _ after => after.cursor = session.uncommented.cursor.advance) (fun _ => True)
  expression_refused (commas : Bool) {session : Session} :
    Production.OperandStart.of session.uncommented.cursor.current = .refused →
    (grammar.expression commas).Meets session (fun _ _ => False) (fun _ => True)
  declarations_name {session : Session} :
    session.uncommented.cursor.next.isOperator "=" = false →
    session.uncommented.cursor.next.isPunctuation "," = false →
    grammar.declarations.Meets session
      (fun _ after => after.cursor = session.uncommented.cursor.advance) (fun _ => True)
  declarations_refused {session : Session} :
    session.uncommented.cursor.current.kind ≠ .identifier →
    grammar.declarations.Meets session (fun _ _ => False) (fun _ => True)
  /-- What continues a statement does not begin one. -/
  statements_stalled (enclosure : Enclosure) {session : Session} :
    session.Stalled Token.continuesStatement ∨
      session.cursor.current.continuesStatement = true →
    (grammar.statements enclosure).Meets session (fun _ _ => False) (fun _ => True)

namespace Production

variable {grammar : Grammar} {session : Session}

theorem suffixes_eq (target : NodeId) (calls : Bool)
    (hcurrent : session.cursor.current.isSuffix = false) :
    suffixes grammar target calls session = .ok target session := by
  simp only [Token.isSuffix, Bool.or_eq_false_iff] at hcurrent
  obtain ⟨⟨⟨hdot, hbracket⟩, hparenthesis⟩, hpostfix⟩ := hcurrent
  have hread : suffixes grammar target calls session = (pure target : Parse NodeId) session := by
    change (if session.cursor.current.isPunctuation "." = true then _ else _ : Parse NodeId)
      session = _
    simp [hdot, hbracket, hparenthesis, hpostfix]
  exact hread

theorem operations_eq (left : NodeId) (floor : Token.Binding)
    (hcurrent : session.cursor.current.binding ≤ floor) :
    operations grammar left floor session = .ok left session := by
  have hread : operations grammar left floor session = (pure left : Parse NodeId) session := by
    change (if session.cursor.current.binding ≤ floor then _ else _ : Parse NodeId) session = _
    rw [if_pos hcurrent]
  exact hread

/-- A name is an operand of its own if nothing continues it. -/
theorem operand_name (hgrammar : grammar.Halts) (calls : Bool)
    (hname : session.uncommented.cursor.current.kind = .identifier)
    (hnext : session.uncommented.cursor.next.isSuffix = false) :
    (operand grammar calls).Meets session
      (fun _ after => after.cursor = session.uncommented.cursor.advance) (fun _ => True) := by
  have hof : OperandStart.of session.uncommented.cursor.current = .leaf .name := by
    rw [OperandStart.of, hname]
  unfold operand
  rw [meets_bind_eatComments, meets_bind_current, hof]
  dsimp only
  rw [meets_bind_advance, meets_bind_add]
  have hcurrent : (session.uncommented.passed.grown
      (.leaf .name session.uncommented.cursor.current)).cursor.current.isSuffix = false := hnext
  apply Meets.mono (hgrammar.suffixes _ calls hcurrent)
  · rintro id after ⟨-, rfl⟩
    rfl
  · exact fun _ => id

theorem conditional_name (hgrammar : grammar.Halts)
    (hname : session.uncommented.cursor.current.kind = .identifier) {commas : Bool}
    (hnext : session.uncommented.cursor.next.continues commas = false) :
    (conditional grammar).Meets session
      (fun _ after => after.cursor = session.uncommented.cursor.advance) (fun _ => True) := by
  apply (operand_name hgrammar true hname (Token.isSuffix_of_not_continues hnext)).bind
  intro first read hread
  have hcurrent : read.cursor.current = session.uncommented.cursor.next := by
    rw [hread]
    rfl
  have hbinding : read.cursor.current.binding = .lowest := by
    rw [hcurrent, Token.binding_of_not_continues hnext]
  apply (hgrammar.operations first .lowest hbinding).bind
  rintro test _ ⟨-, rfl⟩
  rw [meets_bind_current, hcurrent, Token.isOperator_of_not_continues hnext,
    if_neg Bool.false_ne_true, meets_pure]
  exact hread

theorem expression_name (hgrammar : grammar.Halts) (commas : Bool)
    (hname : session.uncommented.cursor.current.kind = .identifier)
    (hnext : session.uncommented.cursor.next.continues commas = false) :
    (expression grammar commas).Meets session
      (fun _ after => after.cursor = session.uncommented.cursor.advance) (fun _ => True) := by
  have hcurrent : ∀ read : Session, read.cursor = session.uncommented.cursor.advance →
      read.cursor.current = session.uncommented.cursor.next := by
    intro read hread
    rw [hread]
    rfl
  have hassignment : (assignment grammar).Meets session
      (fun _ after => after.cursor = session.uncommented.cursor.advance) (fun _ => True) := by
    apply (conditional_name hgrammar hname hnext).bind
    intro left read hread
    rw [meets_bind_current, hcurrent read hread, Token.isAssignment_of_not_continues hnext,
      Bool.not_false, if_pos rfl, meets_pure]
    exact hread
  apply hassignment.bind
  intro first read hread
  rw [meets_bind_current, hcurrent read hread, Token.isComma_of_not_continues hnext,
    if_neg Bool.false_ne_true, meets_pure]
  exact hread

theorem operand_refused (calls : Bool)
    (hcurrent : OperandStart.of session.uncommented.cursor.current = .refused) :
    (operand grammar calls).Meets session (fun _ _ => False) (fun _ => True) := by
  unfold operand
  rw [meets_bind_eatComments, meets_bind_current, hcurrent]
  exact meets_refuse.mpr trivial

theorem expression_refused (commas : Bool)
    (hcurrent : OperandStart.of session.uncommented.cursor.current = .refused) :
    (expression grammar commas).Meets session (fun _ _ => False) (fun _ => True) := by
  have hconditional : (conditional grammar).Meets session (fun _ _ => False) (fun _ => True) :=
    (operand_refused true hcurrent).bind fun _ _ => False.elim
  have hassignment : (assignment grammar).Meets session (fun _ _ => False) (fun _ => True) :=
    hconditional.bind fun _ _ => False.elim
  exact hassignment.bind fun _ _ => False.elim

theorem declarations_name
    (hequals : session.uncommented.cursor.next.isOperator "=" = false)
    (hcomma : session.uncommented.cursor.next.isPunctuation "," = false) :
    (declarations grammar).Meets session
      (fun _ after => after.cursor = session.uncommented.cursor.advance) (fun _ => True) := by
  have hdeclaration : (declaration grammar).Meets session.uncommented
      (fun _ after => after.cursor = session.uncommented.cursor.advance) (fun _ => True) := by
    have hname : (expectIdentifier .expectedIdentifier).Meets session.uncommented
        (fun _ after => after = session.uncommented.passed) (fun _ => True) := by
      unfold expectIdentifier
      rw [meets_expect]
      split <;> trivial
    apply hname.bind
    rintro name _ rfl
    have hcurrent : session.uncommented.passed.cursor.current.isOperator "=" = false := hequals
    rw [meets_bind_readAfter?, hcurrent, if_neg Bool.false_ne_true]
    exact meets_add.mpr rfl
  unfold declarations
  rw [meets_bind_eatComments]
  apply hdeclaration.bind
  intro first read hread
  have hcurrent : read.cursor.current.isPunctuation "," = false := by
    rw [hread]
    exact hcomma
  rw [meets_bind_current, hcurrent, if_neg Bool.false_ne_true]
  exact meets_pure.mpr hread

theorem declarations_refused
    (hcurrent : session.uncommented.cursor.current.kind ≠ .identifier) :
    (declarations grammar).Meets session (fun _ _ => False) (fun _ => True) := by
  have hname : (expectIdentifier .expectedIdentifier).Meets session.uncommented
      (fun _ _ => False) (fun _ => True) := by
    unfold expectIdentifier
    rw [meets_expect, if_neg (by simpa using hcurrent)]
    trivial
  have hdeclaration : (declaration grammar).Meets session.uncommented (fun _ _ => False)
      (fun _ => True) :=
    hname.bind fun _ _ => False.elim
  unfold declarations
  rw [meets_bind_eatComments]
  exact hdeclaration.bind fun _ _ => False.elim

theorem Opening.of_comment {labels : Bool} {token next : Token}
    (htoken : token.isComment = true) : Opening.of labels token next = .comment := by
  rw [Opening.of]
  cases hkind : token.kind <;> simp_all [Token.isComment]

theorem statement_comment (labels : Bool) (hcurrent : session.cursor.current.isComment = true) :
    (statement grammar labels).Meets session
      (fun id after => id = session.tree.size + 1 ∧
        after = session.passed.grown (.leaf .comment session.cursor.current)) (fun _ => True) := by
  unfold statement
  rw [meets_bind_current, meets_bind_next, Opening.of_comment hcurrent]
  exact ⟨rfl, rfl⟩

/-- Words that continue statements are refused where one is due. -/
theorem Opening.of_continuesStatement {labels : Bool} {token next : Token}
    (htoken : token.continuesStatement = true) :
    Opening.of labels token next = .refused .unexpectedToken := by
  simp only [Token.continuesStatement, Bool.or_eq_true, Token.isKeyword, Token.is_iff] at htoken
  rcases htoken with (⟨hkind, hvalue⟩ | ⟨hkind, hvalue⟩) | ⟨hkind, hvalue⟩ <;>
    rw [Opening.of, hkind, hvalue] <;> rfl

theorem statements_stalled (hgrammar : grammar.Halts) (enclosure : Enclosure)
    (hsession : session.Stalled Token.continuesStatement ∨
      session.cursor.current.continuesStatement = true) :
    (statements grammar enclosure).Meets session (fun _ _ => False) (fun _ => True) := by
  have hopen : enclosure.closedBy session.cursor.current = false := by
    rcases hsession with hstalled | hword
    · exact enclosure.closedBy_of_kind (by simp [hstalled.comment]) (by simp [hstalled.comment])
    · have hkind := Token.kind_of_continuesStatement hword
      exact enclosure.closedBy_of_kind (by simp [hkind]) (by simp [hkind])
  unfold statements
  rw [meets_bind_current, hopen, if_neg Bool.false_ne_true]
  rcases hsession with hstalled | hword
  · apply (statement_comment _ (Cursor.isComment_of_blockComment hstalled.comment)).bind
    rintro first _ ⟨-, rfl⟩
    have hrest : (grammar.statements enclosure).Meets
        (session.passed.grown (.leaf .comment session.cursor.current)) (fun _ _ => False)
        (fun _ => True) := by
      exact hgrammar.statements_stalled enclosure hstalled.passed
    exact hrest.bind fun _ _ => False.elim
  · have hrefused : (statement grammar enclosure.admitsLabels).Meets session (fun _ _ => False)
        (fun _ => True) := by
      unfold statement
      rw [meets_bind_current, meets_bind_next, Opening.of_continuesStatement hword]
      exact meets_refuse.mpr trivial
    exact hrefused.bind fun _ _ => False.elim

end Production

theorem Grammar.exhausted_halts (semicolons : Semicolons) : (exhausted semicolons).Halts where
  suffixes _ _ _ _ := trivial
  operations _ _ _ _ := trivial
  expression_name _ _ _ _ := trivial
  expression_refused _ _ _ := trivial
  declarations_name _ _ := trivial
  declarations_refused _ := trivial
  statements_stalled _ _ _ := trivial

theorem Grammar.unfold_halts {grammar : Grammar} (hgrammar : grammar.Halts) :
    grammar.unfold.Halts where
  suffixes target calls session hcurrent := by
    have hread : grammar.unfold.suffixes target calls session = .ok target session :=
      Production.suffixes_eq target calls hcurrent
    rw [Meets, hread]
    exact ⟨rfl, rfl⟩
  operations left floor session hcurrent := by
    have hread : grammar.unfold.operations left floor session = .ok left session :=
      Production.operations_eq left floor (hcurrent ▸ Token.Binding.lowest_le floor)
    rw [Meets, hread]
    exact ⟨rfl, rfl⟩
  expression_name commas _ := Production.expression_name hgrammar commas
  expression_refused commas _ := Production.expression_refused commas
  declarations_name := Production.declarations_name
  declarations_refused := Production.declarations_refused
  statements_stalled enclosure _ := Production.statements_stalled hgrammar enclosure

theorem Grammar.upTo_halts (semicolons : Semicolons) (depth : Nat) :
    (upTo semicolons depth).Halts := by
  induction depth with
  | zero => exact exhausted_halts semicolons
  | succ depth ih => exact unfold_halts ih

end ScriptSyntax

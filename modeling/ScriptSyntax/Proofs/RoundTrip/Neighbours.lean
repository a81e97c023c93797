import ScriptSyntax.Proofs.RoundTrip.Retelling
import ScriptSyntax.Proofs.Trace.Expression

/-!
# Words at the edges of expressions

An expression ends where the token after it does not continue it.  In the
canonical form the token after it is the same, or a mark that continues no
expression: a semicolon that was not written, or a bracket behind a comma that
was.  The first words of an expression are the tokens it was read from, which is
what tells a label and the header of a loop from an expression.
-/

namespace ScriptSyntax

namespace Token

/-- Marks that continue no expression. -/
def closingMarks : List String :=
  [")", "]", "\x7d", ":", ";"]

/-- Where operators that have to stand on the line of their operand do so. -/
def OnLine (token : Token) : Prop :=
  token.isPostfix = true → token.newlineBefore = false

/-- What stands behind an expression in its canonical form, given what stands
behind it. -/
def Follows (token copy : Token) : Prop :=
  (copy = token.bare ∧ token.OnLine) ∨ ∃ mark ∈ closingMarks, copy = .plain .punctuation mark

variable {token copy : Token} {mark symbol : String}

theorem kind_ne_of_is {token : Token} {kind other : Kind} {value : String}
    (htoken : token.is kind value = true) (hne : kind ≠ other) : token.kind ≠ other := by
  rwa [((token.is_iff _ _).mp htoken).1]

theorem isPunctuation_plain (mark : String) :
    (plain .punctuation mark).isPunctuation mark = true :=
  (is_iff _ _ _).mpr ⟨rfl, rfl⟩

theorem follows_bare (honLine : token.OnLine) : token.Follows token.bare :=
  .inl ⟨rfl, honLine⟩

theorem follows_mark (hmark : mark ∈ closingMarks) : token.Follows (.plain .punctuation mark) :=
  .inr ⟨mark, hmark, rfl⟩

theorem onLine_of_kind (htoken : token.kind ≠ .operator) : token.OnLine := by
  intro hsuffix
  simp [isPostfix, htoken] at hsuffix

theorem onLine_of_isPunctuation (htoken : token.isPunctuation mark = true) : token.OnLine := by
  apply onLine_of_kind
  rw [((token.is_iff _ _).mp htoken).1]
  decide

theorem follows_of_isPunctuation (htoken : token.isPunctuation mark = true) :
    token.Follows (.plain .punctuation mark) := by
  rw [← bare_of_isPunctuation htoken]
  exact follows_bare (onLine_of_isPunctuation htoken)

/-- Operators that stand between operands may stand on any line. -/
theorem onLine_of_not_mem (htoken : token.value ∉ postfixOperators) : token.OnLine := by
  intro hsuffix
  simp [isPostfix, htoken] at hsuffix

theorem onLine_of_isOperator (htoken : token.isOperator symbol = true)
    (hsymbol : symbol ∉ postfixOperators) : token.OnLine := by
  apply onLine_of_not_mem
  rwa [((token.is_iff _ _).mp htoken).2]

theorem onLine_of_isAssignment (htoken : token.isAssignment = true) : token.OnLine := by
  have hdisjoint : ∀ symbol ∈ assignmentOperators, symbol ∉ postfixOperators := by decide
  apply onLine_of_not_mem
  apply hdisjoint
  simp only [isAssignment, Bool.and_eq_true, List.contains_iff_mem] at htoken
  exact htoken.2

theorem onLine_of_not_binding_le {floor : Binding} (htoken : ¬token.binding ≤ floor) :
    token.OnLine := by
  have hlowest : ∀ symbol ∈ postfixOperators, Binding.ofOperator symbol = .lowest := by decide
  apply onLine_of_not_mem
  intro hmem
  apply htoken
  unfold binding
  split
  · rw [hlowest _ hmem]
    exact floor.lowest_le
  · exact floor.lowest_le

/-- A test of kind and value that neither the token nor a closing mark passes is
not passed by what follows. -/
theorem Follows.test_eq_false (test : Token → Bool) (hfollows : token.Follows copy)
    (hbare : test token.bare = false)
    (hclosing : ∀ mark ∈ closingMarks, test (.plain .punctuation mark) = false) :
    test copy = false := by
  obtain ⟨rfl, -⟩ | ⟨mark, hmark, rfl⟩ := hfollows
  · exact hbare
  · exact hclosing mark hmark

theorem Follows.isPunctuation_eq_false (hfollows : token.Follows copy)
    (htoken : token.isPunctuation mark = false) (hmark : mark ∉ closingMarks) :
    copy.isPunctuation mark = false := by
  apply hfollows.test_eq_false (·.isPunctuation mark) htoken
  intro closing hclosing
  have hne : closing ≠ mark := by
    rintro rfl
    exact hmark hclosing
  simp [isPunctuation, is, plain, hne]

theorem Follows.isOperator_eq_false (hfollows : token.Follows copy)
    (htoken : token.isOperator symbol = false) : copy.isOperator symbol = false :=
  hfollows.test_eq_false (·.isOperator symbol) htoken fun _ _ => rfl

theorem Follows.isAssignment_eq_false (hfollows : token.Follows copy)
    (htoken : token.isAssignment = false) : copy.isAssignment = false :=
  hfollows.test_eq_false isAssignment htoken fun _ _ => rfl

theorem Follows.binding_le {floor : Binding} (hfollows : token.Follows copy)
    (htoken : token.binding ≤ floor) : copy.binding ≤ floor := by
  obtain ⟨rfl, -⟩ | ⟨mark, -, rfl⟩ := hfollows
  · exact htoken
  · exact floor.lowest_le

/-- An operator that is not taken because of its line does not follow. -/
theorem Follows.isPostfix_eq_false (hfollows : token.Follows copy)
    (htoken : ¬(token.isPostfix = true ∧ token.newlineBefore = false)) :
    copy.isPostfix = false := by
  obtain ⟨rfl, honLine⟩ | ⟨mark, -, rfl⟩ := hfollows
  · rw [isPostfix_bare, ← Bool.not_eq_true]
    intro hsuffix
    exact htoken ⟨hsuffix, honLine hsuffix⟩
  · rfl

/-- The token says something: it is no comment, does not end the line or the input
and closes nothing. -/
structure Proper (token : Token) : Prop where
  not_newline : token.newlineBefore = false
  not_isComment : token.isComment = false
  not_isEnd : token.isEnd = false
  not_closing : ∀ mark ∈ closingMarks, token.isPunctuation mark = false

/-- A name is still a word when it is written down. -/
theorem asWritten_proper (htoken : token.kind = .identifier) : token.asWritten.bare.Proper := by
  have hkind : token.asWritten.kind = .identifier ∨ token.asWritten.kind = .keyword := by
    unfold asWritten
    split
    · exact .inr rfl
    · exact .inl htoken
  constructor
  · rfl
  · obtain hkind | hkind := hkind <;> simp [isComment, hkind]
  · obtain hkind | hkind := hkind <;> simp [isEnd, hkind]
  · intro mark _
    obtain hkind | hkind := hkind <;> simp [isPunctuation, is, hkind]

/-- What begins an operand is no comment, no end and no closing mark. -/
theorem proper_of_opens (hopens : Production.OperandStart.of token ≠ .refused) :
    token.asWritten.bare.Proper := by
  by_cases hname : token.kind = .identifier
  · exact asWritten_proper hname
  rw [asWritten_of_kind hname]
  constructor
  · rfl
  · rw [← Bool.not_eq_true]
    intro hcomment
    apply hopens
    obtain hkind | hkind : token.kind = .lineComment ∨ token.kind = .blockComment := by
      simpa [isComment] using hcomment
    · rw [Production.OperandStart.of, hkind]
    · rw [Production.OperandStart.of, hkind]
  · rw [← Bool.not_eq_true]
    intro hend
    have hkind : token.kind = .eof := by simpa [isEnd] using hend
    apply hopens
    rw [Production.OperandStart.of, hkind]
  · intro mark hmark
    rw [← Bool.not_eq_true]
    intro hclosing
    obtain ⟨hkind, hvalue⟩ := (token.is_iff _ _).mp hclosing
    have hnone : ∀ mark ∈ closingMarks, mark ≠ "(" ∧ mark ≠ "[" ∧ mark ≠ "\x7b" := by decide
    obtain ⟨hround, hsquare, hcurly⟩ := hnone mark hmark
    apply hopens
    rw [Production.OperandStart.of, hkind]
    simp [hvalue, hround, hsquare, hcurly]

end Token

namespace Session

variable {start read after : Session} {words more : List Token}

/-- The words of an expression begin with the token that it begins with.  Behind a
name stands what stood behind it. -/
structure Leads (start : Session) (words : List Token) (after : Session) : Prop where
  opens : Production.OperandStart.of start.cursor.current ≠ .refused
  words_eq : ∃ others, words = start.cursor.current.asWritten.bare :: others ∧
    (others = [] → after.cursor = start.cursor.advance) ∧
    (start.cursor.current.kind = .identifier →
      ∀ second ∈ others.head?, second = start.cursor.next.bare)

/-- The words that continue an expression begin with the token under the cursor; if
there are none, no token was passed. -/
def Prolongs (start : Session) (words : List Token) (after : Session) : Prop :=
  (words = [] ∧ after.cursor = start.cursor) ∨
    (start.cursor.current.OnLine ∧ ∃ others, words = start.cursor.current.bare :: others)

theorem prolongs_nil (hcursor : after.cursor = start.cursor) : start.Prolongs [] after :=
  .inl ⟨rfl, hcursor⟩

theorem prolongs_cons (honLine : start.cursor.current.OnLine) (others : List Token) :
    start.Prolongs (start.cursor.current.bare :: others) after :=
  .inr ⟨honLine, others, rfl⟩

/-- What may follow a continued expression lets the continuation follow. -/
theorem Prolongs.follows {tail : Cursor} (hprolongs : start.Prolongs words after)
    (htail : after.cursor.current.Follows tail.current) :
    start.cursor.current.Follows (tail.before words).current := by
  obtain ⟨rfl, hcursor⟩ | ⟨honLine, others, rfl⟩ := hprolongs
  · rwa [hcursor] at htail
  · exact Token.follows_bare honLine

/-- An operand that is one token. -/
theorem leads_token (hopens : Production.OperandStart.of start.cursor.current ≠ .refused)
    (hcursor : after.cursor = start.cursor.advance) :
    start.Leads [start.cursor.current.asWritten.bare] after :=
  ⟨hopens, [], rfl, fun _ => hcursor, fun _ _ hsecond => nomatch hsecond⟩

/-- An operand of several tokens that does not begin with a name. -/
theorem leads_cons {others : List Token}
    (hopens : Production.OperandStart.of start.cursor.current ≠ .refused)
    (hkind : start.cursor.current.kind ≠ .identifier) (hothers : others ≠ []) :
    start.Leads (start.cursor.current.bare :: others) after := by
  refine ⟨hopens, others, ?_, fun hnil => absurd hnil hothers, fun hname => absurd hname hkind⟩
  rw [Token.asWritten_of_kind hkind]

theorem Leads.proper {start after : Session} {words : List Token}
    (hleads : start.Leads words after) :
    ∃ first others, words = first :: others ∧ first.Proper := by
  obtain ⟨others, hwords, -⟩ := hleads.words_eq
  exact ⟨_, others, hwords, Token.proper_of_opens hleads.opens⟩

theorem Leads.ne_nil {words : List Token} (hleads : start.Leads words after) : words ≠ [] := by
  obtain ⟨others, rfl, -⟩ := hleads.words_eq
  exact List.cons_ne_nil _ _

theorem Leads.prolong (hleads : start.Leads words read) (hmore : read.Prolongs more after) :
    start.Leads (words ++ more) after := by
  refine ⟨hleads.opens, ?_⟩
  obtain ⟨others, rfl, hshort, hname⟩ := hleads.words_eq
  refine ⟨others ++ more, rfl, ?_, ?_⟩
  · intro hnil
    obtain ⟨hothers, hmore'⟩ := List.append_eq_nil_iff.mp hnil
    obtain ⟨-, hcursor⟩ | ⟨-, others', hcons⟩ := hmore
    · rw [hcursor, hshort hothers]
    · rw [hmore'] at hcons
      cases hcons
  · intro hkind second hsecond
    cases others with
    | cons other others => exact hname hkind second hsecond
    | nil =>
        obtain ⟨rfl, -⟩ | ⟨-, others', rfl⟩ := hmore
        · cases hsecond
        · cases hsecond
          rw [hshort rfl]
          rfl

/-- An expression that goes on with an operator. -/
theorem Leads.shift {read : Session} {words : List Token} (hleads : start.Leads words read)
    (honLine : read.cursor.current.OnLine) (others : List Token) :
    start.Leads (words ++ [read.cursor.current.bare] ++ others) after := by
  rw [List.append_assoc]
  exact hleads.prolong (prolongs_cons honLine others)

end Session

end ScriptSyntax

import ScriptSyntax.Proofs.Progress

/-!
# Leaving out comments

A list of tokens is thinned by leaving out block comments that stand in a line with what is
behind them.  Two cursors run over a list and the thinned one: they stand on the same token,
or the first one stands on a comment that the other list lacks.  What comes first on the line
is the same for both.
-/

namespace ScriptSyntax

namespace Token

/-- The second list is the first one without some of its block comments.  None of them is
among those to be kept, and no line break stands before or behind it. -/
inductive Thins (kept : List Token) : List Token → List Token → Prop
  | nil : Thins kept [] []
  | keep {tokens others : List Token} (token : Token) :
      Thins kept tokens others → Thins kept (token :: tokens) (token :: others)
  | drop {comment follower : Token} {tokens others : List Token} :
      comment.kind = .blockComment → comment.newlineBefore = false →
      follower.newlineBefore = false → comment ∉ kept →
      Thins kept (follower :: tokens) others → Thins kept (comment :: follower :: tokens) others

variable {kept tokens others : List Token}

theorem Thins.append {behind others' : List Token} (hfront : Thins kept tokens others)
    (hbehind : Thins kept behind others') :
    Thins kept (tokens ++ behind) (others ++ others') := by
  induction hfront with
  | nil => exact hbehind
  | keep token _ ih => exact ih.keep token
  | drop hkind hbefore hfollower hspare _ ih => exact .drop hkind hbefore hfollower hspare ih

/-- The last token is never left out. -/
theorem Thins.getLast?_eq (hthins : Thins kept tokens others) :
    tokens.getLast? = others.getLast? := by
  induction hthins with
  | nil => rfl
  | keep token _ ih => rw [List.getLast?_cons, List.getLast?_cons, ih]
  | drop _ _ _ _ _ ih => rw [List.getLast?_cons_cons, ih]

theorem Thins.eq_nil_iff (hthins : Thins kept tokens others) : tokens = [] ↔ others = [] := by
  rw [← List.getLast?_eq_none_iff, hthins.getLast?_eq, List.getLast?_eq_none_iff]

theorem Thins.terminated (hthins : Thins kept tokens others) :
    Thins kept (Token.terminated tokens) (Token.terminated others) := by
  unfold Token.terminated
  rw [← hthins.getLast?_eq]
  split
  · exact .keep _ .nil
  · split
    · exact hthins
    · exact hthins.append (.keep _ .nil)

/-- Passing over block comments, and maybe other tokens, at the front. -/
theorem Thins.dropWhile {test : Token → Bool}
    (htest : ∀ token : Token, token.kind = .blockComment → test token = true)
    (hthins : Thins kept tokens others) :
    Thins kept (tokens.dropWhile test) (others.dropWhile test) := by
  induction hthins with
  | nil => exact .nil
  | keep token hrest ih =>
      rw [List.dropWhile_cons, List.dropWhile_cons]
      split
      · exact ih
      · exact hrest.keep token
  | drop hkind _ _ _ _ ih => rwa [List.dropWhile_cons, if_pos (htest _ hkind)]

/-- What is left out does not end a line, nor is it what comes first on one. -/
theorem Thins.firstOnLine?_eq (hthins : Thins kept tokens others) :
    Cursor.firstOnLine? tokens = Cursor.firstOnLine? others := by
  induction hthins with
  | nil => rfl
  | keep token _ ih => rw [Cursor.firstOnLine?, Cursor.firstOnLine?, ih]
  | @drop comment _ _ _ hkind hbefore _ _ _ ih =>
      have hpassed : (comment.newlineBefore || comment.isEnd || comment.kind == .lineComment) =
          false := by
        simp [hbefore, isEnd, hkind]
      rw [Cursor.firstOnLine?, hpassed, if_neg Bool.false_ne_true,
        if_pos (beq_iff_eq.mpr hkind), ih]

theorem Thins.newlineBefore_head {token other : Token}
    (hthins : Thins kept (token :: tokens) (other :: others))
    (htoken : token.newlineBefore = false) : other.newlineBefore = false := by
  generalize hfirst : token :: tokens = first at hthins
  generalize hsecond : other :: others = second at hthins
  induction hthins generalizing token tokens with
  | nil => cases hfirst
  | keep _ _ _ =>
      cases hfirst
      cases hsecond
      exact htoken
  | drop _ _ hfollower _ _ ih =>
      cases hfirst
      exact ih hfollower rfl hsecond

/-- Either the first token is kept, or it is a comment that the second list lacks. -/
theorem Thins.cons_cases {token other : Token}
    (hthins : Thins kept (token :: tokens) (other :: others)) :
    token = other ∧ Thins kept tokens others ∨
      token.kind = .blockComment ∧ token ∉ kept ∧ other.newlineBefore = false ∧ tokens ≠ [] ∧
        Thins kept tokens (other :: others) := by
  cases hthins with
  | keep _ hothers => exact .inl ⟨rfl, hothers⟩
  | drop hkind _ hfollower hspare hrest =>
      exact .inr ⟨hkind, hspare, hrest.newlineBefore_head hfollower, List.cons_ne_nil _ _, hrest⟩

/-- A word at the front of a line is what comes first on it. -/
theorem firstOnLine?_of_isWord {token : Token} (hword : token.isWord = true)
    (hbefore : token.newlineBefore = false) (tokens : List Token) :
    Cursor.firstOnLine? (token :: tokens) = some token := by
  rw [Cursor.firstOnLine?]
  cases hkind : token.kind <;>
    simp_all [isWord, Kind.isWord, isEnd]

end Token

namespace Cursor

variable {kept : List Token} {first second : Cursor}

/-- The second cursor has the tokens of the first one to come, thinned. -/
def Thinned (kept : List Token) (first second : Cursor) : Prop :=
  Token.Thins kept first.upcoming second.upcoming

/-- The cursors stand on the same token. -/
structure Level (kept : List Token) (first second : Cursor) : Prop where
  current : first.current = second.current
  behind : Token.Thins kept first.upcoming.tail second.upcoming.tail

/-- The first cursor stands on a comment that is left out. -/
structure AtSpare (kept : List Token) (first second : Cursor) : Prop where
  kind : first.current.kind = .blockComment
  spare : first.current ∉ kept
  advance : first.advance.Thinned kept second
  ahead : second.current.isWord = true → firstOnLine? first.pending = some second.current

/-- A cursor that stands on a token has its others behind it. -/
theorem upcoming_eq (cursor : Cursor) :
    cursor.upcoming = cursor.current :: cursor.upcoming.tail := by
  obtain ⟨others, hothers⟩ := cursor.current_cons_upcoming
  rw [hothers, List.tail_cons]

theorem upcoming_advance {cursor : Cursor} (hbehind : cursor.upcoming.tail ≠ []) :
    cursor.advance.upcoming = cursor.upcoming.tail := by
  unfold upcoming advance at *
  cases hpending : cursor.pending with
  | nil =>
      rw [hpending] at hbehind
      exact absurd rfl hbehind
  | cons token tokens => rfl

/-- On the last token the cursor stays. -/
theorem advance_eq {cursor : Cursor} (hbehind : cursor.upcoming.tail = []) :
    cursor.advance = cursor := by
  obtain ⟨pending, last, hlast⟩ := cursor
  unfold upcoming advance at *
  cases pending with
  | nil => rfl
  | cons token tokens => simp at hbehind

theorem Level.thinned (hlevel : first.Level kept second) : first.Thinned kept second := by
  unfold Thinned
  rw [upcoming_eq first, upcoming_eq second, hlevel.current]
  exact hlevel.behind.keep second.current

theorem Level.advance (hlevel : first.Level kept second) :
    first.advance.Thinned kept second.advance := by
  by_cases hbehind : first.upcoming.tail = []
  · have hsecond := hlevel.behind.eq_nil_iff.mp hbehind
    rw [advance_eq hbehind, advance_eq hsecond]
    exact hlevel.thinned
  · have hsecond := mt hlevel.behind.eq_nil_iff.mpr hbehind
    unfold Thinned
    rw [upcoming_advance hbehind, upcoming_advance hsecond]
    exact hlevel.behind

theorem Thinned.firstOnLine?_eq (hthinned : first.Thinned kept second) :
    firstOnLine? first.pending = firstOnLine? second.pending := by
  rw [← firstOnLine?_upcoming, ← firstOnLine?_upcoming]
  exact Token.Thins.firstOnLine?_eq hthinned

theorem Thinned.atSemicolon_eq (hthinned : first.Thinned kept second) :
    first.atSemicolon = second.atSemicolon := by
  rw [atSemicolon, atSemicolon, hthinned.firstOnLine?_eq]

theorem Thinned.atLineEnd_eq (hthinned : first.Thinned kept second) :
    first.atLineEnd = second.atLineEnd := by
  rw [atLineEnd, atLineEnd, hthinned.firstOnLine?_eq]

/-- Both cursors stand on the same token, or the first one on a comment that is left out. -/
theorem Thinned.level_or_atSpare (hthinned : first.Thinned kept second) :
    first.Level kept second ∨ first.AtSpare kept second := by
  have hline := hthinned.firstOnLine?_eq
  unfold Thinned at hthinned
  rw [upcoming_eq first, upcoming_eq second] at hthinned
  rcases hthinned.cons_cases with ⟨hcurrent, hbehind⟩ | ⟨hkind, hspare, hbefore, hbehind, hrest⟩
  · exact .inl ⟨hcurrent, hbehind⟩
  · right
    constructor
    case kind => exact hkind
    case spare => exact hspare
    case advance =>
      unfold Thinned
      rw [upcoming_advance hbehind, upcoming_eq second]
      exact hrest
    case ahead =>
      intro hword
      rw [hline, ← firstOnLine?_upcoming, upcoming_eq second]
      exact Token.firstOnLine?_of_isWord hword hbefore _

/-- No comment stands where the comments have been passed. -/
theorem isComment_current_skipComments (cursor : Cursor) :
    cursor.skipComments.current.isComment = false := by
  unfold skipComments current
  cases hpending : cursor.pending.dropWhile Token.isComment with
  | nil => exact Token.isComment_of_eof _ cursor.last_kind
  | cons token tokens =>
      have hhead := List.head?_dropWhile_not Token.isComment cursor.pending
      rw [hpending] at hhead
      simpa using hhead

theorem isComment_of_blockComment {token : Token} (hkind : token.kind = .blockComment) :
    token.isComment = true := by
  simp [Token.isComment, hkind]

/-- Behind the comments both cursors stand on the same token. -/
theorem Thinned.skipComments (hthinned : first.Thinned kept second) :
    first.skipComments.Level kept second.skipComments := by
  have hskipped : first.skipComments.Thinned kept second.skipComments := by
    have hdropped := Token.Thins.dropWhile (fun _ => isComment_of_blockComment) hthinned
    rwa [dropWhile_upcoming Token.isComment_of_eof, dropWhile_upcoming Token.isComment_of_eof]
      at hdropped
  rcases hskipped.level_or_atSpare with hlevel | hspare
  · exact hlevel
  · have hcomment := isComment_of_blockComment hspare.kind
    rw [isComment_current_skipComments] at hcomment
    cases hcomment

/-- Behind the block comments before a semicolon both cursors stand on it. -/
theorem Thinned.skipBlockComments (hthinned : first.Thinned kept second)
    (hsemicolon : first.atSemicolon = true) :
    first.skipBlockComments.Level kept second.skipBlockComments := by
  have hskipped : first.skipBlockComments.Thinned kept second.skipBlockComments := by
    have hend : ∀ token : Token, token.kind = .eof → (token.kind == .blockComment) = false := by
      intro token hkind
      rw [hkind]
      rfl
    have hdropped := Token.Thins.dropWhile (fun _ => beq_iff_eq.mpr) hthinned
    rwa [dropWhile_upcoming hend, dropWhile_upcoming hend] at hdropped
  rcases hskipped.level_or_atSpare with hlevel | hspare
  · exact hlevel
  · have hcurrent := current_skipBlockComments hsemicolon
    rw [Token.isPunctuation, Token.is_iff, hspare.kind] at hcurrent
    cases hcurrent.1

end Cursor

end ScriptSyntax

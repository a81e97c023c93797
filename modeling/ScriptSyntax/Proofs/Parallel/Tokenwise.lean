import Mathlib.Data.List.Forall2
import ScriptSyntax.Proofs.Parallel.Statement
import ScriptSyntax.Proofs.Progress

/-!
# Lists that are alike token by token

Over two lists of tokens that are alike one by one, the cursors of both runs stand on tokens
with the same index, up to the end tokens.  The runs then have the same outcome, if they
also agree on where lines end.
-/

namespace ScriptSyntax

open List (Forall₂)

section Rel

variable {alike : Token → Token → Prop} {tokens others : List Token} {test : Token → Bool}

theorem Token.rel_dropWhile (htest : ∀ token other, alike token other → test token = test other)
    (halike : Forall₂ alike tokens others) :
    Forall₂ alike (tokens.dropWhile test) (others.dropWhile test) := by
  induction halike with
  | nil => exact .nil
  | cons htoken hrest ih =>
      rw [List.dropWhile_cons, List.dropWhile_cons, ← htest _ _ htoken]
      split
      · exact ih
      · exact .cons htoken hrest

theorem Token.rel_takeWhile (htest : ∀ token other, alike token other → test token = test other)
    (halike : Forall₂ alike tokens others) :
    Forall₂ (fun token other => alike token other ∧ test token = true) (tokens.takeWhile test)
      (others.takeWhile test) := by
  induction halike with
  | nil => exact .nil
  | cons htoken hrest ih =>
      rw [List.takeWhile_cons, List.takeWhile_cons, ← htest _ _ htoken]
      split
      · rename_i hanswer
        exact .cons ⟨htoken, hanswer⟩ ih
      · exact .nil

theorem Token.rel_head? (halike : Forall₂ alike tokens others) :
    Option.Rel alike tokens.head? others.head? := by
  cases halike with
  | nil => exact .none
  | cons htoken _ => exact .some htoken

theorem Token.rel_getLast? (halike : Forall₂ alike tokens others) :
    Option.Rel alike tokens.getLast? others.getLast? := by
  have hreverse := rel_head? (List.rel_reverse halike)
  rwa [List.head?_reverse, List.head?_reverse] at hreverse

theorem rel_of_rel_concat {last other : Token}
    (halike : Forall₂ alike (tokens ++ [last]) (others ++ [other])) :
    Forall₂ alike tokens others ∧ alike last other := by
  have hreverse := List.rel_reverse halike
  rw [List.reverse_concat, List.reverse_concat] at hreverse
  cases hreverse with
  | cons hlast hwords => exact ⟨List.forall₂_reverse_iff.mp hwords, hlast⟩

/-- The end tokens that are added are alike if the lists are. -/
theorem Token.rel_terminated (halike : Forall₂ alike tokens others)
    (hempty : alike (endOfInput .null false) (endOfInput .null false))
    (hend : ∀ token other, alike token other → token.isEnd = other.isEnd)
    (hadded : ∀ token other, alike token other →
      alike (endOfInput token.span.atEnd false) (endOfInput other.span.atEnd false)) :
    Forall₂ alike (terminated tokens) (terminated others) := by
  have hlast := rel_getLast? halike
  unfold terminated
  cases hfirst : tokens.getLast? <;> cases hsecond : others.getLast? <;>
    rw [hfirst, hsecond] at hlast
  case none.none => exact .cons hempty .nil
  case none.some => cases hlast
  case some.none => cases hlast
  case some.some last other =>
    cases hlast with
    | some hlast =>
        dsimp only
        rw [← hend last other hlast]
        split
        · exact halike
        · exact List.rel_append halike (.cons (hadded last other hlast) .nil)

/-- Where the tokens agree on line breaks, lines end at the same place. -/
theorem Cursor.rel_firstOnLine? (hkind : ∀ token other, alike token other → token.kind = other.kind)
    (hline : ∀ token other, alike token other → token.newlineBefore = other.newlineBefore)
    (halike : Forall₂ alike tokens others) :
    Option.Rel alike (firstOnLine? tokens) (firstOnLine? others) := by
  induction halike with
  | nil => exact .none
  | cons htoken hrest ih =>
      rw [firstOnLine?, firstOnLine?, ← hline _ _ htoken, Token.isEnd, Token.isEnd,
        ← hkind _ _ htoken]
      split
      · exact .none
      · split
        · exact ih
        · exact .some htoken

end Rel

/-- A program may be read over any grammar that is deep enough. -/
theorem parse_eq (semicolons : Semicolons) (tokens : List Token) {depth : Nat}
    (hdepth : (Cursor.ofTokens tokens).pending.length < depth) :
    parse semicolons tokens =
      match Production.program (.upTo semicolons depth) (.start tokens) with
      | .ok _ session => .ok session.tree
      | .error diagnostic _ => .error diagnostic := by
  rw [(program_accords semicolons tokens hdepth).eq]
  rfl

namespace Likeness

variable {likeness : Likeness} {start other first second : Cursor}

/-- The cursors have come to the same index of two lists. -/
structure Level (likeness : Likeness) (start other first second : Cursor) : Prop where
  twins : Forall₂ likeness.twin first.pending second.pending
  inside : first.pending <:+ start.pending
  outside : second.pending <:+ other.pending
  last : first.last = start.last
  ending : second.last = other.last

theorem Level.current (hlevel : likeness.Level start other first second)
    (hlast : likeness.twin start.last other.last) :
    likeness.twin first.current second.current := by
  have htwins := hlevel.twins
  rw [Cursor.current, Cursor.current]
  cases hfirst : first.pending <;> cases hsecond : second.pending <;>
    rw [hfirst, hsecond] at htwins
  case nil.nil =>
    rw [List.headD_nil, List.headD_nil, hlevel.last, hlevel.ending]
    exact hlast
  case nil.cons => cases htwins
  case cons.nil => cases htwins
  case cons.cons =>
    cases htwins with
    | cons htoken _ => exact htoken

theorem Level.advance (hlevel : likeness.Level start other first second) :
    likeness.Level start other first.advance second.advance where
  twins := by
    have htwins := List.forall₂_drop 1 hlevel.twins
    rwa [List.drop_one, List.drop_one] at htwins
  inside := (List.tail_suffix _).trans hlevel.inside
  outside := (List.tail_suffix _).trans hlevel.outside
  last := hlevel.last
  ending := hlevel.ending

/-- Tokens of the same class are passed in both lists. -/
theorem Level.skip {test : Token → Bool} (hlevel : likeness.Level start other first second)
    (htest : Token.Superficial test) :
    likeness.Level start other ⟨first.pending.dropWhile test, first.last, first.last_kind⟩
      ⟨second.pending.dropWhile test, second.last, second.last_kind⟩ where
  twins := Token.rel_dropWhile (fun _ _ htwin => htest.congr (likeness.signal htwin)) hlevel.twins
  inside := (List.dropWhile_suffix _).trans hlevel.inside
  outside := (List.dropWhile_suffix _).trans hlevel.outside
  last := hlevel.last
  ending := hlevel.ending

theorem Level.comment? (hlevel : likeness.Level start other first second) :
    first.comment?.map likeness.view.keep = second.comment?.map likeness.view.keep := by
  have hcomments := Token.rel_takeWhile
    (fun _ _ htwin => Token.superficial_isComment.congr (likeness.signal htwin)) hlevel.twins
  apply View.map_keep_of_rel (Token.rel_getLast? hcomments)
  rintro token other ⟨htwin, hcomment⟩
  apply likeness.keep htwin
  apply Token.not_semicolon_of_kind
  intro hkind
  simp [Token.isComment, hkind] at hcomment

/-- The pairing of two runs over lists that are alike token by token.  Behind the tokens that
statements may end with, the next thing on the line has to be alike, too. -/
def tokenwise (likeness : Likeness) (semicolons : Semicolons) (base : Tree)
    (start other : Cursor) (hlast : likeness.twin start.last other.last)
    (hlines : ∀ later rest, Forall₂ likeness.twin later rest → later <:+ start.pending →
      rest <:+ other.pending → Token.EndsBefore start.pending later →
      Option.Rel likeness.twin (Cursor.firstOnLine? later) (Cursor.firstOnLine? rest)) :
    Pairing where
  toLikeness := likeness
  semicolons
  base
  whole := start.pending
  front := False
  cursor := likeness.Level start other
  required := nofun
  inside hlevel := hlevel.inside
  current hlevel := .inr (hlevel.current hlast)
  connective _ := nofun
  next hlevel _ := .inl (hlevel.advance.current hlast)
  advance hlevel _ := hlevel.advance
  comments hlevel := .inr ⟨hlevel.skip Token.superficial_isComment, hlevel.comment?⟩
  lines hlevel hends := by
    have hline := hlines _ _ hlevel.twins hlevel.inside hlevel.outside hends
    right
    rw [Cursor.atSemicolon, Cursor.atSemicolon, Cursor.atLineEnd, Cursor.atLineEnd]
    cases hfirst : Cursor.firstOnLine? _ <;> cases hsecond : Cursor.firstOnLine? _ <;>
      rw [hfirst, hsecond] at hline
    case none.none => exact ⟨rfl, fun _ => rfl⟩
    case none.some => cases hline
    case some.none => cases hline
    case some.some =>
      cases hline with
      | some htwin =>
          have hsignal := likeness.signal htwin
          exact ⟨(Token.superficial_isPunctuation ";").congr hsignal,
            fun _ => (Token.superficial_isPunctuation "\x7d").congr hsignal⟩
  semicolon hlevel _ _ := hlevel.skip fun _ => rfl

/-- Two lists of tokens are read in the same way: the trees mirror each other, or both fail. -/
def Agree (likeness : Likeness) : Except Diagnostic Tree → Except Diagnostic Tree → Prop
  | .ok tree, .ok other => Tree.Mirrors likeness.view .empty tree other
  | .error diagnostic, .error other => likeness.failure diagnostic other
  | _, _ => False

theorem agree_parse (likeness : Likeness) (semicolons : Semicolons) {tokens others : List Token}
    (htwins : Forall₂ likeness.twin (Token.terminated tokens) (Token.terminated others))
    (hlines : ∀ later rest, Forall₂ likeness.twin later rest →
      later <:+ (Cursor.ofTokens tokens).pending → rest <:+ (Cursor.ofTokens others).pending →
      Token.EndsBefore (Cursor.ofTokens tokens).pending later →
      Option.Rel likeness.twin (Cursor.firstOnLine? later) (Cursor.firstOnLine? rest)) :
    likeness.Agree (parse semicolons tokens) (parse semicolons others) := by
  rw [← Cursor.upcoming_ofTokens, ← Cursor.upcoming_ofTokens] at htwins
  obtain ⟨hwords, hlast⟩ := rel_of_rel_concat htwins
  let pairing := likeness.tokenwise semicolons .empty (.ofTokens tokens) (.ofTokens others) hlast
    hlines
  have hbeside : pairing.Beside (.start tokens) (.start others) := by
    constructor
    · exact ⟨hwords, List.suffix_rfl, List.suffix_rfl, rfl, rfl⟩
    · exact .start _ _
  have hgrammar : (Grammar.upTo semicolons ((Cursor.ofTokens tokens).pending.length + 1)).Parallel
      pairing := Grammar.upTo_parallel pairing _
  have houtcome := (Production.program_runs hgrammar not_false).beside hbeside
  have hdepth : (Cursor.ofTokens tokens).pending.length <
      (Cursor.ofTokens tokens).pending.length + 1 := Nat.lt_succ_self _
  have hother : (Cursor.ofTokens others).pending.length <
      (Cursor.ofTokens tokens).pending.length + 1 := hwords.length_eq ▸ hdepth
  rw [parse_eq semicolons tokens hdepth, parse_eq semicolons others hother]
  cases hfirst : Production.program _ (.start tokens) with
  | ok id after =>
      rw [hfirst] at houtcome
      rcases houtcome with ⟨other, final, hsecond, -, hsessions⟩ | ⟨hfirm, -⟩
      · rw [hsecond]
        exact hsessions.mirrors
      · cases hfirm
  | error diagnostic after =>
      rw [hfirst] at houtcome
      rcases houtcome with hfront | ⟨failed, final, hsecond, hfailure⟩
      · cases hfront
      · rw [hsecond]
        exact hfailure

end Likeness

end ScriptSyntax

import ScriptSyntax.Proofs.Parallel.Front

/-!
# Beyond the end

A list may have an end token in its midst.  The cursor is not stopped there, and the parser
looks ahead of it; but it never passes an end token, and no search goes beyond one.  What
comes after an end token therefore does not matter.
-/

namespace ScriptSyntax

namespace Cursor

variable {front : List Token} {first second : Cursor} {test : Token → Bool}

/-- The tokens of the second cursor begin with those of the first one. -/
structure Opens (front : List Token) (first second : Cursor) : Prop where
  inside : first.pending <:+ front
  upcoming : first.upcoming <+: second.upcoming

/-- An end token is among the tokens to come, so there is one that the test fails on. -/
theorem dropWhile_upcoming_ne_nil
    (htest : ∀ token : Token, token.kind = .eof → test token = false) (cursor : Cursor) :
    cursor.upcoming.dropWhile test ≠ [] := by
  rw [dropWhile_upcoming htest]
  exact List.append_ne_nil_of_right_ne_nil _ (List.cons_ne_nil _ _)

theorem Opens.current (hopens : Opens front first second) : first.current = second.current := by
  obtain ⟨others, hfirst⟩ := first.current_cons_upcoming
  obtain ⟨rest, hsecond⟩ := second.current_cons_upcoming
  have hupcoming := hopens.upcoming
  rw [hfirst, hsecond] at hupcoming
  exact (List.cons_prefix_cons.mp hupcoming).1

theorem Opens.advance (hopens : Opens front first second) (hcurrent : first.current.isEnd = false) :
    Opens front first.advance second.advance where
  inside := (List.tail_suffix _).trans hopens.inside
  upcoming := by
    have hfirst := pending_eq_cons hcurrent
    have hsecond := pending_eq_cons (hopens.current ▸ hcurrent)
    have hupcoming := hopens.upcoming
    rw [Cursor.upcoming, Cursor.upcoming, hfirst, hsecond] at hupcoming
    exact (List.cons_prefix_cons.mp hupcoming).2

/-- A search that no end token satisfies ends at the same place for both cursors. -/
theorem Opens.skip (hopens : Opens front first second)
    (htest : ∀ token : Token, token.kind = .eof → test token = false) :
    Opens front ⟨first.pending.dropWhile test, first.last, first.last_kind⟩
      ⟨second.pending.dropWhile test, second.last, second.last_kind⟩ where
  inside := (List.dropWhile_suffix _).trans hopens.inside
  upcoming := by
    obtain ⟨behind, hbehind⟩ := hopens.upcoming
    have hrest := dropWhile_upcoming_ne_nil htest first
    change first.pending.dropWhile test ++ [first.last] <+:
      second.pending.dropWhile test ++ [second.last]
    rw [← dropWhile_upcoming htest, ← dropWhile_upcoming htest, ← hbehind,
      List.dropWhile_append, if_neg (by simpa using hrest)]
    exact List.prefix_append _ _

theorem Opens.comment?_eq (hopens : Opens front first second) :
    first.comment? = second.comment? := by
  obtain ⟨behind, hbehind⟩ := hopens.upcoming
  have hshort : (first.upcoming.takeWhile Token.isComment).length ≠ first.upcoming.length := by
    intro hlength
    apply dropWhile_upcoming_ne_nil Token.isComment_of_eof first
    have hsplit := congrArg List.length
      (List.takeWhile_append_dropWhile (p := Token.isComment) (l := first.upcoming))
    rw [List.length_append, hlength] at hsplit
    exact List.eq_nil_of_length_eq_zero (by omega)
  rw [comment?, comment?, ← takeWhile_upcoming Token.isComment_of_eof,
    ← takeWhile_upcoming Token.isComment_of_eof, ← hbehind,
    List.takeWhile_append, if_neg hshort]

theorem Opens.firstOnLine?_eq (hopens : Opens front first second) :
    firstOnLine? first.pending = firstOnLine? second.pending := by
  obtain ⟨behind, hbehind⟩ := hopens.upcoming
  have hrest := dropWhile_upcoming_ne_nil Token.isComment_of_eof first
  rw [← firstOnLine?_upcoming, ← firstOnLine?_upcoming, ← hbehind, firstOnLine?_append _ hrest]

end Cursor

/-- A run that has all the tokens to read is under no obligation of a front of them. -/
theorem Semicolons.required_of_no_front {semicolons : Semicolons} (hfront : False) :
    semicolons = .required :=
  hfront.elim

/-- The pairing of a run up to an end token with a run over further tokens. -/
def Pairing.beyondEnd (semicolons : Semicolons) (front : List Token) : Pairing where
  toLikeness := .exact
  semicolons
  base := .empty
  whole := front
  front := False
  cursor := Cursor.Opens front
  required := Semicolons.required_of_no_front
  inside hopens := hopens.inside
  current hopens := .inr hopens.current
  connective _ := nofun
  next hopens hcurrent := .inl (hopens.advance hcurrent).current
  advance hopens hcurrent := hopens.advance hcurrent
  comments hopens := by
    right
    constructor
    · exact hopens.skip Token.isComment_of_eof
    · exact congrArg _ hopens.comment?_eq
  lines hopens _ := by
    right
    rw [Cursor.atSemicolon, Cursor.atSemicolon, Cursor.atLineEnd, Cursor.atLineEnd,
      hopens.firstOnLine?_eq]
    exact ⟨rfl, fun _ => rfl⟩
  semicolon hopens _ _ := by
    apply hopens.skip
    intro token hkind
    simp [hkind]

/-- A list that ends in an end token is left as it is. -/
theorem Token.terminated_concat (front : List Token) {ending : Token}
    (hending : ending.isEnd = true) : terminated (front ++ [ending]) = front ++ [ending] := by
  rw [terminated, List.getLast?_concat]
  exact if_pos hending

/-- A list is the front of what the session runs over. -/
theorem Token.prefix_terminated (tokens : List Token) : tokens <+: terminated tokens := by
  unfold terminated
  split
  · rename_i hlast
    rw [List.getLast?_eq_none_iff.mp hlast]
    exact List.nil_prefix
  · split
    · exact List.prefix_rfl
    · exact List.prefix_append _ _

/-- Nothing after an end token matters: the tree, or the failure, is the one of the list up to
this token.  That holds of the first end token of a list in particular. -/
theorem parse_append_end (semicolons : Semicolons) (front behind : List Token) {ending : Token}
    (hending : ending.kind = .eof) :
    parse semicolons (front ++ [ending] ++ behind) = parse semicolons (front ++ [ending]) := by
  let short := Cursor.ofTokens (front ++ [ending])
  let long := Cursor.ofTokens (front ++ [ending] ++ behind)
  have hopens : Cursor.Opens short.pending short long := by
    constructor
    · exact List.suffix_rfl
    · rw [Cursor.upcoming_ofTokens, Cursor.upcoming_ofTokens,
        Token.terminated_concat front (Token.isEnd_of_kind hending)]
      exact (List.prefix_append _ _).trans (Token.prefix_terminated _)
  have hlength : short.pending.length ≤ long.pending.length := by
    have hle := hopens.upcoming.length_le
    rw [Cursor.length_upcoming, Cursor.length_upcoming] at hle
    exact Nat.le_of_succ_le_succ hle
  let pairing := Pairing.beyondEnd semicolons short.pending
  have hbeside :
      pairing.Beside (.start (front ++ [ending])) (.start (front ++ [ending] ++ behind)) :=
    ⟨hopens, .start _ _⟩
  have hgrammar : (Grammar.upTo semicolons (long.pending.length + 1)).Parallel pairing :=
    Grammar.upTo_parallel pairing _
  have houtcome := (Production.program_runs hgrammar not_false).beside hbeside
  rw [parse_eq semicolons _ (Nat.lt_succ_of_le hlength),
    parse_eq semicolons _ (Nat.lt_succ_self long.pending.length)]
  cases hfirst : Production.program _ (.start (front ++ [ending])) with
  | ok id after =>
      rw [hfirst] at houtcome
      rcases houtcome with ⟨other, final, hsecond, -, hsessions⟩ | ⟨hfirm, -⟩
      · rw [hsecond]
        have hseen : final.tree.seen .exact = after.tree.seen .exact := hsessions.mirrors.seen_eq
        rw [Tree.seen_exact, Tree.seen_exact] at hseen
        exact congrArg Except.ok hseen
      · cases hfirm
  | error diagnostic after =>
      rw [hfirst] at houtcome
      rcases houtcome with hfront | ⟨failed, final, hsecond, hfailure⟩
      · cases hfront
      · rw [hsecond]
        exact congrArg Except.error (show diagnostic = failed from hfailure).symm

/-- A second statement after an end token is not read. -/
theorem parse_append_end_identifier :
    (Token.endOfInput .null false).kind = .eof ∧
      parse .inserted ([Token.plain .identifier "x"] ++ [.endOfInput .null false] ++
          [Token.plain .identifier "y"]) =
        parse .inserted ([Token.plain .identifier "x"] ++ [.endOfInput .null false]) :=
  ⟨rfl, parse_append_end .inserted _ _ rfl⟩

end ScriptSyntax

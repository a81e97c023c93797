import ScriptSyntax.Proofs.Growth

/-!
# Conservation of tokens

Between the tokens of a program and the words of its tree nothing is lost, added
or moved: apart from comments, semicolons and commas, the values of the one are
those of the other.  Along a trace the tokens passed so far say the same as the
parts that are left over, each with its words in the tree that is made in the end.
-/

namespace ScriptSyntax

namespace Token

/-- The values of some tokens, without semicolons and commas. -/
def contents (tokens : List Token) : List String :=
  (tokens.filter fun token => !token.isSeparator).map value

/-- The tokens of a text that say something: comments are left out. -/
def spoken (tokens : List Token) : List Token :=
  tokens.filter fun token => !token.isComment

@[simp]
theorem contents_append (first second : List Token) :
    contents (first ++ second) = contents first ++ contents second := by
  simp [contents]

@[simp]
theorem spoken_append (first second : List Token) :
    spoken (first ++ second) = spoken first ++ spoken second :=
  List.filter_append ..

theorem spoken_of_isWord {token : Token} (htoken : token.isWord = true) :
    spoken [token] = [token] := by
  simp [spoken, isComment_of_isWord htoken]

theorem contents_spoken_of_isSkippable {token : Token} (htoken : token.isSkippable = true) :
    contents (spoken [token]) = [] := by
  cases hcomment : token.isComment with
  | true => simp [spoken, hcomment, contents]
  | false =>
      have hcomma : token.isPunctuation "," = true := by
        simpa [isSkippable, hcomment] using htoken
      simp [spoken, hcomment, contents, isSeparator, hcomma]

end Token

/-- What some parts say is settled by what counts of them. -/
theorem Part.contents_words (wordsOf : NodeId → List Token) (parts : List (Part NodeId)) :
    Token.contents (parts.flatMap (words wordsOf)) =
      (gists parts).flatMap
        (Sum.elim (fun value => [value]) fun id => Token.contents (wordsOf id)) := by
  induction parts with
  | nil => rfl
  | cons part parts ih =>
      rw [List.flatMap_cons, Token.contents_append, ih]
      cases part with
      | own token =>
          rw [gists_cons_own]
          by_cases htoken : token.isSeparator = true
          · simp [words, Token.contents, htoken]
          · simp [words, Token.contents, htoken]
      | below id => rfl

/-- The tokens passed on the way from one cursor to another, none of them the
end. -/
structure Cursor.Passes (first : Cursor) (passed : List Token) (second : Cursor) : Prop where
  pending_eq : first.pending = passed ++ second.pending
  last_eq : second.last = first.last
  not_end : ∀ token ∈ passed, token.isEnd = false

theorem Cursor.Passes.refl (cursor : Cursor) : cursor.Passes [] cursor :=
  ⟨rfl, rfl, fun _ htoken => nomatch htoken⟩

theorem Cursor.Passes.advance {first second : Cursor} {passed : List Token}
    (hpasses : first.Passes passed second) (hcurrent : second.current.isEnd = false) :
    first.Passes (passed ++ [second.current]) second.advance where
  pending_eq := by
    rw [hpasses.pending_eq, pending_eq_cons hcurrent, List.append_assoc]
    rfl
  last_eq := hpasses.last_eq
  not_end token htoken := by
    rcases List.mem_append.mp htoken with htoken | htoken
    · exact hpasses.not_end token htoken
    · rw [List.mem_singleton.mp htoken]
      exact hcurrent

/-- Along a trace, the tokens passed say what the parts left over say. -/
theorem Trace.contents {start session : Session} {parts : List (Part NodeId)}
    (htrace : Trace start parts session) {whole : Tree} (hwhole : whole.Ordered)
    (hpart : session.tree.PartOf whole) :
    ∃ passed, start.cursor.Passes passed session.cursor ∧
      Token.contents (Token.spoken passed) =
        Token.contents (parts.flatMap (Part.words whole.words)) := by
  induction htrace with
  | start => exact ⟨[], .refl start.cursor, rfl⟩
  | @shift parts session _ hword ih =>
      obtain ⟨passed, hpasses, hcontents⟩ := ih hpart
      refine ⟨_, hpasses.advance (Token.isEnd_of_isWord hword), ?_⟩
      rw [Token.spoken_append, Token.contents_append, hcontents,
        Token.spoken_of_isWord hword, List.flatMap_append, Token.contents_append]
      rfl
  | skip _ hskippable ih =>
      obtain ⟨passed, hpasses, hcontents⟩ := ih hpart
      refine ⟨_, hpasses.advance (Token.isEnd_of_isSkippable hskippable), ?_⟩
      rw [Token.spoken_append, Token.contents_append, hcontents,
        Token.contents_spoken_of_isSkippable hskippable, List.append_nil]
  | @comment parts session _ hcomment ih =>
      obtain ⟨passed, hpasses, hcontents⟩ := ih ((Tree.partOf_insert _ _ _).trans hpart)
      refine ⟨_, hpasses.advance (Token.isEnd_of_isComment hcomment), ?_⟩
      have hwords : whole.words (session.tree.size + 1) = [] :=
        Tree.words_eq hwhole (hpart _ _ (Tree.shape?_insert_self ..))
      rw [Token.spoken_append, Token.contents_append, hcontents,
        Token.contents_spoken_of_isSkippable (Token.isSkippable_of_isComment hcomment),
        List.flatMap_append, List.flatMap_singleton, Part.words, hwords, List.append_nil,
        List.append_nil]
  | @reduce parts taken session draft _ hcovers ih =>
      obtain ⟨passed, hpasses, hcontents⟩ := ih ((Tree.partOf_insert _ _ _).trans hpart)
      refine ⟨passed, hpasses, ?_⟩
      have hwords : whole.words (session.tree.size + 1) =
          draft.shape.layout.flatMap (Part.words whole.words) :=
        Tree.words_eq hwhole (hpart _ _ (Tree.shape?_insert_self ..))
      rw [hcontents, List.flatMap_append, List.flatMap_append, Token.contents_append,
        Token.contents_append, List.flatMap_singleton, Part.words, hwords,
        Part.contents_words _ taken, Part.contents_words _ draft.shape.layout, hcovers.gists]

/-- The tokens before the first end token. -/
def Token.beforeEnd (tokens : List Token) : List Token :=
  tokens.takeWhile fun token => !token.isEnd

theorem Cursor.beforeEnd_ofTokens (tokens : List Token) :
    Token.beforeEnd (ofTokens tokens).pending = Token.beforeEnd tokens := by
  unfold ofTokens
  split
  · rename_i hlast
    rw [List.getLast?_eq_none_iff.mp hlast]
  · rename_i last hlast
    split
    · rename_i hkind
      obtain ⟨others, rfl⟩ := List.getLast?_eq_some_iff.mp hlast
      have hend : last.isEnd = true := by simp [Token.isEnd, hkind]
      simp only [Token.beforeEnd, List.dropLast_concat, List.takeWhile_append]
      split
      · rename_i hlength
        simp [(List.takeWhile_prefix _).eq_of_length hlength, hend]
      · rfl
    · rfl

/-- A cursor on an end token has passed the tokens before the first end token. -/
theorem Cursor.Passes.beforeEnd_eq {first second : Cursor} {passed : List Token}
    (hpasses : first.Passes passed second) (hend : second.current.isEnd = true) :
    Token.beforeEnd first.pending = passed := by
  have hrest : Token.beforeEnd second.pending = [] := by
    cases hpending : second.pending with
    | nil => rfl
    | cons token tokens =>
        rw [current, hpending] at hend
        simp only [List.headD_cons] at hend
        simp [Token.beforeEnd, hend]
  have hpassed : ∀ token ∈ passed, (!token.isEnd) = true := by
    intro token htoken
    simp [hpasses.not_end token htoken]
  rw [Token.beforeEnd, hpasses.pending_eq, List.takeWhile_append_of_pos hpassed]
  rw [Token.beforeEnd] at hrest
  rw [hrest, List.append_nil]

/-- A program and its tree say the same: the values of the tokens before the first
end token are those of the words of the tree, comments, semicolons and commas
apart. -/
theorem words_conserve_tokens {semicolons : Semicolons} {tokens : List Token} {tree : Tree}
    (hparse : parse semicolons tokens = .ok tree) :
    Token.contents (Token.spoken (Token.beforeEnd tokens)) =
      Token.contents (tree.words tree.rootId) := by
  obtain ⟨hgrown, -⟩ := grown_of_parse hparse
  have hordered := hgrown.ordered Tree.empty_ordered
  obtain ⟨body, after, htrace, hend, rfl⟩ := trace_of_parse hparse
  have hpart : after.tree.PartOf (after.grown (.root body after.cursor.current)).tree :=
    Tree.partOf_insert _ _ _
  obtain ⟨passed, hpasses, hcontents⟩ := htrace.contents hordered hpart
  have hpassed : passed = Token.beforeEnd tokens := by
    rw [← Cursor.beforeEnd_ofTokens]
    exact (hpasses.beforeEnd_eq hend).symm
  have hwords := Tree.words_eq hordered (Tree.shape?_insert_self after.tree (.root body) _)
  rw [← hpassed, hcontents]
  exact congrArg Token.contents hwords.symm

/-- An array with a comma after its last item, a comment, and no semicolon. -/
theorem words_conserve_tokens_array :
    let tokens := [Token.plain .identifier "x", Token.plain .operator "=",
      Token.plain .blockComment "/**/", Token.plain .punctuation "[",
      Token.plain .number "1", Token.plain .punctuation ",", Token.plain .punctuation "]"]
    ∃ tree, parse .inserted tokens = .ok tree ∧
      Token.contents (tree.words tree.rootId) = ["x", "=", "[", "1", "]"] := by
  intro tokens
  have hok : (parse .inserted tokens).isOk = true := by decide +kernel
  obtain ⟨tree, hparse⟩ := exists_parse hok
  exact ⟨tree, hparse, (words_conserve_tokens hparse).symm.trans (by decide)⟩

end ScriptSyntax

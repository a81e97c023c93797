import ScriptSyntax.Proofs.Lockstep.Statement

/-!
# Reserved words as member names

Behind a dot a reserved word is the name of a member and nothing else: the parser does the same
with it as with an identifier that is written like it.  A dot is passed in one place only, and
there the word behind it is taken by its value.
-/

namespace ScriptSyntax

open Parse

theorem Cursor.ofTokens_concat (front : List Token) (last : Token) :
    ofTokens (front ++ [last]) =
      if hlast : last.kind = .eof then ⟨front, last, hlast⟩
      else ⟨front ++ [last], .endOfInput last.span.atEnd false, rfl⟩ := by
  unfold ofTokens
  simp only [List.getLast?_concat, List.dropLast_concat]

namespace Lockstep

/-- The cursors have the same tokens to come, but for one reserved word behind a dot that is a
plain name for the second cursor. -/
structure Renamed (first second : Cursor) : Prop where
  last : first.last = second.last
  pending : first.pending = second.pending ∨ ∃ front dot word behind,
    dot.isPunctuation "." = true ∧ word.isMemberName = true ∧
      first.pending = front ++ dot :: word :: behind ∧
        second.pending = front ++ dot :: word.asName :: behind

variable {first second : Cursor}

/-- Once a token is passed the cursors still differ by the word, unless it comes next. -/
theorem Renamed.advance (hrenamed : Renamed first second) :
    Renamed first.advance second.advance ∨ first.current.isPunctuation "." = true ∧
      ∃ word behind, word.isMemberName = true ∧ first.advance.pending = word :: behind ∧
        second.advance.pending = word.asName :: behind := by
  obtain ⟨hlast, hsame | ⟨front, dot, word, behind, hdot, hword, hfirst, hsecond⟩⟩ := hrenamed
  · exact .inl ⟨hlast, .inl (congrArg List.tail hsame)⟩
  · cases front with
    | nil =>
        refine .inr ⟨?_, word, behind, hword, congrArg List.tail hfirst, congrArg List.tail hsecond⟩
        rw [Cursor.current, hfirst]
        exact hdot
    | cons token front =>
        exact .inl ⟨hlast, .inr ⟨front, dot, word, behind, hdot, hword, congrArg List.tail hfirst,
          congrArg List.tail hsecond⟩⟩

theorem Renamed.current (hrenamed : Renamed first second) : first.current = second.current := by
  obtain ⟨hlast, hsame | ⟨front, dot, word, behind, -, -, hfirst, hsecond⟩⟩ := hrenamed
  · rw [Cursor.current, Cursor.current, hsame, hlast]
  · rw [Cursor.current, Cursor.current, hfirst, hsecond]
    cases front <;> rfl

/-- A search on the line ends at a dot at the latest. -/
theorem Renamed.lines (hrenamed : Renamed first second) :
    Cursor.firstOnLine? first.pending = Cursor.firstOnLine? second.pending := by
  obtain ⟨-, hsame | ⟨front, dot, word, behind, hdot, -, hfirst, hsecond⟩⟩ := hrenamed
  · rw [hsame]
  · have hkind : dot.kind ≠ .blockComment := by simp [((dot.is_iff _ _).mp hdot).1]
    rw [hfirst, hsecond]
    exact Cursor.firstOnLine?_append_cons hkind front (word :: behind) (word.asName :: behind)

/-- A reserved word behind a dot is as good as a plain name. -/
def memberNames : Lockstep where
  level := Renamed
  astray _ := False
  astray_later _ _ := id
  current := Renamed.current
  lines := Renamed.lines
  advance hrenamed hordinary := by
    refine .inr (hrenamed.advance.resolve_right ?_)
    rintro ⟨hdot, -⟩
    rw [hordinary.2] at hdot
    cases hdot
  member {first second} hrenamed hdot := by
    rcases hrenamed.advance with hlevel | ⟨-, word, behind, hword, hfirst, hsecond⟩
    · exact .inl (.inr hlevel)
    · have hcurrent : first.advance.current = word := by rw [Cursor.current, hfirst]; rfl
      have hother : second.advance.current = word.asName := by rw [Cursor.current, hsecond]; rfl
      refine .inr ⟨⟨hcurrent ▸ hword, ?_, ?_⟩, .inr ⟨hrenamed.last, .inl ?_⟩⟩
      · rw [hother]
        rfl
      · rw [hcurrent, hother]
        rfl
      · exact (congrArg List.tail hfirst).trans (congrArg List.tail hsecond).symm

/-- Lists that differ by a word behind a dot. -/
theorem renamed_ofTokens {front behind : List Token} {dot word : Token}
    (hdot : dot.isPunctuation "." = true) (hword : word.isMemberName = true) :
    Renamed (.ofTokens (front ++ dot :: word :: behind))
      (.ofTokens (front ++ dot :: word.asName :: behind)) := by
  rcases List.eq_nil_or_concat behind with rfl | ⟨behind, last, rfl⟩
  · have hkind : word.kind ≠ .eof := by
      intro hend
      simp [Token.isMemberName, Token.isWordOperator, hend] at hword
    have hname : word.asName.kind ≠ .eof := by simp
    rw [List.append_cons front dot [word], List.append_cons front dot [word.asName],
      Cursor.ofTokens_concat, Cursor.ofTokens_concat, dif_neg hkind, dif_neg hname]
    exact ⟨rfl, .inr ⟨front, dot, word, [], hdot, hword, by simp, by simp⟩⟩
  · have hlists : ∀ name : Token, front ++ dot :: name :: behind.concat last =
        (front ++ dot :: name :: behind) ++ [last] := by
      intro name
      rw [List.concat_eq_append, List.append_assoc]
      rfl
    rw [hlists, hlists, Cursor.ofTokens_concat, Cursor.ofTokens_concat]
    split
    · exact ⟨rfl, .inr ⟨front, dot, word, behind, hdot, hword, rfl, rfl⟩⟩
    · exact ⟨rfl, .inr ⟨front, dot, word, behind ++ [last], hdot, hword, by simp, by simp⟩⟩

end Lockstep

/-- A reserved word behind a dot may be replaced by an identifier that is written like it: the
tree, or the failure, is the same. -/
theorem parse_reserved_member {semicolons : Semicolons} {tokens : List Token} {index : Nat}
    {dot word : Token} (hdot : tokens[index]? = some dot) (hmark : dot.isPunctuation "." = true)
    (hword : tokens[index + 1]? = some word)
    (hreserved : word.kind = .keyword ∨ word.isWordOperator = true) :
    parse semicolons (tokens.set (index + 1) word.asName) = parse semicolons tokens := by
  have hmember : word.isMemberName = true := by
    rcases hreserved with hkind | hoperator
    · simp [Token.isMemberName, hkind]
    · simp [Token.isMemberName, hoperator]
  obtain ⟨hinside, rfl⟩ := List.getElem?_eq_some_iff.mp hdot
  obtain ⟨hnext, rfl⟩ := List.getElem?_eq_some_iff.mp hword
  let front := tokens.take index
  let behind := tokens.drop (index + 1 + 1)
  have htokens : tokens = front ++ tokens[index] :: tokens[index + 1] :: behind := by
    rw [← List.drop_eq_getElem_cons, ← List.drop_eq_getElem_cons, List.take_append_drop]
  have hothers : tokens.set (index + 1) tokens[index + 1].asName =
      front ++ tokens[index] :: tokens[index + 1].asName :: behind := by
    rw [List.set_eq_take_append_cons_drop, if_pos hnext, ← List.take_append_getElem hinside,
      List.append_assoc]
    rfl
  rw [hothers]
  have hlevel : Lockstep.Renamed
      (.ofTokens (front ++ tokens[index] :: tokens[index + 1] :: behind))
      (.ofTokens (front ++ tokens[index] :: tokens[index + 1].asName :: behind)) :=
    Lockstep.renamed_ofTokens hmark hmember
  rw [← htokens] at hlevel
  exact Lockstep.memberNames.parse_eq (fun _ => id) semicolons hlevel

/-- In `a.if / b` the word is a name, so that what follows it divides. -/
theorem parse_reserved_member_division :
    let tokens := [Token.plain .identifier "a", .plain .punctuation ".", .plain .keyword "if",
      .plain .operator "/", .plain .identifier "b"]
    ∃ tree, parse .inserted tokens = .ok tree ∧
      parse .inserted (tokens.set 2 (.plain .identifier "if")) = .ok tree ∧
        tree.ids.map tree.shape? =
          [some (.leaf .name (.plain .identifier "a")), some (.leaf .name (.plain .identifier "if")),
            some (.binary 1 (.plain .punctuation ".") 2),
            some (.leaf .name (.plain .identifier "b")),
            some (.binary 3 (.plain .operator "/") 4), some (.expression (some 5)),
            some (.root [6])] := by
  intro tokens
  have hread : (parse .inserted tokens).toOption.map (fun tree => tree.ids.map tree.shape?) =
      some [some (.leaf .name (.plain .identifier "a")),
        some (.leaf .name (.plain .identifier "if")),
        some (.binary 1 (.plain .punctuation ".") 2), some (.leaf .name (.plain .identifier "b")),
        some (.binary 3 (.plain .operator "/") 4), some (.expression (some 5)),
        some (.root [6])] := by
    decide +kernel
  obtain ⟨tree, hparse, hshapes⟩ := exists_parse_eq hread
  have hdot : tokens[1]? = some (.plain .punctuation ".") := rfl
  have hword : tokens[1 + 1]? = some (.plain .keyword "if") := rfl
  have hset : parse .inserted (tokens.set 2 (.plain .identifier "if")) = parse .inserted tokens :=
    parse_reserved_member hdot rfl hword (.inl rfl)
  exact ⟨tree, hparse, hset.trans hparse, hshapes⟩

end ScriptSyntax

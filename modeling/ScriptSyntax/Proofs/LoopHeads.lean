import ScriptSyntax.Proofs.Categories.Sorts
import ScriptSyntax.Proofs.DeclarationLists

/-!
# Variables in the head of a loop

Behind `var` the head of a loop declares variables, and nowhere else.  The one exception is a
`var` with a semicolon directly behind it: the semicolon is looked for before the declarations
are, so the loop is read as one that does nothing before its first round, with a `var` that
declares nothing.
-/

namespace ScriptSyntax

namespace LoopInit

/-- There is a `var` in the head of a loop if and only if variables are declared there. -/
def InStep (varToken : Option Token) (init : Option (LoopInit NodeId)) : Prop :=
  varToken.isSome = true ↔ ∃ entries, init = some (.declarations entries)

variable {varToken : Option Token} {clause : List Token} {init : Option (LoopInit NodeId)}

theorem ToldBy.eq_none_iff (htold : ToldBy varToken clause init) :
    init = none ↔ clause.head?.any (·.isPunctuation ";") = true := by
  cases init with
  | none => exact iff_of_true rfl htold
  | some init =>
      have hclause : clause.head?.any (·.isPunctuation ";") = false := by
        cases init <;> exact htold.1
      exact iff_of_false (Option.some_ne_none init) (Bool.eq_false_iff.mp hclause)

theorem ToldBy.inStep_iff (htold : ToldBy varToken clause init) :
    InStep varToken init ↔
      ¬(varToken.isSome = true ∧ clause.head?.any (·.isPunctuation ";") = true) := by
  rw [← htold.eq_none_iff, InStep]
  cases init with
  | none => simp
  | some init =>
      cases init with
      | declarations entries => simp [htold.2.1]
      | expression value => simp [htold.2]

theorem ToldBy.entries_ne_nil {entries : List NodeId}
    (htold : ToldBy varToken clause (some (.declarations entries))) : entries ≠ [] :=
  htold.2.2

end LoopInit

/-- What a loop declares are declarations. -/
theorem Tree.Conforms.kind?_declared {tree : Tree} (hconforms : tree.Conforms) {id : NodeId}
    {varToken : Option Token} {entries : List NodeId} {test step : Option NodeId} {body : NodeId}
    (hshape : tree.shape? id =
      some (.forLoop varToken (some (.declarations entries)) test step body)) :
    ∀ entry ∈ entries, tree.kind? entry = some .declaration := by
  intro entry hentry
  have hdemand : (entry, .declaration) ∈
      (Shape.forLoop varToken (some (.declarations entries)) test step body).demands := by
    simp [Shape.demands, LoopInit.demands, Category.each, hentry]
  exact hconforms.kind?_of_demand hshape hdemand fun _ => rfl

/-- Every loop begins with `for (`, then `var` if it is in the head, and its first clause; `var`
is there if and only if variables are declared, and there are always some of these, unless the
clause that follows `var` begins with a semicolon.  What is declared there is what a statement
may declare: a list of declarations is read in the one place exactly if it is read in the other,
block comments before the semicolon of the statement apart. -/
theorem loops_declare_behind_var (semicolons : Semicolons) :
    (∀ tokens tree, parse semicolons tokens = .ok tree →
      ∀ (id : NodeId) varToken init test step body,
        tree.shape? id = some (.forLoop varToken init test step body) →
        (∃ (keyword : Token) (clause : List Token),
          keyword.HeadsLoop (Cursor.ofTokens tokens).pending varToken clause ∧
          (tree.span id).start = keyword.span.start ∧
          (init = none ↔ clause.head?.any (·.isPunctuation ";") = true) ∧
          (LoopInit.InStep varToken init ↔
            ¬(varToken.isSome = true ∧ clause.head?.any (·.isPunctuation ";") = true))) ∧
        ∀ entries, init = some (.declarations entries) →
          entries ≠ [] ∧ ∀ entry ∈ entries, tree.kind? entry = some .declaration) ∧
    ∀ list : List Token, (∀ token ∈ list, token.isEnd = false) → ∀ entries,
      ((∃ tree, parse semicolons (Token.varLoop list) = .ok tree ∧ tree.IsVarLoop entries) ↔
        (∃ tree, parse semicolons (Token.varStatement list) = .ok tree ∧
          tree.IsVarStatement entries) ∧
        ∀ last ∈ list.getLast?, last.kind ≠ .blockComment) := by
  refine ⟨?_, fun list hlist => varLoop_iff_varStatement hlist⟩
  intro tokens tree hparse id varToken init test step body hshape
  obtain ⟨keyword, clause, hhead, hstart, htold⟩ :=
    (placed_of_parse hparse id _ hshape).begins varToken init test step body rfl
  refine ⟨⟨keyword, clause, hhead, hstart, htold.eq_none_iff, htold.inStep_iff⟩, ?_⟩
  rintro entries rfl
  exact ⟨htold.entries_ne_nil, (conforms_of_parse hparse).kind?_declared hshape⟩

/-- Two variables, the second one with a comment before its name. -/
theorem loops_declare_behind_var_two :
    let list := [Token.plain .identifier "a", .plain .punctuation ",",
      .plain .blockComment "/**/", .plain .identifier "b"]
    (∀ token ∈ list, token.isEnd = false) ∧
      ∃ tree, parse .inserted (Token.varLoop list) = .ok tree ∧
        tree.shape? 4 = some (.forLoop (some (.plain .keyword "var"))
          (some (.declarations [1, 2])) none none 3) ∧
        LoopInit.InStep (some (.plain .keyword "var")) (some (.declarations [1, 2])) ∧
        (∀ entry ∈ [1, 2], tree.kind? entry = some .declaration) ∧
        ∃ other, parse .inserted (Token.varStatement list) = .ok other ∧
          other.IsVarStatement [1, 2] := by
  intro list
  have hlist : ∀ token ∈ list, token.isEnd = false := by decide
  have hread : (parse .inserted (Token.varLoop list)).toOption.map
      (fun tree => (tree.statements, tree.shape? 4, tree.shape? 3)) =
      some ([4], some (.forLoop (some (.plain .keyword "var")) (some (.declarations [1, 2]))
        none none 3), some (.expression none)) := by
    decide +kernel
  obtain ⟨tree, hparse, hfound⟩ := exists_parse_eq hread
  simp only [Prod.mk.injEq] at hfound
  obtain ⟨hstatements, hloop, hbody⟩ := hfound
  obtain ⟨hloops, hlists⟩ := loops_declare_behind_var .inserted
  obtain ⟨⟨keyword, clause, -, -, hnone, hstep⟩, hdeclared⟩ :=
    hloops _ tree hparse 4 _ _ _ _ _ hloop
  have hinStep := hstep.mpr fun hmark => nomatch hnone.mpr hmark.2
  have hsame := (hlists list hlist [1, 2]).mp
    ⟨tree, hparse, 4, _, 3, hstatements, hloop, hbody⟩
  exact ⟨hlist, tree, hparse, hloop, hinStep, (hdeclared [1, 2] rfl).2, hsame.1⟩

/-- A semicolon directly behind `var` is read as the end of a clause that is left out, while the
same list without a name is refused in a statement, and in a loop with a comment behind `var`. -/
theorem var_without_name_in_loop :
    let word := Token.plain .keyword "var"
    let head := [Token.plain .keyword "for", .plain .punctuation "(", word]
    let rest := [Token.semicolon, .semicolon, .plain .punctuation ")", .plain .identifier "x",
      .semicolon]
    (∃ tree, parse .inserted (head ++ rest) = .ok tree ∧
      tree.shape? 3 = some (.forLoop (some word) none none none 2) ∧
      ¬LoopInit.InStep (some word) none) ∧
    parse .inserted (Token.varStatement []) =
      .error (Token.semicolon.unexpected .expectedIdentifier) ∧
    parse .inserted (head ++ .plain .blockComment "/**/" :: rest) =
      .error (Token.semicolon.unexpected .expectedIdentifier) := by
  intro word head rest
  refine ⟨?_, by decide +kernel, by decide +kernel⟩
  have hread : (parse .inserted (head ++ rest)).toOption.map (fun tree => tree.shape? 3) =
      some (some (.forLoop (some word) none none none 2)) := by
    decide +kernel
  obtain ⟨tree, hparse, hloop⟩ := exists_parse_eq hread
  exact ⟨tree, hparse, hloop, by simp [LoopInit.InStep]⟩

end ScriptSyntax

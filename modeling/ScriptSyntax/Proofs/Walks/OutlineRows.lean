import Mathlib.Algebra.BigOperators.Group.List.Basic
import ScriptSyntax.Proofs.LineFeeds
import ScriptSyntax.Proofs.LineLookup
import ScriptSyntax.Proofs.Trace.Shown
import ScriptSyntax.Proofs.Walks.Indentation

/-!
# Rows of an outline

An outline is meant to have a line for each node.  What it says of a node is written in a
row that a line feed ends, and the values that it shows are those of tokens.  All of them
but strings stay within a line; a string is shown decoded, so that each line feed in it
breaks its row once more.
-/

namespace ScriptSyntax

/-- The line feeds in a string; in other nodes there are none. -/
def Shape.feeds {Ref : Type} : Shape Ref → Nat
  | .leaf .string token => token.value.toList.count '\n'
  | _ => 0

/-- The line feeds in what an outline shows of a node. -/
def Tree.feeds (tree : Tree) (id : NodeId) : Nat :=
  ((tree.shape? id).map Shape.feeds).getD 0

/-- No string of the program holds a line feed. -/
def Tree.StringsStayInLine (tree : Tree) : Prop :=
  ∀ id token, tree.shape? id = some (.leaf .string token) → '\n' ∉ token.value.toList

/-- Tokens that are written within a line have values that do so, too. -/
def Token.ValuesStayInLine (tokens : List Token) : Prop :=
  ∀ token ∈ tokens, token.kind.staysInLine = true → '\n' ∉ token.value.toList

/-! ## Line feeds in a row -/

theorem NodeKind.lineFeed_not_mem_text (kind : NodeKind) : '\n' ∉ kind.text.toList := by
  cases kind <;> decide

theorem Token.staysInLine_of_isMemberName {token : Token} (htoken : token.isMemberName = true) :
    token.kind.staysInLine = true := by
  cases hkind : token.kind <;>
    simp_all [isMemberName, isWordOperator, Kind.staysInLine]

/-- A label with a value has the line feeds of the value. -/
theorem NodeKind.count_text_append (kind : NodeKind) (value : String) :
    (kind.text ++ " " ++ value).toList.count '\n' = value.toList.count '\n' := by
  rw [String.toList_append, String.toList_append, List.count_append, List.count_append,
    List.count_eq_zero.mpr kind.lineFeed_not_mem_text, Nat.zero_add]
  exact Nat.zero_add _

/-- Of the values that labels show, only strings have line feeds. -/
theorem Shape.count_label {tokens : List Token} (htokens : Token.ValuesStayInLine tokens)
    {shape : Shape NodeId} (hshown : shape.ShownIn (tokens.map .own)) :
    shape.label.toList.count '\n' = shape.feeds := by
  have hlabel : ∀ (kind : NodeKind) (token : Token),
      .own token ∈ tokens.map (Part.own : Token → Part NodeId) →
      token.kind.staysInLine = true →
      (kind.text ++ " " ++ token.value).toList.count '\n' = 0 := by
    intro kind token htoken hkind
    obtain ⟨other, hother, heq⟩ := List.mem_map.mp htoken
    cases heq
    rw [NodeKind.count_text_append]
    exact List.count_eq_zero.mpr (htokens token hother hkind)
  have hplain : shape.kind.text.toList.count '\n' = 0 :=
    List.count_eq_zero.mpr shape.kind.lineFeed_not_mem_text
  cases shape with
  | leaf kind token =>
      cases kind with
      | comment => exact hplain
      | name =>
          obtain ⟨word, hword, hmember, rfl⟩ := hshown
          exact hlabel _ word hword (Token.staysInLine_of_isMemberName hmember)
      | string => exact NodeKind.count_text_append _ _
      | number => exact hlabel _ token hshown.1 (by rw [hshown.2]; rfl)
      | regex => exact hlabel _ token hshown.1 (by rw [hshown.2]; rfl)
  | unary side operator operand => exact hlabel _ operator hshown.1 (by rw [hshown.2]; rfl)
  | binary left operator right =>
      obtain ⟨hoperator, hkind | hkind⟩ := hshown
      · exact hlabel _ operator hoperator (by rw [hkind]; rfl)
      · exact hlabel _ operator hoperator (by rw [hkind]; rfl)
  | _ => exact hplain

namespace Tree

variable {tree : Tree} {tokens : List Token}

theorem count_label (htokens : Token.ValuesStayInLine tokens) (hshows : tree.ShowsOnly tokens)
    (id : NodeId) : (tree.label id).toList.count '\n' = tree.feeds id := by
  rw [label, feeds, shape?, Option.map_map]
  cases hnode : tree.find? id with
  | none => rfl
  | some node =>
      apply Shape.count_label htokens
      exact hshows id node.shape (by rw [shape?, hnode]; rfl)

/-- What stands in a row before the line feed that ends it. -/
def rowFront (tree : Tree) (id : NodeId) : List Char :=
  List.replicate (2 * (tree.ancestors id).length) ' ' ++ (tree.label id).toList ++
    ' ' :: (showId id).toList

theorem toList_outlineRow (tree : Tree) (id : NodeId) :
    (tree.outlineRow id).toList = tree.rowFront id ++ ['\n'] := by
  simp [outlineRow, outlineLine, rowFront]

/-- In a row there are the line feeds of its node, apart from the one that ends it. -/
theorem count_rowFront (htokens : Token.ValuesStayInLine tokens) (hshows : tree.ShowsOnly tokens)
    (id : NodeId) : (tree.rowFront id).count '\n' = tree.feeds id := by
  have hnumber : (showId id).toList.count '\n' = 0 := by
    rw [showId, String.toList_append, List.count_append,
      List.count_eq_zero.mpr (lineFeed_not_mem_repr id)]
    rfl
  have hindent : (List.replicate (2 * (tree.ancestors id).length) ' ').count '\n' = 0 :=
    List.count_eq_zero.mpr (by simp)
  rw [rowFront, List.count_append, List.count_append, hindent, count_label htokens hshows,
    List.count_cons_of_ne (by decide), hnumber, Nat.zero_add, Nat.add_zero]

theorem stringsStayInLine_iff :
    tree.StringsStayInLine ↔ ∀ id ∈ tree.ids, tree.feeds id = 0 := by
  constructor
  · intro hstrings id _
    unfold feeds
    cases hshape : tree.shape? id with
    | none => rfl
    | some shape =>
        show shape.feeds = 0
        unfold Shape.feeds
        split
        · exact List.count_eq_zero.mpr (hstrings id _ hshape)
        · rfl
  · intro hfeeds id token hshape
    have hnone := hfeeds id (mem_ids_of_shape? hshape)
    rw [feeds, hshape] at hnone
    exact List.count_eq_zero.mp hnone

/-- Rows that line feeds end are the lines of the text that they make up, if no row is
broken, and only then. -/
theorem lines_rows_iff (fronts : List (List Char)) :
    lines (fronts.map (· ++ ['\n'])).flatten = fronts.map (· ++ ['\n']) ↔
      ∀ front ∈ fronts, '\n' ∉ front := by
  constructor
  · intro hlines front hfront
    have hinside := (lines_wellformed (fronts.map (· ++ ['\n'])).flatten).2.2
    rw [hlines] at hinside
    have hrow := hinside _ (List.mem_map_of_mem hfront)
    rwa [List.dropLast_concat] at hrow
  · intro hfronts
    apply lines_of_flatten
    · simp
    · intro line hline
      obtain ⟨front, -, rfl⟩ := List.mem_map.mp (List.mem_of_mem_dropLast hline)
      exact List.getLast?_concat ..
    · intro line hline
      obtain ⟨front, hfront, rfl⟩ := List.mem_map.mp hline
      rw [List.dropLast_concat]
      exact hfronts front hfront

/-- The rows of the nodes in pre-order. -/
def rows (tree : Tree) : List (List Char) :=
  (tree.preorder tree.rootId).map fun id => (tree.outlineRow id).toList

theorem rows_eq (tree : Tree) :
    tree.rows = ((tree.preorder tree.rootId).map tree.rowFront).map (· ++ ['\n']) := by
  rw [List.map_map]
  exact List.map_congr_left fun id _ => tree.toList_outlineRow id

theorem Planted.toList_outline (hplanted : tree.Planted) :
    tree.outline.toList = tree.rows.flatten := by
  rw [outline, hplanted.outlineLines_eq, String.toList_join, List.flatMap_map, List.flatMap_def,
    rows]

theorem Planted.preorder_perm_ids (hplanted : tree.Planted) :
    (tree.preorder tree.rootId).Perm tree.ids :=
  hplanted.whole ▸ hplanted.ordered.preorder_perm tree.rootId

theorem count_rows (hplanted : tree.Planted) (htokens : Token.ValuesStayInLine tokens)
    (hshows : tree.ShowsOnly tokens) :
    tree.rows.flatten.count '\n' = tree.size + (tree.ids.map tree.feeds).sum := by
  have hrow : ∀ id ∈ tree.preorder tree.rootId,
      (tree.outlineRow id).toList.count '\n' = 1 + tree.feeds id := by
    intro id _
    rw [toList_outlineRow, List.count_append, count_rowFront htokens hshows, Nat.add_comm]
    rfl
  calc tree.rows.flatten.count '\n'
      = ((tree.preorder tree.rootId).map fun id => 1 + tree.feeds id).sum := by
        rw [List.count_flatten, rows, List.map_map, Function.comp_def, List.map_congr_left hrow]
    _ = (tree.ids.map fun id => 1 + tree.feeds id).sum :=
        (hplanted.preorder_perm_ids.map fun id => 1 + tree.feeds id).sum_nat
    _ = tree.size + (tree.ids.map tree.feeds).sum := by
        rw [List.sum_map_add]
        simp [ids]

/-- No row is broken exactly if no string holds a line feed. -/
theorem lineFeed_not_mem_rowFronts_iff (hplanted : tree.Planted)
    (htokens : Token.ValuesStayInLine tokens) (hshows : tree.ShowsOnly tokens) :
    (∀ front ∈ (tree.preorder tree.rootId).map tree.rowFront, '\n' ∉ front) ↔
      tree.StringsStayInLine := by
  rw [stringsStayInLine_iff, List.forall_mem_map]
  apply forall_congr'
  intro id
  rw [hplanted.preorder_perm_ids.mem_iff, ← List.count_eq_zero, count_rowFront htokens hshows]

end Tree

/-- The outline of a scanned program has a row for each node, and besides the line feeds
that end the rows it has those in the strings of the program.  So its lines are the rows,
and they are as many as the nodes, exactly if no string holds a line feed. -/
theorem outline_rows {source file : String} {semicolons : Semicolons} {tokens : List Token}
    {tree : Tree} (htokens : tokenize source file = .ok tokens)
    (hparse : parse semicolons tokens = .ok tree) :
    (tree.preorder tree.rootId).Perm tree.ids ∧
    tree.outline.toList = tree.rows.flatten ∧
    tree.outline.toList.count '\n' = tree.size + (tree.ids.map tree.feeds).sum ∧
    (tree.outline.toList.count '\n' = tree.size ↔ tree.StringsStayInLine) ∧
    (lines tree.outline.toList = tree.rows ↔ tree.StringsStayInLine) := by
  have hplanted := Tree.planted_of_parse hparse
  have hshows := showsOnly_of_parse hparse
  have hvalues : Token.ValuesStayInLine tokens :=
    fun token htoken hkind => lineFeed_not_mem_value htokens htoken hkind
  have hcount := Tree.count_rows hplanted hvalues hshows
  rw [hplanted.toList_outline]
  refine ⟨hplanted.preorder_perm_ids, rfl, hcount, ?_, ?_⟩
  · have hnone : tree.size + (tree.ids.map tree.feeds).sum = tree.size ↔
        (tree.ids.map tree.feeds).sum = 0 := by omega
    rw [hcount, hnone, List.sum_eq_zero_iff_forall_eq_nat, List.forall_mem_map,
      Tree.stringsStayInLine_iff]
  · rw [Tree.rows_eq, Tree.lines_rows_iff,
      Tree.lineFeed_not_mem_rowFronts_iff hplanted hvalues hshows]

/-- A call with a string that holds a line feed and a regular expression that stands for one:
only the string breaks its row. -/
theorem outline_rows_call :
    let source := "f(\"a\\nb\", /\\n/);"
    ∃ tokens tree, tokenize source "a" = .ok tokens ∧ parse .required tokens = .ok tree ∧
      tree.size = 6 ∧ tree.ids.map tree.feeds = [0, 1, 0, 0, 0, 0] ∧
      tree.outline.toList.count '\n' = tree.size + (tree.ids.map tree.feeds).sum ∧
      (lines tree.outline.toList = tree.rows ↔ tree.StringsStayInLine) := by
  intro source
  have hread : (tokenize source "a").toOption.map (fun tokens =>
      (parse .required tokens).toOption.map fun tree =>
        (tree.size, tree.ids.map tree.feeds)) =
      some (some (6, [0, 1, 0, 0, 0, 0])) := by decide +kernel
  obtain ⟨tokens, htokens, hread⟩ := exists_tokenize_eq hread
  obtain ⟨tree, hparse, hvalues⟩ := exists_parse_eq hread
  obtain ⟨-, -, hcount, -, hlines⟩ := outline_rows htokens hparse
  exact ⟨tokens, tree, htokens, hparse, congrArg Prod.fst hvalues, congrArg Prod.snd hvalues,
    hcount, hlines⟩

/-- A program of three nodes whose outline has four line feeds: the string of a line feed
stands in two lines, and the first of them does not end with the number of a node. -/
theorem outline_row_broken_by_string :
    let source := "\"\\n\""
    ((tokenize source "a").toOption.bind fun tokens => (parse .inserted tokens).toOption).map
        (fun tree => (tree.size, tree.outline.toList.count '\n', tree.outline)) =
      some (3, 4, "Root #3\n  ExpressionStatement #2\n    String \n #1\n") := by
  decide +kernel

end ScriptSyntax

import ScriptSyntax.Proofs.Growth
import ScriptSyntax.Proofs.Parallel.Front

/-!
# Programs one after the other

Where semicolons have to be written, two programs can be read one after the other: the
nodes of the second one come behind those of the first one, with their numbers shifted, and
one root takes the place of both roots.
-/

namespace ScriptSyntax

open Parse

/-- The node below a new root, if it was below the old one. -/
def Node.handedOver (old new : NodeId) (node : Node) : Node :=
  { node with parent := node.parent.map fun parent => if parent = old then new else parent }

namespace Tree

/-- The statements of a program. -/
def statements (tree : Tree) : List NodeId :=
  tree.children tree.rootId

/-- The place of two programs one after the other.  A program without statements takes up no
place. -/
def joinedSpan (first second : Tree) : Span :=
  if first.statements = [] then second.span second.rootId
  else if second.statements = [] then first.span first.rootId
  else .between (first.span first.rootId) (second.span second.rootId)

/-- Two programs one after the other: the nodes of both but their roots, with those of the
second one renumbered, and one root over the statements of both. -/
def concat (first second : Tree) : Tree :=
  let offset := first.size - 1
  let last := offset + second.size
  let front := first.nodes.pop.map (Node.handedOver first.size last)
  let back := second.nodes.pop.map (Node.rename (shift offset))
  { nodes := (front ++ back).push ⟨first.joinedSpan second, none,
      .root (first.statements ++ second.statements.map (shift offset))⟩
    root := some last }

variable {first second : Tree}

theorem find?_concat_front (second : Tree) {id : Nat} (hid : id < first.size) :
    (first.concat second).find? id =
      (first.find? id).map (Node.handedOver first.size (first.size - 1 + second.size)) := by
  cases id with
  | zero => rfl
  | succ index =>
      have hindex : index < first.nodes.size - 1 := Nat.lt_sub_of_add_lt hid
      have hfront : index < (first.nodes.pop.map
          (Node.handedOver first.size (first.size - 1 + second.size))).size := by
        rwa [Array.size_map, Array.size_pop]
      change (Array.push _ _)[index]? = _
      rw [Array.getElem?_push, if_neg (by rw [Array.size_append]; omega),
        Array.getElem?_append_left hfront, Array.getElem?_map, Array.getElem?_pop, if_pos hindex]
      rfl

theorem find?_concat_back (first : Tree) {id : Nat} (hpos : 0 < id) (hid : id < second.size) :
    (first.concat second).find? (first.size - 1 + id) =
      (second.find? id).map (Node.rename (shift (first.size - 1))) := by
  cases id with
  | zero => cases hpos
  | succ index =>
      have hindex : index < second.nodes.size - 1 := Nat.lt_sub_of_add_lt hid
      have hfront : (first.nodes.pop.map
          (Node.handedOver first.size (first.size - 1 + second.size))).size = first.size - 1 := by
        rw [Array.size_map, Array.size_pop]
        rfl
      have hback : (second.nodes.pop.map (Node.rename (shift (first.size - 1)))).size =
          second.nodes.size - 1 := by
        rw [Array.size_map, Array.size_pop]
      change (Array.push _ _)[first.size - 1 + index]? = _
      rw [Array.getElem?_push, if_neg (by rw [Array.size_append, hfront, hback]; omega),
        Array.getElem?_append_right (by rw [hfront]; omega), hfront, Nat.add_sub_cancel_left,
        Array.getElem?_map, Array.getElem?_pop, if_pos hindex]
      rfl

theorem size_concat (first : Tree) (hsecond : 0 < second.size) :
    (first.concat second).size = first.size - 1 + second.size := by
  rw [size] at hsecond
  simp only [concat, size, Array.size_push, Array.size_append, Array.size_map, Array.size_pop]
  omega

theorem find?_concat_last (first : Tree) (hsecond : 0 < second.size) :
    (first.concat second).find? (first.size - 1 + second.size) =
      some ⟨first.joinedSpan second, none,
        .root (first.statements ++ second.statements.map (shift (first.size - 1)))⟩ := by
  obtain ⟨count, hcount⟩ := Nat.exists_eq_add_of_lt hsecond
  have hindex : (first.nodes.pop.map
      (Node.handedOver first.size (first.size - 1 + second.size)) ++
        second.nodes.pop.map (Node.rename (shift (first.size - 1)))).size =
      first.size - 1 + count := by
    rw [Array.size_append, Array.size_map, Array.size_map, Array.size_pop, Array.size_pop]
    rw [size] at hcount ⊢
    omega
  have hlast : first.size - 1 + second.size = (first.size - 1 + count) + 1 := by omega
  rw [hlast]
  change (Array.push _ _)[first.size - 1 + count]? = _
  rw [Array.getElem?_push, if_pos hindex.symm]

section Joined

variable {base forest whole : Tree} {ids body : List NodeId} {span place : Span}

/-- The roots of a forest, renumbered, are not among those in front of it. -/
theorem mem_joined_front (hbody : ∀ id : Nat, id ∈ body → 0 < id) {id : Nat}
    (hid : id ≤ base.size) : id ∈ ids ++ body.map (shift base.size) ↔ id ∈ ids := by
  rw [List.mem_append, or_iff_left]
  intro hmem
  obtain ⟨root, hroot, rfl⟩ := List.mem_map.mp hmem
  rw [eq_zero_of_shift_le hid] at hroot
  exact Nat.lt_irrefl 0 (hbody 0 hroot)

theorem mem_joined_back (hids : ∀ id : Nat, id ∈ ids → id ≤ base.size) {id : Nat} (hpos : 0 < id) :
    shift base.size id ∈ ids ++ body.map (shift base.size) ↔ id ∈ body := by
  rw [List.mem_append, mem_map_shift, or_iff_right]
  intro hmem
  have hle := hids _ hmem
  rw [shift_of_pos hpos] at hle
  omega

/-- The nodes of a forest change hands with the root above them. -/
theorem find?_root_handedOver (hbase : Tree.empty.Grown ids base) (last : NodeId) (id : Nat) :
    ((if id ∈ ids then (base.find? id).map (Node.adoptedBy · (base.size + 1))
      else base.find? id).map (Node.handedOver (base.size + 1) last)) =
      if id ∈ ids then (base.find? id).map (Node.adoptedBy · last) else base.find? id := by
  cases hnode : base.find? id with
  | none => split <;> rfl
  | some node =>
      split
      · rename_i hroot
        have hparent := (hbase.free id hroot).parent_eq
        rw [parent, hnode] at hparent
        change node.parent = none at hparent
        simp [Node.adoptedBy, Node.handedOver, hparent]
      · rename_i hinner
        have hpos : 0 < id := by
          apply Nat.pos_of_ne_zero
          rintro rfl
          cases hnode
        obtain ⟨holder, hheld⟩ :=
          hbase.held id hpos (le_size_of_find?_eq_some hnode) hinner
        have hparent := hheld.parent_eq
        rw [parent, hnode] at hparent
        change node.parent = some holder at hparent
        have hle := le_size_of_mem_children hheld.mem_children
        have hne : holder ≠ base.size + 1 := Nat.ne_of_lt (Nat.lt_succ_of_le hle)
        have hsame : node.handedOver (base.size + 1) last = node := by
          rw [Node.handedOver, hparent, Option.map_some, if_neg hne, ← hparent]
        rw [Option.map_some, hsame]

/-- The nodes of a forest that is put behind others, below the root of all. -/
theorem find?_root_renamed (hmirrors : Mirrors .exact base forest whole) (id : Nat) :
    ((if id ∈ body then (forest.find? id).map (Node.adoptedBy · (forest.size + 1))
      else forest.find? id).map (Node.rename (shift base.size))) =
      if id ∈ body then
        (whole.find? (shift base.size id)).map (Node.adoptedBy · (whole.size + 1))
      else whole.find? (shift base.size id) := by
  have hadopted := hmirrors.find?_adopted body id
  have hexact : Node.seen .exact = fun node => node := funext Node.seen_exact
  simp only [hexact, Option.map_id_fun', id_eq] at hadopted
  exact hadopted.symm

/-- Each node but the root of all is that of one of the two programs. -/
theorem find?_concat_inserted (hmirrors : Mirrors .exact base forest whole)
    (hbase : Tree.empty.Grown ids base) (hforest : Tree.empty.Grown body forest) {id : Nat}
    (hid : id ≤ whole.size) :
    ((base.insert (.root ids) span).2.concat (forest.insert (.root body) place).2).find? id =
      if id ∈ ids ++ body.map (shift base.size) then
        (whole.find? id).map (Node.adoptedBy · (whole.size + 1))
      else whole.find? id := by
  have hfirst : (base.insert (.root ids) span).2.size = base.size + 1 := size_insert ..
  have hsecond : (forest.insert (.root body) place).2.size = forest.size + 1 := size_insert ..
  have hsize := hmirrors.size
  by_cases hfront : id ≤ base.size
  · have hlast : base.size + 1 - 1 + (forest.size + 1) = whole.size + 1 := by omega
    have hroots : ∀ root : Nat, root ∈ body → 0 < root := fun root hroot =>
      (hforest.new root hroot).1
    rw [find?_concat_front _ (by omega), find?_insert_of_le _ _ _ hfront, hfirst, hsecond, hlast,
      hmirrors.front id hfront]
    simp only [mem_joined_front hroots hfront]
    exact find?_root_handedOver hbase (whole.size + 1) id
  · obtain ⟨inner, rfl⟩ : ∃ inner, id = base.size + (inner + 1) :=
      ⟨id - base.size - 1, by omega⟩
    have hroots : ∀ root : Nat, root ∈ ids → root ≤ base.size := fun root hroot =>
      (hbase.new root hroot).2
    have hmem : base.size + (inner + 1) ∈ ids ++ body.map (shift base.size) ↔
        inner + 1 ∈ body := mem_joined_back hroots (Nat.succ_pos inner)
    have hoffset : (base.insert (.root ids) span).2.size - 1 = base.size := by omega
    have hback := find?_concat_back (base.insert (.root ids) span).2 (Nat.succ_pos inner)
      (show inner + 1 < (forest.insert (.root body) place).2.size by omega)
    rw [hoffset, find?_insert_of_le _ _ _ (by omega)] at hback
    refine hback.trans ((find?_root_renamed hmirrors (inner + 1)).trans ?_)
    simp only [shift, hmem]
    rfl

theorem insert_root_concat {joined : Span} (hmirrors : Mirrors .exact base forest whole)
    (hbase : Tree.empty.Grown ids base) (hforest : Tree.empty.Grown body forest)
    (hjoined : joined = if ids = [] then place else if body = [] then span
      else .between span place) :
    (whole.insert (.root (ids ++ body.map (shift base.size))) joined).2 =
      (base.insert (.root ids) span).2.concat (forest.insert (.root body) place).2 := by
  have hfirst : (base.insert (.root ids) span).2.size = base.size + 1 := size_insert ..
  have hsecond : (forest.insert (.root body) place).2.size = forest.size + 1 := size_insert ..
  have hsize := hmirrors.size
  have hids : (base.insert (.root ids) span).2.statements = ids := children_insert_self ..
  have hbody : (forest.insert (.root body) place).2.statements = body := children_insert_self ..
  have hoffset : (base.insert (.root ids) span).2.size - 1 = base.size := by omega
  have hlast : base.size + 1 - 1 + (forest.size + 1) = whole.size + 1 := by omega
  have hplace : (base.insert (.root ids) span).2.joinedSpan (forest.insert (.root body) place).2 =
      joined := by
    have hspan : (base.insert (.root ids) span).2.span (base.insert (.root ids) span).2.rootId =
        span := span_insert_self ..
    have hother : (forest.insert (.root body) place).2.span
        (forest.insert (.root body) place).2.rootId = place := span_insert_self ..
    rw [joinedSpan, hids, hbody, hspan, hother, hjoined]
  apply ext_find?
  · change some (whole.size + 1) = some _
    rw [hfirst, hsecond, hlast]
  intro id
  rcases Nat.lt_trichotomy id (whole.size + 1) with hid | rfl | hid
  · have hle := Nat.le_of_lt_succ hid
    rw [find?_insert_of_le _ _ _ hle, find?_concat_inserted hmirrors hbase hforest hle]
    rfl
  · rw [find?_insert_self, ← hlast, ← hfirst, ← hsecond, find?_concat_last _ (by omega), hids,
      hbody, hoffset, hplace]
  · rw [find?_eq_none_of_size_lt, find?_eq_none_of_size_lt]
    · rw [size_concat _ (by omega), hfirst, hsecond]
      omega
    · rwa [size_insert]

/-- An edge of the forest in front. -/
theorem span_nodeOr_front (hmirrors : Mirrors .exact base forest whole)
    (hids : ∀ id : Nat, id ∈ ids → id ≤ base.size) {edge : Option NodeId} (hedge : edge ≠ none)
    (hmem : ∀ id ∈ edge, id ∈ ids) (token other : Token) :
    (Edge.nodeOr edge (.token token)).span whole = (Edge.nodeOr edge (.token other)).span base := by
  cases edge with
  | none => exact absurd rfl hedge
  | some id =>
      change whole.span id = base.span id
      rw [Tree.span, hmirrors.front id (hids id (hmem id rfl)), Tree.span]

/-- An edge of the forest behind. -/
theorem span_nodeOr_back (hmirrors : Mirrors .exact base forest whole) (edge : Option NodeId)
    {token other : Token} (htoken : edge = none → token.span = other.span) :
    (Edge.nodeOr (edge.map (shift base.size)) (.token token)).span whole =
      (Edge.nodeOr edge (.token other)).span forest := by
  cases edge with
  | none => exact htoken rfl
  | some id => exact hmirrors.place_span id

/-- The place of the root over both forests. -/
theorem span_root_joined (body : List NodeId) (hmirrors : Mirrors .exact base forest whole)
    (hids : ∀ id : Nat, id ∈ ids → id ≤ base.size) (last : Token) {ending token : Token}
    (htoken : ids = [] → token.span = ending.span) :
    (Draft.root (ids ++ body.map (shift base.size)) token).span whole =
      if ids = [] then (Draft.root body ending).span forest
      else if body = [] then (Draft.root ids last).span base
      else .between ((Draft.root ids last).span base) ((Draft.root body ending).span forest) := by
  have hhead : ids ≠ [] → (Edge.nodeOr ids.head? (.token token)).span whole =
      (Edge.nodeOr ids.head? (.token last)).span base := fun hne =>
    span_nodeOr_front hmirrors hids (by simpa using hne) (fun _ => List.mem_of_mem_head?) _ _
  have hlast : ids ≠ [] → (Edge.nodeOr ids.getLast? (.token token)).span whole =
      (Edge.nodeOr ids.getLast? (.token last)).span base := fun hne =>
    span_nodeOr_front hmirrors hids (by simpa using hne) (fun _ => List.mem_of_getLast?) _ _
  rw [Draft.span, Draft.span, Draft.span]
  by_cases hfront : ids = []
  · subst hfront
    rw [if_pos rfl, List.nil_append, Draft.root, List.head?_map, List.getLast?_map,
      span_nodeOr_back hmirrors _ fun _ => htoken rfl,
      span_nodeOr_back hmirrors _ fun _ => htoken rfl]
    rfl
  · rw [if_neg hfront]
    by_cases hback : body = []
    · subst hback
      rw [if_pos rfl, List.map_nil, List.append_nil, Draft.root, hhead hfront, hlast hfront]
      rfl
    · have hmap : body.map (shift base.size) ≠ [] := by simpa using hback
      rw [if_neg hback, Draft.root, List.head?_append_of_ne_nil _ hfront,
        List.getLast?_append_of_ne_nil _ hmap, hhead hfront, List.getLast?_map,
        span_nodeOr_back hmirrors _ fun hnone => absurd (List.getLast?_eq_none_iff.mp hnone) hback]
      rfl

end Joined

end Tree

/-- The statements of a program are read before the root above them is made. -/
theorem exists_statements_of_parse {semicolons : Semicolons} {tokens : List Token} {tree : Tree}
    {depth : Nat} (hdepth : (Cursor.ofTokens tokens).pending.length < depth)
    (hparse : parse semicolons tokens = .ok tree) :
    ∃ body after, Production.statements (.upTo semicolons depth) .program (.start tokens) =
        .ok body after ∧
      tree = (after.tree.add (.root body after.cursor.current)).2 ∧
      Tree.empty.Grown body after.tree ∧ after.cursor.current.isEnd = true := by
  rw [parse_eq semicolons tokens hdepth] at hparse
  cases hrun : Production.program (.upTo semicolons depth) (.start tokens) with
  | error diagnostic final =>
      rw [hrun] at hparse
      cases hparse
  | ok id final =>
      rw [hrun] at hparse
      obtain ⟨body, after, hstatements⟩ := exists_ok_of_bind_ok hrun
      change (Production.statements _ .program >>= _) (Session.start tokens) = _ at hrun
      rw [bind_of_ok hstatements] at hrun
      cases hrun
      cases hparse
      have hpushes : (Production.statements (.upTo semicolons depth) .program).PushesTo
          (.start tokens) Part.many Enclosure.program.closedBy :=
        Production.statements_pushesTo (Grammar.upTo_traced semicolons depth) .program
      obtain ⟨htrace, hend⟩ := hpushes.of_ok hstatements
      have hgrown := htrace.grown Tree.empty_ordered
      exact ⟨body, after, hstatements, rfl, by simpa [Part.many, Session.start] using hgrown,
        hend⟩

theorem parse_of_statements {semicolons : Semicolons} {tokens : List Token} {depth : Nat}
    (hdepth : (Cursor.ofTokens tokens).pending.length < depth) {body : List NodeId}
    {after : Session} (hread : Production.statements (.upTo semicolons depth) .program
      (.start tokens) = .ok body after) :
    parse semicolons tokens = .ok (after.tree.add (.root body after.cursor.current)).2 := by
  have hrun : Production.program (.upTo semicolons depth) (.start tokens) =
      .ok (after.tree.size + 1) (after.grown (.root body after.cursor.current)) := by
    change (Production.statements _ .program >>= _) (Session.start tokens) = _
    rw [bind_of_ok hread]
    rfl
  rw [parse_eq semicolons tokens hdepth, hrun]
  rfl

/-- Without end tokens all tokens of a list can be passed. -/
theorem Cursor.pending_ofTokens {tokens : List Token}
    (htokens : ∀ token ∈ tokens, token.isEnd = false) : (ofTokens tokens).pending = tokens := by
  unfold ofTokens
  split
  · rename_i hlast
    rw [List.getLast?_eq_none_iff.mp hlast]
  · rename_i last hlast
    have hend := htokens last (List.mem_of_getLast? hlast)
    rw [dif_neg (by simpa [Token.isEnd] using hend)]

theorem Cursor.last_ofTokens_append {front behind : List Token} (hbehind : behind ≠ []) :
    (ofTokens (front ++ behind)).last = (ofTokens behind).last := by
  have hlast : (front ++ behind).getLast? = behind.getLast? :=
    List.getLast?_append_of_ne_nil front hbehind
  unfold ofTokens
  rw [hlast]
  cases behind.getLast? with
  | none => rfl
  | some last =>
      dsimp only
      split <;> rfl

theorem Cursor.pending_nil_of_isEnd {cursor : Cursor}
    (htokens : ∀ token ∈ cursor.pending, token.isEnd = false)
    (hcurrent : cursor.current.isEnd = true) : cursor.pending = [] := by
  cases hpending : cursor.pending with
  | nil => rfl
  | cons token tokens =>
      have hfirst : cursor.current = token := by rw [current, hpending]; rfl
      rw [hfirst, htokens token (hpending ▸ List.mem_cons_self)] at hcurrent
      cases hcurrent

/-- Statements are read in the same way behind nodes that are there already. -/
theorem exists_statements_behind {semicolons : Semicolons} {tokens : List Token} {depth : Nat}
    {body : List NodeId} {start done : Session}
    (hpending : start.cursor.pending = (Cursor.ofTokens tokens).pending)
    (hlast : start.cursor.last = (Cursor.ofTokens tokens).last)
    (hread : Production.statements (.upTo semicolons depth) .program (.start tokens) =
      .ok body done) :
    ∃ after, Production.statements (.upTo semicolons depth) .program start =
        .ok (body.map (shift start.tree.size)) after ∧
      Tree.Mirrors .exact start.tree done.tree after.tree ∧
      done.cursor.current = after.cursor.current := by
  let pairing := Likeness.exact.tokenwise semicolons start.tree (.ofTokens tokens) start.cursor
    hlast.symm <| by
      intro later rest hsame _ _ _
      obtain rfl : later = rest := by rwa [← List.forall₂_eq_eq_eq]
      cases Cursor.firstOnLine? later with
      | none => exact .none
      | some token => exact .some rfl
  have hbeside : pairing.Beside (.start tokens) start := by
    constructor
    · refine ⟨?_, List.suffix_rfl, List.suffix_rfl, rfl, rfl⟩
      rw [hpending]
      exact List.forall₂_same.mpr fun _ _ => rfl
    · exact .start _ _
  have hgrammar : (Grammar.upTo semicolons depth).Parallel pairing :=
    Grammar.upTo_parallel pairing depth
  have houtcome := (Production.statements_runs hgrammar .program (.inr not_false)).beside hbeside
  rw [hread] at houtcome
  rcases houtcome with ⟨others, after, hother, hsame, hsessions⟩ | ⟨hfirm, -⟩
  · refine ⟨after, ?_, hsessions.mirrors, ?_⟩
    · rw [hother]
      exact congrArg (EStateM.Result.ok · after) hsame
    · exact hsessions.spent_or_twin.resolve_left fun hspent => hspent.1
  · cases hfirm

/-- The first token of a program that is read does not continue what comes before it. -/
theorem not_isConnective_of_parse {semicolons : Semicolons} {tokens : List Token} {tree : Tree}
    (htokens : ∀ token ∈ tokens, token.isEnd = false)
    (hparse : parse semicolons tokens = .ok tree) :
    ∀ token ∈ tokens.head?, token.isConnective = false := by
  intro token htoken
  obtain ⟨body, after, hread, -⟩ := exists_statements_of_parse (Nat.lt_succ_self _) hparse
  have hcurrent : (Session.start tokens).cursor.current = token := by
    change (Cursor.ofTokens tokens).pending.headD _ = token
    rw [Cursor.pending_ofTokens htokens, List.headD_eq_head?_getD, htoken]
    rfl
  have hend := htokens token (List.mem_of_mem_head? htoken)
  rw [← hcurrent] at hend
  obtain ⟨id, others, between, -, hstatement, -⟩ :=
    Production.exists_first_of_statements hend hread
  rw [← hcurrent]
  exact Production.not_isConnective_of_statement hstatement

section Append

variable {front behind : List Token} {depth : Nat}

/-- The statements of a program are read in front of another one, too; the reader then stands
before the first token of that. -/
theorem exists_statements_inFront {ids : List NodeId} {done : Session}
    (hfront : ∀ token ∈ front, token.isEnd = false)
    (hbehind : ∀ token ∈ behind, token.isEnd = false)
    (hconnective : ∀ token ∈ behind.head?, token.isConnective = false)
    (hread : Production.statements (.upTo .required depth) .program (.start front) =
      .ok ids done)
    (hend : done.cursor.current.isEnd = true) :
    ∃ lower mid, depth = lower + ids.length ∧ mid.tree = done.tree ∧
      mid.cursor.pending = behind ∧
      mid.cursor.last = (Cursor.ofTokens (front ++ behind)).last ∧
      ∀ others final,
        Production.statements (.upTo .required lower) .program mid = .ok others final →
        Production.statements (.upTo .required depth) .program (.start (front ++ behind)) =
          .ok (ids ++ others) final := by
  have hboth : ∀ token ∈ front ++ behind, token.isEnd = false := by
    intro token htoken
    exact (List.mem_append.mp htoken).elim (hfront token) (hbehind token)
  have hpending : (Cursor.ofTokens (front ++ behind)).pending =
      (Cursor.ofTokens front).pending ++ behind := by
    rw [Cursor.pending_ofTokens hboth, Cursor.pending_ofTokens hfront]
  have hinside : (Cursor.ofTokens front).pending <:+ front :=
    ⟨[], Cursor.pending_ofTokens hfront⟩
  have hbeside : (Pairing.inFront front behind (Cursor.ofTokens (front ++ behind)).last
      hconnective).Beside (.start front) (.start (front ++ behind)) :=
    ⟨⟨hinside, hpending, rfl⟩, .start _ _⟩
  obtain ⟨lower, mid, hdepth, hmid, hon⟩ := Production.statements_inFront depth hbeside hread
  have hdone : done.cursor.pending = [] :=
    Cursor.pending_nil_of_isEnd (fun token htoken =>
      hfront token (hmid.cursor.inside.mem htoken)) hend
  refine ⟨lower, mid, hdepth, ?_, ?_, hmid.cursor.last, hon⟩
  · have hseen : mid.tree.seen .exact = done.tree.seen .exact := hmid.mirrors.seen_eq
    rwa [Tree.seen_exact, Tree.seen_exact] at hseen
  · rw [hmid.cursor.pending, hdone, List.nil_append]

/-- The statements of a program are read behind those of another one, too. -/
theorem exists_statements_rest {body : List NodeId} {start done : Session}
    (hbehind : ∀ token ∈ behind, token.isEnd = false)
    (hpending : start.cursor.pending = behind)
    (hlast : start.cursor.last = (Cursor.ofTokens (front ++ behind)).last)
    (hread : Production.statements (.upTo .required depth) .program (.start behind) =
      .ok body done) :
    ∃ final, Production.statements (.upTo .required depth) .program start =
        .ok (body.map (shift start.tree.size)) final ∧
      Tree.Mirrors .exact start.tree done.tree final.tree ∧
      (front = [] → final.cursor.current.span = done.cursor.current.span) := by
  cases behind with
  | nil =>
      -- Nothing is read: the end token may be at the end of the first program.
      have hended : start.cursor.current.isEnd = true := Cursor.isEnd_of_pending_nil hpending
      rw [Production.statements_of_isEnd rfl] at hread
      cases hread
      refine ⟨start, Production.statements_of_isEnd hended, .start _ _, ?_⟩
      rintro rfl
      rw [Cursor.current, hpending, hlast]
      rfl
  | cons token tokens =>
      obtain ⟨final, hfinal, hmirrors, hsame⟩ := exists_statements_behind
        (hpending.trans (Cursor.pending_ofTokens hbehind).symm)
        (hlast.trans (Cursor.last_ofTokens_append (List.cons_ne_nil token tokens))) hread
      exact ⟨final, hfinal, hmirrors, fun _ => congrArg Token.span hsame.symm⟩

/-- Only in an empty program nothing is read. -/
theorem eq_nil_of_statements_nil {semicolons : Semicolons} {done : Session}
    (hfront : ∀ token ∈ front, token.isEnd = false)
    (hread : Production.statements (.upTo semicolons depth) .program (.start front) =
      .ok [] done) : front = [] := by
  rw [← Cursor.pending_ofTokens hfront]
  apply Cursor.pending_nil_of_isEnd
  · rwa [Cursor.pending_ofTokens hfront]
  · exact Production.isEnd_of_statements_nil hread

/-- Where semicolons have to be written, reading is a homomorphism: two programs that are read
on their own are read one after the other, as the one tree behind the other. -/
theorem parse_append {front behind : List Token} {first second : Tree}
    (hfront : ∀ token ∈ front, token.isEnd = false)
    (hbehind : ∀ token ∈ behind, token.isEnd = false)
    (hfirst : parse .required front = .ok first)
    (hsecond : parse .required behind = .ok second) :
    parse .required (front ++ behind) = .ok (first.concat second) := by
  have hconnective := not_isConnective_of_parse hbehind hsecond
  have hboth : (Cursor.ofTokens (front ++ behind)).pending = front ++ behind := by
    apply Cursor.pending_ofTokens
    intro token htoken
    exact (List.mem_append.mp htoken).elim (hfront token) (hbehind token)
  -- The statements of the first program use up a layer of the grammar each.
  let depth := front.length + behind.length + 1 + first.statements.length
  have hdepth : (Cursor.ofTokens front).pending.length < depth := by
    rw [Cursor.pending_ofTokens hfront]
    omega
  obtain ⟨ids, start, hids, hfirstTree, hbase, hend⟩ := exists_statements_of_parse hdepth hfirst
  have hstatements : first.statements = ids := by
    rw [hfirstTree]
    exact Tree.children_insert_self ..
  obtain ⟨lower, mid, hlower, htree, hpending, hlast, hon⟩ :=
    exists_statements_inFront hfront hbehind hconnective hids hend
  have hlow : (Cursor.ofTokens behind).pending.length < lower := by
    rw [← hstatements] at hlower
    rw [Cursor.pending_ofTokens hbehind]
    omega
  obtain ⟨body, done, hbody, hsecondTree, hforest, -⟩ := exists_statements_of_parse hlow hsecond
  obtain ⟨final, hfinal, hmirrors, htoken⟩ :=
    exists_statements_rest hbehind hpending hlast hbody
  rw [htree] at hfinal hmirrors
  have hspan := Tree.span_root_joined body hmirrors
    (fun id hid => (hbase.new id hid).2) start.cursor.current
    (fun hnone => htoken (eq_nil_of_statements_nil hfront (hnone ▸ hids)))
  have hwhole : (Cursor.ofTokens (front ++ behind)).pending.length < depth := by
    rw [hboth, List.length_append]
    omega
  rw [parse_of_statements hwhole (hon _ _ hfinal), hfirstTree, hsecondTree]
  exact congrArg Except.ok (Tree.insert_root_concat hmirrors hbase hforest hspan)

/-- A conditional that could go on, before a comment and a label. -/
theorem parse_append_conditional :
    ∃ first second,
      parse .required [⟨.keyword, "if", .null, false⟩, ⟨.punctuation, "(", .null, false⟩,
        ⟨.identifier, "a", .null, false⟩, ⟨.punctuation, ")", .null, false⟩,
        ⟨.identifier, "b", .null, false⟩, ⟨.punctuation, ";", .null, false⟩] = .ok first ∧
      parse .required [⟨.blockComment, "/**/", .null, false⟩, ⟨.identifier, "c", .null, false⟩,
        ⟨.punctuation, ":", .null, false⟩, ⟨.punctuation, ";", .null, false⟩] = .ok second ∧
      parse .required [⟨.keyword, "if", .null, false⟩, ⟨.punctuation, "(", .null, false⟩,
        ⟨.identifier, "a", .null, false⟩, ⟨.punctuation, ")", .null, false⟩,
        ⟨.identifier, "b", .null, false⟩, ⟨.punctuation, ";", .null, false⟩,
        ⟨.blockComment, "/**/", .null, false⟩, ⟨.identifier, "c", .null, false⟩,
        ⟨.punctuation, ":", .null, false⟩, ⟨.punctuation, ";", .null, false⟩] =
          .ok (first.concat second) ∧
      (first.size, second.size, (first.concat second).size) = (6, 4, 9) := by
  let front : List Token := [⟨.keyword, "if", .null, false⟩, ⟨.punctuation, "(", .null, false⟩,
    ⟨.identifier, "a", .null, false⟩, ⟨.punctuation, ")", .null, false⟩,
    ⟨.identifier, "b", .null, false⟩, ⟨.punctuation, ";", .null, false⟩]
  let behind : List Token := [⟨.blockComment, "/**/", .null, false⟩,
    ⟨.identifier, "c", .null, false⟩, ⟨.punctuation, ":", .null, false⟩,
    ⟨.punctuation, ";", .null, false⟩]
  have hfront : (parse .required front).toOption.map Tree.size = some 6 := by decide +kernel
  have hbehind : (parse .required behind).toOption.map Tree.size = some 4 := by decide +kernel
  cases hfirst : parse .required front with
  | error diagnostic =>
      rw [hfirst] at hfront
      cases hfront
  | ok first =>
      cases hsecond : parse .required behind with
      | error diagnostic =>
          rw [hsecond] at hbehind
          cases hbehind
      | ok second =>
          rw [hfirst] at hfront
          rw [hsecond] at hbehind
          have hfirstSize : first.size = 6 := Option.some.inj hfront
          have hsecondSize : second.size = 4 := Option.some.inj hbehind
          refine ⟨first, second, rfl, rfl, ?_, ?_⟩
          · exact parse_append (by decide) (by decide) hfirst hsecond
          · rw [Tree.size_concat first (by omega), hfirstSize, hsecondSize]

end Append

end ScriptSyntax

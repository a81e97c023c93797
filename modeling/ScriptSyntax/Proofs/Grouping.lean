import ScriptSyntax.Proofs.Categories.Basic
import ScriptSyntax.Proofs.Thinning.Expression

/-!
# How operators group

Operands with binary operators between them are read from left to right, by a production that
calls itself for what binds tighter than the last operator.  What it reads can be said without
it: the root is the last of the operators that bind loosest, and each side of it is grouped in
the same way.  At every call the operations read so far are grouped like that, and the operator
under the cursor binds no tighter than any of them.
-/

namespace ScriptSyntax

open Parse

/-- An operator with the operand behind it. -/
structure Link where
  operator : Token
  operand : Token
  deriving DecidableEq

namespace Link

/-- The tokens of a row of links. -/
def spelled (links : List Link) : List Token :=
  links.flatMap fun link => [link.operator, link.operand]

theorem length_spelled (links : List Link) : (spelled links).length = 2 * links.length := by
  induction links with
  | nil => rfl
  | cons link links ih =>
      change (spelled links).length + 2 = 2 * (links.length + 1)
      rw [ih, Nat.mul_add]

/-- The links before the last of those that bind loosest, that one, and those behind it. -/
def splitLoosest : List Link → Option (List Link × Link × List Link)
  | [] => none
  | link :: links =>
      match splitLoosest links with
      | none => some ([], link, [])
      | some (before, loosest, behind) =>
          if loosest.operator.binding ≤ link.operator.binding then
            some (link :: before, loosest, behind)
          else
            some ([], link, links)

theorem splitLoosest_eq_none_iff {links : List Link} : splitLoosest links = none ↔ links = [] := by
  cases links with
  | nil => simp [splitLoosest]
  | cons link links =>
      simp only [splitLoosest, List.cons_ne_nil, iff_false]
      split
      · simp
      · split <;> simp

/-- What is behind the split binds tighter than the link at it, and what is before no looser. -/
theorem eq_append_of_splitLoosest {links before behind : List Link} {loosest : Link}
    (hsplit : splitLoosest links = some (before, loosest, behind)) :
    links = before ++ loosest :: behind ∧
      (∀ link ∈ before, loosest.operator.binding ≤ link.operator.binding) ∧
      ∀ link ∈ behind, loosest.operator.binding < link.operator.binding := by
  induction links generalizing before loosest behind with
  | nil => cases hsplit
  | cons link links ih =>
      rw [splitLoosest] at hsplit
      split at hsplit
      · rename_i hnone
        cases hsplit
        rw [splitLoosest_eq_none_iff.mp hnone]
        simp
      · rename_i front found back hfound
        obtain ⟨hlinks, hfront, hback⟩ := ih hfound
        split at hsplit
        · rename_i hle
          cases hsplit
          exact ⟨by rw [hlinks, List.cons_append], List.forall_mem_cons.mpr ⟨hle, hfront⟩, hback⟩
        · -- The first link is looser than the loosest of the others.
          rename_i hgt
          cases hsplit
          have hlt : link.operator.binding < found.operator.binding := Nat.lt_of_not_le hgt
          refine ⟨rfl, by simp, ?_⟩
          rw [hlinks]
          refine List.forall_mem_append.mpr ⟨?_, List.forall_mem_cons.mpr ⟨hlt, ?_⟩⟩
          · exact fun other hmem => Nat.lt_of_lt_of_le hlt (hfront other hmem)
          · exact fun other hmem => Nat.lt_trans hlt (hback other hmem)

/-- The split is at the link that no other is looser than, and no later one as loose as. -/
theorem splitLoosest_append {before behind : List Link} {loosest : Link}
    (hbefore : ∀ link ∈ before, loosest.operator.binding ≤ link.operator.binding)
    (hbehind : ∀ link ∈ behind, loosest.operator.binding < link.operator.binding) :
    splitLoosest (before ++ loosest :: behind) = some (before, loosest, behind) := by
  induction before with
  | nil =>
      rw [List.nil_append, splitLoosest]
      split
      · rename_i hnone
        rw [splitLoosest_eq_none_iff.mp hnone]
      · rename_i front found back hfound
        have hlt : loosest.operator.binding < found.operator.binding := by
          apply hbehind
          rw [(eq_append_of_splitLoosest hfound).1]
          exact List.mem_append_right _ List.mem_cons_self
        exact if_neg (Nat.not_le_of_lt hlt)
  | cons link before ih =>
      obtain ⟨hlink, hbefore⟩ := List.forall_mem_cons.mp hbefore
      rw [List.cons_append, splitLoosest, ih hbefore]
      exact if_pos hlink

end Link

/-- Operations on operands of one token each. -/
inductive Grouping
  | operand (token : Token)
  | operation (left : Grouping) (operator : Token) (right : Grouping)
  deriving DecidableEq

/-- The leaf that a token is by itself. -/
def Leaf.ofKind : Token.Kind → Leaf
  | .number => .number
  | .string => .string
  | .regex => .regex
  | _ => .name

namespace Grouping

/-- Operands and operators in a row, grouped at the last of the operators that bind loosest, and
on each side of it in the same way. -/
def ofRow (first : Token) (links : List Link) : Grouping :=
  match _hsplit : Link.splitLoosest links with
  | none => .operand first
  | some (before, loosest, behind) =>
      .operation (ofRow first before) loosest.operator (ofRow loosest.operand behind)
termination_by links.length
decreasing_by
  all_goals
    rw [(Link.eq_append_of_splitLoosest _hsplit).1, List.length_append, List.length_cons]
    omega

theorem ofRow_nil (first : Token) : ofRow first [] = .operand first := by
  rw [ofRow]
  rfl

theorem ofRow_append (first : Token) {before behind : List Link} {loosest : Link}
    (hbefore : ∀ link ∈ before, loosest.operator.binding ≤ link.operator.binding)
    (hbehind : ∀ link ∈ behind, loosest.operator.binding < link.operator.binding) :
    ofRow first (before ++ loosest :: behind) =
      .operation (ofRow first before) loosest.operator (ofRow loosest.operand behind) := by
  rw [ofRow]
  split
  · rename_i hnone
    simp [Link.splitLoosest_append hbefore hbehind] at hnone
  · rename_i hsome
    rw [Link.splitLoosest_append hbefore hbehind] at hsome
    cases hsome
    rfl

/-- Adds the nodes of the operations to a tree, each operand and operation behind what it is
made of. -/
def plant : Grouping → Tree → NodeId × Tree
  | .operand token, tree => tree.add (.leaf (.ofKind token.kind) token)
  | .operation left operator right, tree =>
      let (leftId, planted) := left.plant tree
      let (rightId, grown) := right.plant planted
      grown.add (.binary leftId operator rightId)

end Grouping

/-- The node and those below it are the operations. -/
def Tree.Shows (tree : Tree) : NodeId → Grouping → Prop
  | id, .operand token => tree.shape? id = some (.leaf (.ofKind token.kind) token)
  | id, .operation left operator right => ∃ leftId rightId,
      tree.shape? id = some (.binary leftId operator rightId) ∧ tree.Shows leftId left ∧
        tree.Shows rightId right

theorem Tree.Shows.mono {tree whole : Tree} (hpart : tree.PartOf whole) {grouping : Grouping}
    {id : NodeId} (hshows : tree.Shows id grouping) : whole.Shows id grouping := by
  induction grouping generalizing id with
  | operand token => exact hpart id _ hshows
  | operation left operator right ihLeft ihRight =>
      obtain ⟨leftId, rightId, hshape, hleft, hright⟩ := hshows
      exact ⟨leftId, rightId, hpart id _ hshape, ihLeft hleft, ihRight hright⟩

namespace Grouping

theorem partOf_plant (grouping : Grouping) (tree : Tree) :
    tree.PartOf (grouping.plant tree).2 := by
  induction grouping generalizing tree with
  | operand token => exact Tree.partOf_insert tree _ _
  | operation left operator right ihLeft ihRight =>
      exact ((ihLeft tree).trans (ihRight _)).trans (Tree.partOf_insert _ _ _)

/-- What is planted shows. -/
theorem shows_plant (grouping : Grouping) (tree : Tree) :
    (grouping.plant tree).2.Shows (grouping.plant tree).1 grouping := by
  induction grouping generalizing tree with
  | operand token => exact Tree.shape?_insert_self tree _ _
  | operation left operator right ihLeft ihRight =>
      have hpart := Tree.partOf_insert (right.plant (left.plant tree).2).2
        (.binary (left.plant tree).1 operator (right.plant (left.plant tree).2).1)
      refine ⟨_, _, Tree.shape?_insert_self _ _ _, ?_, ?_⟩
      · exact (ihLeft tree).mono ((partOf_plant right _).trans (hpart _))
      · exact (ihRight _).mono (hpart _)

end Grouping

namespace Token

variable {token : Token}

/-- The token is an operand by itself: a plain name or a literal. -/
def isOperand (token : Token) : Bool :=
  [Kind.identifier, .number, .string, .regex].contains token.kind

/-- An operator that binds its operands by level does not continue one of them. -/
theorem isSuffix_of_lowest_lt_binding (htoken : Binding.lowest < token.binding) :
    token.isSuffix = false := by
  have hpostfix : token.isPostfix = false := by
    have hlowest : ∀ word ∈ postfixOperators, Binding.ofOperator word = .lowest := by decide
    rw [Bool.eq_false_iff]
    intro hpostfix
    simp only [isPostfix, Bool.and_eq_true, List.contains_iff_mem] at hpostfix
    rw [binding, if_pos (kind_of_lt_binding htoken), hlowest _ hpostfix.2] at htoken
    exact Nat.not_lt_zero _ htoken
  simp [isSuffix, hpostfix, not_isPunctuation_of_lt_binding htoken]

/-- Before a semicolon and at the end of the input an expression is over. -/
theorem not_continues_of_ends (htoken : token.isPunctuation ";" = true ∨ token.isEnd = true)
    (commas : Bool) : token.continues commas = false := by
  rcases htoken with hsemicolon | hend
  · obtain ⟨hkind, hvalue⟩ := (token.is_iff _ _).mp hsemicolon
    simp [continues, isPunctuation, is, hkind, hvalue]
  · have hkind : token.kind = .eof := beq_iff_eq.mp hend
    simp [continues, isPunctuation, is, hkind]

end Token

namespace Production

open Grouping Link

variable {last : Token} {hlast : last.kind = .eof}

/-- No operand in a row goes on behind its token. -/
theorem isSuffix_current_spelled {rest : List Token} {commas : Bool}
    (hover : (Cursor.mk rest last hlast).current.continues commas = false) {links : List Link}
    (hlinks : ∀ link ∈ links, Token.Binding.lowest < link.operator.binding ∧
      link.operand.isOperand = true) :
    (Cursor.mk (spelled links ++ rest) last hlast).current.isSuffix = false := by
  cases links with
  | nil => exact Token.isSuffix_of_not_continues hover
  | cons link links =>
      exact Token.isSuffix_of_lowest_lt_binding (hlinks link List.mem_cons_self).1

/-- A plain operand that nothing continues. -/
theorem operand_planted (semicolons : Semicolons) (depth : Nat) {token : Token}
    {later : List Token} (hoperand : token.isOperand = true)
    (hnext : (Cursor.mk later last hlast).current.isSuffix = false) (calls : Bool) (tree : Tree) :
    operand (.upTo semicolons (depth + 1)) calls ⟨⟨token :: later, last, hlast⟩, tree⟩ =
      .ok ((Grouping.operand token).plant tree).1
        ⟨⟨later, last, hlast⟩, ((Grouping.operand token).plant tree).2⟩ := by
  have hcomment : token.isComment = false := by
    cases hkind : token.kind <;> simp_all [Token.isOperand, Token.isComment]
  have hof : OperandStart.of token = .leaf (.ofKind token.kind) := by
    cases hkind : token.kind <;> simp_all [Token.isOperand, OperandStart.of, Leaf.ofKind]
  have hcomments : eatComments ⟨⟨token :: later, last, hlast⟩, tree⟩ =
      .ok none ⟨⟨token :: later, last, hlast⟩, tree⟩ := by
    change EStateM.Result.ok (Cursor.comment? _) (Session.uncommented _) = _
    simp [Cursor.comment?, Session.uncommented, Cursor.skipComments, hcomment]
  have hcurrent : Parse.current ⟨⟨token :: later, last, hlast⟩, tree⟩ =
      .ok token ⟨⟨token :: later, last, hlast⟩, tree⟩ := rfl
  rw [operand, bind_of_ok hcomments, bind_of_ok hcurrent, hof]
  have hstop : (Session.mk ⟨later, last, hlast⟩
      (tree.add (.leaf (.ofKind token.kind) token)).2).cursor.current.isSuffix = false := hnext
  exact suffixes_eq _ calls hstop

/-- An operation is read with what binds tighter on its right, and then joined with what is on
its left. -/
theorem operations_joined (grammar : Grammar) {left right joined : NodeId}
    {floor : Token.Binding} {session behind between after : Session} {first : NodeId}
    (hfloor : floor < session.cursor.current.binding)
    (hfirst : grammar.operand true session.passed = .ok first behind)
    (hright : grammar.operations first session.cursor.current.binding behind =
      .ok right between)
    (hjoined : grammar.operations (between.tree.size + 1) floor
      (between.grown (.binary left session.cursor.current right)) = .ok joined after) :
    operations grammar left floor session = .ok joined after := by
  have hread : operations grammar left floor session = (do
      let operator ← advance
      let first ← grammar.operand true
      let right ← grammar.operations first session.cursor.current.binding
      let joined ← add (.binary left operator right)
      grammar.operations joined floor) session := by
    have hnot : ¬session.cursor.current.binding ≤ floor := Nat.not_le_of_lt hfloor
    change (if session.cursor.current.binding ≤ floor then _ else _ : Parse NodeId) session = _
    rw [if_neg hnot]
  have hadvance : advance session = .ok session.cursor.current session.passed := rfl
  have hadd : add (.binary left session.cursor.current right) between =
      .ok (between.tree.size + 1) (between.grown (.binary left session.cursor.current right)) := rfl
  rw [hread, bind_of_ok hadvance, bind_of_ok hfirst, bind_of_ok hright, bind_of_ok hadd, hjoined]

/-- Of a row of operations, behind some that have been read, those that bind tighter than the
floor are read, up to the first that does not. -/
theorem operations_planted (semicolons : Semicolons) (depth : Nat) {rest : List Token}
    (hrest : (Cursor.mk rest last hlast).current.isPunctuation ";" = true ∨
      (Cursor.mk rest last hlast).current.isEnd = true)
    (first : Token) (tree : Tree) (floor : Token.Binding) (done links : List Link)
    (hlinks : ∀ link ∈ links, Token.Binding.lowest < link.operator.binding ∧
      link.operand.isOperand = true)
    (hdone : ∀ next ∈ links.head?, floor < next.operator.binding →
      ∀ link ∈ done, next.operator.binding ≤ link.operator.binding)
    (hdepth : (spelled links).length ≤ depth) :
    ∃ taken left, links = taken ++ left ∧ (∀ link ∈ taken, floor < link.operator.binding) ∧
      (∀ next ∈ left.head?, next.operator.binding ≤ floor) ∧
      operations (.upTo semicolons depth) ((ofRow first done).plant tree).1 floor
          ⟨⟨spelled links ++ rest, last, hlast⟩, ((ofRow first done).plant tree).2⟩ =
        .ok ((ofRow first (done ++ taken)).plant tree).1
          ⟨⟨spelled left ++ rest, last, hlast⟩, ((ofRow first (done ++ taken)).plant tree).2⟩ := by
  induction hlength : links.length using Nat.strongRecOn
    generalizing first tree floor done links depth with
  | ind length ih =>
  have hover := Token.not_continues_of_ends hrest true
  cases links with
  | nil =>
      refine ⟨[], [], rfl, by simp, by simp, ?_⟩
      rw [List.append_nil]
      apply operations_eq
      change (Cursor.mk rest last hlast).current.binding ≤ floor
      rw [Token.binding_of_not_continues hover]
      exact Token.Binding.lowest_le floor
  | cons link links =>
      by_cases hlt : floor < link.operator.binding
      case neg =>
        refine ⟨[], link :: links, rfl, by simp, ?_, ?_⟩
        · rintro next ⟨⟩
          exact Nat.le_of_not_lt hlt
        · rw [List.append_nil]
          exact operations_eq _ floor (Nat.le_of_not_lt hlt)
      obtain ⟨⟨hlink, hoperand⟩, hlinks⟩ := List.forall_mem_cons.mp hlinks
      simp only [length_spelled, List.length_cons] at hdepth hlength ih
      obtain ⟨depth, rfl⟩ : ∃ less, depth = less + 2 := ⟨depth - 2, by omega⟩
      have hbefore := hdone link rfl hlt
      have hnext := isSuffix_current_spelled hover hlinks
      -- What binds tighter than the operator is grouped behind its operand.
      obtain ⟨inner, others, rfl, hinner, hothers, hright⟩ := ih links.length (by omega)
        (depth + 1) link.operand ((ofRow first done).plant tree).2 link.operator.binding [] links
        hlinks (by simp) (by omega) rfl
      rw [ofRow_nil, List.nil_append] at hright
      rw [List.length_append] at hdepth hlength
      -- The operation takes the place of its left side, and what is left goes on.
      have hjoined := ofRow_append first hbefore hinner
      have hlater : ∀ next ∈ others.head?, floor < next.operator.binding →
          ∀ before ∈ done ++ link :: inner, next.operator.binding ≤ before.operator.binding := by
        intro next hmem _
        have hle := hothers next hmem
        refine List.forall_mem_append.mpr ⟨?_, List.forall_mem_cons.mpr ⟨hle, ?_⟩⟩
        · exact fun before hin => Nat.le_trans hle (hbefore before hin)
        · exact fun before hin => Nat.le_trans hle (Nat.le_of_lt (hinner before hin))
      obtain ⟨taken, left, rfl, htaken, hleft, hrest⟩ := ih others.length
        (by omega) (depth + 1) first tree floor (done ++ link :: inner) others
        (fun next hmem => hlinks next (List.mem_append_right _ hmem)) hlater (by omega) rfl
      rw [hjoined] at hrest
      refine ⟨link :: inner ++ taken, left, by simp, ?_, hleft, ?_⟩
      · refine List.forall_mem_append.mpr ⟨List.forall_mem_cons.mpr ⟨hlt, ?_⟩, htaken⟩
        exact fun other hmem => Nat.lt_trans hlt (hinner other hmem)
      · have hfirst := operand_planted semicolons depth hoperand hnext true
          ((ofRow first done).plant tree).2
        have hall : done ++ (link :: inner ++ taken) = done ++ link :: inner ++ taken :=
          (List.append_assoc _ _ _).symm
        rw [hall]
        exact operations_joined (.upTo semicolons (depth + 2)) hlt hfirst hright hrest

/-- Where nothing continues an expression, an operand with its operations is one. -/
theorem expression_joined (grammar : Grammar) {commas : Bool} {session behind after : Session}
    {first whole : NodeId} (hfirst : operand grammar true session = .ok first behind)
    (hwhole : grammar.operations first .lowest behind = .ok whole after)
    (hover : after.cursor.current.continues commas = false) :
    expression grammar commas session = .ok whole after := by
  have hcurrent : Parse.current after = .ok after.cursor.current after := rfl
  have hchoice : choice grammar whole after = .ok whole after := by
    rw [choice, bind_of_ok hcurrent, Token.isOperator_of_not_continues hover]
    rfl
  have hassigned : assigned grammar whole after = .ok whole after := by
    rw [assigned, bind_of_ok hcurrent, Token.isAssignment_of_not_continues hover]
    rfl
  have hjoined : Production.joined grammar commas whole after = .ok whole after := by
    rw [Production.joined, bind_of_ok hcurrent, Token.isComma_of_not_continues hover]
    rfl
  have hconditional : conditional grammar session = .ok whole after := by
    rw [conditional_eq, bind_of_ok hfirst, bind_of_ok hwhole, hchoice]
  have hassignment : assignment grammar session = .ok whole after := by
    rw [assignment_eq, bind_of_ok hconditional, hassigned]
  rw [expression_eq, bind_of_ok hassignment, hjoined]

/-- A row of operators and operands that ends a statement is read whole. -/
theorem expression_planted (semicolons : Semicolons) (depth : Nat) {rest : List Token}
    (hrest : (Cursor.mk rest last hlast).current.isPunctuation ";" = true ∨
      (Cursor.mk rest last hlast).current.isEnd = true)
    (commas : Bool) (tree : Tree) {first : Token} {links : List Link}
    (hfirst : first.isOperand = true)
    (hlinks : ∀ link ∈ links, Token.Binding.lowest < link.operator.binding ∧
      link.operand.isOperand = true)
    (hdepth : (spelled links).length ≤ depth) :
    expression (.upTo semicolons (depth + 1)) commas
        ⟨⟨first :: spelled links ++ rest, last, hlast⟩, tree⟩ =
      .ok ((ofRow first links).plant tree).1
        ⟨⟨rest, last, hlast⟩, ((ofRow first links).plant tree).2⟩ := by
  have hover := Token.not_continues_of_ends hrest commas
  have hnext := isSuffix_current_spelled hover hlinks
  have hoperand := operand_planted semicolons depth hfirst hnext true tree
  obtain ⟨taken, left, rfl, -, hleft, hoperations⟩ := operations_planted semicolons depth
    hrest first tree .lowest [] links hlinks (by simp) hdepth
  -- Every operator binds tighter than the lowest level, so none is left.
  have hnone : left = [] := by
    cases left with
    | nil => rfl
    | cons link left =>
        have hlt := (hlinks link (List.mem_append_right _ List.mem_cons_self)).1
        exact absurd hlt (Nat.not_lt_of_le (hleft link rfl))
  subst hnone
  rw [ofRow_nil, List.nil_append] at hoperations
  rw [List.append_nil] at hoperand hoperations ⊢
  exact expression_joined (.upTo semicolons (depth + 1)) hoperand hoperations hover

end Production

/-- Operands with binary operators between them, up to a semicolon or the end of the input, are
read as the operations that the operators group them in, wherever lines end: the last of the
operators that bind loosest is the root, and both sides of it are grouped in the same way. -/
theorem expression_groups_operators (semicolons : Semicolons) (commas : Bool) (first : Token)
    (links : List Link) (rest : List Token) (last : Token) (hlast : last.kind = .eof) (tree : Tree)
    (hfirst : first.isOperand = true)
    (hlinks : ∀ link ∈ links, Token.Binding.lowest < link.operator.binding ∧
      link.operand.isOperand = true)
    (hrest : (Cursor.mk rest last hlast).current.isPunctuation ";" = true ∨
      (Cursor.mk rest last hlast).current.isEnd = true) :
    (Parse.reading semicolons fun grammar => Production.expression grammar commas).run
        ⟨⟨first :: Link.spelled links ++ rest, last, hlast⟩, tree⟩ =
      .ok ((Grouping.ofRow first links).plant tree).1
        ⟨⟨rest, last, hlast⟩, ((Grouping.ofRow first links).plant tree).2⟩ ∧
    ((Grouping.ofRow first links).plant tree).2.Shows
      ((Grouping.ofRow first links).plant tree).1 (Grouping.ofRow first links) := by
  constructor
  · have hdepth : (Link.spelled links).length ≤
        (first :: Link.spelled links ++ rest).length := by
      simp only [List.cons_append, List.length_cons, List.length_append]
      omega
    exact Production.expression_planted semicolons _ hrest commas tree hfirst hlinks hdepth
  · exact Grouping.shows_plant _ _

/-- Two subtractions associate to the left, with a product between them and a disjunction behind,
each operator on a line of its own. -/
theorem expression_groups_operators_levels :
    let word kind value := { kind, value, span := .null : Token }
    let link value name := Link.mk { word .operator value with newlineBefore := true }
      (word .identifier name)
    let links := [link "-" "b", link "*" "c", link "-" "d", link "||" "e"]
    let tokens := word .identifier "a" :: Link.spelled links ++ [word .punctuation ";"]
    let a := Grouping.operand (word .identifier "a")
    let operation left (link : Link) right := Grouping.operation left link.operator right
    let operand (link : Link) := Grouping.operand link.operand
    let whole := operation
      (operation
        (operation a links[0] (operation (operand links[0]) links[1] (operand links[1])))
        links[2] (operand links[2]))
      links[3] (operand links[3])
    (Parse.reading .required fun grammar => Production.expression grammar true).run
        ⟨⟨tokens, word .eof "EOF", rfl⟩, .empty⟩ =
      .ok (whole.plant .empty).1
        ⟨⟨[word .punctuation ";"], word .eof "EOF", rfl⟩, (whole.plant .empty).2⟩ ∧
    (whole.plant .empty).2.Shows (whole.plant .empty).1 whole := by
  intro word link links tokens a operation operand whole
  have hwhole : Grouping.ofRow (word .identifier "a") links = whole := by
    cbv
  have hread := expression_groups_operators .required true (word .identifier "a") links
    [word .punctuation ";"] (word .eof "EOF") rfl .empty rfl (by decide) (.inl rfl)
  rwa [hwhole] at hread

end ScriptSyntax

import ScriptSyntax.Proofs.Categories.Reader
import ScriptSyntax.Proofs.Trace.Expression

/-!
# Categories of expressions

Each production of an expression makes nodes of one category.  The operations of a
level are the delicate case: what has been read binds tighter than the floor, and at
least as tight as the operator that comes next, because the operations to the right of
the last operator stop at the first that does not bind tighter than it.
-/

namespace ScriptSyntax

open Parse

/-- The category of statements that may be labels of a switch. -/
def Category.ofStatement (labels : Bool) : Category :=
  if labels then .clause else .statement

/-- The category of expressions that may have commas. -/
def Category.ofExpression (commas : Bool) : Category :=
  if commas then .expression else .item

/-- The category of functions with a role. -/
def Category.ofRole : FunctionRole → Category
  | .definition => .statement
  | .literal => .target

/-- All readers of a grammar make nodes of their categories. -/
structure Grammar.Sorted (grammar : Grammar) : Prop where
  statement (labels : Bool) :
    (grammar.statement labels).Yields fun id => [(id, .ofStatement labels)]
  statements (enclosure : Enclosure) :
    (grammar.statements enclosure).Yields (Category.ofStatement enclosure.admitsLabels).each
  parameters : grammar.parameters.Yields fun _ => []
  declarations : grammar.declarations.Yields Category.declaration.each
  declarations_ne_nil (session : Session) :
    grammar.declarations.Meets session (fun ids _ => ids ≠ []) Anyhow
  expression (commas : Bool) :
    (grammar.expression commas).Yields fun id => [(id, .ofExpression commas)]
  assignment : grammar.assignment.Yields fun id => [(id, .item)]
  operand (calls : Bool) : (grammar.operand calls).Yields fun id => [(id, .atom)]
  operations (left : NodeId) (floor : Token.Binding) (session : Session)
    (known : List (NodeId × Category)) (hknown : session.tree.Settled known)
    (habove : (left, .above floor) ∈ known)
    (hnext : (left, .atLeast session.cursor.current.binding) ∈ known) :
    (grammar.operations left floor).Meets session
      (fun id after => after.tree.Settled ([(id, .above floor)] ++ known) ∧
        after.cursor.current.binding ≤ floor) Anyhow
  suffixes (target : NodeId) (calls : Bool) (session : Session)
    (known : List (NodeId × Category)) (hknown : session.tree.Settled known)
    (htarget : (target, .target) ∈ known) :
    (grammar.suffixes target calls).Meets session
      (fun id after => after.tree.Settled ([(id, .atom)] ++ known)) Anyhow
  items (closing : String) : (grammar.items closing).Yields Category.item.each
  properties : grammar.properties.Yields Category.property.each

theorem Grammar.exhausted_sorted (semicolons : Semicolons) :
    (Grammar.exhausted semicolons).Sorted where
  statement _ _ _ _ := trivial
  statements _ _ _ _ := trivial
  parameters _ _ _ := trivial
  declarations _ _ _ := trivial
  declarations_ne_nil _ := trivial
  expression _ _ _ _ := trivial
  assignment _ _ _ := trivial
  operand _ _ _ _ := trivial
  operations _ _ _ _ _ _ _ := trivial
  suffixes _ _ _ _ _ _ := trivial
  items _ _ _ _ := trivial
  properties _ _ _ := trivial

/-! ## Binary operations -/

namespace Draft

variable {left right : NodeId} {operator : Token} {facts : List (NodeId × Category)}

/-- A binary node whose operands are what its operator demands. -/
theorem binary_suits {category : Category}
    (hproper : (binary left operator right).shape.isProper = true)
    (hleft : (left, Category.ofLeft operator) ∈ facts)
    (hright : (right, Category.ofRight operator) ∈ facts)
    (hadmits : category.admits (binary left operator right).shape = true) :
    (binary left operator right).Suits category facts where
  proper := hproper
  demands := List.cons_subset.mpr ⟨hleft, List.cons_subset.mpr ⟨hright, List.nil_subset facts⟩⟩
  admits := hadmits

theorem member_suits (hdot : operator.isPunctuation "." = true)
    (hleft : (left, .target) ∈ facts) (hright : (right, .name) ∈ facts) :
    (binary left operator right).Suits .target facts := by
  obtain ⟨hofLeft, hofRight⟩ := Category.operands_of_member hdot
  apply binary_suits
  · simp [binary, Shape.isProper, hdot]
  · rwa [hofLeft]
  · rwa [hofRight]
  · simp [binary, Category.admits, Shape.isAtomic, Shape.isUnary, Shape.isMemberAccess,
      Shape.kind, NodeKind.isExpression, hdot]

theorem comma_suits (hcomma : operator.isPunctuation "," = true)
    (hleft : (left, .item) ∈ facts) (hright : (right, .expression) ∈ facts) :
    (binary left operator right).Suits .expression facts := by
  obtain ⟨hofLeft, hofRight⟩ := Category.operands_of_comma hcomma
  apply binary_suits
  · simp [binary, Shape.isProper, hcomma]
  · rwa [hofLeft]
  · rwa [hofRight]
  · rfl

theorem assignment_suits (hassignment : operator.isAssignment = true)
    (hleft : (left, .place) ∈ facts) (hright : (right, .item) ∈ facts) :
    (binary left operator right).Suits .item facts := by
  obtain ⟨hofLeft, hofRight⟩ := Category.operands_of_assignment hassignment
  apply binary_suits
  · simp [binary, Shape.isProper, hassignment]
  · rwa [hofLeft]
  · rwa [hofRight]
  · simp [binary, Category.admits, Shape.isComma, Shape.kind, NodeKind.isExpression,
      Token.not_isPunctuation_of_isAssignment hassignment]

theorem operation_suits {floor : Token.Binding} (hlevel : floor < operator.binding)
    (hleft : (left, .atLeast operator.binding) ∈ facts)
    (hright : (right, .above operator.binding) ∈ facts) :
    (binary left operator right).Suits (.atLeast operator.binding) facts := by
  obtain ⟨hofLeft, hofRight⟩ := Category.operands_of_lt_binding hlevel
  have hlowest : Token.Binding.lowest < operator.binding :=
    Nat.lt_of_le_of_lt (Token.Binding.lowest_le floor) hlevel
  apply binary_suits
  · simp [binary, Shape.isProper, hlowest]
  · rwa [hofLeft]
  · rwa [hofRight]
  · exact Bool.or_eq_true_iff.mpr (.inr (decide_eq_true (Nat.le_refl _)))

end Draft

namespace Production

variable {grammar : Grammar}

/-! ## Functions -/

theorem block_yields (hgrammar : grammar.Sorted) :
    (block grammar).Yields fun id => [(id, .block)] := by
  intro session known hknown
  apply (expectPunctuation_still _).andThen hknown
  intro first opened hopened
  apply (hgrammar.statements .block).andThen hopened
  intro statements read hread
  apply meets_bind_advance_of_settled hread
  intro hclosed
  apply meets_add_of_settled hclosed
  · constructor
    · rfl
    · simp [Draft.block, Shape.demands, Category.ofStatement, Enclosure.admitsLabels]
    · rfl
  · simp

theorem parameters_yields (hgrammar : grammar.Sorted) :
    (parameters grammar).Yields fun _ => [] := by
  intro session known hknown
  unfold parameters
  rw [meets_bind_current]
  split
  · exact hknown
  · split
    · trivial
    · apply (expect_still _ _).andThen hknown
      intro name named hnamed
      apply (separator_still ")").andThen hnamed
      intro _ separated hseparated
      apply hgrammar.parameters.andThen hseparated
      intro others after hafter
      exact hafter

theorem function_yields (hgrammar : grammar.Sorted) (role : FunctionRole) :
    (function grammar role).Yields fun id => [(id, Category.ofRole role)] := by
  intro session known hknown
  apply meets_bind_advance_of_settled hknown
  intro hpassed
  apply (accept?_still _).andThen hpassed
  intro name named hnamed
  apply (expectPunctuation_still "(").andThen hnamed
  intro opening opened hopened
  apply hgrammar.parameters.andThen hopened
  intro parameters listed hlisted
  apply meets_bind_advance_of_settled hlisted
  intro hclosed
  apply (block_yields hgrammar).andThen hclosed
  intro body after hafter
  split
  · trivial
  · rename_i hname
    apply meets_add_of_settled hafter
    · constructor
      · cases role with
        | definition =>
            simpa [Draft.function, Shape.isProper, Option.isSome_iff_ne_none] using hname
        | literal => rfl
      · simp [Draft.function, Shape.demands]
      · cases role <;> rfl
    · simp

/-! ## Operands -/

theorem parenthesized_yields (hgrammar : grammar.Sorted) :
    (parenthesized grammar).Yields fun id => [(id, .parenthesized)] := by
  intro session known hknown
  apply (expectPunctuation_still "(").andThen hknown
  intro first opened hopened
  apply (hgrammar.expression true).andThen hopened
  intro inner read hread
  apply meets_bind_eatComments_of_settled hread
  intro _ huncommented
  apply (expectPunctuation_still ")").andThen huncommented
  intro last closed hclosed
  apply meets_add_of_settled hclosed
  · constructor
    · rfl
    · simp [Draft.parenthesized, Shape.demands, Category.ofExpression]
    · rfl
  · simp

theorem array_yields (hgrammar : grammar.Sorted) :
    (array grammar).Yields fun id => [(id, .target)] := by
  intro session known hknown
  apply meets_bind_advance_of_settled hknown
  intro hopened
  apply (hgrammar.items "]").andThen hopened
  intro elements read hread
  apply meets_bind_advance_of_settled hread
  intro hclosed
  apply meets_add_of_settled hclosed
  · constructor
    · rfl
    · simp [Draft.array, Shape.demands]
    · rfl
  · simp

theorem property_yields (hgrammar : grammar.Sorted) :
    (property grammar).Yields fun id => [(id, .property)] := by
  intro session known hknown
  apply (expect_still _ _).andThen hknown
  intro name named hnamed
  apply (expectPunctuation_still ":").andThen hnamed
  intro colon marked hmarked
  apply (hgrammar.expression false).andThen hmarked
  intro value after hafter
  apply meets_add_of_settled hafter
  · constructor
    · rfl
    · simp [Draft.property, Shape.demands, Category.ofExpression]
    · rfl
  · simp

theorem properties_yields (hgrammar : grammar.Sorted) :
    (properties grammar).Yields Category.property.each := by
  intro session known hknown
  apply meets_bind_eatComments_of_settled hknown
  intro _ huncommented
  rw [meets_bind_current]
  split
  · exact huncommented
  · apply (property_yields hgrammar).andThen huncommented
    intro first read hread
    apply meets_bind_eatComments_of_settled hread
    intro _ hseen
    apply (separator_still _).andThen hseen
    intro _ separated hseparated
    apply hgrammar.properties.andThen hseparated
    intro others after hafter
    apply hafter.mono
    simp [Category.each]

theorem object_yields (hgrammar : grammar.Sorted) (comment : Option Token) :
    (object grammar comment).Yields fun id => [(id, .target)] := by
  intro session known hknown
  apply meets_bind_advance_of_settled hknown
  intro hopened
  apply hgrammar.properties.andThen hopened
  intro properties read hread
  apply meets_bind_advance_of_settled hread
  intro hclosed
  apply meets_add_of_settled hclosed
  · constructor
    · rfl
    · simp [Draft.object, Shape.demands]
    · rfl
  · simp

theorem arguments_yields (hgrammar : grammar.Sorted) :
    (arguments grammar).Yields fun id => [(id, .arguments)] := by
  intro session known hknown
  apply meets_bind_advance_of_settled hknown
  intro hopened
  apply (hgrammar.items ")").andThen hopened
  intro expressions read hread
  apply meets_bind_advance_of_settled hread
  intro hclosed
  apply meets_add_of_settled hclosed
  · constructor
    · rfl
    · simp [Draft.exprList, Shape.demands]
    · rfl
  · simp

/-- What follows a node that a suffix may follow. -/
theorem suffixes_meets (hgrammar : grammar.Sorted) {target : NodeId} {calls : Bool}
    {session : Session} {known done : List (NodeId × Category)}
    (hdone : session.tree.Settled done) (htarget : (target, .target) ∈ done)
    (hknown : known ⊆ done) :
    (grammar.suffixes target calls).Meets session
      (fun id after => after.tree.Settled ([(id, .atom)] ++ known)) Anyhow := by
  apply Meets.mono (hgrammar.suffixes target calls session done hdone htarget)
  · intro id after hafter
    exact hafter.mono (List.cons_subset_cons _ hknown)
  · exact fun _ hfailed => hfailed

/-- A new node with what follows it. -/
theorem add_suffixes_meets (hgrammar : grammar.Sorted) {draft : Draft} {calls : Bool}
    {session : Session} {known done : List (NodeId × Category)}
    (hdone : session.tree.Settled done) (hsuits : draft.Suits .target done)
    (hknown : known ⊆ done) :
    (add draft >>= fun id => grammar.suffixes id calls).Meets session
      (fun id after => after.tree.Settled ([(id, .atom)] ++ known)) Anyhow := by
  apply meets_bind_add_of_settled hdone hsuits
  intro id after hafter
  exact suffixes_meets hgrammar hafter List.mem_cons_self
    (List.subset_cons_of_subset _ hknown)

/-- A construct with what follows it. -/
theorem suffixed_yields (hgrammar : grammar.Sorted) {reader : Parse NodeId} {calls : Bool}
    (hreader : reader.Yields fun id => [(id, .target)]) :
    (reader >>= fun id => grammar.suffixes id calls).Yields fun id => [(id, .atom)] := by
  intro session known hknown
  apply hreader.andThen hknown
  intro id after hafter
  exact suffixes_meets hgrammar hafter List.mem_cons_self (List.subset_cons_self _ known)

theorem newObject_yields (hgrammar : grammar.Sorted) :
    (newObject grammar).Yields fun id => [(id, .atom)] := by
  intro session known hknown
  apply meets_bind_advance_of_settled hknown
  intro hpassed
  apply (hgrammar.operand false).andThen hpassed
  intro callee read hread
  have hadded : ∀ (arguments : Option NodeId) (after : Session),
      after.tree.Settled
        (Category.arguments.each arguments.toList ++ ([(callee, Category.atom)] ++ known)) →
      (do
        let id ← add (.newObject session.cursor.current callee arguments)
        grammar.suffixes id true).Meets after
        (fun id after => after.tree.Settled ([(id, Category.atom)] ++ known)) Anyhow := by
    intro arguments after hafter
    apply add_suffixes_meets hgrammar hafter
    · constructor
      · rfl
      · simp [Draft.newObject, Shape.demands]
      · rfl
    · simp
  rw [meets_bind_current]
  split
  · apply (arguments_yields hgrammar).andThen hread
    intro arguments after hafter
    exact hadded (some arguments) after hafter
  · exact hadded none read hread

/-- A leaf that opens an operand. -/
theorem leaf_suits {kind : Leaf} (hkind : kind ≠ .comment) (token : Token)
    (facts : List (NodeId × Category)) : (Draft.leaf kind token).Suits .target facts where
  proper := rfl
  demands := List.nil_subset facts
  admits := by
    cases kind with
    | comment => exact absurd rfl hkind
    | _ => rfl

theorem operand_yields (hgrammar : grammar.Sorted) (calls : Bool) :
    (operand grammar calls).Yields fun id => [(id, .atom)] := by
  intro session known hknown
  apply meets_bind_eatComments_of_settled hknown
  intro comment hstart
  rw [meets_bind_current]
  have hopens := OperandStart.of_opens session.uncommented.cursor.current
  cases hof : OperandStart.of session.uncommented.cursor.current
  all_goals rw [hof] at hopens
  case newObject => exact newObject_yields hgrammar _ known hstart
  case unary =>
    apply meets_bind_advance_of_settled hstart
    intro hpassed
    apply (hgrammar.operand calls).andThen hpassed
    intro inner after hafter
    apply meets_add_of_settled hafter
    · constructor
      · rfl
      · simp [Draft.unaryBefore, Shape.demands]
      · rfl
    · simp
  case function => exact suffixed_yields hgrammar (function_yields hgrammar .literal) _ known hstart
  case valueKeyword =>
    apply meets_bind_advance_of_settled hstart
    intro hpassed
    exact add_suffixes_meets hgrammar hpassed (leaf_suits (by decide) _ known) (fun _ => id)
  case leaf kind =>
    have hkind : kind ≠ .comment := by
      rintro rfl
      exact hopens
    apply meets_bind_advance_of_settled hstart
    intro hpassed
    exact add_suffixes_meets hgrammar hpassed (leaf_suits hkind _ known) (fun _ => id)
  case parenthesis =>
    have hinner := (parenthesized_yields hgrammar).weaken Category.target_of_parenthesized
    exact suffixed_yields hgrammar hinner _ known hstart
  case bracket => exact suffixed_yields hgrammar (array_yields hgrammar) _ known hstart
  case brace => exact suffixed_yields hgrammar (object_yields hgrammar comment) _ known hstart
  case refused => trivial

theorem suffixes_yields (hgrammar : grammar.Sorted) (target : NodeId) (calls : Bool)
    (session : Session) (known : List (NodeId × Category))
    (hknown : session.tree.Settled known) (htarget : (target, .target) ∈ known) :
    (suffixes grammar target calls).Meets session
      (fun id after => after.tree.Settled ([(id, .atom)] ++ known)) Anyhow := by
  unfold suffixes
  rw [meets_bind_current]
  split
  · rename_i hdot
    apply meets_bind_advance_of_settled hknown
    intro hpassed
    apply (expect_still _ _).andThen hpassed
    intro name named hnamed
    have hmember : (Draft.leaf .name name.asName).Suits .name known :=
      ⟨rfl, List.nil_subset known, rfl⟩
    apply meets_bind_add_of_settled hnamed hmember
    intro member added hadded
    apply add_suffixes_meets hgrammar hadded
    · exact Draft.member_suits hdot (List.mem_cons_of_mem _ htarget) List.mem_cons_self
    · simp
  · split
    · apply meets_bind_advance_of_settled hknown
      intro hpassed
      apply (hgrammar.expression true).andThen hpassed
      intro index read hread
      apply (expectPunctuation_still "]").andThen hread
      intro last closed hclosed
      apply add_suffixes_meets hgrammar hclosed
      · constructor
        · rfl
        · simp [Draft.subscript, Shape.demands, Category.ofExpression, htarget]
        · rfl
      · simp
    · split
      · apply meets_bind_advance_of_settled hknown
        intro hpassed
        apply (hgrammar.items ")").andThen hpassed
        intro items read hread
        apply meets_bind_advance_of_settled hread
        intro hclosed
        apply add_suffixes_meets hgrammar hclosed
        · constructor
          · rfl
          · simp [Draft.application, Shape.demands, htarget]
          · rfl
        · simp
      · split
        · apply meets_bind_advance_of_settled hknown
          intro hpassed
          apply meets_add_of_settled hpassed
          · constructor
            · rfl
            · simp [Draft.unaryAfter, Shape.demands, htarget]
            · rfl
          · exact fun _ => id
        · exact hknown.weaken htarget Category.atom_of_target

/-! ## Operations -/

/-- An operand with the operations that bind tighter than a level.  An operator that
does not bind tighter comes next. -/
theorem operand_operations_meets (hgrammar : grammar.Sorted) (level : Token.Binding)
    {session : Session} {known : List (NodeId × Category)}
    (hknown : session.tree.Settled known) :
    (grammar.operand true >>= fun first => grammar.operations first level).Meets session
      (fun id after => after.tree.Settled ([(id, .above level)] ++ known) ∧
        after.cursor.current.binding ≤ level) Anyhow := by
  apply (hgrammar.operand true).andThen hknown
  intro first read hread
  have habove := hread.weaken List.mem_cons_self (Category.above_of_atom level)
  have hnext := habove.weaken (List.mem_cons_of_mem _ List.mem_cons_self)
    (Category.atLeast_of_atom read.cursor.current.binding)
  apply Meets.mono (hgrammar.operations first level read _ hnext (by simp) (by simp))
  · intro id after hafter
    exact ⟨hafter.1.mono (by grind), hafter.2⟩
  · exact fun _ hfailed => hfailed

theorem operations_meets (hgrammar : grammar.Sorted) (left : NodeId) (floor : Token.Binding)
    (session : Session) (known : List (NodeId × Category))
    (hknown : session.tree.Settled known) (habove : (left, .above floor) ∈ known)
    (hnext : (left, .atLeast session.cursor.current.binding) ∈ known) :
    (operations grammar left floor).Meets session
      (fun id after => after.tree.Settled ([(id, .above floor)] ++ known) ∧
        after.cursor.current.binding ≤ floor) Anyhow := by
  unfold operations
  rw [meets_bind_current]
  dsimp only
  split
  · rename_i hlevel
    exact ⟨hknown.learn (hknown.admits _ habove), hlevel⟩
  · rename_i hlevel
    have hlt : floor < session.cursor.current.binding := Nat.lt_of_not_le hlevel
    apply meets_bind_advance_of_settled hknown
    intro hpassed
    rw [← bind_assoc]
    apply Meets.bind (operand_operations_meets hgrammar session.cursor.current.binding hpassed)
    rintro right read ⟨hread, hstop⟩
    have hsuits : (Draft.binary left session.cursor.current right).Suits
        (.atLeast session.cursor.current.binding)
        ([(right, .above session.cursor.current.binding)] ++ known) :=
      Draft.operation_suits hlt (by simp [hnext]) (by simp)
    rw [meets_bind_add]
    have hadded := hread.grown hsuits
    have hjoined := hadded.weaken List.mem_cons_self (Category.above_of_atLeast hlt)
    have hdone := hjoined.weaken (List.mem_cons_of_mem _ List.mem_cons_self)
      (Category.atLeast_of_atLeast hstop)
    apply Meets.mono (hgrammar.operations _ floor _ _ hdone
      (List.mem_cons_of_mem _ List.mem_cons_self) List.mem_cons_self)
    · rintro id after ⟨hafter, hend⟩
      exact ⟨hafter.mono (by grind), hend⟩
    · exact fun _ hfailed => hfailed

theorem conditional_yields (hgrammar : grammar.Sorted) :
    (conditional grammar).Yields fun id => [(id, .item)] := by
  intro session known hknown
  apply (operand_yields hgrammar true).andThen hknown
  intro first read hread
  have habove := hread.weaken List.mem_cons_self (Category.above_of_atom .lowest)
  have hnext := habove.weaken (List.mem_cons_of_mem _ List.mem_cons_self)
    (Category.atLeast_of_atom read.cursor.current.binding)
  apply Meets.bind (hgrammar.operations first .lowest read _ hnext (by simp) (by simp))
  rintro test tested ⟨htested, -⟩
  rw [meets_bind_current]
  split
  · apply meets_bind_advance_of_settled htested
    intro hpassed
    apply hgrammar.assignment.andThen hpassed
    intro consequent chosen hchosen
    apply (expectPunctuation_still ":").andThen hchosen
    intro colon marked hmarked
    apply hgrammar.assignment.andThen hmarked
    intro alternate after hafter
    apply meets_add_of_settled hafter
    · constructor
      · rfl
      · simp [Draft.conditional, Shape.demands]
      · rfl
    · grind
  · have hitem := htested.weaken List.mem_cons_self (Category.item_of_above .lowest)
    exact hitem.mono (by grind)

theorem assignment_yields (hgrammar : grammar.Sorted) :
    (assignment grammar).Yields fun id => [(id, .item)] := by
  intro session known hknown
  apply (conditional_yields hgrammar).andThen hknown
  intro left read hread
  rw [meets_bind_current]
  split
  · exact hread
  · rename_i hassignment
    rw [meets_bind_node]
    split
    · rename_i node hnode
      split
      · rename_i hassignable
        have hplace : read.tree.Admits left .place :=
          ⟨node.shape, by simp [Tree.shape?, hnode], hassignable⟩
        apply meets_bind_advance_of_settled (hread.learn hplace)
        intro hpassed
        apply hgrammar.assignment.andThen hpassed
        intro right after hafter
        apply meets_add_of_settled hafter
        · exact Draft.assignment_suits (by simpa using hassignment) (by simp) (by simp)
        · grind
      · trivial
    · trivial

theorem expression_yields (hgrammar : grammar.Sorted) (commas : Bool) :
    (expression grammar commas).Yields fun id => [(id, .ofExpression commas)] := by
  intro session known hknown
  apply (assignment_yields hgrammar).andThen hknown
  intro first read hread
  rw [meets_bind_current]
  split
  · rename_i hcomma
    obtain ⟨hcommas, hcomma⟩ := Bool.and_eq_true_iff.mp hcomma
    apply meets_bind_advance_of_settled hread
    intro hpassed
    apply (hgrammar.expression true).andThen hpassed
    intro rest after hafter
    rw [hcommas]
    apply meets_add_of_settled hafter
    · exact Draft.comma_suits hcomma (by simp) (by simp [Category.ofExpression])
    · grind
  · cases commas with
    | false => exact hread
    | true =>
        have hweaker := hread.weaken List.mem_cons_self Category.expression_of_item
        exact hweaker.mono (by grind [Category.ofExpression])

theorem items_yields (hgrammar : grammar.Sorted) (closing : String) :
    (items grammar closing).Yields Category.item.each := by
  intro session known hknown
  apply meets_bind_eatComments_of_settled hknown
  intro _ huncommented
  rw [meets_bind_current]
  split
  · exact huncommented
  · apply (expression_yields hgrammar false).andThen huncommented
    intro first read hread
    apply meets_bind_eatComments_of_settled hread
    intro _ hseen
    apply (separator_still closing).andThen hseen
    intro _ separated hseparated
    apply (hgrammar.items closing).andThen hseparated
    intro others after hafter
    apply hafter.mono
    simp [Category.each, Category.ofExpression]

end Production

end ScriptSyntax

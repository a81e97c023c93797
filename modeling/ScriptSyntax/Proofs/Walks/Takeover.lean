import ScriptSyntax.Proofs.Trace.Statement
import ScriptSyntax.Tree.Walk

/-!
# Hooks that only descend

A hook that takes over nodes of a kind and does nothing but walk their children does what
is done without it.  Actions change the tables of a visitor while the walk goes on: a hook
may leave out the descent at nodes of its kind, or restore the default, which removes the
new hook again.  So two walks are followed side by side.  At each moment the nodes of the
kind are left out in both, or walked in both, by default in the first one and by default
or by the hook in the second.
-/

namespace ScriptSyntax

/-- The other visitor may take over nodes of the kind only to descend, where the first one
descends by default.  In all else they agree, and neither takes over the kind later on. -/
structure Visitor.Shadows (kind : NodeKind) (visitor other : Visitor) : Prop where
  before_eq : other.before = visitor.before
  after_eq : other.after = visitor.after
  on_eq : ∀ another, another ≠ kind → other.on another = visitor.on another
  on_descends : other.on kind = [.descend]
  descent_eq : ∀ another, another ≠ kind → other.descent another = visitor.descent another
  not_hooked : visitor.descent kind ≠ .hooked
  skipped_iff : other.descent kind = .skipped ↔ visitor.descent kind = .skipped
  before_keeps : .take ∉ visitor.before kind
  after_keeps : .take ∉ visitor.after kind

namespace Visitor

variable {kind : NodeKind} {visitor other : Visitor}

theorem setDescent_self (visitor : Visitor) (kind : NodeKind) (descent : Descent) :
    (visitor.setDescent kind descent).descent kind = descent :=
  if_pos rfl

theorem setDescent_of_ne {another : NodeKind} (hne : another ≠ kind) (visitor : Visitor)
    (descent : Descent) :
    (visitor.setDescent kind descent).descent another = visitor.descent another :=
  if_neg hne

/-- A hook that only descends is taken up by a visitor that descends by default. -/
theorem shadows_register (hdefault : visitor.overrides kind = false)
    (hbefore : .take ∉ visitor.before kind) (hafter : .take ∉ visitor.after kind) :
    visitor.Shadows kind (visitor.register .on kind [.descend]) := by
  have hstandard : visitor.descent kind = .standard := by
    simpa [overrides] using hdefault
  constructor
  case before_eq => rfl
  case after_eq => rfl
  case on_eq => exact fun another hne => if_neg hne
  case on_descends => exact if_pos rfl
  case descent_eq => exact fun another hne => if_neg hne
  case not_hooked =>
    rw [hstandard]
    decide
  case skipped_iff =>
    rw [hstandard]
    simp [register, assign]
  case before_keeps => exact hbefore
  case after_keeps => exact hafter

/-- The same change of the descent is made in both visitors. -/
theorem Shadows.setDescent (hshadows : visitor.Shadows kind other) (changed : NodeKind)
    (descent : Descent) (hdescent : changed = kind → descent ≠ .hooked) :
    (visitor.setDescent changed descent).Shadows kind (other.setDescent changed descent) := by
  have hchanged : ∀ another : NodeKind, other.descent another = visitor.descent another →
      (other.setDescent changed descent).descent another =
        (visitor.setDescent changed descent).descent another := by
    intro another hsame
    by_cases hanother : another = changed
    · rw [hanother, setDescent_self, setDescent_self]
    · rw [setDescent_of_ne hanother, setDescent_of_ne hanother, hsame]
  constructor
  case before_eq => exact hshadows.before_eq
  case after_eq => exact hshadows.after_eq
  case on_eq => exact hshadows.on_eq
  case on_descends => exact hshadows.on_descends
  case descent_eq => exact fun another hne => hchanged another (hshadows.descent_eq another hne)
  case not_hooked =>
    by_cases hkind : kind = changed
    · rw [← hkind, setDescent_self]
      exact hdescent hkind.symm
    · rw [setDescent_of_ne hkind]
      exact hshadows.not_hooked
  case skipped_iff =>
    by_cases hkind : kind = changed
    · rw [← hkind, setDescent_self, setDescent_self]
    · rw [setDescent_of_ne hkind, setDescent_of_ne hkind]
      exact hshadows.skipped_iff
  case before_keeps => exact hshadows.before_keeps
  case after_keeps => exact hshadows.after_keeps

end Visitor

namespace Walk

/-- Two walks that have come to the same, with visitors one of which shadows the other. -/
structure Alongside (kind : NodeKind) (first second : Walk) : Prop where
  trace_eq : second.trace = first.trace
  shadows : first.visitor.Shadows kind second.visitor

variable {kind : NodeKind} {visit : NodeId → Walk → Walk} {first second : Walk}

/-- Visits from walks alongside each other end alongside each other. -/
def KeepsAlongside (kind : NodeKind) (visit : NodeId → Walk → Walk) : Prop :=
  ∀ ⦃first second⦄, Alongside kind first second → ∀ id,
    Alongside kind (visit id first) (visit id second)

namespace Alongside

theorem setDescent (halong : Alongside kind first second) (changed : NodeKind)
    (descent : Descent) (hdescent : changed = kind → descent ≠ .hooked) :
    Alongside kind (first.setDescent changed descent) (second.setDescent changed descent) where
  trace_eq := halong.trace_eq
  shadows := halong.shadows.setDescent changed descent hdescent

theorem visitAll (hvisit : KeepsAlongside kind visit) (ids : List NodeId)
    (halong : Alongside kind first second) :
    Alongside kind (first.visitAll visit ids) (second.visitAll visit ids) := by
  induction ids generalizing first second with
  | nil => exact halong
  | cons id ids ih => exact ih (hvisit halong id)

theorem act (hvisit : KeepsAlongside kind visit) (event : Event) (children : List NodeId)
    (halong : Alongside kind first second) {action : Action}
    (haction : event.kind = kind → action ≠ .take) :
    Alongside kind (first.act visit event children action)
      (second.act visit event children action) := by
  cases action with
  | record =>
      refine ⟨?_, halong.shadows⟩
      show second.trace.push event = first.trace.push event
      rw [halong.trace_eq]
  | descend => exact halong.visitAll hvisit _
  | first => exact halong.visitAll hvisit _
  | reverse => exact halong.visitAll hvisit _
  | skip => exact halong.setDescent event.kind .skipped fun _ => by decide
  | reset => exact halong.setDescent event.kind .standard fun _ => by decide
  | take => exact halong.setDescent event.kind .hooked fun hkind => absurd rfl (haction hkind)

theorem perform (hvisit : KeepsAlongside kind visit) (event : Event) (children : List NodeId)
    {actions : List Action} (halong : Alongside kind first second)
    (hactions : event.kind = kind → .take ∉ actions) :
    Alongside kind (first.perform visit event children actions)
      (second.perform visit event children actions) := by
  induction actions generalizing first second with
  | nil => exact halong
  | cons action actions ih =>
      have haction : event.kind = kind → action ≠ .take := by
        rintro hkind rfl
        exact hactions hkind List.mem_cons_self
      have hothers : event.kind = kind → .take ∉ actions :=
        fun hkind hmem => hactions hkind (List.mem_cons_of_mem _ hmem)
      exact ih (halong.act hvisit event children haction) hothers

/-- At nodes of the kind the first walk descends by default or not at all, and the second
one does the same, be it by the hook. -/
theorem descend (hvisit : KeepsAlongside kind visit) (own : NodeKind) (id : NodeId)
    (children : List NodeId) (halong : Alongside kind first second) :
    Alongside kind (first.descend visit own id children)
      (second.descend visit own id children) := by
  have hshadows := halong.shadows
  have hall := halong.visitAll hvisit children
  unfold Walk.descend
  by_cases hkind : own = kind
  · subst hkind
    cases hfirst : first.visitor.descent own with
    | hooked => exact absurd hfirst hshadows.not_hooked
    | skipped =>
        rw [hshadows.skipped_iff.mpr hfirst]
        exact halong
    | standard =>
        have hnot : second.visitor.descent own ≠ .skipped := by
          rw [Ne, hshadows.skipped_iff, hfirst]
          decide
        cases hsecond : second.visitor.descent own with
        | skipped => exact absurd hsecond hnot
        | standard => exact hall
        | hooked =>
            dsimp only
            rw [hshadows.on_descends]
            exact hall
  · rw [hshadows.descent_eq own hkind, hshadows.on_eq own hkind]
    split
    · exact hall
    · exact halong
    · exact halong.perform hvisit _ children fun hown => absurd hown hkind

theorem visitNode (hvisit : KeepsAlongside kind visit) (id : NodeId) (node : Node)
    (halong : Alongside kind first second) :
    Alongside kind (first.visitNode visit id node) (second.visitNode visit id node) := by
  have hbefore : node.shape.kind = kind → .take ∉ first.visitor.before node.shape.kind := by
    rintro rfl
    exact halong.shadows.before_keeps
  have hentered := halong.perform hvisit ⟨.before, node.shape.kind, id⟩ node.shape.children
    hbefore
  have hdescended := hentered.descend hvisit node.shape.kind id node.shape.children
  unfold Walk.visitNode
  dsimp only
  rw [halong.shadows.before_eq, hdescended.shadows.after_eq]
  apply hdescended.perform hvisit
  rintro rfl
  exact hdescended.shadows.after_keeps

end Alongside

end Walk

/-- However far they go down, walks that start alongside each other end so. -/
theorem Tree.visitWithin_keepsAlongside (tree : Tree) (kind : NodeKind) (limit : Nat) :
    Walk.KeepsAlongside kind (tree.visitWithin limit) := by
  induction limit with
  | zero => exact fun _ _ halong _ => halong
  | succ limit ih =>
      intro first second halong id
      rw [visitWithin, visitWithin]
      cases tree.find? id with
      | none => exact halong
      | some node => exact halong.visitNode ih id node

/-- Taking over the nodes of a kind only to descend leaves no mark in the trace, from
whatever node the walk starts, if the visitor descends by default at that kind to begin
with and no callback of the kind brings back a hook.  All callbacks may change how the
nodes of their kinds are descended into, and walk below their node as often as they like.
Without cycles the walks go down to the end (`Tree.visit_eq`); with some, both are cut off
at the same places. -/
theorem descending_hook_leaves_no_mark (tree : Tree) (id : NodeId) {visitor : Visitor}
    {kind : NodeKind} (hdefault : visitor.overrides kind = false)
    (hbefore : .take ∉ visitor.before kind) (hafter : .take ∉ visitor.after kind)
    (trace : Array Event) :
    (tree.visit id ⟨visitor.register .on kind [.descend], trace⟩).trace =
      (tree.visit id ⟨visitor, trace⟩).trace := by
  have hstart : Walk.Alongside kind ⟨visitor, trace⟩
      ⟨visitor.register .on kind [.descend], trace⟩ :=
    ⟨rfl, Visitor.shadows_register hdefault hbefore hafter⟩
  exact (tree.visitWithin_keepsAlongside kind tree.size hstart id).trace_eq

/-- The calls in `f(g(x)); h(y);` are taken over.  Before a call its callee is visited, and
behind the first call that is left all further ones are left out. -/
theorem descending_hook_leaves_no_mark_calls :
    let tokens := [Token.plain .identifier "f", .plain .punctuation "(",
      .plain .identifier "g", .plain .punctuation "(", .plain .identifier "x",
      .plain .punctuation ")", .plain .punctuation ")", .plain .punctuation ";",
      .plain .identifier "h", .plain .punctuation "(", .plain .identifier "y",
      .plain .punctuation ")", .plain .punctuation ";"]
    let visitor : Visitor := {
      before := fun kind => if kind = .application then [.record, .first] else [.record]
      after := fun kind => if kind = .application then [.skip, .record] else [] }
    ∃ tree, parse .required tokens = .ok tree ∧ visitor.overrides .application = false ∧
      .take ∉ visitor.before .application ∧ .take ∉ visitor.after .application ∧
      (tree.visit tree.rootId ⟨visitor.register .on .application [.descend], #[]⟩).trace =
        (tree.visit tree.rootId ⟨visitor, #[]⟩).trace ∧
      (tree.visit tree.rootId ⟨visitor, #[]⟩).trace.size = 15 := by
  intro tokens visitor
  have hread : (parse .required tokens).toOption.map (fun tree =>
      (tree.visit tree.rootId ⟨visitor, #[]⟩).trace.size) = some 15 := by decide +kernel
  obtain ⟨tree, hparse, hsize⟩ := exists_parse_eq hread
  have hdefault : visitor.overrides .application = false := by decide
  have hbefore : .take ∉ visitor.before .application := by decide
  have hafter : .take ∉ visitor.after .application := by decide
  exact ⟨tree, hparse, hdefault, hbefore, hafter,
    descending_hook_leaves_no_mark tree tree.rootId hdefault hbefore hafter #[], hsize⟩

end ScriptSyntax

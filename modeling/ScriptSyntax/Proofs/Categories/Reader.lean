import ScriptSyntax.Parse.Grammar
import ScriptSyntax.Proofs.Arena
import ScriptSyntax.Proofs.Categories.Basic
import ScriptSyntax.Proofs.Outcome

/-!
# Readers that make nodes of categories

A tree conforms if every slot holds what it demands.  While a tree is made, what is
known of the nodes that are not yet in a slot is a list of facts; they stay true as
nodes are added, because shapes never change.  The rules below run through a
production and collect the facts about the nodes that it has made so far.
-/

namespace ScriptSyntax

namespace Tree

/-- The number is that of a node of the category. -/
def Admits (tree : Tree) (id : Nat) (category : Category) : Prop :=
  ∃ shape, tree.shape? id = some shape ∧ category.admits shape = true

/-- Every node is proper, and its slots hold what they demand. -/
def Conforms (tree : Tree) : Prop :=
  ∀ (id : Nat) shape, tree.shape? id = some shape → shape.isProper = true ∧
    ∀ demand ∈ shape.demands, tree.Admits demand.1 demand.2

/-- The tree conforms, and the facts about its nodes hold. -/
structure Settled (tree : Tree) (facts : List (NodeId × Category)) : Prop where
  conforms : tree.Conforms
  admits : ∀ fact ∈ facts, tree.Admits fact.1 fact.2

variable {tree whole : Tree} {facts others : List (NodeId × Category)}

theorem Admits.partOf {id : Nat} {category : Category} (hadmits : tree.Admits id category)
    (hpart : tree.PartOf whole) : whole.Admits id category := by
  obtain ⟨shape, hshape, hcategory⟩ := hadmits
  exact ⟨shape, hpart id shape hshape, hcategory⟩

namespace Settled

theorem mono (hsettled : tree.Settled facts) (hsub : others ⊆ facts) : tree.Settled others :=
  ⟨hsettled.conforms, fun fact hfact => hsettled.admits fact (hsub hfact)⟩

/-- A fact found out by looking at a node. -/
theorem learn (hsettled : tree.Settled facts) {id : Nat} {category : Category}
    (hadmits : tree.Admits id category) : tree.Settled ((id, category) :: facts) := by
  refine ⟨hsettled.conforms, fun fact hfact => ?_⟩
  rcases List.mem_cons.mp hfact with rfl | hfact
  · exact hadmits
  · exact hsettled.admits fact hfact

/-- A fact that follows from a known one. -/
theorem weaken (hsettled : tree.Settled facts) {id : Nat} {category weaker : Category}
    (hfact : (id, category) ∈ facts)
    (hweaker : ∀ shape : Shape NodeId, category.admits shape = true →
      weaker.admits shape = true) :
    tree.Settled ((id, weaker) :: facts) := by
  obtain ⟨shape, hshape, hcategory⟩ := hsettled.admits _ hfact
  exact hsettled.learn ⟨shape, hshape, hweaker shape hcategory⟩

/-- Facts stay as a node is added whose slots hold what they demand. -/
theorem insert (hsettled : tree.Settled facts) {shape : Shape NodeId}
    (hproper : shape.isProper = true) (hdemands : shape.demands ⊆ facts) (span : Span) :
    (tree.insert shape span).2.Settled facts := by
  have hpart := partOf_insert tree shape span
  refine ⟨fun id found hfound => ?_, fun fact hfact => (hsettled.admits fact hfact).partOf hpart⟩
  by_cases hid : id ≤ tree.size
  · rw [shape?_insert_of_le tree shape span hid] at hfound
    obtain ⟨hold, hslots⟩ := hsettled.conforms id found hfound
    exact ⟨hold, fun demand hdemand => (hslots demand hdemand).partOf hpart⟩
  · have hle : id ≤ tree.size + 1 := by
      obtain ⟨node, hnode, -⟩ := Option.map_eq_some_iff.mp hfound
      rw [← size_insert tree shape span]
      exact le_size_of_find?_eq_some hnode
    obtain rfl : id = tree.size + 1 := by omega
    rw [shape?_insert_self] at hfound
    obtain rfl := Option.some.inj hfound
    exact ⟨hproper, fun demand hdemand =>
      (hsettled.admits demand (hdemands hdemand)).partOf hpart⟩

end Settled

end Tree

/-- The draft has the category, and what it demands is among the facts. -/
structure Draft.Suits (draft : Draft) (category : Category)
    (facts : List (NodeId × Category)) : Prop where
  proper : draft.shape.isProper = true
  demands : draft.shape.demands ⊆ facts
  admits : category.admits draft.shape = true

theorem Tree.Settled.grown {session : Session} {draft : Draft} {category : Category}
    {facts : List (NodeId × Category)} (hsettled : session.tree.Settled facts)
    (hsuits : draft.Suits category facts) :
    (session.grown draft).tree.Settled ((session.tree.size + 1, category) :: facts) :=
  (hsettled.insert hsuits.proper hsuits.demands _).learn
    ⟨draft.shape, Tree.shape?_insert_self .., hsuits.admits⟩

namespace Parse

variable {Result Other : Type}

/-- A failure of which nothing is said. -/
def Anyhow (_ : Session) : Prop :=
  True

/-- Where the reader succeeds, it has kept all facts and added those about its
result. -/
def Yields (reader : Parse Result) (facts : Result → List (NodeId × Category)) : Prop :=
  ∀ session known, session.tree.Settled known →
    reader.Meets session (fun result after => after.tree.Settled (facts result ++ known)) Anyhow

/-- The reader makes no nodes. -/
def Still (reader : Parse Result) : Prop :=
  ∀ session, reader.Meets session (fun _ after => after.tree = session.tree) Anyhow

variable {session : Session} {success : Result → Session → Prop}
variable {known done : List (NodeId × Category)}

theorem Meets.and {reader : Parse Result} {first second : Result → Session → Prop}
    {failure : Session → Prop} (hfirst : reader.Meets session first failure)
    (hsecond : reader.Meets session second failure) :
    reader.Meets session (fun result after => first result after ∧ second result after)
      failure := by
  unfold Meets at hfirst hsecond ⊢
  split
  · rename_i hok
    rw [hok] at hfirst hsecond
    exact ⟨hfirst, hsecond⟩
  · rename_i herror
    rw [herror] at hfirst
    exact hfirst

/-- A reader of which nothing is needed, followed by another. -/
theorem meets_bind_anyhow {reader : Parse Other} {next : Other → Parse Result}
    (hnext : ∀ value after, (next value).Meets after success Anyhow) :
    (reader >>= next).Meets session success Anyhow := by
  have hreader : reader.Meets session (fun _ _ => True) Anyhow := by
    unfold Meets
    split <;> trivial
  exact hreader.bind fun value after _ => hnext value after

theorem Yields.andThen {reader : Parse Other} {facts : Other → List (NodeId × Category)}
    {next : Other → Parse Result} (hreader : reader.Yields facts)
    (hdone : session.tree.Settled done)
    (hnext : ∀ value after, after.tree.Settled (facts value ++ done) →
      (next value).Meets after success Anyhow) :
    (reader >>= next).Meets session success Anyhow :=
  (hreader session done hdone).bind hnext

theorem Yields.weaken {reader : Parse NodeId} {category weaker : Category}
    (hreader : reader.Yields fun id => [(id, category)])
    (hweaker : ∀ shape : Shape NodeId, category.admits shape = true →
      weaker.admits shape = true) :
    reader.Yields fun id => [(id, weaker)] := by
  intro session known hknown
  apply Meets.mono (hreader session known hknown)
  · intro id after hafter
    apply (hafter.weaken List.mem_cons_self hweaker).mono
    exact List.cons_subset_cons _ (List.subset_cons_self _ known)
  · exact fun _ hfailed => hfailed

theorem Still.andThen {reader : Parse Other} {next : Other → Parse Result}
    (hreader : reader.Still) (hdone : session.tree.Settled done)
    (hnext : ∀ value after, after.tree.Settled done → (next value).Meets after success Anyhow) :
    (reader >>= next).Meets session success Anyhow := by
  apply Meets.bind (hreader session)
  intro value after hafter
  rw [← hafter] at hdone
  exact hnext value after hdone

theorem meets_bind_advance_of_settled {next : Token → Parse Result}
    (hdone : session.tree.Settled done)
    (hnext : session.passed.tree.Settled done →
      (next session.cursor.current).Meets session.passed success Anyhow) :
    (advance >>= next).Meets session success Anyhow :=
  meets_bind_advance.mpr (hnext hdone)

theorem meets_bind_eatComments_of_settled {next : Option Token → Parse Result}
    (hdone : session.tree.Settled done)
    (hnext : ∀ comment, session.uncommented.tree.Settled done →
      (next comment).Meets session.uncommented success Anyhow) :
    (eatComments >>= next).Meets session success Anyhow :=
  meets_bind_eatComments.mpr (hnext _ hdone)

/-- Adding a node in the last place. -/
theorem meets_add_of_settled {draft : Draft} {category : Category}
    (hdone : session.tree.Settled done) (hsuits : draft.Suits category done)
    (hknown : known ⊆ done) :
    (add draft).Meets session
      (fun id after => after.tree.Settled ([(id, category)] ++ known)) Anyhow :=
  (hdone.grown hsuits).mono (List.cons_subset_cons _ hknown)

/-- Adding a node without slots. -/
theorem meets_add_childless {draft : Draft} {category : Category}
    (hknown : session.tree.Settled known) (hproper : draft.shape.isProper = true)
    (hdemands : draft.shape.demands = []) (hadmits : category.admits draft.shape = true) :
    (add draft).Meets session
      (fun id after => after.tree.Settled ([(id, category)] ++ known)) Anyhow :=
  meets_add_of_settled hknown ⟨hproper, hdemands ▸ List.nil_subset known, hadmits⟩
    (List.Subset.refl known)

theorem meets_bind_add_of_settled {draft : Draft} {category : Category}
    {next : NodeId → Parse Result} (hdone : session.tree.Settled done)
    (hsuits : draft.Suits category done)
    (hnext : ∀ id after, after.tree.Settled ((id, category) :: done) →
      (next id).Meets after success Anyhow) :
    (add draft >>= next).Meets session success Anyhow :=
  (meets_add_of_settled hdone hsuits (List.Subset.refl done)).bind hnext

/-! ## Readers that make no nodes -/

theorem expect_still (test : Token → Bool) (reason : Reason) : (expect test reason).Still := by
  intro session
  rw [meets_expect]
  split
  · rfl
  · trivial

theorem expectPunctuation_still (mark : String) : (expectPunctuation mark).Still :=
  expect_still _ _

theorem accept?_still (test : Token → Bool) : (accept? test).Still := by
  intro session
  rw [meets_accept?]
  split
  · rfl
  · rfl

theorem endStatement_still (semicolons : Semicolons) : (endStatement semicolons).Still := by
  intro session
  unfold endStatement
  rw [meets_bind_cursor]
  split
  · rfl
  · cases semicolons with
    | required =>
        apply Meets.bind (expectPunctuation_still ";" session)
        intro token after hafter
        exact hafter
    | inserted =>
        dsimp only
        split
        · rfl
        · trivial

theorem separator_still (closing : String) : (Production.separator closing).Still := by
  intro session
  unfold Production.separator
  rw [meets_bind_current]
  split
  · rfl
  · split
    · trivial
    · rfl

/-! ## Optional constructs -/

variable {reader : Parse Result} {facts : Result → List (NodeId × Category)}

theorem Yields.map_some (hreader : reader.Yields facts) (hdone : session.tree.Settled done) :
    (reader >>= fun value => pure (some value)).Meets session
      (fun result after => after.tree.Settled (result.toList.flatMap facts ++ done)) Anyhow := by
  apply hreader.andThen hdone
  intro value after hafter
  rw [meets_pure]
  simpa using hafter

theorem readUnless_yields (hreader : reader.Yields facts) (test : Token → Bool) :
    (readUnless test reader).Yields fun result => result.toList.flatMap facts := by
  intro session known hknown
  unfold readUnless
  rw [meets_bind_current]
  split
  · exact hknown
  · exact hreader.map_some hknown

theorem readAfter?_yields (hreader : reader.Yields facts) (test : Token → Bool) :
    (readAfter? test reader).Yields fun result => result.toList.flatMap facts := by
  intro session known hknown
  unfold readAfter?
  rw [meets_bind_current]
  split
  · exact meets_bind_advance_of_settled hknown hreader.map_some
  · exact hknown

end Parse

end ScriptSyntax

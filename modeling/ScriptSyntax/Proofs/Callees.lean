import ScriptSyntax.Proofs.Upkeep.Statement

/-!
# The callee of `new`

The first list of arguments behind the callee of `new` is meant for `new`, so the callee is read
without calls, and so are the operands inside of it.  There are two operands behind which calls are
read in any case, a function and an object that is itself made by `new`.  Where the callee begins
with one of them the first call belongs to that; everywhere else members and elements are all that
the callee is made of.
-/

namespace ScriptSyntax

open Parse
open Relation (ReflTransGen)

namespace Shape

variable {Ref : Type}

/-- What a member or an element is taken of. -/
def accessed? : Shape Ref → Option Ref
  | .binary left operator _ => if operator.isPunctuation "." then some left else none
  | .subscript target _ => some target
  | _ => none

/-- What is read behind an operand only where calls are admitted. -/
def isCall : Shape Ref → Bool
  | .application _ _ | .unary .after _ _ => true
  | _ => false

/-- Operands behind which calls are always admitted. -/
def admitsCalls : Shape Ref → Bool
  | .function .literal _ _ _ | .newObject _ _ => true
  | _ => false

/-- What a list of arguments may follow: an object made by `new` takes the list for itself, unless
it has one. -/
def isCallee : Shape Ref → Bool
  | .newObject _ none => false
  | _ => true

/-- An operand that is neither taken of another nor calls it, nor is made by `new`. -/
def isSimple (shape : Shape Ref) : Bool :=
  shape.accessed?.isNone && !shape.isCall && shape.isCallee

theorem leading?_of_accessed? {shape : Shape Ref} {target : Ref}
    (hshape : shape.accessed? = some target) : shape.leading? = some target := by
  cases shape with
  | binary left operator right =>
      rw [accessed?] at hshape
      split at hshape
      · exact hshape
      · cases hshape
  | subscript object index => exact hshape
  | _ => cases hshape

/-- What calls an operand is neither a member nor an element of it. -/
theorem accessed?_of_isCall {shape : Shape Ref} (hshape : shape.isCall = true) :
    shape.accessed? = none := by
  cases shape <;> simp_all [isCall, accessed?]

end Shape

namespace Tree

/-- The way from the node through what members and elements are taken of leads to the other. -/
def Accesses (tree : Tree) : NodeId → NodeId → Prop :=
  ReflTransGen fun id target => ∃ shape, tree.shape? id = some shape ∧
    shape.accessed? = some target

/-- The source of the node begins with an operand behind which calls are always admitted. -/
def AdmitsCalls (tree : Tree) (id : NodeId) : Prop :=
  ∃ base shape, tree.Begins id base ∧ tree.shape? base = some shape ∧ shape.admitsCalls = true

/-- The way from the node through what members and elements are taken of ends at an operand that
calls nothing, or at a call behind something that always admits calls. -/
inductive Spares (tree : Tree) : NodeId → Prop
  | access {id target : NodeId} {shape : Shape NodeId} : tree.shape? id = some shape →
      shape.accessed? = some target → Spares tree target → Spares tree id
  | quiet {id : NodeId} {shape : Shape NodeId} : tree.shape? id = some shape →
      shape.accessed? = none → shape.isCall = false → Spares tree id
  | call {id : NodeId} {shape : Shape NodeId} : tree.shape? id = some shape →
      shape.isCall = true → tree.AdmitsCalls id → Spares tree id

variable {tree whole : Tree} {id met target : NodeId} {shape : Shape NodeId} {calls : Bool}

theorem AdmitsCalls.partOf (hadmits : tree.AdmitsCalls id) (hpart : tree.PartOf whole) :
    whole.AdmitsCalls id := by
  obtain ⟨base, shape, hbegins, hshape, hadmits⟩ := hadmits
  exact ⟨base, shape, hbegins.partOf hpart, hpart base shape hshape, hadmits⟩

theorem AdmitsCalls.of_begins (hadmits : tree.AdmitsCalls target)
    (hbegins : tree.Begins id target) : tree.AdmitsCalls id := by
  obtain ⟨base, shape, hbase, hshape, hadmits⟩ := hadmits
  exact ⟨base, shape, hbegins.trans hbase, hshape, hadmits⟩

theorem Spares.partOf (hspares : tree.Spares id) (hpart : tree.PartOf whole) :
    whole.Spares id := by
  induction hspares with
  | access hshape htarget _ ih => exact .access (hpart _ _ hshape) htarget ih
  | quiet hshape hnone hcall => exact .quiet (hpart _ _ hshape) hnone hcall
  | call hshape hcall hadmits => exact .call (hpart _ _ hshape) hcall (hadmits.partOf hpart)

theorem Spares.of_accesses (hspares : tree.Spares id) (haccesses : tree.Accesses id met) :
    tree.Spares met := by
  induction haccesses with
  | refl => exact hspares
  | tail _ hstep ih =>
      obtain ⟨shape, hshape, htarget⟩ := hstep
      cases ih with
      | access hfound hother hspares =>
          obtain rfl := Option.some.inj (hshape.symm.trans hfound)
          obtain rfl := Option.some.inj (htarget.symm.trans hother)
          exact hspares
      | quiet hfound hnone _ =>
          obtain rfl := Option.some.inj (hshape.symm.trans hfound)
          rw [hnone] at htarget
          cases htarget
      | call hfound hcall _ =>
          obtain rfl := Option.some.inj (hshape.symm.trans hfound)
          rw [Shape.accessed?_of_isCall hcall] at htarget
          cases htarget

/-- A call on the way has something before it that always admits calls. -/
theorem Spares.admitsCalls (hspares : tree.Spares id) (haccesses : tree.Accesses id met)
    (hshape : tree.shape? met = some shape) (hcall : shape.isCall = true) :
    tree.AdmitsCalls met := by
  cases hspares.of_accesses haccesses with
  | access hfound htarget _ =>
      obtain rfl := Option.some.inj (hshape.symm.trans hfound)
      rw [Shape.accessed?_of_isCall hcall] at htarget
      cases htarget
  | quiet hfound _ hquiet =>
      obtain rfl := Option.some.inj (hshape.symm.trans hfound)
      rw [hcall] at hquiet
      cases hquiet
  | call _ _ hadmits => exact hadmits

/-- The node is made of the target by what may follow that. -/
structure Follows (tree : Tree) (calls : Bool) (target id : NodeId) : Prop where
  begins : tree.Begins id target
  spares : calls = false ∨ tree.AdmitsCalls target → tree.Spares target → tree.Spares id

theorem Follows.refl (tree : Tree) (calls : Bool) (id : NodeId) : tree.Follows calls id id :=
  ⟨.refl, fun _ hspares => hspares⟩

theorem Follows.trans (hid : tree.Follows calls target id) (hmet : tree.Follows calls id met) :
    tree.Follows calls target met where
  begins := hmet.begins.trans hid.begins
  spares hwhere hspares :=
    hmet.spares (hwhere.imp_right fun hadmits => hadmits.of_begins hid.begins)
      (hid.spares hwhere hspares)

theorem follows_of_accessed? (hshape : tree.shape? id = some shape)
    (htarget : shape.accessed? = some target) : tree.Follows calls target id where
  begins := .single ⟨shape, hshape, Shape.leading?_of_accessed? htarget⟩
  spares _ hspares := .access hshape htarget hspares

theorem follows_of_isCall (hshape : tree.shape? id = some shape) (hcall : shape.isCall = true)
    (htarget : shape.leading? = some target) : tree.Follows true target id := by
  have hbegins : tree.Begins id target := .single ⟨shape, hshape, htarget⟩
  refine ⟨hbegins, fun hwhere _ => ?_⟩
  have hadmits := hwhere.resolve_left nofun
  exact .call hshape hcall (hadmits.of_begins hbegins)

/-- The callee of the shape is as it should be. -/
def Binds (tree : Tree) : Shape NodeId → Prop
  | .newObject callee _ => tree.Spares callee
  | .application callee _ => ∃ shape, tree.shape? callee = some shape ∧ shape.isCallee = true
  | _ => True

theorem Binds.partOf (hbinds : tree.Binds shape) (hpart : tree.PartOf whole) :
    whole.Binds shape := by
  cases shape with
  | newObject callee arguments => exact Spares.partOf hbinds hpart
  | application callee arguments =>
      obtain ⟨found, hfound, hcallee⟩ := hbinds
      exact ⟨found, hpart callee found hfound, hcallee⟩
  | _ => trivial

theorem binds_of_isPlain (hplain : shape.isPlain = true) : tree.Binds shape := by
  cases shape <;> trivial

/-- All callees are as they should be. -/
def CallsBound (tree : Tree) : Prop :=
  ∀ id shape, tree.shape? id = some shape → tree.Binds shape

theorem CallsBound.insert (hbound : tree.CallsBound) (hbinds : tree.Binds shape) (span : Span) :
    (tree.insert shape span).2.CallsBound := by
  intro id found hfound
  have hpart := partOf_insert tree shape span
  rcases shape?_insert_cases hfound with hfound | ⟨-, rfl⟩
  · exact (hbound id found hfound).partOf hpart
  · exact hbinds.partOf hpart

end Tree

/-- All callees are as they should be.  Where an expression begins does not matter for that. -/
def Law.callees : Law where
  holds _ session := session.tree.CallsBound
  ready _ := True
  holds_of_mem_iff _ hbound := hbound
  holds_move _ hbound := hbound
  holds_grown hplain hbound := hbound.insert (Tree.binds_of_isPlain hplain) _
  holds_of_begins _ hbound := hbound
  ready_passed _ _ := trivial
  ready_of_isWord _ _ := trivial

/-- What follows the target may be read: a list of arguments comes next only if the target may be
called. -/
def Session.MayFollow (session : Session) (target : NodeId) : Prop :=
  ∃ shape, session.tree.shape? target = some shape ∧
    (shape.isCallee = true ∨ session.cursor.current.isPunctuation "(" = false)

/-- The readers of a grammar bind calls as they should. -/
structure Grammar.Binding (grammar : Grammar) : Prop extends grammar.Lawful .callees where
  callee {session : Session} {start : Tree} {pending : List NodeId} :
    Law.callees.Upheld start pending session → (grammar.operand false).Meets session
      (fun id after => Law.callees.Upheld start pending after ∧ after.tree.Spares id) Anyhow
  suffixes (target : NodeId) (calls : Bool) {session : Session} {start : Tree}
    {pending : List NodeId} : Law.callees.Upheld start pending session →
      session.MayFollow target → (grammar.suffixes target calls).Meets session
        (fun id after => Law.callees.Upheld start pending after ∧
          after.tree.Follows calls target id) Anyhow

theorem Grammar.exhausted_binding (semicolons : Semicolons) :
    (Grammar.exhausted semicolons).Binding where
  toLawful := Grammar.exhausted_lawful semicolons
  callee _ := trivial
  suffixes _ _ _ _ _ _ _ := trivial

namespace Production

variable {grammar : Grammar} {session : Session} {start : Tree} {pending : List NodeId}

/-! ## What follows operands -/

/-- A new node that follows the target, with what follows it. -/
theorem add_suffixes_follows (hgrammar : grammar.Binding) {draft : Draft} {target : NodeId}
    {calls : Bool} (hgrown : Law.callees.Upheld start pending (session.grown draft))
    (hcallee : draft.shape.isCallee = true)
    (hfollows : ∀ (tree : Tree) (id : NodeId), tree.shape? id = some draft.shape →
      tree.Follows calls target id) :
    (add draft >>= fun id => grammar.suffixes id calls).Meets session
      (fun id after => Law.callees.Upheld start pending after ∧
        after.tree.Follows calls target id) Anyhow := by
  apply meets_bind_add.mpr
  have hadded := Tree.shape?_insert_self session.tree draft.shape (draft.span session.tree)
  have hmay : (session.grown draft).MayFollow (session.tree.size + 1) :=
    ⟨draft.shape, hadded, .inl hcallee⟩
  apply (hgrammar.suffixes _ calls (.refl hgrown.holds) hmay).mono _ fun _ => id
  rintro id after ⟨hafter, hmore⟩
  exact ⟨hgrown.trans hafter, (hfollows _ _ (hafter.partOf _ _ hadded)).trans hmore⟩

theorem suffixes_follows (hgrammar : grammar.Binding) (target : NodeId) (calls : Bool)
    (hsession : Law.callees.Upheld start pending session) (hmay : session.MayFollow target) :
    (suffixes grammar target calls).Meets session
      (fun id after => Law.callees.Upheld start pending after ∧
        after.tree.Follows calls target id) Anyhow := by
  unfold suffixes
  rw [meets_bind_current]
  split
  · rename_i hdot
    apply meets_bind_advance.mpr
    apply (Law.keeps_expect hsession.passed).bind
    intro name named hnamed
    apply meets_bind_add.mpr
    have hmember := hnamed.grown (.leaf .name name.asName) rfl
    apply add_suffixes_follows hgrammar (hmember.grown _ rfl) rfl
    intro tree id hshape
    exact Tree.follows_of_accessed? hshape (if_pos hdot)
  · split
    · apply meets_bind_advance.mpr
      apply ((hgrammar.expression true).prompt trivial hsession.passed).bind
      intro index read hread
      apply (Law.keeps_expect hread).bind
      intro last closed hclosed
      apply add_suffixes_follows hgrammar (hclosed.grown _ rfl) rfl
      intro tree id hshape
      exact Tree.follows_of_accessed? hshape rfl
    · split
      · rename_i hopening
        obtain ⟨rfl, hmark⟩ := Bool.and_eq_true_iff.mp hopening
        apply meets_bind_advance.mpr
        apply (hgrammar.items ")" (.refl hsession.passed.holds)).bind
        intro items read hread
        apply meets_bind_advance.mpr
        -- Arguments come next, so the target may be called.
        obtain ⟨shape, hshape, hcallee⟩ := hmay
        have hcallable := hcallee.resolve_right (by simp [hmark])
        have hbinds : read.tree.Binds (.application target items) :=
          ⟨shape, hread.partOf _ _ hshape, hcallable⟩
        have hgrown : Law.callees.Upheld start pending
            (read.passed.grown (.application target items read.cursor.current)) :=
          (hsession.passed.trans hread.passed).partOf_grown (hread.holds.insert hbinds _)
        apply add_suffixes_follows hgrammar hgrown rfl
        intro tree id hshape
        exact Tree.follows_of_isCall hshape rfl rfl
      · split
        · rename_i hpostfix
          simp only [Bool.and_eq_true] at hpostfix
          obtain ⟨⟨rfl, -⟩, -⟩ := hpostfix
          apply meets_bind_advance.mpr
          apply meets_add.mpr
          refine ⟨hsession.passed.grown _ rfl, ?_⟩
          exact Tree.follows_of_isCall (Tree.shape?_insert_self _ _ _) rfl rfl
        · exact ⟨hsession, .refl _ _ _⟩

/-! ## Operands -/

/-- A simple operand with what follows it. -/
theorem suffixed_spares (hgrammar : grammar.Binding) {reader : Parse NodeId} {calls : Bool}
    (hkeeps : Law.callees.Keeps reader session) (hmakes : reader.Makes Shape.isSimple)
    (hsession : Law.callees.Upheld start pending session) :
    (reader >>= fun id => grammar.suffixes id calls).Meets session
      (fun id after => Law.callees.Upheld start pending after ∧
        (calls = false → after.tree.Spares id)) Anyhow := by
  apply ((hkeeps hsession).and (hmakes session)).bind
  rintro target read ⟨hread, shape, hshape, hsimple⟩
  simp only [Shape.isSimple, Bool.and_eq_true, Bool.not_eq_true', Option.isNone_iff_eq_none]
    at hsimple
  obtain ⟨⟨hnone, hcall⟩, hcallee⟩ := hsimple
  have hmay : read.MayFollow target := ⟨shape, hshape, .inl hcallee⟩
  apply (hgrammar.suffixes target calls (.refl hread.holds) hmay).mono _ fun _ => id
  rintro id after ⟨hafter, hfollows⟩
  refine ⟨hread.trans hafter, fun hcalls => hfollows.spares (.inl hcalls) ?_⟩
  exact .quiet (hafter.partOf _ _ hshape) hnone hcall

/-- An operand that always admits calls, with what follows it. -/
theorem admitting_spares (hgrammar : grammar.Binding) {target : NodeId} {shape : Shape NodeId}
    (hsession : Law.callees.Upheld start pending session) (hmay : session.MayFollow target)
    (hshape : session.tree.shape? target = some shape) (hadmits : shape.admitsCalls = true) :
    (grammar.suffixes target true).Meets session
      (fun id after => Law.callees.Upheld start pending after ∧ after.tree.Spares id) Anyhow := by
  apply (hgrammar.suffixes target true (.refl hsession.holds) hmay).mono _ fun _ => id
  rintro id after ⟨hafter, hfollows⟩
  have hlater := hafter.partOf _ _ hshape
  refine ⟨hsession.trans hafter, hfollows.spares (.inr ⟨target, shape, .refl, hlater, hadmits⟩) ?_⟩
  apply Tree.Spares.quiet hlater
  all_goals cases shape <;> simp_all [Shape.admitsCalls, Shape.accessed?, Shape.isCall]

theorem newObject_spares (hgrammar : grammar.Binding)
    (hsession : Law.callees.Upheld start pending session) :
    (newObject grammar).Meets session
      (fun id after => Law.callees.Upheld start pending after ∧ after.tree.Spares id) Anyhow := by
  apply meets_bind_advance.mpr
  apply (hgrammar.callee (.refl hsession.passed.holds)).bind
  rintro callee read ⟨hread, hcallee⟩
  have hdone := hsession.passed.trans hread
  -- Without arguments the object is made only where no list of them comes next.
  have hadded : ∀ (arguments : Option NodeId) (after : Session),
      Law.callees.Upheld read.tree pending after →
      (arguments.isSome = true ∨ after.cursor.current.isPunctuation "(" = false) →
      (do
        let id ← add (.newObject session.cursor.current callee arguments)
        grammar.suffixes id true).Meets after
        (fun id final => Law.callees.Upheld start pending final ∧ final.tree.Spares id)
        Anyhow := by
    intro arguments after hafter hlist
    apply meets_bind_add.mpr
    have hbinds : after.tree.Binds (.newObject callee arguments) := hcallee.partOf hafter.partOf
    have hgrown : Law.callees.Upheld start pending
        (after.grown (.newObject session.cursor.current callee arguments)) :=
      (hdone.trans hafter).partOf_grown (hafter.holds.insert hbinds _)
    have hobject := Tree.shape?_insert_self after.tree (.newObject callee arguments)
      ((Draft.newObject session.cursor.current callee arguments).span after.tree)
    refine admitting_spares hgrammar hgrown ⟨_, hobject, ?_⟩ hobject rfl
    apply hlist.imp_left
    intro hsome
    cases arguments with
    | none => cases hsome
    | some arguments => rfl
  rw [meets_bind_current]
  split
  · apply (arguments_keeps hgrammar.toLawful (.refl hread.holds)).bind
    intro arguments after hafter
    exact hadded (some arguments) after hafter (.inl rfl)
  · rename_i hnone
    exact hadded none read (.refl hread.holds) (.inr (Bool.eq_false_iff.mpr hnone))

theorem object_keeps_callees (hgrammar : grammar.Binding) (comment : Option Token) :
    Law.callees.Keeps (object grammar comment) session := by
  intro start pending hsession
  apply meets_bind_advance.mpr
  apply (hgrammar.properties hsession.passed).bind
  intro properties read hread
  apply meets_bind_advance.mpr
  apply meets_add.mpr
  have hbinds : read.tree.Binds (.object comment properties) := trivial
  exact hread.passed.partOf_grown (hread.holds.insert hbinds _)

theorem leaf_spares (hgrammar : grammar.Binding) (kind : Leaf) (token : Token) (calls : Bool)
    (hsession : Law.callees.Upheld start pending session) :
    (add (.leaf kind token) >>= fun id => grammar.suffixes id calls).Meets session
      (fun id after => Law.callees.Upheld start pending after ∧
        (calls = false → after.tree.Spares id)) Anyhow :=
  suffixed_spares hgrammar (fun _ _ hsession => Law.meets_add_plain hsession rfl rfl)
    (makes_add rfl) hsession

/-- Where calls are not admitted, an operand makes none of its own. -/
theorem operand_spares (hgrammar : grammar.Binding) (calls : Bool)
    (hsession : Law.callees.Upheld start pending session) :
    (operand grammar calls).Meets session
      (fun id after => Law.callees.Upheld start pending after ∧
        (calls = false → after.tree.Spares id)) Anyhow := by
  have hlawful := hgrammar.toLawful
  apply meets_bind_eatComments.mpr
  rw [meets_bind_current]
  have hstart := hsession.uncommented
  cases hof : OperandStart.of session.uncommented.cursor.current
  case newObject =>
    apply (newObject_spares hgrammar hstart).mono _ fun _ => id
    exact fun _ _ hafter => ⟨hafter.1, fun _ => hafter.2⟩
  case unary =>
    apply meets_bind_advance.mpr
    apply ((hgrammar.operand calls).prompt trivial hstart.passed).bind
    intro inner after hafter
    apply meets_add.mpr
    refine ⟨hafter.grown _ rfl, fun _ => ?_⟩
    exact .quiet (Tree.shape?_insert_self _ _ _) rfl rfl
  case function =>
    have hmakes : (function grammar .literal).Makes fun shape =>
        shape.admitsCalls && shape.isCallee := function_makes fun _ _ _ => rfl
    apply ((function_keeps hlawful .literal hstart).and (hmakes _)).bind
    rintro target read ⟨hread, shape, hshape, htest⟩
    obtain ⟨hadmits, hcallee⟩ := Bool.and_eq_true_iff.mp htest
    apply (admitting_spares hgrammar hread ⟨shape, hshape, .inl hcallee⟩ hshape hadmits).mono _
      fun _ => id
    exact fun _ _ hafter => ⟨hafter.1, fun _ => hafter.2⟩
  case valueKeyword =>
    apply meets_bind_advance.mpr
    exact leaf_spares hgrammar _ _ calls hstart.passed
  case leaf =>
    apply meets_bind_advance.mpr
    exact leaf_spares hgrammar _ _ calls hstart.passed
  case parenthesis =>
    have hmakes : (parenthesized grammar).Makes Shape.isSimple :=
      parenthesized_makes fun _ => rfl
    exact suffixed_spares hgrammar (parenthesized_keeps hlawful) hmakes hstart
  case bracket =>
    have hmakes : (array grammar).Makes Shape.isSimple :=
      array_makes fun _ => rfl
    exact suffixed_spares hgrammar (array_keeps hlawful) hmakes hstart
  case brace =>
    have hmakes : (object grammar session.cursor.comment?).Makes Shape.isSimple :=
      object_makes _ fun _ => rfl
    exact suffixed_spares hgrammar (object_keeps_callees hgrammar _) hmakes hstart
  case refused => trivial

theorem operand_reads_callees (hgrammar : grammar.Binding) (calls : Bool) (session : Session) :
    Law.callees.Reads (operand grammar calls) session := by
  intro entry start pending _ hsession
  apply (operand_spares hgrammar calls hsession).mono _ fun _ => id
  exact fun _ _ hafter => ⟨hafter.1.holds, hafter.1.partOf⟩

end Production

theorem Grammar.Binding.unfold {grammar : Grammar} (hgrammar : grammar.Binding) :
    grammar.unfold.Binding where
  toLawful := hgrammar.toLawful.unfold (Production.operand_reads_callees hgrammar)
  callee hsession := (Production.operand_spares hgrammar false hsession).mono
    (fun _ _ hafter => ⟨hafter.1, hafter.2 rfl⟩) fun _ => id
  suffixes target calls _ _ _ := Production.suffixes_follows hgrammar target calls

theorem Grammar.upTo_binding (semicolons : Semicolons) (depth : Nat) :
    (Grammar.upTo semicolons depth).Binding := by
  induction depth with
  | zero => exact exhausted_binding semicolons
  | succ depth ih => exact ih.unfold

/-- In every program the way from the callee of `new` through what members and elements are taken
of meets a call only behind a function or an object that is itself made by `new`, and the first list
of arguments behind an object made by `new` is its own. -/
theorem calls_in_callees_behind_admitting {semicolons : Semicolons} {tokens : List Token}
    {tree : Tree} (hparse : parse semicolons tokens = .ok tree) :
    (∀ id callee arguments, tree.shape? id = some (.newObject callee arguments) →
      ∀ met shape, tree.Accesses callee met → tree.shape? met = some shape →
        shape.isCall = true → tree.AdmitsCalls met) ∧
    ∀ id callee arguments, tree.shape? id = some (.application callee arguments) →
      ∃ shape, tree.shape? callee = some shape ∧ shape.isCallee = true := by
  have hempty : Tree.empty.CallsBound := by
    intro id shape hshape
    cases id <;> cases hshape
  obtain ⟨final, rfl, hbound⟩ := Law.holds_of_parse .callees hparse hempty
    (fun depth => (Grammar.upTo_binding semicolons depth).toLawful)
    (fun depth => Production.operand_reads_callees (Grammar.upTo_binding semicolons depth) true)
  constructor
  · intro id callee arguments hid met shape haccesses hshape hcall
    exact Tree.Spares.admitsCalls (hbound id _ hid) haccesses hshape hcall
  · intro id callee arguments hid
    exact hbound id _ hid

/-- In `new a.b(c)(d)` the first list belongs to `new`, whose callee is a member, and the second
calls what that makes. -/
theorem calls_in_callees_behind_admitting_member :
    let tokens := [Token.plain .operator "new", .plain .identifier "a", .plain .punctuation ".",
      .plain .identifier "b", .plain .punctuation "(", .plain .identifier "c",
      .plain .punctuation ")", .plain .punctuation "(", .plain .identifier "d",
      .plain .punctuation ")", .plain .punctuation ";"]
    ∃ tree, parse .required tokens = .ok tree ∧
      tree.shape? 3 = some (.binary 1 (.plain .punctuation ".") 2) ∧
      tree.shape? 6 = some (.newObject 3 (some 5)) ∧ tree.shape? 8 = some (.application 6 [7]) ∧
      (∀ met shape, tree.Accesses 3 met → tree.shape? met = some shape → shape.isCall = true →
        tree.AdmitsCalls met) ∧
      ∃ shape, tree.shape? 6 = some shape ∧ shape.isCallee = true := by
  intro tokens
  have hread : (parse .required tokens).toOption.map
      (fun tree => (tree.shape? 3, tree.shape? 6, tree.shape? 8)) =
      some (some (.binary 1 (.plain .punctuation ".") 2), some (.newObject 3 (some 5)),
        some (.application 6 [7])) := by
    decide +kernel
  obtain ⟨tree, hparse, hshapes⟩ := exists_parse_eq hread
  simp only [Prod.mk.injEq] at hshapes
  obtain ⟨hmember, hnew, hcall⟩ := hshapes
  obtain ⟨hcallees, hcalled⟩ := calls_in_callees_behind_admitting hparse
  exact ⟨tree, hparse, hmember, hnew, hcall, hcallees 6 3 _ hnew, hcalled 8 6 _ hcall⟩

/-- Behind a function the list of arguments calls the function, inside the callee of `new`, and
`new` itself is left without arguments; so it is with the second list behind two `new`. -/
theorem call_inside_callee_of_new :
    let function := [Token.plain .operator "new", .plain .keyword "function",
      .plain .punctuation "(", .plain .punctuation ")", .plain .punctuation "\x7b",
      .plain .punctuation "\x7d", .plain .punctuation "(", .plain .punctuation ")",
      .plain .punctuation ";"]
    let twice := [Token.plain .operator "new", .plain .operator "new", .plain .identifier "a",
      .plain .punctuation "(", .plain .punctuation ")", .plain .punctuation "(",
      .plain .punctuation ")", .plain .punctuation ";"]
    (∃ tree, parse .required function = .ok tree ∧ tree.shape? 4 = some (.newObject 3 none) ∧
      tree.shape? 3 = some (.application 2 []) ∧
      tree.shape? 2 = some (.function .literal none [] 1)) ∧
    ∃ tree, parse .required twice = .ok tree ∧ tree.shape? 5 = some (.newObject 4 none) ∧
      tree.shape? 4 = some (.application 3 []) ∧ tree.shape? 3 = some (.newObject 1 (some 2)) := by
  intro function twice
  constructor
  · have hread : (parse .required function).toOption.map
        (fun tree => (tree.shape? 4, tree.shape? 3, tree.shape? 2)) =
        some (some (.newObject 3 none), some (.application 2 []),
          some (.function .literal none [] 1)) := by
      decide +kernel
    obtain ⟨tree, hparse, hshapes⟩ := exists_parse_eq hread
    simp only [Prod.mk.injEq] at hshapes
    exact ⟨tree, hparse, hshapes⟩
  · have hread : (parse .required twice).toOption.map
        (fun tree => (tree.shape? 5, tree.shape? 4, tree.shape? 3)) =
        some (some (.newObject 4 none), some (.application 3 []),
          some (.newObject 1 (some 2))) := by
      decide +kernel
    obtain ⟨tree, hparse, hshapes⟩ := exists_parse_eq hread
    simp only [Prod.mk.injEq] at hshapes
    exact ⟨tree, hparse, hshapes⟩

end ScriptSyntax

import ScriptSyntax.Proofs.Thinning.Tokens
import ScriptSyntax.Proofs.Upkeep.Law

/-!
# Laws and expressions

An expression begins with its first operand, so what is open of it is what that operand leaves
open.  All other expressions in it are read right behind a token that says something, but for the
items of a list: comments are passed over before each of them, and so they stay open until the
list is made.
-/

namespace ScriptSyntax

open Parse

variable {law : Law}

/-- The readers of a grammar keep up the law. -/
structure Grammar.Lawful (grammar : Grammar) (law : Law) : Prop where
  statement (labels : Bool) {session : Session} : law.Keeps (grammar.statement labels) session
  statements (enclosure : Enclosure) {session : Session} :
    law.Keeps (grammar.statements enclosure) session
  parameters {session : Session} : law.Keeps grammar.parameters session
  declarations {session : Session} : law.Keeps grammar.declarations session
  expression (commas : Bool) {session : Session} : law.Reads (grammar.expression commas) session
  assignment {session : Session} : law.Reads grammar.assignment session
  operand (calls : Bool) {session : Session} : law.Reads (grammar.operand calls) session
  operations (left : NodeId) (floor : Token.Binding) {session : Session} :
    law.Extends (grammar.operations left floor) left session
  items (closing : String) {session : Session} : law.Collects (grammar.items closing) session
  properties {session : Session} : law.Keeps grammar.properties session

theorem Grammar.exhausted_lawful (semicolons : Semicolons) :
    (Grammar.exhausted semicolons).Lawful law where
  statement _ _ _ _ _ := trivial
  statements _ _ _ _ _ := trivial
  parameters _ := trivial
  declarations _ := trivial
  expression _ _ _ _ _ _ _ := trivial
  assignment _ _ := trivial
  operand _ _ _ _ _ _ _ := trivial
  operations _ _ _ _ _ _ := trivial
  items _ _ _ _ _ := trivial
  properties _ := trivial

namespace Parse

/-- What the reader makes passes a test. -/
def Makes (reader : Parse NodeId) (test : Shape NodeId → Bool) : Prop :=
  ∀ session, reader.Meets session
    (fun id after => ∃ shape, after.tree.shape? id = some shape ∧ test shape = true) Anyhow

variable {Other : Type} {test : Shape NodeId → Bool}

theorem makes_bind {reader : Parse Other} {next : Other → Parse NodeId}
    (hnext : ∀ value, (next value).Makes test) : (reader >>= next).Makes test :=
  fun _ => meets_bind_anyhow fun value after => hnext value after

theorem makes_add {draft : Draft} (hdraft : test draft.shape = true) : (add draft).Makes test := by
  intro session
  exact meets_add.mpr ⟨draft.shape, Tree.shape?_insert_self _ _ _, hdraft⟩

end Parse

namespace Production

open Law (Entry)
open Relation (ReflTransGen)

variable {grammar : Grammar} {session : Session}

/-! ## What operands are -/

section Makes

variable {test : Shape NodeId → Bool}

theorem function_makes {role : FunctionRole}
    (htest : ∀ name parameters body, test (.function role name parameters body) = true) :
    (function grammar role).Makes test := by
  apply makes_bind
  intro first
  apply makes_bind
  intro name
  apply makes_bind
  intro opening
  apply makes_bind
  intro parameters
  apply makes_bind
  intro closing
  apply makes_bind
  intro body
  split
  · exact fun _ => trivial
  · exact makes_add (htest name parameters body)

theorem parenthesized_makes (htest : ∀ inner, test (.parenthesized inner) = true) :
    (parenthesized grammar).Makes test := by
  apply makes_bind
  intro first
  apply makes_bind
  intro inner
  apply makes_bind
  intro comment
  apply makes_bind
  intro last
  exact makes_add (htest inner)

theorem array_makes (htest : ∀ elements, test (.array elements) = true) :
    (array grammar).Makes test := by
  apply makes_bind
  intro first
  apply makes_bind
  intro elements
  apply makes_bind
  intro last
  exact makes_add (htest elements)

theorem object_makes (comment : Option Token)
    (htest : ∀ properties, test (.object comment properties) = true) :
    (object grammar comment).Makes test := by
  apply makes_bind
  intro first
  apply makes_bind
  intro properties
  apply makes_bind
  intro last
  exact makes_add (htest properties)

end Makes

/-! ## What brackets hold -/

section Brackets

variable (hgrammar : grammar.Lawful law)

include hgrammar

theorem block_keeps : law.Keeps (block grammar) session := by
  intro start pending hsession
  apply (Law.keeps_expect hsession).bind
  intro first opened hopened
  apply (hgrammar.statements .block hopened).bind
  intro statements read hread
  apply meets_bind_advance.mpr
  exact Law.meets_add_plain hread.passed rfl rfl

theorem parameters_keeps : law.Keeps (parameters grammar) session := by
  intro start pending hsession
  unfold parameters
  rw [meets_bind_current]
  split
  · exact hsession
  · split
    · trivial
    · apply (Law.keeps_expect hsession).bind
      intro name named hnamed
      apply (Law.keeps_separator ")" hnamed).bind
      intro _ separated hseparated
      exact (hgrammar.parameters hseparated).bind fun _ _ hafter => hafter

theorem function_keeps (role : FunctionRole) : law.Keeps (function grammar role) session := by
  intro start pending hsession
  apply meets_bind_advance.mpr
  apply (Law.keeps_accept? hsession.passed).bind
  intro name named hnamed
  apply (Law.keeps_expect hnamed).bind
  intro _ opened hopened
  apply (hgrammar.parameters hopened).bind
  intro parameters listed hlisted
  apply meets_bind_advance.mpr
  apply (block_keeps hgrammar hlisted.passed).bind
  intro body after hafter
  split
  · trivial
  · exact Law.meets_add_plain hafter rfl rfl

theorem parenthesized_keeps : law.Keeps (parenthesized grammar) session := by
  intro start pending hsession
  apply Law.meets_bind_expect hsession (fun _ => Token.isWord_of_isPunctuation)
  intro first opened hopened hready
  apply ((hgrammar.expression true).prompt hready hopened).bind
  intro inner read hread
  apply meets_bind_eatComments.mpr
  apply (Law.keeps_expect hread.uncommented).bind
  intro last after hafter
  exact Law.meets_add_plain hafter rfl rfl

theorem array_keeps : law.Keeps (array grammar) session := by
  intro start pending hsession
  apply meets_bind_advance.mpr
  apply (hgrammar.items "]" hsession.passed).bind
  intro elements read hread
  apply meets_bind_advance.mpr
  apply meets_add.mpr
  exact hread.passed.grown _ rfl

theorem arguments_keeps : law.Keeps (arguments grammar) session := by
  intro start pending hsession
  apply meets_bind_advance.mpr
  apply (hgrammar.items ")" hsession.passed).bind
  intro expressions read hread
  apply meets_bind_advance.mpr
  apply meets_add.mpr
  exact hread.passed.grown _ rfl

theorem property_keeps : law.Keeps (property grammar) session := by
  intro start pending hsession
  apply (Law.keeps_expect hsession).bind
  intro name named hnamed
  apply Law.meets_bind_expect hnamed (fun _ => Token.isWord_of_isPunctuation)
  intro _ marked hmarked hready
  apply ((hgrammar.expression false).prompt hready hmarked).bind
  intro value after hafter
  exact Law.meets_add_plain hafter rfl rfl

theorem properties_keeps : law.Keeps (properties grammar) session := by
  intro start pending hsession
  apply meets_bind_eatComments.mpr
  rw [meets_bind_current]
  split
  · exact hsession.uncommented
  · apply (property_keeps hgrammar hsession.uncommented).bind
    intro first read hread
    apply meets_bind_eatComments.mpr
    apply (Law.keeps_separator "\x7d" hread.uncommented).bind
    intro _ separated hseparated
    exact (hgrammar.properties hseparated).bind fun _ _ hafter => hafter

end Brackets

/-! ## Operations -/

section Operations

variable (hgrammar : grammar.Lawful law)

include hgrammar

theorem operations_keeps (left : NodeId) (floor : Token.Binding) :
    law.Extends (operations grammar left floor) left session := by
  intro start pending hsession
  unfold operations
  rw [meets_bind_current]
  dsimp only
  split
  · exact ⟨hsession, .refl⟩
  · rename_i hlevel
    have hready : law.ready session.passed :=
      law.ready_passed (Token.isWord_of_not_binding_le hlevel) hsession.holds
    apply meets_bind_advance.mpr
    apply ((hgrammar.operand true).prompt hready hsession.passed).bind
    intro first read hread
    apply (hgrammar.operations first _ hread).bind
    rintro right between ⟨hbetween, -⟩
    apply meets_bind_add.mpr
    have hjoined := hbetween.grown (.binary left session.cursor.current right) rfl
    apply (hgrammar.operations _ floor (.refl hjoined.holds)).mono _ fun _ => id
    rintro id after ⟨hafter, hbegins⟩
    refine ⟨hjoined.trans hafter, hbegins.tail ?_⟩
    exact ⟨_, hafter.partOf _ _ (Tree.shape?_insert_self _ _ _), rfl⟩

variable (hoperand : ∀ session, law.Reads (operand grammar true) session)

include hoperand

/-- Operations begin with their first operand, and so does what is made of them. -/
theorem conditional_reads : law.Reads (conditional grammar) session := by
  intro entry start pending hentry hsession
  apply (hoperand session hentry hsession).bind
  intro first read hread
  apply (hgrammar.operations first .lowest hread).bind
  rintro test tested ⟨htested, hbegins⟩
  rw [meets_bind_current]
  split
  · rename_i hquestion
    have hready : law.ready tested.passed :=
      law.ready_passed (Token.isWord_of_isOperator hquestion) htested.holds
    apply meets_bind_advance.mpr
    apply (hgrammar.assignment.prompt hready (.refl htested.passed.holds)).bind
    intro consequent chosen hchosen
    apply Law.meets_bind_expect hchosen (fun _ => Token.isWord_of_isPunctuation)
    intro _ marked hmarked hready
    apply (hgrammar.assignment.prompt hready hmarked).bind
    intro alternate after hafter
    apply meets_add.mpr
    have hadded := hafter.grown (.conditional test consequent alternate) rfl
    apply (htested.trans hadded).leaves
    apply ReflTransGen.head _ (hbegins.partOf hadded.partOf)
    exact ⟨_, Tree.shape?_insert_self _ _ _, rfl⟩
  · exact htested.leaves hbegins

theorem assignment_reads : law.Reads (assignment grammar) session := by
  intro entry start pending hentry hsession
  apply (conditional_reads hgrammar hoperand hentry hsession).bind
  intro left read hread
  rw [meets_bind_current]
  split
  · exact hread
  · rename_i hassignment
    rw [meets_bind_node]
    split
    · split
      · have hready : law.ready read.passed :=
          law.ready_passed (Token.isWord_of_isAssignment (by simpa using hassignment)) hread.holds
        apply meets_bind_advance.mpr
        apply (hgrammar.assignment.prompt hready hread.passed).bind
        intro right after hafter
        apply meets_add.mpr
        have hadded := hafter.grown (.binary left read.cursor.current right) rfl
        exact hadded.leaves (.single ⟨_, Tree.shape?_insert_self _ _ _, rfl⟩)
      · trivial
    · trivial

theorem expression_reads (commas : Bool) : law.Reads (expression grammar commas) session := by
  intro entry start pending hentry hsession
  apply (assignment_reads hgrammar hoperand hentry hsession).bind
  intro first read hread
  rw [meets_bind_current]
  split
  · rename_i hcomma
    have hword := Token.isWord_of_isPunctuation (Bool.and_eq_true_iff.mp hcomma).2
    have hready : law.ready read.passed := law.ready_passed hword hread.holds
    apply meets_bind_advance.mpr
    apply ((hgrammar.expression true).prompt hready hread.passed).bind
    intro rest after hafter
    apply meets_add.mpr
    have hadded := hafter.grown (.binary first read.cursor.current rest) rfl
    exact hadded.leaves (.single ⟨_, Tree.shape?_insert_self _ _ _, rfl⟩)
  · exact hread

/-- Comments are passed over before an item, so all items are left open. -/
theorem items_collects (closing : String) : law.Collects (items grammar closing) session := by
  intro start pending hsession
  apply meets_bind_eatComments.mpr
  rw [meets_bind_current]
  split
  · exact hsession.uncommented
  · have hlate : Entry.Admits law session.uncommented .late :=
      session.cursor.isComment_current_skipComments
    apply (expression_reads hgrammar hoperand false hlate hsession.uncommented).bind
    intro first read hread
    apply meets_bind_eatComments.mpr
    apply (Law.keeps_separator closing hread.uncommented).bind
    intro _ separated hseparated
    apply (hgrammar.items closing hseparated).bind
    intro others after hafter
    apply hafter.of_mem_iff
    simp [Entry.leaves, or_left_comm]

end Operations

end Production

end ScriptSyntax

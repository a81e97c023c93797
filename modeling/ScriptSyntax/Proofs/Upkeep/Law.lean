import Mathlib.Logic.Relation
import ScriptSyntax.Proofs.Categories.Reader
import ScriptSyntax.Proofs.Trace.Reader

/-!
# Laws that readers keep up

Most productions pass tokens, read what stands in their slots and add a node.  A law is a property
of sessions that survives this, so those productions keep it up whatever it says.

A law may leave some nodes open: that of an expression is settled only once it is known what the
expression stands in.  What is open of an expression is the operand that its source begins with,
so it passes from an operand to the operation that begins with it.  An expression that is read
right behind a token that says something leaves nothing open.
-/

namespace ScriptSyntax

open Relation (ReflTransGen)

namespace Shape

variable {Ref : Type}

/-- The operand that the source of an expression begins with, unless it begins with a token of its
own. -/
def leading? : Shape Ref → Option Ref
  | .conditional test _ _ => some test
  | .unary .after _ operand => some operand
  | .binary left _ _ => some left
  | .application callee _ => some callee
  | .subscript target _ => some target
  | _ => none

/-- The expressions with commas between them that stand in brackets. -/
def items : Shape Ref → List Ref
  | .array elements => elements
  | .exprList expressions => expressions
  | .application _ arguments => arguments
  | _ => []

/-- Shapes that neither call anything nor keep a comment. -/
def isPlain : Shape Ref → Bool
  | .newObject _ _ | .application _ _ | .object _ _ => false
  | _ => true

end Shape

namespace Tree

/-- The source of the first node begins with the source of the second, which is the node or an
operand at its beginning. -/
def Begins (tree : Tree) : NodeId → NodeId → Prop :=
  ReflTransGen fun id first => ∃ shape, tree.shape? id = some shape ∧ shape.leading? = some first

theorem Begins.partOf {tree whole : Tree} {id first : NodeId} (hbegins : tree.Begins id first)
    (hpart : tree.PartOf whole) : whole.Begins id first := by
  refine ReflTransGen.mono ?_ _ _ hbegins
  rintro above below ⟨shape, hshape, hleading⟩
  exact ⟨shape, hpart above shape hshape, hleading⟩

end Tree

/-- A property of sessions, given the nodes that are open. -/
structure Law where
  holds : List NodeId → Session → Prop
  /-- An expression may begin at the cursor without being left open. -/
  ready : Session → Prop
  holds_of_mem_iff {pending others : List NodeId} {session : Session} :
    (∀ id, id ∈ pending ↔ id ∈ others) → holds pending session → holds others session
  holds_move {pending : List NodeId} {session : Session} {cursor : Cursor} :
    cursor.pending <:+ session.cursor.pending → holds pending session →
      holds pending ⟨cursor, session.tree⟩
  holds_grown {pending : List NodeId} {session : Session} {draft : Draft} :
    draft.shape.isPlain = true → holds (draft.shape.items ++ pending) session →
      holds pending (session.grown draft)
  holds_of_begins {pending : List NodeId} {session : Session} {id first : NodeId} :
    session.tree.Begins id first → holds (first :: pending) session →
      holds (id :: pending) session
  ready_passed {pending : List NodeId} {session : Session} :
    session.cursor.current.isWord = true → holds pending session → ready session.passed
  ready_of_isWord {session : Session} : session.cursor.current.isWord = true →
    session.cursor.current.isPunctuation "\x7b" = false → ready session

namespace Law

variable {law : Law} {Result : Type} {start : Tree} {pending others : List NodeId}
variable {session : Session} {draft : Draft} {id first : NodeId}

/-- Where an expression begins: where it may, or behind comments that were passed over. -/
inductive Entry
  | prompt
  | late

/-- The expression at the cursor is entered in that way. -/
def Entry.Admits (law : Law) (session : Session) : Entry → Prop
  | .prompt => law.ready session
  | .late => session.cursor.current.isComment = false

/-- What an expression leaves open. -/
def Entry.leaves (id : NodeId) : Entry → List NodeId
  | .prompt => []
  | .late => [id]

/-- The law holds in the session, whose tree has grown out of another. -/
structure Upheld (law : Law) (start : Tree) (pending : List NodeId) (session : Session) :
    Prop where
  holds : law.holds pending session
  partOf : start.PartOf session.tree

namespace Upheld

theorem refl (hholds : law.holds pending session) : law.Upheld session.tree pending session :=
  ⟨hholds, .refl _⟩

theorem trans {after : Session} (hfirst : law.Upheld start pending session)
    (hsecond : law.Upheld session.tree others after) : law.Upheld start others after :=
  ⟨hsecond.holds, hfirst.partOf.trans hsecond.partOf⟩

theorem of_mem_iff (hsession : law.Upheld start pending session)
    (hothers : ∀ id, id ∈ pending ↔ id ∈ others) : law.Upheld start others session :=
  ⟨law.holds_of_mem_iff hothers hsession.holds, hsession.partOf⟩

theorem move (hsession : law.Upheld start pending session) {cursor : Cursor}
    (hcursor : cursor.pending <:+ session.cursor.pending) :
    law.Upheld start pending ⟨cursor, session.tree⟩ :=
  ⟨law.holds_move hcursor hsession.holds, hsession.partOf⟩

theorem passed (hsession : law.Upheld start pending session) :
    law.Upheld start pending session.passed :=
  hsession.move (List.tail_suffix _)

theorem uncommented (hsession : law.Upheld start pending session) :
    law.Upheld start pending session.uncommented :=
  hsession.move (List.dropWhile_suffix _)

theorem partOf_grown (hsession : law.Upheld start others session)
    (hholds : law.holds pending (session.grown draft)) :
    law.Upheld start pending (session.grown draft) :=
  ⟨hholds, hsession.partOf.trans (Tree.partOf_insert _ _ _)⟩

theorem grown (draft : Draft) (hsession : law.Upheld start (draft.shape.items ++ pending) session)
    (hplain : draft.shape.isPlain = true) : law.Upheld start pending (session.grown draft) :=
  hsession.partOf_grown (law.holds_grown hplain hsession.holds)

/-- What an operand leaves open is left open by what begins with it. -/
theorem leaves {entry : Entry}
    (hsession : law.Upheld start (entry.leaves first ++ pending) session)
    (hbegins : session.tree.Begins id first) :
    law.Upheld start (entry.leaves id ++ pending) session := by
  cases entry with
  | prompt => exact hsession
  | late => exact ⟨law.holds_of_begins hbegins hsession.holds, hsession.partOf⟩

end Upheld

open Parse

/-- From the given session the reader keeps up the law. -/
def Keeps (law : Law) (reader : Parse Result) (session : Session) : Prop :=
  ∀ ⦃start pending⦄, law.Upheld start pending session → reader.Meets session
    (fun _ after => law.Upheld start pending after) Anyhow

/-- From the given session the reader keeps up the law, with the nodes that it gives left open. -/
def Collects (law : Law) (reader : Parse (List NodeId)) (session : Session) : Prop :=
  ∀ ⦃start pending⦄, law.Upheld start pending session → reader.Meets session
    (fun ids after => law.Upheld start (ids ++ pending) after) Anyhow

/-- From the given session the reader reads an expression; what that leaves open depends on where
it begins. -/
def Reads (law : Law) (reader : Parse NodeId) (session : Session) : Prop :=
  ∀ ⦃entry start pending⦄, Entry.Admits law session entry → law.Upheld start pending session →
    reader.Meets session
      (fun id after => law.Upheld start (entry.leaves id ++ pending) after) Anyhow

/-- From the given session the reader keeps up the law and makes something that begins with the
given node. -/
def Extends (law : Law) (reader : Parse NodeId) (first : NodeId) (session : Session) : Prop :=
  ∀ ⦃start pending⦄, law.Upheld start pending session → reader.Meets session
    (fun id after => law.Upheld start pending after ∧ after.tree.Begins id first) Anyhow

/-- An expression where one may begin. -/
theorem Reads.prompt {reader : Parse NodeId} (hreader : law.Reads reader session)
    (hready : law.ready session) : law.Keeps reader session :=
  fun _ _ hsession => @hreader .prompt _ _ hready hsession

section Readers

variable {test : Token → Bool}

theorem keeps_expect {reason : Reason} : law.Keeps (expect test reason) session := by
  intro start pending hsession
  rw [meets_expect]
  split
  · exact hsession.passed
  · trivial

theorem keeps_accept? : law.Keeps (accept? test) session := by
  intro start pending hsession
  rw [meets_accept?]
  split
  · exact hsession.passed
  · exact hsession

theorem keeps_separator (closing : String) :
    law.Keeps (Production.separator closing) session := by
  intro start pending hsession
  unfold Production.separator
  rw [meets_bind_current]
  split
  · exact hsession.passed
  · split
    · trivial
    · exact hsession

theorem keeps_endStatement (semicolons : Semicolons) :
    law.Keeps (endStatement semicolons) session := by
  intro start pending hsession
  unfold endStatement
  rw [meets_bind_cursor]
  split
  · have hskipped : law.Upheld start pending
        ⟨session.cursor.skipBlockComments, session.tree⟩ :=
      hsession.move (List.dropWhile_suffix _)
    exact hskipped.passed
  · cases semicolons with
    | required => exact (keeps_expect hsession).bind fun _ _ hafter => hafter
    | inserted =>
        dsimp only
        split
        · exact hsession
        · trivial

/-- Behind a token that says something an expression may begin. -/
theorem meets_bind_expect {Other : Type} {reason : Reason} {next : Token → Parse Other}
    {success : Other → Session → Prop} (hsession : law.Upheld start pending session)
    (hword : ∀ token : Token, test token = true → token.isWord = true)
    (hnext : ∀ token after, law.Upheld start pending after → law.ready after →
      (next token).Meets after success Anyhow) :
    (expect test reason >>= next).Meets session success Anyhow := by
  have hexpect : (expect test reason).Meets session
      (fun _ after => law.Upheld start pending after ∧ law.ready after) Anyhow := by
    rw [meets_expect]
    split
    · rename_i htest
      exact ⟨hsession.passed, law.ready_passed (hword _ htest) hsession.holds⟩
    · trivial
  exact hexpect.bind fun token after hafter => hnext token after hafter.1 hafter.2

theorem keeps_readUnless {reader : Parse Result} (hreader : law.Keeps reader session) :
    law.Keeps (readUnless test reader) session := by
  intro start pending hsession
  unfold readUnless
  rw [meets_bind_current]
  split
  · exact hsession
  · exact (hreader hsession).bind fun _ _ hafter => hafter

/-- What is read behind a token is read with the cursor right behind it. -/
theorem keeps_readAfter? {reader : Parse Result}
    (hreader : test session.cursor.current = true → law.Keeps reader session.passed) :
    law.Keeps (readAfter? test reader) session := by
  intro start pending hsession
  unfold readAfter?
  rw [meets_bind_current]
  split
  · rename_i htest
    apply meets_bind_advance.mpr
    exact (hreader htest hsession.passed).bind fun _ _ hafter => hafter
  · exact hsession

/-- Adding a node in the last place. -/
theorem meets_add_plain (hsession : law.Upheld start pending session)
    (hplain : draft.shape.isPlain = true) (hitems : draft.shape.items = []) :
    (add draft).Meets session (fun _ after => law.Upheld start pending after) Anyhow := by
  apply meets_add.mpr
  apply Upheld.grown draft _ hplain
  rwa [hitems, List.nil_append]

end Readers

end Law

end ScriptSyntax

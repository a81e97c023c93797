import ScriptSyntax.Parse.Session

/-!
# Outcomes of readers

A reader leaves its session changed whether it succeeds or fails, so what it
does is stated by two conditions: one on the result and the session after a
success, one on the session after a failure.  Each way to build readers has a
rule that leads such a statement back to the parts.
-/

namespace ScriptSyntax

namespace Session

/-- The session once the token under the cursor is passed. -/
def passed (session : Session) : Session :=
  { session with cursor := session.cursor.advance }

/-- The session once the comments at the cursor are passed. -/
def uncommented (session : Session) : Session :=
  { session with cursor := session.cursor.skipComments }

/-- The session once a node is added. -/
def grown (session : Session) (draft : Draft) : Session :=
  { session with tree := (session.tree.add draft).2 }

end Session

namespace Parse

variable {Result Other : Type}

theorem bind_of_ok {reader : Parse Other} {next : Other → Parse Result}
    {session after : Session} {value : Other} (hreader : reader session = .ok value after) :
    (reader >>= next) session = next value after := by
  change EStateM.bind reader next session = next value after
  rw [EStateM.bind, hreader]

theorem bind_of_error {reader : Parse Other} {next : Other → Parse Result}
    {session after : Session} {diagnostic : Diagnostic}
    (hreader : reader session = .error diagnostic after) :
    (reader >>= next) session = .error diagnostic after := by
  change EStateM.bind reader next session = .error diagnostic after
  rw [EStateM.bind, hreader]

theorem bind_eq_of_eq {reader other : Parse Other} {next : Other → Parse Result}
    {session : Session} (hreader : reader session = other session) :
    (reader >>= next) session = (other >>= next) session := by
  change EStateM.bind reader next session = EStateM.bind other next session
  rw [EStateM.bind, EStateM.bind, hreader]

/-- A node that is in the tree is looked up. -/
theorem node_of_find? {session : Session} {id : NodeId} {found : Node}
    (hfound : session.tree.find? id = some found) : node id session = .ok found session := by
  have hget : session.tree.get id = .ok found := by rw [Tree.get, hfound]
  have hsession : (get : Parse Session) session = .ok session session := rfl
  rw [node, bind_of_ok hsession, hget]
  rfl

/-- From the given session a reader succeeds with a result and a session that
satisfy the first condition, or fails in one that satisfies the second. -/
def Meets (reader : Parse Result) (session : Session)
    (success : Result → Session → Prop) (failure : Session → Prop) : Prop :=
  match reader session with
  | .ok result after => success result after
  | .error _ after => failure after

variable {session : Session} {success : Result → Session → Prop}
variable {failure : Session → Prop}

theorem Meets.of_ok {reader : Parse Result} {result : Result} {after : Session}
    (hreader : reader.Meets session success failure)
    (hok : reader session = .ok result after) : success result after := by
  rw [Meets, hok] at hreader
  exact hreader

theorem Meets.mono {reader : Parse Result} {stronger : Result → Session → Prop}
    {worse : Session → Prop} (hreader : reader.Meets session stronger worse)
    (hsuccess : ∀ result after, stronger result after → success result after)
    (hfailure : ∀ after, worse after → failure after) :
    reader.Meets session success failure := by
  unfold Meets at hreader ⊢
  split at hreader
  · exact hsuccess _ _ hreader
  · exact hfailure _ hreader

theorem Meets.bind {reader : Parse Other} {next : Other → Parse Result}
    {between : Other → Session → Prop}
    (hreader : reader.Meets session between failure)
    (hnext : ∀ value after, between value after →
      (next value).Meets after success failure) :
    (reader >>= next).Meets session success failure := by
  unfold Meets at hreader ⊢
  cases houtcome : reader session with
  | ok value after =>
      rw [houtcome] at hreader
      rw [bind_of_ok houtcome]
      exact hnext value after hreader
  | error diagnostic after =>
      rw [houtcome] at hreader
      rw [bind_of_error houtcome]
      exact hreader

theorem meets_pure {result : Result} :
    (pure result : Parse Result).Meets session success failure ↔ success result session :=
  Iff.rfl

theorem meets_refuse {reason : Reason} :
    (refuse reason : Parse Result).Meets session success failure ↔ failure session :=
  Iff.rfl

theorem meets_add {draft : Draft} {success : NodeId → Session → Prop} :
    (add draft).Meets session success failure ↔
      success (session.tree.size + 1) (session.grown draft) :=
  Iff.rfl

theorem meets_advance {success : Token → Session → Prop} :
    advance.Meets session success failure ↔
      success session.cursor.current session.passed :=
  Iff.rfl

theorem meets_bind_current {next : Token → Parse Result} :
    (current >>= next).Meets session success failure ↔
      (next session.cursor.current).Meets session success failure :=
  Iff.rfl

theorem meets_bind_next {next : Token → Parse Result} :
    (Parse.next >>= next).Meets session success failure ↔
      (next session.cursor.next).Meets session success failure :=
  Iff.rfl

theorem meets_bind_cursor {next : Cursor → Parse Result} :
    (cursor >>= next).Meets session success failure ↔
      (next session.cursor).Meets session success failure :=
  Iff.rfl

theorem meets_bind_get {next : Session → Parse Result} :
    (get >>= next).Meets session success failure ↔
      (next session).Meets session success failure :=
  Iff.rfl

theorem meets_bind_node {id : NodeId} {next : Node → Parse Result} :
    (node id >>= next).Meets session success failure ↔
      match session.tree.find? id with
      | some node => (next node).Meets session success failure
      | none => failure session := by
  unfold node
  rw [bind_assoc, meets_bind_get, Tree.get]
  cases session.tree.find? id with
  | none => exact meets_refuse
  | some node => rw [pure_bind]

theorem meets_bind_advance {next : Token → Parse Result} :
    (advance >>= next).Meets session success failure ↔
      (next session.cursor.current).Meets session.passed success failure :=
  Iff.rfl

theorem meets_bind_add {draft : Draft} {next : NodeId → Parse Result} :
    (add draft >>= next).Meets session success failure ↔
      (next (session.tree.size + 1)).Meets (session.grown draft) success failure :=
  Iff.rfl

theorem meets_bind_eatComments {next : Option Token → Parse Result} :
    (eatComments >>= next).Meets session success failure ↔
      (next session.cursor.comment?).Meets session.uncommented success failure :=
  Iff.rfl

theorem meets_expect {test : Token → Bool} {reason : Reason}
    {success : Token → Session → Prop} :
    (expect test reason).Meets session success failure ↔
      if test session.cursor.current then success session.cursor.current session.passed
      else failure session := by
  unfold expect
  rw [meets_bind_current]
  split
  · exact meets_advance
  · exact meets_refuse

theorem meets_accept? {test : Token → Bool} {success : Option Token → Session → Prop} :
    (accept? test).Meets session success failure ↔
      if test session.cursor.current then
        success (some session.cursor.current) session.passed
      else success none session := by
  unfold accept?
  rw [meets_bind_current]
  split
  · rw [meets_bind_advance, meets_pure]
  · rw [meets_pure]

theorem meets_bind_readAfter? {test : Token → Bool} {reader : Parse Other}
    {next : Option Other → Parse Result} :
    (readAfter? test reader >>= next).Meets session success failure ↔
      if test session.cursor.current then
        (reader >>= fun value => next (some value)).Meets session.passed success failure
      else (next none).Meets session success failure := by
  unfold readAfter?
  rw [bind_assoc, meets_bind_current]
  split
  · rw [bind_assoc, meets_bind_advance, bind_assoc]
    simp only [pure_bind]
  · rw [pure_bind]

theorem meets_bind_readUnless {test : Token → Bool} {reader : Parse Other}
    {next : Option Other → Parse Result} :
    (readUnless test reader >>= next).Meets session success failure ↔
      if test session.cursor.current then (next none).Meets session success failure
      else (reader >>= fun value => next (some value)).Meets session success failure := by
  unfold readUnless
  rw [bind_assoc, meets_bind_current]
  split
  · rw [pure_bind]
  · rw [bind_assoc]
    simp only [pure_bind]

end Parse

end ScriptSyntax

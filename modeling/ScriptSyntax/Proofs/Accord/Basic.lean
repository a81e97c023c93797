import ScriptSyntax.Proofs.Trace.Reader

/-!
# Readers in accord

Two readers that start in the same session are in accord if the second does what
the first does, down to the session it leaves.  A pact says what is kept up on the
way.  It tells two conditions on the tokens to come apart: a production starts
under the outer one, and passing a token leads to the inner one, under which it may
turn to the grammar.  A pact may also let the second reader off where the first one
fails.

Most of a production runs under the inner condition from end to end, so what is said
of it there needs no session.
-/

namespace ScriptSyntax

/-- The reader, and not what it reads, is to blame. -/
def Reason.isDefect : Reason → Bool
  | .outOfDepth | .missingNode _ => true
  | _ => false

/-- The failure is a defect of the reader. -/
def Diagnostic.isDefect (diagnostic : Diagnostic) : Bool :=
  match diagnostic.cause with
  | .syntactic _ reason => reason.isDefect
  | .unrecognised _ | .unterminated _ => false

/-- What two readers keep up while they run side by side. -/
structure Pact where
  /-- The tokens to come where a production starts. -/
  outer : List Token → Prop
  /-- The tokens to come where the grammar may be asked. -/
  inner : List Token → Prop
  /-- A failure of the first reader need not be matched. -/
  lenient : Prop
  inner_of_outer {token : Token} {tokens : List Token} : outer (token :: tokens) → inner tokens
  outer_of_inner {tokens : List Token} : inner tokens → outer tokens
  outer_suffix {tokens later : List Token} : later <:+ tokens → outer tokens → outer later
  inner_suffix {tokens later : List Token} : later <:+ tokens → inner tokens → inner later

namespace Parse

variable {Result Other : Type} {pact : Pact}

/-- From the given session the second reader does what the first one does, and the
tokens then to come satisfy a condition. -/
def Accords (pact : Pact) (kept : List Token → Prop) (first second : Parse Result)
    (session : Session) : Prop :=
  match first session with
  | .ok result after => second session = .ok result after ∧ kept after.cursor.pending
  | .error diagnostic after =>
      pact.lenient ∨ second session = .error diagnostic after ∧ diagnostic.isDefect = false

/-- The readers are in accord wherever the grammar may be asked, and it may be asked
after them. -/
def Steady (pact : Pact) (first second : Parse Result) : Prop :=
  ∀ session : Session, pact.inner session.cursor.pending →
    Accords pact pact.inner first second session

/-- The readers are in accord wherever a production may start, and the grammar may be
asked after them. -/
def Enters (pact : Pact) (first second : Parse Result) : Prop :=
  ∀ session : Session, pact.outer session.cursor.pending →
    Accords pact pact.inner first second session

/-- The readers are in accord wherever a production may start. -/
def Stays (pact : Pact) (first second : Parse Result) : Prop :=
  ∀ session : Session, pact.outer session.cursor.pending →
    Accords pact pact.outer first second session

variable {session : Session} {kept between : List Token → Prop}

theorem Accords.mono {first second : Parse Result} {stronger : List Token → Prop}
    (haccords : Accords pact stronger first second session)
    (hkept : ∀ tokens, stronger tokens → kept tokens) :
    Accords pact kept first second session := by
  unfold Accords at haccords ⊢
  split at haccords
  · exact ⟨haccords.1, hkept _ haccords.2⟩
  · exact haccords

/-- Only what the second reader does in the session matters. -/
theorem Accords.congr {first second third : Parse Result}
    (haccords : Accords pact kept first second session)
    (hsame : second session = third session) : Accords pact kept first third session := by
  unfold Accords at haccords ⊢
  rwa [← hsame]

theorem Accords.bind {first second : Parse Other} {next other : Other → Parse Result}
    (haccords : Accords pact between first second session)
    (hnext : ∀ value after, first session = .ok value after → between after.cursor.pending →
      Accords pact kept (next value) (other value) after) :
    Accords pact kept (first >>= next) (second >>= other) session := by
  unfold Accords at haccords ⊢
  cases houtcome : first session with
  | ok value after =>
      rw [houtcome] at haccords
      rw [bind_of_ok houtcome, bind_of_ok haccords.1]
      exact hnext value after houtcome haccords.2
  | error diagnostic after =>
      rw [houtcome] at haccords
      rw [bind_of_error houtcome]
      rcases haccords with hlenient | ⟨hsecond, hdefect⟩
      · exact .inl hlenient
      · exact .inr ⟨bind_of_error hsecond, hdefect⟩

/-- What follows runs where the grammar may be asked. -/
theorem Accords.andThen {first second : Parse Other} {next other : Other → Parse Result}
    (haccords : Accords pact pact.inner first second session)
    (hnext : ∀ value, Steady pact (next value) (other value)) :
    Accords pact pact.inner (first >>= next) (second >>= other) session :=
  haccords.bind fun value after _ hafter => hnext value after hafter

theorem Enters.andThen {first second : Parse Other} {next other : Other → Parse Result}
    (henters : Enters pact first second)
    (hnext : ∀ value, Steady pact (next value) (other value)) :
    Enters pact (first >>= next) (second >>= other) :=
  fun session hsession => (henters session hsession).andThen hnext

theorem Enters.stays {first second : Parse Result} (henters : Enters pact first second) :
    Stays pact first second :=
  fun session hsession => (henters session hsession).mono fun _ => pact.outer_of_inner

theorem Enters.steady {first second : Parse Result} (henters : Enters pact first second) :
    Steady pact first second :=
  fun session hsession => henters session (pact.outer_of_inner hsession)

theorem Steady.andThen {first second : Parse Other} {next other : Other → Parse Result}
    (hsteady : Steady pact first second)
    (hnext : ∀ value, Steady pact (next value) (other value)) :
    Steady pact (first >>= next) (second >>= other) :=
  fun session hsession => (hsteady session hsession).andThen hnext

/-- A choice that both readers make in the same way. -/
theorem Steady.ite {condition : Prop} [Decidable condition] {yes yes' no no' : Parse Result}
    (hyes : condition → Steady pact yes yes') (hno : ¬condition → Steady pact no no') :
    Steady pact (if condition then yes else no) (if condition then yes' else no') := by
  split
  · exact hyes ‹_›
  · exact hno ‹_›

section Rules

theorem accords_pure {result : Result} (hkept : kept session.cursor.pending) :
    Accords pact kept (pure result) (pure result) session :=
  ⟨rfl, hkept⟩

theorem accords_refuse {reason : Reason} (hreason : reason.isDefect = false) :
    Accords pact kept (refuse reason : Parse Result) (refuse reason) session :=
  .inr ⟨rfl, hreason⟩

theorem accords_add {draft : Draft} (hkept : kept session.cursor.pending) :
    Accords pact kept (add draft) (add draft) session :=
  ⟨rfl, hkept⟩

theorem accords_bind_current {next other : Token → Parse Result} :
    Accords pact kept (current >>= next) (current >>= other) session ↔
      Accords pact kept (next session.cursor.current) (other session.cursor.current) session :=
  Iff.rfl

theorem accords_bind_next {next other : Token → Parse Result} :
    Accords pact kept (Parse.next >>= next) (Parse.next >>= other) session ↔
      Accords pact kept (next session.cursor.next) (other session.cursor.next) session :=
  Iff.rfl

theorem accords_bind_cursor {next other : Cursor → Parse Result} :
    Accords pact kept (cursor >>= next) (cursor >>= other) session ↔
      Accords pact kept (next session.cursor) (other session.cursor) session :=
  Iff.rfl

theorem accords_bind_advance {next other : Token → Parse Result} :
    Accords pact kept (advance >>= next) (advance >>= other) session ↔
      Accords pact kept (next session.cursor.current) (other session.cursor.current)
        session.passed :=
  Iff.rfl

theorem accords_bind_eatComments {next other : Option Token → Parse Result} :
    Accords pact kept (eatComments >>= next) (eatComments >>= other) session ↔
      Accords pact kept (next session.cursor.comment?) (other session.cursor.comment?)
        session.uncommented :=
  Iff.rfl

theorem accords_bind_node {id : NodeId} {found : Node} {next other : Node → Parse Result}
    (hfound : session.tree.find? id = some found)
    (hnext : Accords pact kept (next found) (other found) session) :
    Accords pact kept (node id >>= next) (node id >>= other) session := by
  have hnode := node_of_find? hfound
  unfold Accords
  rw [bind_of_ok hnode, bind_of_ok hnode]
  exact hnext

theorem steady_pure (result : Result) : Steady pact (pure result) (pure result) :=
  fun _ hsession => accords_pure hsession

theorem steady_refuse {reason : Reason} (hreason : reason.isDefect = false) :
    Steady pact (refuse reason : Parse Result) (refuse reason) :=
  fun _ _ => accords_refuse hreason

theorem steady_add (draft : Draft) : Steady pact (add draft) (add draft) :=
  fun _ hsession => accords_add hsession

theorem steady_current : Steady pact current current :=
  fun _ hsession => ⟨rfl, hsession⟩

theorem steady_next : Steady pact next next :=
  fun _ hsession => ⟨rfl, hsession⟩

theorem steady_cursor : Steady pact cursor cursor :=
  fun _ hsession => ⟨rfl, hsession⟩

theorem steady_advance : Steady pact advance advance :=
  fun _ hsession => ⟨rfl, pact.inner_suffix (List.tail_suffix _) hsession⟩

theorem steady_eatComments : Steady pact eatComments eatComments :=
  fun _ hsession => ⟨rfl, pact.inner_suffix (List.dropWhile_suffix _) hsession⟩

/-- Passing a token leads to where the grammar may be asked. -/
theorem inner_passed (hsession : pact.outer session.cursor.pending)
    (hcurrent : session.cursor.current.isEnd = false) :
    pact.inner session.passed.cursor.pending := by
  rw [Cursor.pending_eq_cons hcurrent] at hsession
  exact pact.inner_of_outer hsession

/-- A production that starts by passing a token. -/
theorem accords_advance_andThen {next other : Token → Parse Result}
    (hsession : pact.outer session.cursor.pending)
    (hcurrent : session.cursor.current.isEnd = false)
    (hnext : Steady pact (next session.cursor.current) (other session.cursor.current)) :
    Accords pact pact.inner (advance >>= next) (advance >>= other) session :=
  accords_bind_advance.mpr (hnext _ (inner_passed hsession hcurrent))

theorem enters_expect {test : Token → Bool} {reason : Reason}
    (htest : ∀ token, test token = true → token.isWord = true)
    (hreason : reason.isDefect = false) :
    Enters pact (expect test reason) (expect test reason) := by
  intro session hsession
  unfold expect
  rw [accords_bind_current]
  split
  · rename_i hcurrent
    exact ⟨rfl, inner_passed hsession (Token.isEnd_of_isWord (htest _ hcurrent))⟩
  · exact accords_refuse hreason

theorem enters_expectPunctuation (mark : String) :
    Enters pact (expectPunctuation mark) (expectPunctuation mark) :=
  enters_expect (fun _ => Token.isWord_of_isPunctuation) rfl

theorem enters_expectKeyword (word : String) :
    Enters pact (expectKeyword word) (expectKeyword word) :=
  enters_expect (fun _ => Token.isWord_of_isKeyword) rfl

theorem enters_expectIdentifier {reason : Reason} (hreason : reason.isDefect = false) :
    Enters pact (expectIdentifier reason) (expectIdentifier reason) :=
  enters_expect (fun _ htoken => Token.isWord_of_kind (beq_iff_eq.mp htoken) rfl) hreason

theorem steady_accept? (test : Token → Bool) : Steady pact (accept? test) (accept? test) := by
  apply steady_current.andThen
  intro token
  apply Steady.ite
  · intro _
    exact steady_advance.andThen fun passed => steady_pure _
  · intro _
    exact steady_pure _

theorem Steady.readUnless {test : Token → Bool} {first second : Parse Result}
    (hsteady : Steady pact first second) :
    Steady pact (readUnless test first) (readUnless test second) := by
  apply steady_current.andThen
  intro token
  apply Steady.ite
  · intro _
    exact steady_pure _
  · intro _
    exact hsteady.andThen fun result => steady_pure _

theorem Steady.readAfter? {test : Token → Bool} {first second : Parse Result}
    (hsteady : Steady pact first second) :
    Steady pact (readAfter? test first) (readAfter? test second) := by
  apply steady_current.andThen
  intro token
  apply Steady.ite
  · intro _
    apply steady_advance.andThen
    intro passed
    exact hsteady.andThen fun result => steady_pure _
  · intro _
    exact steady_pure _

theorem steady_separator (closing : String) :
    Steady pact (Production.separator closing) (Production.separator closing) := by
  apply steady_current.andThen
  intro token
  apply Steady.ite
  · intro _
    exact steady_advance.andThen fun comma => steady_pure _
  · intro _
    apply Steady.ite
    · intro _
      exact steady_refuse rfl
    · intro _
      exact steady_pure _

/-- A statement ends in the same way for readers that treat semicolons alike. -/
theorem steady_endStatement (semicolons : Semicolons) :
    Steady pact (endStatement semicolons) (endStatement semicolons) := by
  intro session hsession
  unfold endStatement
  rw [accords_bind_cursor]
  split
  · exact ⟨rfl, pact.inner_suffix ((List.tail_suffix _).trans (List.dropWhile_suffix _)) hsession⟩
  · cases semicolons with
    | required =>
        exact (enters_expectPunctuation ";").steady.andThen (fun _ => steady_pure _) session
          hsession
    | inserted =>
        dsimp only
        split
        · exact accords_pure hsession
        · exact accords_refuse rfl

end Rules

end Parse

end ScriptSyntax

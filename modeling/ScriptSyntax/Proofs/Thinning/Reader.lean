import ScriptSyntax.Proofs.Faults.Statement
import ScriptSyntax.Proofs.Thinning.Terms
import ScriptSyntax.Proofs.Thinning.Tokens

/-!
# Two runs over thinned tokens

A list of tokens and the thinned one are both read to the end.  Where the first run stands on
a comment that the second one lacks, a reader may give up what it has begun while in the
second run it goes on.  The first run is then doomed: it is bound to fail, because what comes
behind the comment only continues what has been given up.
-/

namespace ScriptSyntax

open Parse

/-- The trees that two runs end with. -/
structure Thinning where
  first : Tree
  second : Tree
  first_ordered : first.Ordered
  second_ordered : second.Ordered

/-- The cursor stands on a block comment, and what comes next on the line satisfies the
test. -/
structure Cursor.Stalled (test : Token → Bool) (cursor : Cursor) : Prop where
  comment : cursor.current.kind = .blockComment
  ahead : ∃ token, firstOnLine? cursor.pending = some token ∧ test token = true

def Session.Stalled (test : Token → Bool) (session : Session) : Prop :=
  session.cursor.Stalled test

namespace Thinning

variable (thinning : Thinning)

/-- The comments that are not left out: those that a statement has as its body. -/
def kept : List Token :=
  thinning.first.bodyComments

/-- The sessions have the same tokens to come, save for comments that the second one lacks. -/
def Beside (first second : Session) : Prop :=
  first.cursor.Thinned thinning.kept second.cursor

/-- The sessions stand on the same token. -/
def Level (first second : Session) : Prop :=
  first.cursor.Level thinning.kept second.cursor

/-- The nodes say the same, and stand in the same place. -/
structure Same (id other : NodeId) : Prop where
  term : thinning.first.term id = thinning.second.term other
  span : thinning.first.span id = thinning.second.span other

/-- The node is a comment that the second run lacks. -/
def Stray (id : NodeId) : Prop :=
  ∃ comment, thinning.first.comment? id = some comment ∧ comment ∉ thinning.kept

/-- The drafts are of nodes that say the same, in the same place. -/
structure Drafted (draft other : Draft) : Prop where
  shape : (draft.shape.map thinning.first.term).uncommented =
    (other.shape.map thinning.second.term).uncommented
  isRoot : draft.shape.isRoot = false
  isRoot_other : other.shape.isRoot = false
  first : draft.first.span thinning.first = other.first.span thinning.second
  last : draft.last.span thinning.first = other.last.span thinning.second
  edges : ∀ id ∈ draft.first.nodes ++ draft.last.nodes, id ∈ draft.shape.children
  edges_other : ∀ id ∈ other.first.nodes ++ other.last.nodes, id ∈ other.shape.children

end Thinning

namespace Parse

variable {Result Other : Type}

/-- A reader that leaves the nodes in the tree as they are. -/
def Retains (reader : Parse Result) : Prop :=
  ∀ session value after, reader session = .ok value after →
    session.tree.StandsIn after.tree

theorem Points.retains {reader : Parse Result} {semicolons : Semicolons}
    (hreader : reader.Points semicolons) : reader.Retains := by
  intro session value after hrun
  have hpoints := hreader session
  unfold PointsFrom at hpoints
  rw [hrun] at hpoints
  exact hpoints.kept

theorem exists_of_bind {reader : Parse Other} {next : Other → Parse Result}
    {session after : Session} {value : Result}
    (hrun : (reader >>= next) session = .ok value after) :
    ∃ between middle,
      reader session = .ok between middle ∧ next between middle = .ok value after := by
  cases hreader : reader session with
  | ok between middle =>
      rw [bind_of_ok hreader] at hrun
      exact ⟨between, middle, rfl, hrun⟩
  | error diagnostic middle =>
      rw [bind_of_error hreader] at hrun
      cases hrun

theorem Retains.bind {reader : Parse Other} {next : Other → Parse Result} (hreader : reader.Retains)
    (hnext : ∀ value, (next value).Retains) : (reader >>= next).Retains := by
  intro session value after hrun
  obtain ⟨between, middle, hfirst, hsecond⟩ := exists_of_bind hrun
  exact (hreader _ _ _ hfirst).trans (hnext _ _ _ _ hsecond)

end Parse

namespace Thinning

variable {thinning : Thinning} {Result Other : Type}

theorem Level.beside {first second : Session} (hlevel : thinning.Level first second) :
    thinning.Beside first second :=
  Cursor.Level.thinned hlevel

/-! ## The first run alone -/

/-- From such sessions the reader does not succeed. -/
def Fails (before : Session → Prop) (reader : Parse Result) : Prop :=
  ∀ session value after, before session → reader session ≠ .ok value after

/-- If the reader succeeds from such sessions, it leads to others. -/
def Leads (before : Session → Prop) (reader : Parse Result)
    (behind : Result → Session → Prop) : Prop :=
  ∀ session value after, before session → reader session = .ok value after → behind value after

/-- If the first run passes the reader from such sessions, it is doomed behind it. -/
def Dooms (thinning : Thinning) (before : Session → Prop) (reader : Parse Result)
    (doomed : Result → Session → Prop) : Prop :=
  ∀ session value after, before session → reader session = .ok value after →
    after.tree.StandsIn thinning.first → doomed value after

/-- A reader behind which no run is doomed. -/
def never (_ : Result) (_ : Session) : Prop :=
  False

variable {before : Session → Prop} {doomed : Result → Session → Prop}

theorem Fails.dooms {reader : Parse Result} (hreader : Fails before reader) :
    thinning.Dooms before reader doomed :=
  fun session value after hbefore hrun _ => absurd hrun (hreader session value after hbefore)

theorem Fails.bind {reader : Parse Other} {next : Other → Parse Result}
    (hreader : Fails before reader) : Fails before (reader >>= next) := by
  intro session value after hbefore hrun
  obtain ⟨between, middle, hfirst, -⟩ := exists_of_bind hrun
  exact hreader session between middle hbefore hfirst

theorem Leads.dooms {reader : Parse Result} (hreader : Leads before reader doomed) :
    thinning.Dooms before reader doomed :=
  fun session value after hbefore hrun _ => hreader session value after hbefore hrun

theorem Dooms.bind {reader : Parse Other} {next : Other → Parse Result}
    {middle : Other → Session → Prop} (hreader : Leads before reader middle)
    (hnext : ∀ value, thinning.Dooms (middle value) (next value) doomed) :
    thinning.Dooms before (reader >>= next) doomed := by
  intro session value after hbefore hrun hstands
  obtain ⟨between, middle, hfirst, hsecond⟩ := exists_of_bind hrun
  exact hnext between middle value after (hreader _ _ _ hbefore hfirst) hsecond hstands

theorem Dooms.or {other : Session → Prop} {reader : Parse Result}
    (hbefore : thinning.Dooms before reader doomed) (hother : thinning.Dooms other reader doomed) :
    thinning.Dooms (fun session => before session ∨ other session) reader doomed := by
  rintro session value after (hsession | hsession)
  · exact hbefore session value after hsession
  · exact hother session value after hsession

/-- Behind an added node a stalled run is still stalled. -/
theorem leads_add {draft : Draft} {test : Token → Bool} :
    Leads (Session.Stalled test) (add draft) (fun _ => Session.Stalled test) := by
  rintro session _ _ hstalled ⟨⟩
  exact hstalled

theorem dooms_never {reader : Parse Result} (value : Other) :
    thinning.Dooms (never value) reader doomed :=
  fun _ _ _ hnever => hnever.elim

theorem dooms_pure {value : Result} (hdoomed : ∀ session, before session → doomed value session) :
    thinning.Dooms before (pure value) doomed := by
  rintro session _ _ hbefore ⟨⟩ _
  exact hdoomed session hbefore

/-- A reader that looks at a token and goes on if the token fails a test. -/
theorem look_of_false {test : Token → Bool} {yes : Token → Parse Result} {no : Parse Result}
    {session : Session} (htest : test session.cursor.current = false) :
    (current >>= fun token => if test token then yes token else no) session = no session := by
  change (if test session.cursor.current then yes session.cursor.current else no) session = _
  rw [htest, if_neg Bool.false_ne_true]

theorem look_of_true {test : Token → Bool} {yes : Token → Parse Result} {no : Parse Result}
    {session : Session} (htest : test session.cursor.current = true) :
    (current >>= fun token => if test token then yes token else no) session =
      yes session.cursor.current session := by
  change (if test session.cursor.current then yes session.cursor.current else no) session = _
  rw [htest, if_pos rfl]

theorem Dooms.look {test : Token → Bool} {yes : Token → Parse Result} {no : Parse Result}
    (hbefore : ∀ session, before session → test session.cursor.current = false)
    (hno : thinning.Dooms before no doomed) :
    thinning.Dooms before (current >>= fun token => if test token then yes token else no)
      doomed := by
  intro session value after hsession hrun hstands
  rw [look_of_false (hbefore session hsession)] at hrun
  exact hno session value after hsession hrun hstands

theorem fails_expect {test : Token → Bool} {reason : Reason}
    (hbefore : ∀ session, before session → test session.cursor.current = false) :
    Fails before (expect test reason) := by
  intro session value after hsession hrun
  have hrefused : expect test reason session = refuse reason session :=
    look_of_false (hbefore session hsession)
  rw [hrefused] at hrun
  cases hrun

/-! ## Both runs -/

/-- If both runs pass the readers, from sessions in such a relation and with such things
known, then the first run is doomed, or the results and the sessions are related again. -/
structure Agree (thinning : Thinning) (known : Prop) (before : Session → Session → Prop)
    (reader other : Parse Result) (doomed : Result → Session → Prop)
    (same : Result → Result → Prop) (beside : Session → Session → Prop) : Prop where
  retains : reader.Retains
  retains_other : other.Retains
  run {first second after final : Session} {value result : Result} : known → before first second →
    reader first = .ok value after → other second = .ok result final →
    after.tree.StandsIn thinning.first → final.tree.StandsIn thinning.second →
    doomed value after ∨ same value result ∧ beside after final

variable {known : Prop} {start middle beside : Session → Session → Prop}
variable {same : Result → Result → Prop} {alike : Other → Other → Prop}

/-- Where the first run is doomed it stays so, and otherwise the runs go on together. -/
theorem Agree.bind {reader other : Parse Other} {next another : Other → Parse Result}
    {lost : Other → Session → Prop}
    (hreader : thinning.Agree True start reader other lost alike middle)
    (hdoomed : ∀ value, thinning.Dooms (lost value) (next value) doomed)
    (hnext : ∀ value result, thinning.Agree (known ∧ alike value result) middle (next value)
      (another result) doomed same beside) :
    thinning.Agree known start (reader >>= next) (other >>= another) doomed same beside where
  retains := hreader.retains.bind fun value => (hnext value value).retains
  retains_other := hreader.retains_other.bind fun value => (hnext value value).retains_other
  run hknown hstart hrun hother hafter hfinal := by
    obtain ⟨value, later, hfirst, hsecond⟩ := exists_of_bind hrun
    obtain ⟨result, last, hthird, hfourth⟩ := exists_of_bind hother
    have hlater := ((hnext value result).retains _ _ _ hsecond).trans hafter
    have hlast := ((hnext value result).retains_other _ _ _ hfourth).trans hfinal
    rcases hreader.run trivial hstart hfirst hthird hlater hlast with hlost | ⟨halike, hmiddle⟩
    · exact .inl (hdoomed value _ _ _ hlost hsecond hafter)
    · exact (hnext value result).run ⟨hknown, halike⟩ hmiddle hsecond hfourth hafter hfinal

/-- Behind a reader that never dooms the first run. -/
theorem Agree.follow {reader other : Parse Other} {next another : Other → Parse Result}
    (hreader : thinning.Agree True start reader other never alike middle)
    (hnext : ∀ value result, thinning.Agree (known ∧ alike value result) middle (next value)
      (another result) doomed same beside) :
    thinning.Agree known start (reader >>= next) (other >>= another) doomed same beside :=
  hreader.bind (fun value => dooms_never value) hnext

/-- Behind a reader whose results are equal. -/
theorem Agree.bindEq {reader other : Parse Other} {next another : Other → Parse Result}
    {lost : Other → Session → Prop}
    (hreader : thinning.Agree True start reader other lost Eq middle)
    (hdoomed : ∀ value, thinning.Dooms (lost value) (next value) doomed)
    (hnext : ∀ value, thinning.Agree known middle (next value) (another value) doomed same
      beside) :
    thinning.Agree known start (reader >>= next) (other >>= another) doomed same beside where
  retains := hreader.retains.bind fun value => (hnext value).retains
  retains_other := hreader.retains_other.bind fun value => (hnext value).retains_other
  run hknown hstart hrun hother hafter hfinal := by
    obtain ⟨value, later, hfirst, hsecond⟩ := exists_of_bind hrun
    obtain ⟨result, last, hthird, hfourth⟩ := exists_of_bind hother
    have hlater := ((hnext value).retains _ _ _ hsecond).trans hafter
    have hlast := ((hnext result).retains_other _ _ _ hfourth).trans hfinal
    rcases hreader.run trivial hstart hfirst hthird hlater hlast with hlost | ⟨rfl, hmiddle⟩
    · exact .inl (hdoomed value _ _ _ hlost hsecond hafter)
    · exact (hnext value).run hknown hmiddle hsecond hfourth hafter hfinal

theorem Agree.andThen {reader other : Parse Other} {next another : Other → Parse Result}
    (hreader : thinning.Agree True start reader other never Eq middle)
    (hnext : ∀ value, thinning.Agree known middle (next value) (another value) doomed same
      beside) :
    thinning.Agree known start (reader >>= next) (other >>= another) doomed same beside :=
  hreader.bindEq (fun value => dooms_never value) hnext

theorem Agree.imp {reader other : Parse Result} {wider : Result → Session → Prop}
    {similar : Result → Result → Prop} {close : Session → Session → Prop} {given : Prop}
    {narrow : Session → Session → Prop}
    (hreader : thinning.Agree given start reader other doomed same beside)
    (hknown : known → given) (hstart : ∀ first second, narrow first second → start first second)
    (hdoomed : ∀ value after, doomed value after → wider value after)
    (hsame : ∀ value result, known → same value result → similar value result)
    (hbeside : ∀ after final, beside after final → close after final) :
    thinning.Agree known narrow reader other wider similar close where
  retains := hreader.retains
  retains_other := hreader.retains_other
  run hyes hnarrow hrun hother hafter hfinal := by
    rcases hreader.run (hknown hyes) (hstart _ _ hnarrow) hrun hother hafter hfinal with
      hlost | ⟨halike, hclose⟩
    · exact .inl (hdoomed _ _ hlost)
    · exact .inr ⟨hsame _ _ hyes halike, hbeside _ _ hclose⟩

/-- The sessions may be level to begin with. -/
theorem Agree.ofBeside {reader other : Parse Result}
    (hreader : thinning.Agree known thinning.Beside reader other doomed same beside) :
    thinning.Agree known thinning.Level reader other doomed same beside :=
  hreader.imp id (fun _ _ => Level.beside) (fun _ _ => id) (fun _ _ _ => id) fun _ _ => id

/-- Less has to be known. -/
theorem Agree.knowing {reader other : Parse Result} {given : Prop}
    (hreader : thinning.Agree given start reader other doomed same beside)
    (hknown : known → given) : thinning.Agree known start reader other doomed same beside :=
  hreader.imp hknown (fun _ _ => id) (fun _ _ => id) (fun _ _ _ => id) fun _ _ => id

/-- What is known says more about the results. -/
theorem Agree.deduce {reader other : Parse Result} {similar : Result → Result → Prop}
    (hreader : thinning.Agree True start reader other doomed same beside)
    (hsame : known → ∀ value result, same value result → similar value result) :
    thinning.Agree known start reader other doomed similar beside :=
  hreader.imp (fun _ => trivial) (fun _ _ => id) (fun _ _ => id)
    (fun value result hknown => hsame hknown value result) fun _ _ => id

/-- Both runs take the same branch. -/
theorem Agree.ite {condition : Prop} [Decidable condition] {yes yes' no no' : Parse Result}
    (hyes : condition → thinning.Agree known start yes yes' doomed same beside)
    (hno : ¬condition → thinning.Agree known start no no' doomed same beside) :
    thinning.Agree known start (if condition then yes else no) (if condition then yes' else no')
      doomed same beside := by
  by_cases hcondition : condition
  · rw [if_pos hcondition, if_pos hcondition]
    exact hyes hcondition
  · rw [if_neg hcondition, if_neg hcondition]
    exact hno hcondition

/-- A reader on which the first run fails. -/
theorem agree_of_fails {reader other : Parse Result} (hretains : reader.Retains)
    (hother : other.Retains)
    (hfails : ∀ first second, start first second → ∀ value after, reader first ≠ .ok value after) :
    thinning.Agree known start reader other doomed same beside where
  retains := hretains
  retains_other := hother
  run _ hstart hrun _ _ _ := absurd hrun (hfails _ _ hstart _ _)

theorem retains_refuse (reason : Reason) : (refuse reason : Parse Result).Retains :=
  fun _ _ _ hrun => nomatch hrun

theorem agree_refuse (reason again : Reason) :
    thinning.Agree known start (refuse reason : Parse Result) (refuse again) doomed same beside :=
  agree_of_fails (retains_refuse reason) (retains_refuse again) fun _ _ _ _ _ hrun => nomatch hrun

theorem agree_throw (diagnostic again : Diagnostic) :
    thinning.Agree known start (throw diagnostic : Parse Result) (throw again) doomed same
      beside :=
  agree_of_fails (fun _ _ _ hrun => nomatch hrun) (fun _ _ _ hrun => nomatch hrun)
    fun _ _ _ _ _ hrun => nomatch hrun

theorem agree_pure {value result : Result} (hsame : known → same value result) :
    thinning.Agree known start (pure value) (pure result) doomed same start where
  retains := (points_pure value : (pure value : Parse Result).Points .required).retains
  retains_other := (points_pure result : (pure result : Parse Result).Points .required).retains
  run hknown hstart hrun hother _ _ := by
    cases hrun
    cases hother
    exact .inr ⟨hsame hknown, hstart⟩

/-! ## Single steps -/

theorem agree_advance :
    thinning.Agree known thinning.Level advance advance never Eq thinning.Beside where
  retains := (points_advance : advance.Points .required).retains
  retains_other := (points_advance : advance.Points .required).retains
  run _ hlevel hrun hother _ _ := by
    cases hrun
    cases hother
    exact .inr ⟨hlevel.current, hlevel.advance⟩

theorem agree_eatComments :
    thinning.Agree known thinning.Beside eatComments eatComments never (fun _ _ => True)
      thinning.Level where
  retains := (points_eatComments : eatComments.Points .required).retains
  retains_other := (points_eatComments : eatComments.Points .required).retains
  run _ hbeside hrun hother _ _ := by
    cases hrun
    cases hother
    exact .inr ⟨trivial, hbeside.skipComments⟩

/-- What a reader that expects a token does if it succeeds. -/
theorem expect_eq_ok {test : Token → Bool} {reason : Reason} {session after : Session}
    {value : Token} (hrun : expect test reason session = .ok value after) :
    test session.cursor.current = true ∧ value = session.cursor.current ∧
      after = session.passed := by
  cases htest : test session.cursor.current with
  | true =>
      have haccepts : expect test reason session = advance session :=
        look_of_true htest
      rw [haccepts] at hrun
      cases hrun
      exact ⟨rfl, rfl, rfl⟩
  | false =>
      have hrefused : expect test reason session = refuse reason session :=
        look_of_false htest
      rw [hrefused] at hrun
      cases hrun

/-- What a reader does that is left out before some tokens. -/
theorem readUnless_eq_ok {test : Token → Bool} {reader : Parse Result} {session after : Session}
    {value : Option Result} (hrun : readUnless test reader session = .ok value after) :
    value = none ∧ after = session ∨
      ∃ result, value = some result ∧ reader session = .ok result after := by
  cases htest : test session.cursor.current with
  | true =>
      have hleft : readUnless test reader session = .ok none session := look_of_true htest
      rw [hleft] at hrun
      cases hrun
      exact .inl ⟨rfl, rfl⟩
  | false =>
      have hread : readUnless test reader session =
          (reader >>= fun result => pure (some result)) session := look_of_false htest
      rw [hread] at hrun
      obtain ⟨result, _, hresult, hpure⟩ := exists_of_bind hrun
      cases hpure
      exact .inr ⟨result, rfl, hresult⟩

theorem add_eq_ok {draft : Draft} {session after : Session} {id : NodeId}
    (hrun : add draft session = .ok id after) :
    id = session.tree.size + 1 ∧ after = session.grown draft := by
  cases hrun
  exact ⟨rfl, rfl⟩

theorem retains_expect (test : Token → Bool) (reason : Reason) :
    (expect test reason).Retains := by
  intro session value after hrun
  obtain ⟨-, -, rfl⟩ := expect_eq_ok hrun
  exact .refl session.tree

/-- A word that the first run stands on is the one that the second run stands on. -/
theorem Beside.level {first second : Session} (hbeside : thinning.Beside first second)
    (hword : first.cursor.current.isWord = true) : thinning.Level first second := by
  rcases Cursor.Thinned.level_or_atSpare hbeside with hlevel | hspare
  · exact hlevel
  · rw [Token.isWord, hspare.kind] at hword
    cases hword

/-- Where the first run passes a word both runs do. -/
theorem agree_expect {test : Token → Bool} {reason : Reason}
    (htest : ∀ token, test token = true → token.isWord = true) :
    thinning.Agree known thinning.Beside (expect test reason) (expect test reason) never Eq
      thinning.Beside where
  retains := retains_expect test reason
  retains_other := retains_expect test reason
  run _ hbeside hrun hother _ _ := by
    obtain ⟨hpassed, rfl, rfl⟩ := expect_eq_ok hrun
    obtain ⟨-, rfl, rfl⟩ := expect_eq_ok hother
    have hlevel := hbeside.level (htest _ hpassed)
    exact .inr ⟨hlevel.current, hlevel.advance⟩

theorem agree_expectPunctuation (mark : String) :
    thinning.Agree known thinning.Beside (expectPunctuation mark) (expectPunctuation mark) never
      Eq thinning.Beside :=
  agree_expect fun _ => Token.isWord_of_isPunctuation

/-- What a new node says, and where it stands. -/
theorem term_of_add {tree whole : Tree} {draft : Draft} (hordered : whole.Ordered)
    (hstands : (tree.add draft).2.StandsIn whole) (hroot : draft.shape.isRoot = false)
    (hedges : ∀ id ∈ draft.first.nodes ++ draft.last.nodes, id ∈ draft.shape.children) :
    whole.span (tree.size + 1) =
        .between (draft.first.span whole) (draft.last.span whole) ∧
      whole.term (tree.size + 1) =
        .node (some (whole.span (tree.size + 1))) (draft.shape.map whole.term).uncommented := by
  have hshape := hstands.shape?_eq (Tree.shape?_insert_self tree draft.shape (draft.span tree))
  have hkept : tree.StandsIn whole := (Tree.standsIn_insert _ _ _).trans hstands
  have hedge : ∀ edge : Edge, (∀ id ∈ edge.nodes, id ∈ draft.shape.children) →
      edge.span tree = edge.span whole := by
    intro edge hnodes
    cases edge with
    | piece span => rfl
    | node id =>
        have hlt : id < tree.size + 1 :=
          hordered _ _ hshape id (hnodes id (List.mem_singleton.mpr rfl))
        exact (hkept.span_eq (Nat.le_of_lt_succ hlt)).symm
  have hfirst := hedge draft.first fun id hid => hedges id (List.mem_append_left _ hid)
  have hlast := hedge draft.last fun id hid => hedges id (List.mem_append_right _ hid)
  constructor
  · have hsize : tree.size + 1 ≤ (tree.add draft).2.size := Nat.le_of_eq (Tree.size_insert ..).symm
    rw [hstands.span_eq hsize, ← hfirst, ← hlast]
    exact Tree.span_insert_self tree draft.shape (draft.span tree)
  · rw [Tree.term_eq hordered hshape, hroot, if_neg Bool.false_ne_true]

/-- A node is added to both trees.  It says the same if the drafts are of such nodes. -/
theorem agree_addIf {draft other : Draft} {condition : Prop} {doomed : NodeId → Session → Prop}
    (hdrafted : known → condition → thinning.Drafted draft other) :
    thinning.Agree known thinning.Beside (add draft) (add other) doomed
      (fun id result => condition → thinning.Same id result) thinning.Beside where
  retains := (points_add draft : (add draft).Points .required).retains
  retains_other := (points_add other : (add other).Points .required).retains
  run {first second _ _ _ _} hknown hbeside hrun hother hafter hfinal := by
    cases hrun
    cases hother
    refine .inr ⟨fun hcondition => ?_, hbeside⟩
    have hdraft := hdrafted hknown hcondition
    obtain ⟨hspan, hterm⟩ := term_of_add thinning.first_ordered hafter hdraft.isRoot hdraft.edges
    obtain ⟨hspan', hterm'⟩ :=
      term_of_add thinning.second_ordered hfinal hdraft.isRoot_other hdraft.edges_other
    have hplace : thinning.first.span (first.tree.size + 1) =
        thinning.second.span (second.tree.size + 1) := by
      rw [hspan, hspan', hdraft.first, hdraft.last]
    refine ⟨?_, hplace⟩
    rw [hterm, hterm', hplace, hdraft.shape]

theorem agree_add {draft other : Draft} {doomed : NodeId → Session → Prop}
    (hdrafted : known → thinning.Drafted draft other) :
    thinning.Agree known thinning.Beside (add draft) (add other) doomed thinning.Same
      thinning.Beside :=
  (agree_addIf fun hknown _ => hdrafted hknown).imp id (fun _ _ => id) (fun _ _ => id)
    (fun _ _ _ hsame => hsame trivial) fun _ _ => id

/-- Where both runs find a node that can be assigned to, they go on together. -/
theorem Agree.node {left right : NodeId} {reason : Reason} {reader other : Parse Result}
    (hreader : thinning.Agree known start reader other doomed same beside) :
    thinning.Agree known start
      (Parse.node left >>= fun found =>
        if found.shape.isAssignable then reader else refuse reason)
      (Parse.node right >>= fun found =>
        if found.shape.isAssignable then other else refuse reason) doomed same beside := by
  have hread : ∀ (id : NodeId) (reader : Parse Result) {session value after},
      (Parse.node id >>= fun found =>
        if found.shape.isAssignable then reader else refuse reason) session = .ok value after →
      reader session = .ok value after := by
    intro id reader session value after hrun
    cases hfound : session.tree.find? id with
    | none =>
        have hmeets : (Parse.node id >>= fun found =>
            if found.shape.isAssignable then reader else refuse reason).Meets session
            (fun _ _ => False) (fun _ => True) := by
          rw [meets_bind_node, hfound]
          trivial
        exact (hmeets.of_ok hrun).elim
    | some found =>
        rw [bind_of_ok (node_of_find? hfound)] at hrun
        split at hrun
        · exact hrun
        · cases hrun
  constructor
  · exact fun session value after hrun => hreader.retains session value after (hread _ _ hrun)
  · exact fun session value after hrun => hreader.retains_other session value after (hread _ _ hrun)
  · exact fun hknown hstart hrun hother =>
      hreader.run hknown hstart (hread _ _ hrun) (hread _ _ hother)

/-! ## Looking at a token -/

/-- A test that words alone pass. -/
theorem test_of_not_isWord {test : Token → Bool}
    (htest : ∀ token, test token = true → token.isWord = true) {token : Token}
    (htoken : token.isWord = false) : test token = false := by
  cases hpassed : test token with
  | false => rfl
  | true => rw [← htoken, htest token hpassed]

theorem test_of_blockComment {test : Token → Bool}
    (htest : ∀ token, test token = true → token.isWord = true) {token : Token}
    (hkind : token.kind = .blockComment) : test token = false := by
  apply test_of_not_isWord htest
  rw [Token.isWord, hkind]
  rfl

/-- Both runs look at the same token. -/
theorem Agree.current {next another : Token → Parse Result}
    (hnext : ∀ token, thinning.Agree known thinning.Level (next token) (another token) doomed same
      beside) :
    thinning.Agree known thinning.Level (Parse.current >>= next) (Parse.current >>= another) doomed
      same beside where
  retains session value after hrun :=
    (hnext session.cursor.current).retains session value after hrun
  retains_other session value after hrun :=
    (hnext session.cursor.current).retains_other session value after hrun
  run {first second after final value result} hknown hlevel hrun hother hafter hfinal := by
    have hrun' : next first.cursor.current first = .ok value after := hrun
    have hother' : another second.cursor.current second = .ok result final := hother
    rw [← hlevel.current] at hother'
    exact (hnext _).run hknown hlevel hrun' hother' hafter hfinal

/-- A reader that passes words only finds the sessions level. -/
theorem Agree.ofWord {reader other : Parse Result}
    (hreader : thinning.Agree known thinning.Level reader other doomed same beside)
    (hword : Fails (fun session => session.cursor.current.isWord = false) reader) :
    thinning.Agree known thinning.Beside reader other doomed same beside where
  retains := hreader.retains
  retains_other := hreader.retains_other
  run {first _ after _ value _} hknown hbeside hrun hother hafter hfinal := by
    cases hfirst : first.cursor.current.isWord with
    | true => exact hreader.run hknown (hbeside.level hfirst) hrun hother hafter hfinal
    | false => exact absurd hrun (hword first value after hfirst)

/-- Both runs look for a word.  Where only the second one finds it, the first run goes on
without. -/
theorem Agree.look {test : Token → Bool} {yes yes' : Token → Parse Result} {no no' : Parse Result}
    (htest : ∀ token, test token = true → token.isWord = true)
    (hyes : ∀ token, test token = true →
      thinning.Agree known thinning.Level (yes token) (yes' token) doomed same beside)
    (hno : thinning.Agree known thinning.Beside no no' doomed same beside)
    (hdoomed : thinning.Dooms (Session.Stalled test) no doomed) :
    thinning.Agree known thinning.Beside
      (Parse.current >>= fun token => if test token then yes token else no)
      (Parse.current >>= fun token => if test token then yes' token else no') doomed same
      beside where
  retains session value after hrun := by
    cases hpassed : test session.cursor.current with
    | true =>
        rw [look_of_true hpassed] at hrun
        exact (hyes _ hpassed).retains session value after hrun
    | false =>
        rw [look_of_false hpassed] at hrun
        exact hno.retains session value after hrun
  retains_other session value after hrun := by
    cases hpassed : test session.cursor.current with
    | true =>
        rw [look_of_true hpassed] at hrun
        exact (hyes _ hpassed).retains_other session value after hrun
    | false =>
        rw [look_of_false hpassed] at hrun
        exact hno.retains_other session value after hrun
  run {first second after final value result} hknown hbeside hrun hother hafter hfinal := by
    rcases Cursor.Thinned.level_or_atSpare hbeside with hlevel | hspare
    · cases hpassed : test first.cursor.current with
      | true =>
          rw [look_of_true hpassed] at hrun
          rw [look_of_true (hlevel.current ▸ hpassed), ← hlevel.current] at hother
          exact (hyes _ hpassed).run hknown hlevel hrun hother hafter hfinal
      | false =>
          rw [look_of_false hpassed] at hrun
          rw [look_of_false (hlevel.current ▸ hpassed)] at hother
          exact hno.run hknown hbeside hrun hother hafter hfinal
    · rw [look_of_false (test_of_blockComment htest hspare.kind)] at hrun
      cases hpassed : test second.cursor.current with
      | true =>
          have hstalled : first.Stalled test :=
            ⟨hspare.kind, _, hspare.ahead (htest _ hpassed), hpassed⟩
          exact .inl (hdoomed first value after hstalled hrun hafter)
      | false =>
          rw [look_of_false hpassed] at hother
          exact hno.run hknown hbeside hrun hother hafter hfinal

/-- A reader that gives back what it was given unless a word continues it. -/
theorem Agree.settle {test : Token → Bool} {reader other : Parse Result} {value result : Result}
    (htest : ∀ token, test token = true → token.isWord = true)
    (hstop : ∀ session, test session.cursor.current = false → reader session = .ok value session)
    (hstop_other : ∀ session, test session.cursor.current = false →
      other session = .ok result session)
    (hsame : known → same value result)
    (hdoomed : ∀ session, session.Stalled test → doomed value session)
    (hlevel : thinning.Agree known thinning.Level reader other doomed same thinning.Beside) :
    thinning.Agree known thinning.Beside reader other doomed same thinning.Beside where
  retains := hlevel.retains
  retains_other := hlevel.retains_other
  run {first second _ _ _ _} hknown hbeside hrun hother hafter hfinal := by
    rcases Cursor.Thinned.level_or_atSpare hbeside with hcurrent | hspare
    · exact hlevel.run hknown hcurrent hrun hother hafter hfinal
    · rw [hstop first (test_of_blockComment htest hspare.kind)] at hrun
      cases hrun
      cases hpassed : test second.cursor.current with
      | true =>
          exact .inl (hdoomed first ⟨hspare.kind, _, hspare.ahead (htest _ hpassed), hpassed⟩)
      | false =>
          rw [hstop_other second hpassed] at hother
          cases hother
          exact .inr ⟨hsame hknown, hbeside⟩

/-! ## Optional constructs -/

/-- How the first run may be doomed behind an optional construct: where nothing was read, and
where something was. -/
def lostOr (nothing : Session → Prop) (doomed : Result → Session → Prop) :
    Option Result → Session → Prop
  | none => nothing
  | some value => doomed value

theorem Agree.some {reader other : Parse Other} {lost : Other → Session → Prop}
    {nothing : Session → Prop}
    (hreader : thinning.Agree True start reader other lost alike beside) :
    thinning.Agree True start (reader >>= fun value => pure (some value))
      (other >>= fun value => pure (some value)) (lostOr nothing lost) (Option.Rel alike) beside :=
  hreader.bind (fun _ => dooms_pure fun _ => id)
    fun _ _ => agree_pure fun hknown => .some hknown.2

/-- A construct behind a word. -/
theorem Agree.readAfter? {test : Token → Bool} {reader other : Parse Other}
    {lost : Other → Session → Prop} (htest : ∀ token, test token = true → token.isWord = true)
    (hreader : thinning.Agree True thinning.Beside reader other lost alike thinning.Beside) :
    thinning.Agree True thinning.Beside (readAfter? test reader) (readAfter? test other)
      (lostOr (Session.Stalled test) lost) (Option.Rel alike) thinning.Beside := by
  apply Agree.look htest
  · intro token _
    exact agree_advance.andThen fun _ => hreader.some
  · exact agree_pure fun _ => .none
  · exact dooms_pure fun _ => id

/-- A construct in place of which a mark may stand. -/
theorem Agree.readUnless {test : Token → Bool} {reader other : Parse Other}
    {lost : Other → Session → Prop} (htest : ∀ token, test token = true → token.isWord = true)
    (hreader : thinning.Agree True thinning.Beside reader other lost alike thinning.Beside)
    (hfails : Fails (Session.Stalled test) reader) :
    thinning.Agree True thinning.Beside (readUnless test reader) (readUnless test other)
      (lostOr (fun _ => False) lost) (Option.Rel alike) thinning.Beside := by
  apply Agree.look htest
  · intro token _
    exact (agree_pure fun _ => .none).ofBeside
  · exact hreader.some
  · exact hfails.bind.dooms

theorem agree_accept? {test : Token → Bool}
    (htest : ∀ token, test token = true → token.isWord = true) :
    thinning.Agree True thinning.Beside (accept? test) (accept? test)
      (lostOr (Session.Stalled test) never) Eq thinning.Beside := by
  apply Agree.look htest
  · intro token _
    exact agree_advance.andThen fun _ => agree_pure fun _ => rfl
  · exact agree_pure fun _ => rfl
  · exact dooms_pure fun _ => id

/-! ## Ends of items and statements -/

theorem agree_separator (closing : String) :
    thinning.Agree True thinning.Beside (Production.separator closing)
      (Production.separator closing) never Eq thinning.Beside := by
  apply Agree.ofWord
  · apply Agree.current
    intro token
    apply Agree.ite
    · intro _
      exact agree_advance.andThen fun _ => agree_pure fun _ => rfl
    · intro _
      apply Agree.ite
      · intro _
        exact agree_refuse _ _
      · intro _
        exact (agree_pure fun _ => rfl).ofBeside
  · intro session value after hcurrent hrun
    have hmark : ∀ mark, session.cursor.current.isPunctuation mark = false :=
      fun mark => test_of_not_isWord (fun _ => Token.isWord_of_isPunctuation) hcurrent
    have hfails : (Production.separator closing).Meets session (fun _ _ => False)
        (fun _ => True) := by
      unfold Production.separator
      rw [meets_bind_current, hmark, if_neg Bool.false_ne_true, hmark, Bool.not_false, if_pos rfl]
      exact meets_refuse.mpr trivial
    exact hfails.of_ok hrun

/-- What the end of a statement is, by what comes first on the line. -/
theorem endStatement_eq (semicolons : Semicolons) (session : Session) :
    endStatement semicolons session =
      if session.cursor.atSemicolon then
        .ok (some session.cursor.skipBlockComments.current)
          ⟨session.cursor.skipBlockComments.advance, session.tree⟩
      else
        match semicolons with
        | .required => (expectPunctuation ";" >>= fun mark => pure (some mark)) session
        | .inserted =>
            if session.cursor.atLineEnd then .ok none session
            else refuse (.expected ";") session := by
  change (if session.cursor.atSemicolon then _ else _ : Parse (Option Token)) session = _
  split
  · rfl
  · cases semicolons with
    | required => rfl
    | inserted =>
        change (if session.cursor.atLineEnd then _ else _ : Parse (Option Token)) session = _
        split <;> rfl

/-- Both runs find the same semicolon, or both find the end of a line. -/
theorem agree_endStatement (semicolons : Semicolons) :
    thinning.Agree True thinning.Beside (endStatement semicolons) (endStatement semicolons) never
      Eq thinning.Beside where
  retains := (points_endStatement semicolons : (endStatement semicolons).Points .required).retains
  retains_other :=
    (points_endStatement semicolons : (endStatement semicolons).Points .required).retains
  run {first second _ _ _ _} _ hbeside hrun hother hafter hfinal := by
    rw [endStatement_eq] at hrun hother
    rw [← Cursor.Thinned.atSemicolon_eq hbeside] at hother
    split at hrun
    · rename_i hsemicolon
      rw [if_pos hsemicolon] at hother
      cases hrun
      cases hother
      have hlevel := Cursor.Thinned.skipBlockComments hbeside hsemicolon
      exact .inr ⟨congrArg some hlevel.current, hlevel.advance⟩
    · rename_i hsemicolon
      rw [if_neg hsemicolon] at hother
      cases semicolons with
      | required =>
          have hmark : thinning.Agree True thinning.Beside
              (expectPunctuation ";" >>= fun mark => pure (some mark))
              (expectPunctuation ";" >>= fun mark => pure (some mark)) never Eq thinning.Beside :=
            (agree_expectPunctuation ";").andThen fun mark => agree_pure fun _ => rfl
          exact hmark.run trivial hbeside hrun hother hafter hfinal
      | inserted =>
          rw [← Cursor.Thinned.atLineEnd_eq hbeside] at hother
          dsimp only at hrun hother
          split at hrun
          · rename_i hend
            rw [if_pos hend] at hother
            cases hrun
            cases hother
            exact .inr ⟨rfl, hbeside⟩
          · cases hrun

end Thinning

end ScriptSyntax

import ScriptSyntax.Parse.Program
import ScriptSyntax.Proofs.RoundTrip.Canonical

/-!
# Retellings

While a production reads tokens, its run on the canonical form of what it reads
is followed step by step.  The canonical words are known only as far as the
production has come, so a state of the second run is kept for whatever tokens may
follow: with the words so far in front of a cursor, the production as a whole does
what its rest does at that cursor.  What may follow is limited by a condition on
the cursor, because some steps look ahead.

The rules below take one step of both runs.  A step of the first run that passes a
token is matched by one that passes its canonical counterpart; readers of other
constructs are matched by what is known of them.
-/

namespace ScriptSyntax

open Parse

variable {Result Other : Type}

/-- Nothing is asked of a failure. -/
def Parse.Unasked (_ : Session) : Prop :=
  True

/-- A reader that is to run once more, from the start of its first run.  The parts
given are those of a node that it continues. -/
structure Task (Result : Type) where
  semicolons : Semicolons
  start : Session
  reader : Grammar → Parse Result
  given : List (Part NodeId) := []

namespace Task

/-- The first run has come to a session and made some parts; the second run, on the
canonical words of these parts, has come to the rest of its reader. -/
structure Reaches (task : Task Result) (parts : List (Part NodeId)) (words : List Token)
    (follow : Cursor → Prop) (session : Session) (rest : Grammar → Parse Result) : Prop where
  evolves : task.start.Evolves session
  spells : ∀ whole : Tree, whole.Ordered → session.tree.PartOf whole →
    whole.spells parts = whole.spells task.given ++ words
  run : ∀ (depth : Nat) (tail : Cursor), words.length + tail.pending.length ≤ depth →
    follow tail →
    task.reader (.upTo task.semicolons depth) (task.start.canonical (tail.before words)) =
      rest (.upTo task.semicolons depth) (session.canonical tail)

variable {task : Task Result} {parts taken : List (Part NodeId)} {words : List Token}
variable {follow : Cursor → Prop} {session : Session} {rest : Grammar → Parse Result}

theorem start_reaches (task : Task Result) :
    task.Reaches task.given [] (fun _ => True) task.start task.reader where
  evolves := .refl _
  spells _ _ _ := by rw [List.append_nil]
  run _ _ _ _ := rfl

namespace Reaches

theorem quiet (hreaches : task.Reaches parts words follow session rest)
    (hquiet : task.start.Quiet) : session.Quiet :=
  hreaches.evolves.quiet hquiet

/-- A stronger condition on what follows, under which the rest can be rewritten. -/
theorem turn {other : Grammar → Parse Result} {stronger : Cursor → Prop}
    (hreaches : task.Reaches parts words follow session rest)
    (hturn : ∀ tail, stronger tail → follow tail ∧
      ∀ grammar,
        rest grammar (session.canonical tail) = other grammar (session.canonical tail)) :
    task.Reaches parts words stronger session other where
  evolves := hreaches.evolves
  spells := hreaches.spells
  run depth tail hdepth hstronger := by
    obtain ⟨hfollow, hrest⟩ := hturn tail hstronger
    rw [hreaches.run depth tail hdepth hfollow, hrest]

theorem strengthen {stronger : Cursor → Prop}
    (hreaches : task.Reaches parts words follow session rest)
    (hstronger : ∀ tail, stronger tail → follow tail) :
    task.Reaches parts words stronger session rest :=
  hreaches.turn fun tail htail => ⟨hstronger tail htail, fun _ => rfl⟩

/-- The first run may move on without a trace. -/
theorem reseat {after : Session} (hreaches : task.Reaches parts words follow session rest)
    (hevolves : session.Evolves after) (htree : after.tree = session.tree) :
    task.Reaches parts words follow after rest where
  evolves := hreaches.evolves.trans hevolves
  spells whole hordered hpart := hreaches.spells whole hordered (htree ▸ hpart)
  run depth tail hdepth hfollow := by
    rw [hreaches.run depth tail hdepth hfollow, Session.canonical, Session.canonical, htree]

/-- A token is passed in the second run only. -/
theorem write {next : Grammar → Token → Parse Result} {behind : Cursor → Prop}
    (hreaches : task.Reaches parts words follow session fun grammar => advance >>= next grammar)
    (token : Token) (hfollow : ∀ tail, behind tail → follow (tail.before [token.bare])) :
    task.Reaches (parts ++ [.own token]) (words ++ [token.bare]) behind session
      fun grammar => next grammar token.bare where
  evolves := hreaches.evolves
  spells whole hordered hpart := by
    rw [Tree.spells_append, hreaches.spells whole hordered hpart, List.append_assoc]
    rfl
  run depth tail hdepth hbehind := by
    rw [List.length_append] at hdepth
    have hlength : words.length + (tail.before [token.bare]).pending.length ≤ depth := by
      rw [Cursor.length_before, ← Nat.add_assoc]
      exact hdepth
    rw [Cursor.before_append, hreaches.run depth _ hlength (hfollow tail hbehind)]
    rfl

/-- A token is passed in both runs, and more is known of what follows it. -/
theorem pass {next : Grammar → Token → Parse Result}
    (hreaches : task.Reaches parts words follow session fun grammar =>
      Parse.advance >>= next grammar)
    (token : Token) (behind : Cursor → Prop)
    (hfollow : ∀ tail, behind tail → follow (tail.before [token.bare])) :
    task.Reaches (parts ++ [.own token]) (words ++ [token.bare]) behind session.passed
      fun grammar => next grammar token.bare :=
  (hreaches.write token hfollow).reseat (Session.evolves_passed session) rfl

/-- A token is passed in both runs. -/
theorem advance {next : Grammar → Token → Parse Result}
    (hreaches : task.Reaches parts words follow session fun grammar =>
      Parse.advance >>= next grammar)
    (token : Token) (hfollow : ∀ tail : Cursor, follow (tail.before [token.bare])) :
    task.Reaches (parts ++ [.own token]) (words ++ [token.bare]) (fun _ => True) session.passed
      fun grammar => next grammar token.bare :=
  hreaches.pass token _ fun tail _ => hfollow tail

/-- A test of the token under the cursor that comes out well. -/
theorem ifTrue {test : Token → Bool} {yes no : Grammar → Token → Parse Result}
    (hreaches : task.Reaches parts words follow session fun grammar =>
      current >>= fun token =>
        if test token = true then yes grammar token else no grammar token) :
    task.Reaches parts words (fun tail => follow tail ∧ test tail.current = true) session
      fun grammar => current >>= yes grammar := by
  apply hreaches.turn
  rintro tail ⟨hfollow, htest⟩
  refine ⟨hfollow, fun grammar => ?_⟩
  exact congrFun (if_pos htest) _

theorem ifFalse {test : Token → Bool} {yes no : Grammar → Token → Parse Result}
    (hreaches : task.Reaches parts words follow session fun grammar =>
      current >>= fun token =>
        if test token = true then yes grammar token else no grammar token) :
    task.Reaches parts words (fun tail => follow tail ∧ test tail.current = false) session
      fun grammar => current >>= no grammar := by
  apply hreaches.turn
  rintro tail ⟨hfollow, htest⟩
  have hne : ¬test tail.current = true := by
    rw [htest]
    exact Bool.false_ne_true
  refine ⟨hfollow, fun grammar => ?_⟩
  exact congrFun (if_neg hne) _

/-- A test of the token under the cursor and the one after it. -/
theorem aheadTrue {test : Token → Token → Bool} {yes no : Grammar → Parse Result}
    (hreaches : task.Reaches parts words follow session fun grammar =>
      current >>= fun token => Parse.next >>= fun other =>
        if test token other = true then yes grammar else no grammar) :
    task.Reaches parts words (fun tail => follow tail ∧ test tail.current tail.next = true)
      session yes := by
  apply hreaches.turn
  rintro tail ⟨hfollow, htest⟩
  exact ⟨hfollow, fun grammar => congrFun (if_pos htest) _⟩

theorem aheadFalse {test : Token → Token → Bool} {yes no : Grammar → Parse Result}
    (hreaches : task.Reaches parts words follow session fun grammar =>
      current >>= fun token => Parse.next >>= fun other =>
        if test token other = true then yes grammar else no grammar) :
    task.Reaches parts words (fun tail => follow tail ∧ test tail.current tail.next = false)
      session no := by
  apply hreaches.turn
  rintro tail ⟨hfollow, htest⟩
  have hne : ¬test tail.current tail.next = true := by
    rw [htest]
    exact Bool.false_ne_true
  exact ⟨hfollow, fun grammar => congrFun (if_neg hne) _⟩

/-- A test of the cursor that comes out well. -/
theorem cursorTrue {test : Grammar → Cursor → Bool} {yes no : Grammar → Cursor → Parse Result}
    (hreaches : task.Reaches parts words follow session fun grammar =>
      cursor >>= fun place =>
        if test grammar place = true then yes grammar place else no grammar place) :
    task.Reaches parts words
      (fun tail => follow tail ∧ ∀ grammar, test grammar tail = true) session
      fun grammar => cursor >>= yes grammar := by
  apply hreaches.turn
  rintro tail ⟨hfollow, htest⟩
  exact ⟨hfollow, fun grammar => congrFun (if_pos (htest grammar)) _⟩

theorem cursorFalse {test : Grammar → Cursor → Bool} {yes no : Grammar → Cursor → Parse Result}
    (hreaches : task.Reaches parts words follow session fun grammar =>
      cursor >>= fun place =>
        if test grammar place = true then yes grammar place else no grammar place) :
    task.Reaches parts words
      (fun tail => follow tail ∧ ∀ grammar, test grammar tail = false) session
      fun grammar => cursor >>= no grammar := by
  apply hreaches.turn
  rintro tail ⟨hfollow, htest⟩
  refine ⟨hfollow, fun grammar => ?_⟩
  have hne : ¬test grammar tail = true := by
    rw [htest grammar]
    exact Bool.false_ne_true
  exact congrFun (if_neg hne) _

/-- The place of the cursor does not matter. -/
theorem overlookCursor
    (hreaches : task.Reaches parts words follow session fun grammar =>
      cursor >>= fun _ => rest grammar) :
    task.Reaches parts words follow session rest :=
  hreaches.turn fun _ hfollow => ⟨hfollow, fun _ => rfl⟩

/-- A test of what is known comes out badly. -/
theorem notTaken {condition : Prop} [Decidable condition] {yes no : Grammar → Parse Result}
    (hreaches : task.Reaches parts words follow session fun grammar =>
      if condition then yes grammar else no grammar)
    (hcondition : ¬condition) : task.Reaches parts words follow session no :=
  hreaches.turn fun _ hfollow => ⟨hfollow, fun _ => congrFun (if_neg hcondition) _⟩

/-- A test of a node that comes out well. -/
theorem ifNode {id : NodeId} {node : Node} {test : Node → Bool} {yes no : Grammar → Parse Result}
    (hreaches : task.Reaches parts words follow session fun grammar =>
      Parse.node id >>= fun found => if test found = true then yes grammar else no grammar)
    (hnode : session.tree.bare.find? id = some node) (htest : test node = true) :
    task.Reaches parts words follow session yes := by
  apply hreaches.turn
  intro tail hfollow
  refine ⟨hfollow, fun grammar => ?_⟩
  have hfound : Parse.node id (session.canonical tail) = .ok node (session.canonical tail) :=
    node_of_find? hnode
  exact (bind_of_ok hfound).trans (congrFun (if_pos htest) _)

/-- The token under the cursor is known. -/
theorem look {next : Grammar → Token → Parse Result}
    (hreaches : task.Reaches parts words follow session fun grammar => current >>= next grammar)
    (token : Token) :
    task.Reaches parts words (fun tail => follow tail ∧ tail.current = token) session
      fun grammar => next grammar token := by
  apply hreaches.turn
  rintro tail ⟨hfollow, rfl⟩
  exact ⟨hfollow, fun grammar => rfl⟩

/-- The token under the cursor does not matter. -/
theorem overlook (hreaches : task.Reaches parts words follow session fun grammar =>
      current >>= fun _ => rest grammar) :
    task.Reaches parts words follow session rest :=
  hreaches.turn fun _ hfollow => ⟨hfollow, fun _ => rfl⟩

theorem expect {test : Token → Bool} {reason : Reason} {next : Grammar → Token → Parse Result}
    (hreaches : task.Reaches parts words follow session fun grammar =>
      Parse.expect test reason >>= next grammar)
    (token : Token) (htest : test token.bare = true)
    (hfollow : ∀ tail : Cursor, follow (tail.before [token.bare])) :
    task.Reaches (parts ++ [.own token]) (words ++ [token.bare]) (fun _ => True) session.passed
      fun grammar => next grammar token.bare := by
  have hpass : task.Reaches parts words
      (fun tail => follow tail ∧ test tail.current = true) session
      fun grammar => Parse.advance >>= next grammar := by
    apply hreaches.turn
    rintro tail ⟨hbefore, hcurrent⟩
    refine ⟨hbefore, fun grammar => ?_⟩
    exact bind_eq_of_eq (congrFun (if_pos hcurrent) _)
  exact hpass.advance token fun tail => ⟨hfollow tail, htest⟩

/-- An optional token is passed in both runs, or in neither. -/
theorem accept {test : Token → Bool} {copyTest : Grammar → Token → Bool}
    {next : Option Token → Parse Result} {copyNext : Grammar → Option Token → Parse Result}
    {success : Result → Session → Prop}
    (hreaches : task.Reaches parts words (fun _ => True) session fun grammar =>
      Parse.accept? (copyTest grammar) >>= copyNext grammar)
    (htest : ∀ grammar token, test token = true → copyTest grammar token.bare = true)
    (hnext : ∀ found after,
      task.Reaches (parts ++ found.toList.map .own) (words ++ found.toList.map Token.bare)
        (fun tail => found = none → ∀ grammar, copyTest grammar tail.current = false) after
        (fun grammar => copyNext grammar (found.map Token.bare)) →
      (∀ token ∈ found, test token = true) → (next found).Meets after success Unasked) :
    (Parse.accept? test >>= next).Meets session success Unasked := by
  have haccept : (Parse.accept? test).Meets session
      (fun found after => (next found).Meets after success Unasked) Unasked := by
    rw [meets_accept?]
    split
    · rename_i hcurrent
      apply hnext (some session.cursor.current) session.passed
      · have hpass : task.Reaches parts words
            (fun tail => ∀ grammar, copyTest grammar tail.current = true) session
            fun grammar => Parse.advance >>= fun token => copyNext grammar (some token) := by
          apply hreaches.turn
          intro tail htail
          refine ⟨trivial, fun grammar => ?_⟩
          have haccept : Parse.accept? (copyTest grammar) (session.canonical tail) =
              .ok (some tail.current) (session.canonical tail).passed :=
            congrFun (if_pos (htail grammar)) _
          exact bind_of_ok haccept
        have hpassed := hpass.advance session.cursor.current fun _ grammar =>
          htest grammar _ hcurrent
        exact hpassed.strengthen fun _ _ => trivial
      · rintro token ⟨⟩
        exact hcurrent
    · apply hnext none session
      · rw [Option.toList_none, List.map_nil, List.map_nil, List.append_nil, List.append_nil]
        apply hreaches.turn
        intro tail htail
        refine ⟨trivial, fun grammar => ?_⟩
        have haccept : Parse.accept? (copyTest grammar) (session.canonical tail) =
            .ok none (session.canonical tail) := by
          have hne : ¬copyTest grammar tail.current = true := by
            rw [htail rfl grammar]
            exact Bool.false_ne_true
          exact congrFun (if_neg hne) _
        exact bind_of_ok haccept
      · intro token htoken
        cases htoken
  exact haccept.bind fun found after hafter => hafter

/-- A construct is read behind a token that announces it. -/
theorem readAfter {test : Token → Bool} {reader : Grammar → Parse Other}
    {next : Grammar → Option Other → Parse Result}
    (hreaches : task.Reaches parts words follow session fun grammar =>
      Parse.readAfter? test (reader grammar) >>= next grammar)
    (token : Token) (htest : test token.bare = true)
    (hfollow : ∀ tail : Cursor, follow (tail.before [token.bare])) :
    task.Reaches (parts ++ [.own token]) (words ++ [token.bare]) (fun _ => True) session.passed
      fun grammar => reader grammar >>= fun value => next grammar (some value) := by
  have hpass : task.Reaches parts words
      (fun tail => follow tail ∧ test tail.current = true) session
      fun grammar => Parse.advance >>= fun _ =>
        reader grammar >>= fun value => next grammar (some value) := by
    apply hreaches.turn
    rintro tail ⟨hbefore, hcurrent⟩
    refine ⟨hbefore, fun grammar => ?_⟩
    have hread : Parse.readAfter? test (reader grammar) (session.canonical tail) =
        (Parse.advance >>= fun _ => reader grammar >>= fun value => pure (some value))
          (session.canonical tail) :=
      congrFun (if_pos hcurrent) _
    rw [bind_eq_of_eq hread, bind_assoc]
    simp only [bind_assoc, pure_bind]
  exact hpass.advance token fun tail => ⟨hfollow tail, htest⟩

/-- A construct is read because nothing speaks against it. -/
theorem readUnless {test : Token → Bool} {reader : Grammar → Parse Other}
    {next : Grammar → Option Other → Parse Result}
    (hreaches : task.Reaches parts words follow session fun grammar =>
      Parse.readUnless test (reader grammar) >>= next grammar) :
    task.Reaches parts words (fun tail => follow tail ∧ test tail.current = false) session
      fun grammar => reader grammar >>= fun value => next grammar (some value) := by
  apply hreaches.turn
  rintro tail ⟨hfollow, hcurrent⟩
  refine ⟨hfollow, fun grammar => ?_⟩
  have hne : ¬test tail.current = true := by
    rw [hcurrent]
    exact Bool.false_ne_true
  have hread : Parse.readUnless test (reader grammar) (session.canonical tail) =
      (reader grammar >>= fun value => pure (some value)) (session.canonical tail) :=
    congrFun (if_neg hne) _
  rw [bind_eq_of_eq hread, bind_assoc]
  simp only [pure_bind]

/-- A construct is left out. -/
theorem leaveOut {test : Token → Bool} {reader : Grammar → Parse Other}
    {next : Grammar → Option Other → Parse Result}
    (hreaches : task.Reaches parts words follow session fun grammar =>
      Parse.readUnless test (reader grammar) >>= next grammar) :
    task.Reaches parts words (fun tail => follow tail ∧ test tail.current = true) session
      fun grammar => next grammar none := by
  apply hreaches.turn
  rintro tail ⟨hfollow, hcurrent⟩
  refine ⟨hfollow, fun grammar => ?_⟩
  have hnone : Parse.readUnless test (reader grammar) (session.canonical tail) =
      .ok none (session.canonical tail) :=
    congrFun (if_pos hcurrent) _
  exact bind_of_ok hnone

/-- No construct is announced. -/
theorem readNone {test : Token → Bool} {reader : Grammar → Parse Other}
    {next : Grammar → Option Other → Parse Result}
    (hreaches : task.Reaches parts words follow session fun grammar =>
      Parse.readAfter? test (reader grammar) >>= next grammar) :
    task.Reaches parts words (fun tail => follow tail ∧ test tail.current = false) session
      fun grammar => next grammar none := by
  apply hreaches.turn
  rintro tail ⟨hfollow, hcurrent⟩
  refine ⟨hfollow, fun grammar => ?_⟩
  have hnone : Parse.readAfter? test (reader grammar) (session.canonical tail) =
      .ok none (session.canonical tail) := by
    have hne : ¬test tail.current = true := by
      rw [hcurrent]
      exact Bool.false_ne_true
    exact congrFun (if_neg hne) _
  exact bind_of_ok hnone

/-- There are no comments to pass in the second run. -/
theorem eatComments {next : Grammar → Option Token → Parse Result}
    (hreaches : task.Reaches parts words follow session fun grammar =>
      Parse.eatComments >>= next grammar) :
    task.Reaches parts words (fun tail => follow tail ∧ tail.current.isComment = false) session
      fun grammar => next grammar none := by
  apply hreaches.turn
  rintro tail ⟨hfollow, hcurrent⟩
  refine ⟨hfollow, fun grammar => ?_⟩
  have heat : Parse.eatComments (session.canonical tail) =
      .ok tail.comment? (session.canonical tail.skipComments) := rfl
  rw [Cursor.comment?_eq hcurrent, Cursor.skipComments_eq hcurrent] at heat
  exact bind_of_ok heat

/-- A semicolon ends the statement in the second run, whatever ends it in the
first. -/
theorem endStatement {next : Grammar → Option Token → Parse Result}
    (hreaches : task.Reaches parts words follow session fun grammar =>
      Parse.endStatement grammar.semicolons >>= next grammar)
    (hfollow : ∀ tail : Cursor, follow (tail.before [.plain .punctuation ";"])) :
    task.Reaches (parts ++ [Part.mark ";"]) (words ++ [.plain .punctuation ";"])
      (fun _ => True) session
      fun grammar => next grammar (some (.plain .punctuation ";")) := by
  have hpass : task.Reaches parts words
      (fun tail => follow tail ∧
        ∃ others : Cursor, tail = others.before [.plain .punctuation ";"]) session
      fun grammar => Parse.advance >>= fun token => next grammar (some token) := by
    apply hreaches.turn
    rintro tail ⟨hbefore, others, rfl⟩
    exact ⟨hbefore, fun grammar => rfl⟩
  exact hpass.write (.plain .punctuation ";") fun tail _ => ⟨hfollow tail, tail, rfl⟩

/-- A reader of another construct, matched by what is known of its second run. -/
theorem embed {reader : Grammar → Parse Other} {next : Grammar → Other → Parse Result}
    {inner : Task Other} {all made : List (Part NodeId)} {more : List Token}
    {behind : Cursor → Prop} {after : Session} {value : Other}
    (hreaches : task.Reaches all words follow session fun grammar =>
      reader grammar >>= next grammar)
    (hinner : inner.Reaches made more behind after fun _ => pure value)
    (hstart : inner.start = session) (hall : all = parts ++ inner.given)
    (hreader : ∀ (depth : Nat) (tail : Cursor),
      words.length + (more.length + tail.pending.length) ≤ depth → behind tail →
      reader (.upTo task.semicolons depth) (session.canonical (tail.before more)) =
        .ok value (after.canonical tail))
    (hfollow : ∀ tail, behind tail → follow (tail.before more)) :
    task.Reaches (parts ++ made) (words ++ more) behind after
      fun grammar => next grammar value where
  evolves := hreaches.evolves.trans (hstart ▸ hinner.evolves)
  spells whole hordered hpart := by
    have hsession : session.tree.PartOf whole := (hstart ▸ hinner.evolves.kept).trans hpart
    have houter := hreaches.spells whole hordered hsession
    rw [hall, Tree.spells_append] at houter
    rw [Tree.spells_append, hinner.spells whole hordered hpart, ← List.append_assoc, houter,
      List.append_assoc]
  run depth tail hdepth hbehind := by
    rw [List.length_append, Nat.add_assoc] at hdepth
    have hlength : words.length + (tail.before more).pending.length ≤ depth := by
      rwa [Cursor.length_before]
    rw [Cursor.before_append, hreaches.run depth _ hlength (hfollow tail hbehind)]
    exact bind_of_ok (hreader depth tail hdepth hbehind)

/-- A production that is read in place. -/
theorem inline {production : Grammar → Parse Other} {next : Grammar → Other → Parse Result}
    {made : List (Part NodeId)} {more : List Token} {behind : Cursor → Prop}
    {after : Session} {value : Other}
    (hreaches : task.Reaches parts words follow session fun grammar =>
      production grammar >>= next grammar)
    (hinner : Reaches ⟨task.semicolons, session, production, []⟩ made more behind after
      fun _ => pure value)
    (hfollow : ∀ tail, behind tail → follow (tail.before more)) :
    task.Reaches (parts ++ made) (words ++ more) behind after
      fun grammar => next grammar value := by
  apply hreaches.embed hinner rfl (List.append_nil parts).symm _ hfollow
  intro depth tail hdepth hbehind
  exact hinner.run depth tail (Nat.le_trans (Nat.le_add_left ..) hdepth) hbehind

/-- A construct that is read by the grammar; a token has been passed before. -/
theorem resume {field production : Grammar → Parse Other}
    {next : Grammar → Other → Parse Result} {all given made : List (Part NodeId)}
    {more : List Token} {behind : Cursor → Prop} {after : Session} {value : Other}
    (hreaches : task.Reaches all words follow session fun grammar =>
      field grammar >>= next grammar)
    (hinner : Reaches ⟨task.semicolons, session, production, given⟩ made more behind after
      fun _ => pure value)
    (hall : all = parts ++ given)
    (hfield : ∀ depth, field (.upTo task.semicolons (depth + 1)) =
      production (.upTo task.semicolons depth))
    (hwords : words ≠ []) (hfollow : ∀ tail, behind tail → follow (tail.before more)) :
    task.Reaches (parts ++ made) (words ++ more) behind after
      fun grammar => next grammar value := by
  apply hreaches.embed hinner rfl hall _ hfollow
  intro depth tail hdepth hbehind
  have hpos := List.length_pos_iff.mpr hwords
  cases depth with
  | zero => omega
  | succ depth =>
      rw [hfield]
      exact hinner.run depth tail (by omega) hbehind

theorem call {field production : Grammar → Parse Other}
    {next : Grammar → Other → Parse Result} {made : List (Part NodeId)} {more : List Token}
    {behind : Cursor → Prop} {after : Session} {value : Other}
    (hreaches : task.Reaches parts words follow session fun grammar =>
      field grammar >>= next grammar)
    (hinner : Reaches ⟨task.semicolons, session, production, []⟩ made more behind after
      fun _ => pure value)
    (hfield : ∀ depth, field (.upTo task.semicolons (depth + 1)) =
      production (.upTo task.semicolons depth))
    (hwords : words ≠ []) (hfollow : ∀ tail, behind tail → follow (tail.before more)) :
    task.Reaches (parts ++ made) (words ++ more) behind after
      fun grammar => next grammar value :=
  hreaches.resume hinner (List.append_nil parts).symm hfield hwords hfollow

/-- A value that is at hand. -/
theorem known {value : Other} {next : Grammar → Other → Parse Result}
    (hreaches : task.Reaches parts words follow session fun grammar =>
      pure value >>= next grammar) :
    task.Reaches parts words follow session fun grammar => next grammar value :=
  hreaches.turn fun _ hfollow => ⟨hfollow, fun grammar => by rw [pure_bind]⟩

/-- A value that is wrapped up on the way. -/
theorem unwrap {Wrapped : Type} {next : Grammar → Wrapped → Parse Result}
    (reader : Grammar → Parse Other) (wrap : Other → Wrapped)
    (hreaches : task.Reaches parts words follow session fun grammar =>
      (reader grammar >>= fun value => pure (wrap value)) >>= next grammar) :
    task.Reaches parts words follow session fun grammar =>
      reader grammar >>= fun value => next grammar (wrap value) :=
  hreaches.turn fun _ hfollow => ⟨hfollow, fun grammar => by
    rw [bind_assoc]
    simp only [pure_bind]⟩

/-- The rest of a reader in the last place. -/
theorem last (hreaches : task.Reaches parts words follow session rest) :
    task.Reaches parts words follow session fun grammar => rest grammar >>= pure :=
  hreaches.turn fun _ hfollow => ⟨hfollow, fun grammar => by rw [bind_pure]⟩

/-- A node is added in both runs, for the last parts. -/
theorem add {draft : Draft} {next : Grammar → NodeId → Parse Result}
    (hreaches : task.Reaches (parts ++ taken) words follow session fun grammar =>
      Parse.add draft >>= next grammar)
    (original : Draft) (hretraces : draft.Retraces original)
    (hlayout : taken.map Part.bare = original.shape.layout.map Part.bare) :
    task.Reaches (parts ++ [.below (session.tree.size + 1)]) words follow
      (session.grown original) fun grammar => next grammar (session.tree.size + 1) where
  evolves := hreaches.evolves.trans (Session.evolves_grown session original)
  spells whole hordered hpart := by
    have hself : whole.shape? (session.tree.size + 1) = some original.shape :=
      hpart _ _ (Tree.shape?_insert_self ..)
    have htaken : whole.spells taken = whole.spells [.below (session.tree.size + 1)] := by
      rw [Tree.spells_below hordered hself, ← Tree.spells_map_bare, hlayout,
        Tree.spells_map_bare]
    have hsession := (Session.evolves_grown session original).kept.trans hpart
    rw [Tree.spells_append, ← htaken, ← Tree.spells_append]
    exact hreaches.spells whole hordered hsession
  run depth tail hdepth hfollow := by
    rw [hreaches.run depth tail hdepth hfollow]
    have hadd : Parse.add draft (session.canonical tail) =
        .ok (session.tree.size + 1) ((session.grown original).canonical tail) := by
      change EStateM.Result.ok (session.tree.bare.add draft).1
        (Session.mk tail (session.tree.bare.add draft).2) = _
      rw [hretraces.add_eq]
      rfl
    exact bind_of_ok hadd

/-- A node that takes up all parts. -/
theorem addAll {draft : Draft} {next : Grammar → NodeId → Parse Result}
    (hreaches : task.Reaches parts words follow session fun grammar =>
      Parse.add draft >>= next grammar)
    (original : Draft) (hretraces : draft.Retraces original)
    (hlayout : parts.map Part.bare = original.shape.layout.map Part.bare) :
    task.Reaches [.below (session.tree.size + 1)] words follow (session.grown original)
      fun grammar => next grammar (session.tree.size + 1) := by
  have hparts : task.Reaches ([] ++ parts) words follow session fun grammar =>
      Parse.add draft >>= next grammar := hreaches
  exact hparts.add original hretraces hlayout

end Reaches

end Task

/-- What is known of a construct once it is read: its parts, the result of reading
its canonical words, what may follow these, and how they stand to the tokens that
were read. -/
structure Account (Result : Type) where
  parts : Result → List (Part NodeId)
  again : Result → Result
  follow : Session → Cursor → Prop
  edge : Session → Result → List Token → Session → Prop

/-- The task is done: the first run has come to a result, and the second comes to
its canonical form. -/
abbrev Task.Ends (task : Task Result) (account : Account Result) (result : Result)
    (after : Session) : Prop :=
  ∃ words,
    task.Reaches (account.parts result) words (account.follow after) after
      (fun _ => pure (account.again result)) ∧
    account.edge task.start result words after

/-- Whatever the reader reads from its start, the task comes to its end. -/
def Task.Retells (task : Task Result) (reader : Parse Result) (account : Account Result) :
    Prop :=
  task.start.Quiet → reader.Meets task.start (task.Ends account) Parse.Unasked

namespace Parse

variable {session : Session} {success : Result → Session → Prop}

theorem meets_bind_expect_of_true {test : Token → Bool} {reason : Reason}
    {next : Token → Parse Result}
    (hnext : test session.cursor.current = true →
      (next session.cursor.current).Meets session.passed success Unasked) :
    (expect test reason >>= next).Meets session success Unasked := by
  unfold expect
  rw [bind_assoc, meets_bind_current]
  split
  · rename_i hcurrent
    exact hnext hcurrent
  · trivial

theorem meets_bind_eatComments_of_quiet {next : Option Token → Parse Result}
    (hquiet : session.Quiet)
    (hnext : (next none).Meets session success Unasked) :
    (eatComments >>= next).Meets session success Unasked := by
  rw [meets_bind_eatComments, hquiet.uncommented_eq, Cursor.comment?_eq hquiet.current]
  exact hnext

/-- The end of a statement leaves the tree as it is. -/
theorem meets_bind_endStatement_of_quiet {semicolons : Semicolons}
    {next : Option Token → Parse Result} (hquiet : session.Quiet)
    (hnext : ∀ semicolon after, session.Evolves after → after.tree = session.tree →
      (next semicolon).Meets after success Unasked) :
    (endStatement semicolons >>= next).Meets session success Unasked := by
  have hend : (endStatement semicolons).Meets session
      (fun _ after => session.Evolves after ∧ after.tree = session.tree) Unasked := by
    unfold endStatement
    rw [meets_bind_cursor]
    split
    · have hskip := Cursor.skipBlockComments_eq hquiet.current
      change
        session.Evolves (Session.passed ⟨session.cursor.skipBlockComments, session.tree⟩) ∧ _
      rw [hskip]
      exact ⟨Session.evolves_passed session, rfl⟩
    · cases semicolons with
      | required =>
          apply meets_bind_expect_of_true
          intro _
          exact ⟨Session.evolves_passed session, rfl⟩
      | inserted =>
          dsimp only
          split
          · exact ⟨.refl session, rfl⟩
          · trivial
  exact hend.bind fun semicolon after hafter => hnext semicolon after hafter.1 hafter.2

end Parse

section

variable {task : Task Result} {account : Account Other} {parts : List (Part NodeId)}
variable {words : List Token} {session : Session} {reader : Parse Other}
variable {production : Grammar → Parse Other} {next : Other → Parse Result}
variable {copyNext : Grammar → Other → Parse Result} {success : Result → Session → Prop}

/-- A production is read in place in both runs. -/
theorem Task.Reaches.inlined
    (hreaches : task.Reaches parts words (fun _ => True) session fun grammar =>
      production grammar >>= copyNext grammar)
    (hreader : Task.Retells ⟨task.semicolons, session, production, []⟩ reader account)
    (hquiet : task.start.Quiet)
    (hnext : ∀ value after more,
      task.Reaches (parts ++ account.parts value) (words ++ more) (account.follow after) after
        (fun grammar => copyNext grammar (account.again value)) →
      account.edge session value more after → (next value).Meets after success Unasked) :
    (reader >>= next).Meets session success Unasked := by
  apply (hreader (hreaches.quiet hquiet)).bind
  rintro value after ⟨more, hmore, hedge⟩
  exact hnext value after more (hreaches.inline hmore fun _ _ => trivial) hedge

/-- A construct is read by the grammar in both runs; a token has been passed before. -/
theorem Task.Reaches.called {field : Grammar → Parse Other}
    (hreaches : task.Reaches parts words (fun _ => True) session fun grammar =>
      field grammar >>= copyNext grammar)
    (hreader : Task.Retells ⟨task.semicolons, session, production, []⟩ reader account)
    (hfield : ∀ depth, field (.upTo task.semicolons (depth + 1)) =
      production (.upTo task.semicolons depth))
    (hwords : words ≠ []) (hquiet : task.start.Quiet)
    (hnext : ∀ value after more,
      task.Reaches (parts ++ account.parts value) (words ++ more) (account.follow after) after
        (fun grammar => copyNext grammar (account.again value)) →
      account.edge session value more after → (next value).Meets after success Unasked) :
    (reader >>= next).Meets session success Unasked := by
  apply (hreader (hreaches.quiet hquiet)).bind
  rintro value after ⟨more, hmore, hedge⟩
  exact hnext value after more (hreaches.call hmore hfield hwords fun _ _ => trivial) hedge

end

/-- A statement ends in both runs. -/
theorem Task.Reaches.ended {task : Task Result} {parts : List (Part NodeId)}
    {words : List Token} {follow : Cursor → Prop} {session : Session}
    {semicolons : Semicolons} {next : Option Token → Parse Result}
    {copyNext : Grammar → Option Token → Parse Result} {success : Result → Session → Prop}
    (hreaches : task.Reaches parts words follow session fun grammar =>
      Parse.endStatement grammar.semicolons >>= copyNext grammar)
    (hfollow : ∀ tail : Cursor, follow (tail.before [.plain .punctuation ";"]))
    (hquiet : task.start.Quiet)
    (hnext : ∀ semicolon after,
      task.Reaches (parts ++ [Part.mark ";"]) (words ++ [.plain .punctuation ";"])
        (fun _ => True) after
        (fun grammar => copyNext grammar (some (.plain .punctuation ";"))) →
      (next semicolon).Meets after success Unasked) :
    (Parse.endStatement semicolons >>= next).Meets session success Unasked := by
  apply meets_bind_endStatement_of_quiet (hreaches.quiet hquiet)
  intro semicolon after hevolves htree
  exact hnext semicolon after ((hreaches.endStatement hfollow).reseat hevolves htree)

end ScriptSyntax

import ScriptSyntax.Proofs.Accord.Basic

/-!
# Runs in lockstep

One reader runs over two lists of tokens that are the same where it matters.  A lockstep says
which cursors are level, and that level cursors show the reader the same: the token under them,
the next thing on the line, and level cursors once that token is passed.  Only behind a dot the
lists may show different words, of which the reader sees no more than that they name a member.

The lists may also part for good.  The first cursor is astray once it has gone beyond what the
lists share; it does not come back, and nothing is said of the second run from there on.
-/

namespace ScriptSyntax

namespace Token

/-- The token can be passed, and it is no dot. -/
def Ordinary (token : Token) : Prop :=
  token.isEnd = false ∧ token.isPunctuation "." = false

theorem ordinary_of_kind {token : Token} {kind : Kind} (htoken : token.kind = kind)
    (hend : kind ≠ .eof) (hmark : kind ≠ .punctuation) : token.Ordinary := by
  subst htoken
  exact ⟨beq_false_of_ne hend, by simp [isPunctuation, is, hmark]⟩

theorem ordinary_of_identifier {token : Token} (htoken : token.kind = .identifier) :
    token.Ordinary :=
  ordinary_of_kind htoken nofun nofun

theorem ordinary_of_isPunctuation {token : Token} {mark : String}
    (htoken : token.isPunctuation mark = true) (hmark : mark ≠ ".") : token.Ordinary := by
  refine ⟨isEnd_of_isWord (isWord_of_isPunctuation htoken), ?_⟩
  obtain ⟨-, hvalue⟩ := (token.is_iff _ _).mp htoken
  simp [isPunctuation, is, hvalue, hmark]

theorem ordinary_of_isKeyword {token : Token} {word : String}
    (htoken : token.isKeyword word = true) : token.Ordinary :=
  ordinary_of_kind ((token.is_iff _ _).mp htoken).1 nofun nofun

theorem ordinary_of_isOperator {token : Token} {symbol : String}
    (htoken : token.isOperator symbol = true) : token.Ordinary :=
  ordinary_of_kind ((token.is_iff _ _).mp htoken).1 nofun nofun

theorem ordinary_of_isPostfix {token : Token} (htoken : token.isPostfix = true) :
    token.Ordinary :=
  ordinary_of_kind (beq_iff_eq.mp (Bool.and_eq_true_iff.mp htoken).1) nofun nofun

theorem ordinary_of_isAssignment {token : Token} (htoken : token.isAssignment = true) :
    token.Ordinary :=
  ordinary_of_kind (beq_iff_eq.mp (Bool.and_eq_true_iff.mp htoken).1) nofun nofun

theorem ordinary_of_not_binding_le {token : Token} {floor : Binding}
    (htoken : ¬token.binding ≤ floor) : token.Ordinary := by
  by_cases hkind : token.kind = .operator
  · exact ordinary_of_kind hkind nofun nofun
  · rw [binding, if_neg hkind] at htoken
    exact absurd (Binding.lowest_le floor) htoken

theorem ordinary_of_isComment {token : Token} (htoken : token.isComment = true) :
    token.Ordinary := by
  rw [isComment, Bool.or_eq_true, beq_iff_eq, beq_iff_eq] at htoken
  rcases htoken with hkind | hkind
  · exact ordinary_of_kind hkind (by decide) (by decide)
  · exact ordinary_of_kind hkind (by decide) (by decide)

theorem ordinary_of_isPropertyName {token : Token} (htoken : token.isPropertyName = true) :
    token.Ordinary := by
  refine ⟨isEnd_of_isWord (isWord_of_isPropertyName htoken), ?_⟩
  cases hkind : token.kind <;>
    simp_all [isPropertyName, isMemberName, isWordOperator, isPunctuation, is]

/-- The words name the same member. -/
structure SameMember (token other : Token) : Prop where
  first : token.isMemberName = true
  second : other.isMemberName = true
  asName : token.asName = other.asName

end Token

/-- The token under the cursor can be passed, and it is no dot. -/
abbrev Cursor.Ordinary (cursor : Cursor) : Prop :=
  cursor.current.Ordinary

/-- The cursor behind the tokens at it that satisfy a test. -/
def Cursor.behind (test : Token → Bool) (cursor : Cursor) : Cursor :=
  { cursor with pending := cursor.pending.dropWhile test }

theorem Cursor.behind_eq {test : Token → Bool} {cursor : Cursor}
    (hcurrent : test cursor.current = false) :
    cursor.behind test = cursor ∧ cursor.pending.takeWhile test = [] := by
  obtain ⟨pending, last, hlast⟩ := cursor
  cases pending with
  | nil => exact ⟨rfl, rfl⟩
  | cons token tokens =>
      have htoken : ¬test token = true := ne_true_of_eq_false hcurrent
      rw [behind, List.dropWhile_cons_of_neg htoken, List.takeWhile_cons_of_neg htoken]
      exact ⟨rfl, rfl⟩

/-- What comes first on a line is found before a token that is no block comment is passed. -/
theorem Cursor.firstOnLine?_append_cons {token : Token} (htoken : token.kind ≠ .blockComment)
    (front behind other : List Token) :
    firstOnLine? (front ++ token :: behind) = firstOnLine? (front ++ token :: other) := by
  induction front with
  | nil =>
      rw [List.nil_append, List.nil_append, firstOnLine?, firstOnLine?,
        if_neg (by simpa using htoken : ¬(token.kind == .blockComment) = true),
        if_neg (by simpa using htoken : ¬(token.kind == .blockComment) = true)]
  | cons first front ih =>
      rw [List.cons_append, List.cons_append, firstOnLine?, firstOnLine?, ih]

theorem Parse.node_eq (id : NodeId) (session : Session) :
    node id session =
      match session.tree.get id with
      | .ok node => .ok node session
      | .error unknown =>
          .error (session.cursor.current.unexpected (.missingNode unknown.id)) session := by
  change (match session.tree.get id with
    | .ok node => pure node
    | .error unknown => refuse (.missingNode unknown.id) : Parse Node) session = _
  cases session.tree.get id <;> rfl

/-- Where two lists of tokens are the same for a reader. -/
structure Lockstep where
  /-- The cursors are at the same place of their lists. -/
  level : Cursor → Cursor → Prop
  /-- The first cursor has gone beyond what the lists share. -/
  astray : Cursor → Prop
  /-- No way leads back. -/
  astray_later {cursor later : Cursor} : later.pending <:+ cursor.pending →
    later.last = cursor.last → astray cursor → astray later
  current {first second : Cursor} : level first second → first.current = second.current
  lines {first second : Cursor} : level first second →
    Cursor.firstOnLine? first.pending = Cursor.firstOnLine? second.pending
  advance {first second : Cursor} : level first second → first.Ordinary →
    astray first.advance ∨ level first.advance second.advance
  member {first second : Cursor} : level first second → first.current.isPunctuation "." = true →
    (astray first.advance ∨ level first.advance second.advance) ∨
      first.advance.current.SameMember second.advance.current ∧
        (astray first.advance.advance ∨ level first.advance.advance second.advance.advance)

namespace Lockstep

variable {Result Other : Type} (lockstep : Lockstep)

/-- The sessions are at the same place, with the same tree. -/
structure Beside (first second : Session) : Prop where
  level : lockstep.level first.cursor second.cursor
  tree : first.tree = second.tree

/-- The run goes astray, unless it fails by a defect of the reader. -/
def Strays : EStateM.Result Diagnostic Session Result → Prop
  | .ok _ session => lockstep.astray session.cursor
  | .error diagnostic session => diagnostic.isDefect = true ∨ lockstep.astray session.cursor

/-- The second run does what the first one does. -/
def Matches (first second : EStateM.Result Diagnostic Session Result) : Prop :=
  match first with
  | .ok value session => ∃ final, second = .ok value final ∧ lockstep.Beside session final
  | .error diagnostic session =>
      ∃ final, second = .error diagnostic final ∧ lockstep.Beside session final

/-- The second run does what the first one does, unless that goes astray. -/
def Outcome (first second : EStateM.Result Diagnostic Session Result) : Prop :=
  lockstep.Strays first ∨ lockstep.Matches first second

/-- Both runs of the reader are in step wherever the first cursor satisfies a condition, and a run
that has gone astray stays so. -/
structure StepsFrom (opens : Cursor → Prop) (reader : Parse Result) : Prop where
  beside {first second : Session} : lockstep.Beside first second → opens first.cursor →
    lockstep.Outcome (reader first) (reader second)
  astray {session : Session} : lockstep.astray session.cursor → lockstep.Strays (reader session)

/-- Both runs of the reader are in step, wherever they start. -/
abbrev Steps (reader : Parse Result) : Prop :=
  lockstep.StepsFrom (fun _ => True) reader

/-- A reader that starts at a name goes astray if it does so by passing the name. -/
def PassesName (reader : Parse Result) : Prop :=
  ∀ session : Session, session.cursor.current.kind = .identifier →
    lockstep.astray session.cursor.advance → lockstep.Strays (reader session)

/-- Both runs of the reader are in step, and it passes a name that it starts at. -/
structure StepsPast (reader : Parse Result) : Prop where
  steps : lockstep.Steps reader
  passesName : lockstep.PassesName reader

variable {lockstep} {first second session : Session} {opens closes : Cursor → Prop}

theorem Beside.current (hbeside : lockstep.Beside first second) :
    first.cursor.current = second.cursor.current :=
  lockstep.current hbeside.level

theorem astray_passed (hastray : lockstep.astray session.cursor) :
    lockstep.astray session.passed.cursor :=
  lockstep.astray_later (List.tail_suffix _) rfl hastray

theorem astray_behind {cursor : Cursor} (test : Token → Bool)
    (hastray : lockstep.astray cursor) : lockstep.astray (cursor.behind test) :=
  lockstep.astray_later (List.dropWhile_suffix _) rfl hastray

/-! ## Sequences -/

theorem strays_bind {reader : Parse Other} {next : Other → Parse Result}
    (hreader : lockstep.Strays (reader session))
    (hnext : ∀ value after, lockstep.astray after.cursor → lockstep.Strays (next value after)) :
    lockstep.Strays ((reader >>= next) session) := by
  cases houtcome : reader session with
  | ok value after =>
      rw [houtcome] at hreader
      rw [Parse.bind_of_ok houtcome]
      exact hnext value after hreader
  | error diagnostic after =>
      rw [houtcome] at hreader
      rw [Parse.bind_of_error houtcome]
      exact hreader

theorem Outcome.bind {reader : Parse Other} {next : Other → Parse Result}
    (hreader : lockstep.Outcome (reader first) (reader second))
    (hbeside : ∀ value session final, reader first = .ok value session →
      lockstep.Beside session final → lockstep.Outcome (next value session) (next value final))
    (hastray : ∀ value after, lockstep.astray after.cursor →
      lockstep.Strays (next value after)) :
    lockstep.Outcome ((reader >>= next) first) ((reader >>= next) second) := by
  rcases hreader with hstrays | hmatches
  · exact .inl (strays_bind hstrays hastray)
  · cases houtcome : reader first with
    | ok value session =>
        rw [houtcome] at hmatches
        obtain ⟨final, hsecond, hsessions⟩ := hmatches
        rw [Parse.bind_of_ok houtcome, Parse.bind_of_ok hsecond]
        exact hbeside value session final houtcome hsessions
    | error diagnostic session =>
        rw [houtcome] at hmatches
        obtain ⟨final, hsecond, hsessions⟩ := hmatches
        rw [Parse.bind_of_error houtcome, Parse.bind_of_error hsecond]
        exact .inr ⟨final, rfl, hsessions⟩

/-- A reader that stops at certain places, and one that may start there. -/
theorem StepsFrom.bindAt {reader : Parse Other} {next : Other → Parse Result}
    (hreader : lockstep.StepsFrom opens reader)
    (hcloses : ∀ session value after, opens session.cursor →
      reader session = .ok value after → closes after.cursor)
    (hnext : ∀ value, lockstep.StepsFrom closes (next value)) :
    lockstep.StepsFrom opens (reader >>= next) where
  beside hbeside hopens := by
    apply (hreader.beside hbeside hopens).bind
    · intro value session final hok hsessions
      exact (hnext value).beside hsessions (hcloses _ value session hopens hok)
    · exact fun value _ => (hnext value).astray
  astray hastray := strays_bind (hreader.astray hastray) fun value _ => (hnext value).astray

theorem StepsFrom.bind {reader : Parse Other} {next : Other → Parse Result}
    (hreader : lockstep.StepsFrom opens reader) (hnext : ∀ value, lockstep.Steps (next value)) :
    lockstep.StepsFrom opens (reader >>= next) :=
  hreader.bindAt (fun _ _ _ _ _ => trivial) hnext

/-- A list up to a mark, and a reader that starts at that mark. -/
theorem StepsFrom.bindTo {reader : Parse Other} {next : Other → Parse Result}
    {parts : Other → List (Part NodeId)} {mark : String}
    (hreader : lockstep.StepsFrom opens reader)
    (hpushes : ∀ session, reader.PushesTo session parts (·.isPunctuation mark))
    (hmark : mark ≠ ".") (hnext : ∀ value, lockstep.StepsFrom Cursor.Ordinary (next value)) :
    lockstep.StepsFrom opens (reader >>= next) :=
  hreader.bindAt
    (fun session _ _ _ hok =>
      Token.ordinary_of_isPunctuation ((hpushes session).of_ok hok).2 hmark) hnext

theorem StepsFrom.mono {reader : Parse Result} (hreader : lockstep.StepsFrom closes reader)
    (hopens : ∀ cursor, opens cursor → closes cursor) : lockstep.StepsFrom opens reader where
  beside hbeside hfirst := hreader.beside hbeside (hopens _ hfirst)
  astray := hreader.astray

theorem PassesName.bind {reader : Parse Other} {next : Other → Parse Result}
    (hreader : lockstep.PassesName reader) (hnext : ∀ value, lockstep.Steps (next value)) :
    lockstep.PassesName (reader >>= next) :=
  fun session hname hastray =>
    strays_bind (hreader session hname hastray) fun value _ => (hnext value).astray

theorem StepsPast.bind {reader : Parse Other} {next : Other → Parse Result}
    (hreader : lockstep.StepsPast reader) (hnext : ∀ value, lockstep.Steps (next value)) :
    lockstep.StepsPast (reader >>= next) :=
  ⟨hreader.steps.bind hnext, hreader.passesName.bind hnext⟩

/-- A reader that is in step everywhere. -/
theorem Steps.anywhere {reader : Parse Result} (hreader : lockstep.Steps reader) :
    lockstep.StepsFrom opens reader :=
  hreader.mono fun _ _ => trivial

theorem StepsFrom.ite {condition : Prop} [Decidable condition] {yes no : Parse Result}
    (hyes : condition → lockstep.StepsFrom opens yes)
    (hno : ¬condition → lockstep.StepsFrom opens no) :
    lockstep.StepsFrom opens (if condition then yes else no) := by
  split
  · exact hyes ‹_›
  · exact hno ‹_›

/-! ## Single steps -/

theorem steps_pure (value : Result) : lockstep.Steps (pure value) where
  beside hbeside _ := .inr ⟨_, rfl, hbeside⟩
  astray hastray := hastray

theorem steps_throw (diagnostic : Diagnostic) :
    lockstep.Steps (throw diagnostic : Parse Result) where
  beside hbeside _ := .inr ⟨_, rfl, hbeside⟩
  astray hastray := .inr hastray

theorem steps_refuse (reason : Reason) : lockstep.Steps (Parse.refuse reason : Parse Result) where
  beside {first second} hbeside _ := by
    refine .inr ⟨second, ?_, hbeside⟩
    change EStateM.Result.error (second.cursor.current.unexpected reason) second = _
    rw [hbeside.current]
  astray hastray := .inr hastray

theorem steps_add (draft : Draft) : lockstep.Steps (Parse.add draft) where
  beside {first second} hbeside _ := by
    refine .inr ⟨second.grown draft, ?_, hbeside.level, ?_⟩
    · change EStateM.Result.ok (second.tree.size + 1) (second.grown draft) = _
      rw [← hbeside.tree]
    · exact congrArg (fun tree => (Tree.add tree draft).2) hbeside.tree
  astray hastray := hastray

theorem steps_node (id : NodeId) : lockstep.Steps (Parse.node id) where
  beside {first second} hbeside _ := by
    rw [Parse.node_eq, Parse.node_eq, ← hbeside.tree, ← hbeside.current]
    cases first.tree.get id with
    | ok node => exact .inr ⟨second, rfl, hbeside⟩
    | error unknown => exact .inr ⟨second, rfl, hbeside⟩
  astray {session} hastray := by
    rw [Parse.node_eq]
    cases session.tree.get id with
    | ok node => exact hastray
    | error unknown => exact .inr hastray

/-- A look into the tree does not move the cursor. -/
theorem steps_bind_node {id : NodeId} {next : Node → Parse Result}
    (hnext : ∀ node, lockstep.StepsFrom opens (next node)) :
    lockstep.StepsFrom opens (Parse.node id >>= next) := by
  apply (steps_node id).anywhere.bindAt _ hnext
  intro session node after hopens hok
  rw [Parse.node_eq] at hok
  cases hfound : session.tree.get id with
  | ok found =>
      rw [hfound] at hok
      cases hok
      exact hopens
  | error unknown =>
      rw [hfound] at hok
      cases hok

/-- A reader that is chosen by the token under the cursor. -/
theorem steps_bind_current {next : Token → Parse Result}
    (hnext : ∀ token, lockstep.StepsFrom (fun cursor => cursor.current = token ∧ opens cursor)
      (next token)) :
    lockstep.StepsFrom opens (Parse.current >>= next) where
  beside {first second} hbeside hopens := by
    change lockstep.Outcome (next first.cursor.current first) (next second.cursor.current second)
    rw [← hbeside.current]
    exact (hnext _).beside hbeside ⟨rfl, hopens⟩
  astray {session} := (hnext session.cursor.current).astray

/-- A reader that is chosen by two tokens, by the second only if the first one is a name, which
it then passes. -/
theorem steps_bind_current_next {reader : Token → Token → Parse Result}
    (hsame : ∀ token next, lockstep.StepsFrom
      (fun cursor => cursor.current = token ∧ cursor.next = next) (reader token next))
    (hignored : ∀ token next other, token.kind ≠ .identifier →
      reader token next = reader token other)
    (hpasses : ∀ token next, token.kind = .identifier →
      lockstep.PassesName (reader token next)) :
    lockstep.Steps (Parse.current >>= fun token => Parse.next >>= fun next =>
      reader token next) where
  beside {first second} hbeside _ := by
    change lockstep.Outcome (reader first.cursor.current first.cursor.next first)
      (reader second.cursor.current second.cursor.next second)
    rw [← hbeside.current]
    have hfollows : reader first.cursor.current first.cursor.next =
        reader first.cursor.current second.cursor.next →
          lockstep.Outcome (reader first.cursor.current first.cursor.next first)
            (reader first.cursor.current second.cursor.next second) := by
      intro hreader
      rw [← hreader]
      exact (hsame _ _).beside hbeside ⟨rfl, rfl⟩
    by_cases hname : first.cursor.current.kind = .identifier
    · rcases lockstep.advance hbeside.level (Token.ordinary_of_identifier hname) with
        hastray | hlevel
      · exact .inl (hpasses _ _ hname first hname hastray)
      · exact hfollows (congrArg _ (lockstep.current hlevel))
    · exact hfollows (hignored _ _ _ hname)
  astray {session} := (hsame session.cursor.current session.cursor.next).astray

theorem steps_advance : lockstep.StepsFrom Cursor.Ordinary Parse.advance where
  beside {first second} hbeside hfirst := by
    rcases lockstep.advance hbeside.level hfirst with hastray | hlevel
    · exact .inl hastray
    · refine .inr ⟨second.passed, ?_, hlevel, hbeside.tree⟩
      change EStateM.Result.ok second.cursor.current second.passed = _
      rw [hbeside.current]
  astray := astray_passed

/-- A reader that starts by passing a token. -/
theorem steps_bind_advance {next : Token → Parse Result}
    (hnext : ∀ token, lockstep.Steps (next token)) :
    lockstep.StepsFrom Cursor.Ordinary (Parse.advance >>= next) :=
  steps_advance.bind hnext

theorem passesName_bind_advance {next : Token → Parse Result}
    (hnext : ∀ token, lockstep.Steps (next token)) :
    lockstep.PassesName (Parse.advance >>= next) :=
  PassesName.bind (fun _ _ hastray => hastray) hnext

/-- A reader that starts by passing two tokens. -/
theorem steps_bind_advance_twice {next : Token → Token → Parse Result}
    (hnext : ∀ token other, lockstep.Steps (next token other)) :
    lockstep.StepsFrom (fun cursor => cursor.Ordinary ∧ cursor.advance.Ordinary)
      (Parse.advance >>= fun token => Parse.advance >>= fun other => next token other) := by
  have hfirst : lockstep.StepsFrom (fun cursor => cursor.Ordinary ∧ cursor.advance.Ordinary)
      Parse.advance := steps_advance.mono fun _ => And.left
  apply hfirst.bindAt
  · intro session token after hboth hok
    cases hok
    exact hboth.2
  · intro token
    exact steps_bind_advance fun other => hnext token other

theorem passesName_bind_advance_twice {next : Token → Token → Parse Result}
    (hnext : ∀ token other, lockstep.Steps (next token other)) :
    lockstep.PassesName
      (Parse.advance >>= fun token => Parse.advance >>= fun other => next token other) := by
  intro session _ hastray
  have hadvanced : lockstep.Strays (Parse.advance session) := hastray
  apply strays_bind hadvanced
  intro token after hafter
  exact (steps_bind_advance (hnext token)).astray hafter

/-- A reader that is chosen by what comes first on the line. -/
theorem steps_bind_lines {next : Cursor → Parse Result}
    (hlines : ∀ {cursor other : Cursor},
      Cursor.firstOnLine? cursor.pending = Cursor.firstOnLine? other.pending →
        next cursor = next other)
    (hnext : ∀ cursor, lockstep.Steps (next cursor)) :
    lockstep.Steps (Parse.cursor >>= next) where
  beside {first second} hbeside _ := by
    change lockstep.Outcome (next first.cursor first) (next second.cursor second)
    rw [← hlines (lockstep.lines hbeside.level)]
    exact (hnext first.cursor).beside hbeside trivial
  astray {session} := (hnext session.cursor).astray

theorem steps_expect {test : Token → Bool} (reason : Reason)
    (htest : ∀ token, test token = true → token.Ordinary) :
    lockstep.Steps (Parse.expect test reason) := by
  apply steps_bind_current
  intro token
  apply StepsFrom.ite
  · intro hpassed
    apply steps_advance.mono
    rintro cursor ⟨rfl, -⟩
    exact htest _ hpassed
  · intro _
    exact (steps_refuse reason).anywhere

theorem steps_expectPunctuation {mark : String} (hmark : mark ≠ ".") :
    lockstep.Steps (Parse.expectPunctuation mark) :=
  steps_expect _ fun _ htoken => Token.ordinary_of_isPunctuation htoken hmark

theorem steps_expectKeyword (word : String) : lockstep.Steps (Parse.expectKeyword word) :=
  steps_expect _ fun _ => Token.ordinary_of_isKeyword

theorem steps_expectIdentifier (reason : Reason) :
    lockstep.Steps (Parse.expectIdentifier reason) :=
  steps_expect _ fun _ htoken => Token.ordinary_of_identifier (beq_iff_eq.mp htoken)

theorem steps_accept? {test : Token → Bool}
    (htest : ∀ token, test token = true → token.Ordinary) :
    lockstep.Steps (Parse.accept? test) := by
  apply steps_bind_current
  intro token
  apply StepsFrom.ite
  · intro hpassed
    apply (steps_bind_advance fun _ => steps_pure _).mono
    rintro cursor ⟨rfl, -⟩
    exact htest _ hpassed
  · intro _
    exact (steps_pure none).anywhere

theorem Steps.readUnless {reader : Parse Result} (test : Token → Bool)
    (hreader : lockstep.Steps reader) : lockstep.Steps (Parse.readUnless test reader) := by
  apply steps_bind_current
  intro token
  apply StepsFrom.ite
  · intro _
    exact (steps_pure none).anywhere
  · intro _
    exact Steps.anywhere (hreader.bind fun _ => steps_pure _)

theorem PassesName.readUnless {mark : String} {reader : Parse Result}
    (hreader : lockstep.PassesName reader) :
    lockstep.PassesName (Parse.readUnless (fun token => token.isPunctuation mark) reader) := by
  intro session hname hastray
  change lockstep.Strays ((if session.cursor.current.isPunctuation mark then _ else _ :
    Parse (Option Result)) session)
  rw [if_neg (by simp [Token.isPunctuation, Token.is, hname])]
  exact hreader.bind (fun _ => steps_pure _) session hname hastray

theorem Steps.readAfter? {test : Token → Bool} {reader : Parse Result}
    (htest : ∀ token, test token = true → token.Ordinary) (hreader : lockstep.Steps reader) :
    lockstep.Steps (Parse.readAfter? test reader) := by
  apply steps_bind_current
  intro token
  apply StepsFrom.ite
  · intro hpassed
    apply (steps_bind_advance fun _ => hreader.bind fun _ => steps_pure _).mono
    rintro cursor ⟨rfl, -⟩
    exact htest _ hpassed
  · intro _
    exact (steps_pure none).anywhere

theorem steps_separator (closing : String) :
    lockstep.Steps (Production.separator closing) := by
  apply steps_bind_current
  intro token
  apply StepsFrom.ite
  · intro hcomma
    apply (steps_bind_advance fun _ => steps_pure _).mono
    rintro cursor ⟨rfl, -⟩
    exact Token.ordinary_of_isPunctuation hcomma (by decide)
  · intro _
    apply StepsFrom.ite
    · intro _
      exact (steps_refuse _).anywhere
    · intro _
      exact (steps_pure _).anywhere

theorem steps_bind_memberName {next : Token → Parse Result}
    (hnext : ∀ name, lockstep.Steps (next name)) :
    lockstep.Steps
      (Parse.expect Token.isMemberName .expectedName >>= fun name => next name.asName) := by
  apply (steps_expect _ fun _ htoken => ?_).bind fun name => hnext name.asName
  exact Token.ordinary_of_isPropertyName (by simp [Token.isPropertyName, htoken])

/-- A word that names a member is passed, and what follows knows no more of it than the name. -/
theorem bind_memberName_eq {next : Token → Parse Result}
    (hname : session.cursor.current.isMemberName = true) :
    (Parse.expect Token.isMemberName .expectedName >>= fun name => next name.asName) session =
      next session.cursor.current.asName session.passed := by
  have hexpect : Parse.expect Token.isMemberName .expectedName session =
      .ok session.cursor.current session.passed := by
    change (if session.cursor.current.isMemberName then _ else _ : Parse Token) session = _
    rw [if_pos hname]
    rfl
  exact Parse.bind_of_ok hexpect

/-- A dot and the name of a member. -/
theorem steps_bind_member {next : Token → Parse Result}
    (hnext : ∀ name, lockstep.Steps (next name)) :
    lockstep.StepsFrom (fun cursor => cursor.current.isPunctuation "." = true)
      (Parse.advance >>= fun _ => Parse.expect Token.isMemberName .expectedName >>= fun name =>
        next name.asName) where
  beside {first second} hbeside hdot := by
    change lockstep.Outcome
      ((Parse.expect _ _ >>= fun name : Token => next name.asName) first.passed)
      ((Parse.expect _ _ >>= fun name : Token => next name.asName) second.passed)
    rcases lockstep.member hbeside.level hdot with (hastray | hlevel) | ⟨hsame, hbehind⟩
    · exact .inl ((steps_bind_memberName hnext).astray hastray)
    · exact (steps_bind_memberName hnext).beside ⟨hlevel, hbeside.tree⟩ trivial
    · have hnames : first.passed.cursor.current.asName = second.passed.cursor.current.asName :=
        hsame.asName
      rw [bind_memberName_eq hsame.first, bind_memberName_eq hsame.second, ← hnames]
      rcases hbehind with hastray | hlevel
      · exact .inl ((hnext _).astray hastray)
      · exact (hnext _).beside ⟨hlevel, hbeside.tree⟩ trivial
  astray hastray := (steps_bind_memberName hnext).astray (astray_passed hastray)

/-! ## Comments and ends of statements -/

/-- Comments are passed in step. -/
theorem level_behind {test : Token → Bool}
    (htest : ∀ token, test token = true → token.isComment = true) {first second : Cursor}
    (hlevel : lockstep.level first second) :
    lockstep.astray (first.behind test) ∨
      lockstep.level (first.behind test) (second.behind test) ∧
        first.pending.takeWhile test = second.pending.takeWhile test := by
  obtain ⟨pending, last, hlast⟩ := first
  induction pending generalizing second with
  | nil =>
      have hfirst : test (Cursor.mk [] last hlast).current = false := by
        rw [Bool.eq_false_iff]
        intro hcomment
        have hend := Token.isEnd_of_isComment (htest _ hcomment)
        simp [Token.isEnd, Cursor.current, hlast] at hend
      obtain ⟨hbehind, htaken⟩ := Cursor.behind_eq (lockstep.current hlevel ▸ hfirst)
      rw [hbehind, htaken]
      exact .inr ⟨hlevel, rfl⟩
  | cons token tokens ih =>
      have hcurrent : second.current = token := (lockstep.current hlevel).symm
      cases hcomment : test token with
      | false =>
          have hfirst : test (Cursor.mk (token :: tokens) last hlast).current = false := hcomment
          have hsecond : test second.current = false := hcurrent ▸ hcomment
          obtain ⟨hbehind, htaken⟩ := Cursor.behind_eq hsecond
          obtain ⟨hfirst, hfront⟩ := Cursor.behind_eq hfirst
          rw [hbehind, htaken, hfirst, hfront]
          exact .inr ⟨hlevel, rfl⟩
      | true =>
          have hordinary : token.Ordinary := Token.ordinary_of_isComment (htest _ hcomment)
          have hpending : second.pending = token :: second.advance.pending :=
            hcurrent ▸ Cursor.pending_eq_cons (hcurrent ▸ hordinary.1)
          have hfirst : (Cursor.mk (token :: tokens) last hlast).behind test =
              (Cursor.mk tokens last hlast).behind test := by
            rw [Cursor.behind, List.dropWhile_cons_of_pos hcomment]
            rfl
          have hsecond : second.behind test = second.advance.behind test := by
            rw [Cursor.behind, hpending, List.dropWhile_cons_of_pos hcomment]
            rfl
          rw [hfirst, hsecond, hpending, List.takeWhile_cons_of_pos hcomment,
            List.takeWhile_cons_of_pos hcomment]
          rcases lockstep.advance hlevel hordinary with hastray | hpassed
          · exact .inl (astray_behind test hastray)
          · exact (ih hpassed).imp id fun hbehind => ⟨hbehind.1, congrArg _ hbehind.2⟩

/-- No comment stands at a name. -/
theorem eatComments_of_name (hname : session.cursor.current.kind = .identifier) :
    Parse.eatComments session = .ok session.cursor.comment? session := by
  have hcomment : session.cursor.current.isComment = false := by
    rw [Token.isComment, hname]
    rfl
  have hstays : session.cursor.skipComments = session.cursor := (Cursor.behind_eq hcomment).1
  change EStateM.Result.ok session.cursor.comment? session.uncommented = _
  rw [Session.uncommented, hstays]

theorem steps_eatComments : lockstep.Steps Parse.eatComments where
  beside {first second} hbeside _ := by
    rcases level_behind (fun _ => id) hbeside.level with hastray | ⟨hlevel, htaken⟩
    · exact .inl hastray
    · refine .inr ⟨second.uncommented, ?_, hlevel, hbeside.tree⟩
      change EStateM.Result.ok second.cursor.comment? second.uncommented = _
      rw [Cursor.comment?, ← htaken]
      rfl
  astray := astray_behind Token.isComment

/-- A semicolon that is written is passed with the block comments before it. -/
theorem outcome_writtenSemicolon (hbeside : lockstep.Beside first second)
    (hwritten : first.cursor.atSemicolon = true) :
    lockstep.Outcome
      ((do
        Parse.move Cursor.skipBlockComments
        return some (← Parse.advance) : Parse (Option Token)) first)
      ((do
        Parse.move Cursor.skipBlockComments
        return some (← Parse.advance) : Parse (Option Token)) second) := by
  have hblock : ∀ token : Token, (token.kind == .blockComment) = true →
      token.isComment = true := by
    intro token hkind
    rw [Token.isComment, hkind, Bool.or_true]
  have hsemicolon := Cursor.current_skipBlockComments hwritten
  rcases level_behind hblock hbeside.level with hastray | ⟨hlevel, -⟩
  · exact .inl (lockstep.astray_later (List.tail_suffix _) rfl hastray)
  · have hskipped : lockstep.Beside ⟨first.cursor.skipBlockComments, first.tree⟩
        ⟨second.cursor.skipBlockComments, second.tree⟩ := ⟨hlevel, hbeside.tree⟩
    exact (steps_bind_advance fun _ => steps_pure _).beside hskipped
      (Token.ordinary_of_isPunctuation hsemicolon (by decide))

theorem steps_endStatement (semicolons : Semicolons) :
    lockstep.Steps (Parse.endStatement semicolons) where
  beside {first second} hbeside _ := by
    have hlines := lockstep.lines hbeside.level
    have hsemicolon : second.cursor.atSemicolon = first.cursor.atSemicolon := by
      rw [Cursor.atSemicolon, Cursor.atSemicolon, hlines]
    have hlineEnd : second.cursor.atLineEnd = first.cursor.atLineEnd := by
      rw [Cursor.atLineEnd, Cursor.atLineEnd, hlines]
    change lockstep.Outcome ((if first.cursor.atSemicolon then _ else _ : Parse _) first)
      ((if second.cursor.atSemicolon then _ else _ : Parse _) second)
    rw [hsemicolon]
    split
    · exact outcome_writtenSemicolon hbeside ‹_›
    · cases semicolons with
      | required =>
          exact ((steps_expectPunctuation (by decide)).bind fun _ => steps_pure _).beside hbeside
            trivial
      | inserted =>
          dsimp only
          rw [hlineEnd]
          split
          · exact (steps_pure _).beside hbeside trivial
          · exact (steps_refuse _).beside hbeside trivial
  astray {session} hastray := by
    change lockstep.Strays ((if session.cursor.atSemicolon then _ else _ : Parse _) session)
    split
    · exact lockstep.astray_later ((List.tail_suffix _).trans (List.dropWhile_suffix _)) rfl
        hastray
    · cases semicolons with
      | required =>
          exact ((steps_expectPunctuation (by decide)).bind fun _ => steps_pure _).astray hastray
      | inserted =>
          dsimp only
          split
          · exact hastray
          · exact .inr hastray

end Lockstep

end ScriptSyntax

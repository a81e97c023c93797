import Mathlib.Data.List.TakeWhile
import ScriptSyntax.Proofs.Parallel.Views
import ScriptSyntax.Proofs.Reach.Statement

/-!
# Two runs side by side

Two runs over different tokens are kept side by side: their cursors stand at the same place,
and the tree of the second run mirrors that of the first.  A pairing says which tokens and
which cursors are at the same place, and how far the trees are compared.

The first run may have only the front of the tokens of the second.  It is spent once it
stands at the end of them; from there on the second run goes its own way, and nothing is
said of it if the first run fails.  A reader is firm about its sessions if they are side by
side, and loose if the first of them may be spent.
-/

namespace ScriptSyntax

/-- The tokens stand behind one that a statement may end with. -/
def Token.EndsBefore (whole later : List Token) : Prop :=
  ∃ last, last.mayEnd = true ∧ last :: later <:+ whole

/-- Where nothing is left behind the comments, there are only comments. -/
theorem Cursor.isComment_of_skipComments {cursor : Cursor}
    (hpending : cursor.skipComments.pending = []) :
    ∀ token ∈ cursor.pending, token.isComment = true :=
  List.dropWhile_eq_nil_iff.mp hpending

theorem Cursor.skipComments_of_nil {cursor : Cursor} (hpending : cursor.pending = []) :
    cursor.skipComments.pending = [] := by
  rw [skipComments, hpending]
  rfl

/-- Which tokens are alike: they steer the parser in the same way, and the trees that hold
them are compared by a view. -/
structure Likeness where
  view : View
  /-- The tokens are at the same place in two runs. -/
  twin : Token → Token → Prop
  /-- The second run may fail like this if the first one fails like that. -/
  failure : Diagnostic → Diagnostic → Prop
  signal {token other : Token} : twin token other → token.signal = other.signal
  place {token other : Token} : twin token other → view.place token.span = view.place other.span
  keep {token other : Token} : twin token other → token.isPunctuation ";" = false →
    view.keep token = view.keep other
  keep_asName {token other : Token} : twin token other → token.isPunctuation ";" = false →
    view.keep token.asName = view.keep other.asName
  unexpected {token other : Token} (reason : Reason) : twin token other →
    failure (token.unexpected reason) (other.unexpected reason)

/-- What is compared in two runs, and where the runs are at the same place. -/
structure Pairing extends Likeness where
  semicolons : Semicolons
  /-- The nodes that the second run has in front of those of the first one. -/
  base : Tree
  /-- The tokens of the first run. -/
  whole : List Token
  /-- The first run has only the front of the tokens of the second one. -/
  front : Prop
  /-- The cursors are at the same place. -/
  cursor : Cursor → Cursor → Prop
  required : front → semicolons = .required
  inside {first second : Cursor} : cursor first second → first.pending <:+ whole
  current {first second : Cursor} : cursor first second →
    front ∧ first.pending = [] ∨ twin first.current second.current
  /-- What follows the tokens of the first run does not continue them. -/
  connective {first second : Cursor} : cursor first second → front → first.pending = [] →
    second.current.isConnective = false
  next {first second : Cursor} : cursor first second → first.current.isEnd = false →
    twin first.next second.next ∨
      first.next.isConnective = false ∧ second.next.isConnective = false
  advance {first second : Cursor} : cursor first second → first.current.isEnd = false →
    cursor first.advance second.advance
  comments {first second : Cursor} : cursor first second →
    front ∧ first.skipComments.pending = [] ∨
      cursor first.skipComments second.skipComments ∧
        first.comment?.map view.keep = second.comment?.map view.keep
  /-- Behind a token that a statement may end with, the next thing on the line is the same. -/
  lines {first second : Cursor} : cursor first second → Token.EndsBefore whole first.pending →
    front ∧ first.skipComments.pending = [] ∨
      first.atSemicolon = second.atSemicolon ∧
        (semicolons = .inserted → first.atLineEnd = second.atLineEnd)
  semicolon {first second : Cursor} : cursor first second → first.atSemicolon = true →
    second.atSemicolon = true → cursor first.skipBlockComments second.skipBlockComments

/-- Whether two sessions are side by side, or the first of them may be spent. -/
inductive Hold
  | firm
  | loose

namespace Pairing

variable {Result Other : Type} (pairing : Pairing)

/-- The number of a node in the second tree. -/
def rename (id : NodeId) : NodeId :=
  shift pairing.base.size id

/-- The sessions are side by side. -/
structure Beside (first second : Session) : Prop where
  cursor : pairing.cursor first.cursor second.cursor
  mirrors : Tree.Mirrors pairing.view pairing.base first.tree second.tree

/-- The first run has come to the end of its tokens and does not know of the others. -/
def Spent (session : Session) : Prop :=
  pairing.front ∧ session.cursor.pending = []

/-- The outcome of the first run alone, from where it is spent. -/
def Fades (after : Hold) (same : Result → Result → Prop) :
    EStateM.Result Diagnostic Session Result → Prop
  | .ok value session => after = .loose ∧ pairing.Spent session ∧ ∃ other, same value other
  | .error _ _ => True

/-- The outcomes of both runs, from where they are side by side. -/
def Outcome (after : Hold) (same : Result → Result → Prop)
    (first second : EStateM.Result Diagnostic Session Result) : Prop :=
  match first with
  | .ok value session =>
      (∃ other final, second = .ok other final ∧ same value other ∧
        pairing.Beside session final) ∨ pairing.Fades after same (.ok value session)
  | .error diagnostic _ =>
      pairing.front ∨ ∃ other final, second = .error other final ∧
        pairing.failure diagnostic other

/-- The second reader does in the second run what the first one does in the first. -/
structure Runs (before after : Hold) (same : Result → Result → Prop)
    (reader other : Parse Result) : Prop where
  beside {first second : Session} : pairing.Beside first second →
    pairing.Outcome after same (reader first) (other second)
  spent {session : Session} : before = .loose → pairing.Spent session →
    pairing.Fades after same (reader session)

variable {pairing} {before between after : Hold} {first second : Session}
variable {same : Result → Result → Prop} {alike : Other → Other → Prop}

theorem Fades.outcome {outcome : EStateM.Result Diagnostic Session Result}
    (hfades : pairing.Fades after same outcome) (hfront : pairing.front)
    (other : EStateM.Result Diagnostic Session Result) :
    pairing.Outcome after same outcome other := by
  cases outcome with
  | ok value session => exact .inr hfades
  | error diagnostic session => exact .inl hfront

/-! ## Sequences -/

theorem fades_bind {reader : Parse Other} {next : Other → Parse Result}
    (hreader : pairing.Fades between alike (reader first))
    (hnext : ∀ value session result, between = .loose → pairing.Spent session →
      alike value result → pairing.Fades after same (next value session)) :
    pairing.Fades after same ((reader >>= next) first) := by
  cases houtcome : reader first with
  | ok value session =>
      rw [houtcome] at hreader
      rw [Parse.bind_of_ok houtcome]
      obtain ⟨hloose, hspent, result, hvalue⟩ := hreader
      exact hnext value session result hloose hspent hvalue
  | error diagnostic session =>
      rw [Parse.bind_of_error houtcome]
      trivial

/-- A firm reader fails where the first run is spent. -/
theorem Fades.bind {reader : Parse Other} {next : Other → Parse Result}
    (hreader : pairing.Fades .firm alike (reader first)) :
    pairing.Fades after same ((reader >>= next) first) := by
  apply fades_bind hreader
  intro _ _ _ hfirm
  cases hfirm

theorem outcome_bind {reader other : Parse Other} {next another : Other → Parse Result}
    (hreader : pairing.Outcome between alike (reader first) (other second))
    (hbeside : ∀ value result session final, reader first = .ok value session →
      alike value result → pairing.Beside session final →
      pairing.Outcome after same (next value session) (another result final))
    (hspent : ∀ value session result, between = .loose → pairing.Spent session →
      alike value result → pairing.Fades after same (next value session)) :
    pairing.Outcome after same ((reader >>= next) first) ((other >>= another) second) := by
  cases houtcome : reader first with
  | ok value session =>
      rw [houtcome] at hreader
      rw [Parse.bind_of_ok houtcome]
      rcases hreader with ⟨result, final, hother, hsame, hsessions⟩ |
        ⟨hloose, hsession, result, hsame⟩
      · rw [Parse.bind_of_ok hother]
        exact hbeside value result session final houtcome hsame hsessions
      · exact (hspent value session result hloose hsession hsame).outcome hsession.1 _
  | error diagnostic session =>
      rw [houtcome] at hreader
      rw [Parse.bind_of_error houtcome]
      rcases hreader with hfront | ⟨failed, final, hother, hfailure⟩
      · exact .inl hfront
      · rw [Parse.bind_of_error hother]
        exact .inr ⟨failed, final, rfl, hfailure⟩

/-- Behind a firm reader the sessions are side by side. -/
theorem Outcome.bind {reader other : Parse Other} {next another : Other → Parse Result}
    (hreader : pairing.Outcome .firm alike (reader first) (other second))
    (hbeside : ∀ value result session final, reader first = .ok value session →
      alike value result → pairing.Beside session final →
      pairing.Outcome after same (next value session) (another result final)) :
    pairing.Outcome after same ((reader >>= next) first) ((other >>= another) second) := by
  apply outcome_bind hreader hbeside
  intro _ _ _ hfirm
  cases hfirm

/-- The readers that follow run side by side too. -/
theorem Runs.bind {reader other : Parse Other} {next another : Other → Parse Result}
    (hreader : pairing.Runs before between alike reader other)
    (hnext : ∀ value result, alike value result →
      pairing.Runs between after same (next value) (another result)) :
    pairing.Runs before after same (reader >>= next) (other >>= another) where
  beside hbeside := by
    apply outcome_bind (hreader.beside hbeside)
    · intro value result session final _ hsame hsessions
      exact (hnext value result hsame).beside hsessions
    · intro value session result hloose hsession hsame
      exact (hnext value result hsame).spent hloose hsession
  spent hloose hspent := by
    apply fades_bind (hreader.spent hloose hspent)
    intro value final result hloose hfinal hsame
    exact (hnext value result hsame).spent hloose hfinal

theorem Fades.loosen {outcome : EStateM.Result Diagnostic Session Result}
    (hfades : pairing.Fades .firm same outcome) : pairing.Fades .loose same outcome := by
  cases outcome with
  | ok value session => cases hfades.1
  | error diagnostic session => trivial

theorem Outcome.loosen {outcome other : EStateM.Result Diagnostic Session Result}
    (houtcome : pairing.Outcome .firm same outcome other) :
    pairing.Outcome .loose same outcome other := by
  cases outcome with
  | ok value session => exact houtcome.imp id Fades.loosen
  | error diagnostic session => exact houtcome

theorem Fades.imp {wider : Result → Result → Prop}
    {outcome : EStateM.Result Diagnostic Session Result}
    (hfades : pairing.Fades after same outcome)
    (hsame : ∀ value result, same value result → wider value result) :
    pairing.Fades after wider outcome := by
  cases outcome with
  | ok value session =>
      obtain ⟨hloose, hspent, result, hvalue⟩ := hfades
      exact ⟨hloose, hspent, result, hsame value result hvalue⟩
  | error diagnostic session => trivial

theorem Outcome.imp {wider : Result → Result → Prop}
    {outcome other : EStateM.Result Diagnostic Session Result}
    (houtcome : pairing.Outcome after same outcome other)
    (hsame : ∀ value result, same value result → wider value result) :
    pairing.Outcome after wider outcome other := by
  cases outcome with
  | ok value session =>
      rcases houtcome with ⟨result, final, hother, hvalue, hbeside⟩ | hfades
      · exact .inl ⟨result, final, hother, hsame value result hvalue, hbeside⟩
      · exact .inr (hfades.imp hsame)
  | error diagnostic session => exact houtcome

/-- Less may be said about the results. -/
theorem Runs.imp {wider : Result → Result → Prop} {reader other : Parse Result}
    (hreader : pairing.Runs before after same reader other)
    (hsame : ∀ value result, same value result → wider value result) :
    pairing.Runs before after wider reader other :=
  ⟨fun hbeside => (hreader.beside hbeside).imp hsame,
    fun hloose hspent => (hreader.spent hloose hspent).imp hsame⟩

/-- A reader that is firm in the end is also loose. -/
theorem Runs.loosen {reader other : Parse Result}
    (hreader : pairing.Runs before .firm same reader other) :
    pairing.Runs before .loose same reader other :=
  ⟨fun hbeside => (hreader.beside hbeside).loosen,
    fun hloose hspent => (hreader.spent hloose hspent).loosen⟩

/-- A reader that can start where the first run is spent can start side by side. -/
theorem Runs.tighten {reader other : Parse Result}
    (hreader : pairing.Runs .loose after same reader other) :
    pairing.Runs before after same reader other :=
  ⟨hreader.beside, fun _ => hreader.spent rfl⟩

/-! ## Single steps -/

theorem Spent.isEnd (hspent : pairing.Spent first) : first.cursor.current.isEnd = true := by
  rw [Token.isEnd, Cursor.current_kind_of_pending_nil hspent.2]
  rfl

theorem Beside.spent_or_twin (hbeside : pairing.Beside first second) :
    pairing.Spent first ∨ pairing.twin first.cursor.current second.cursor.current :=
  pairing.current hbeside.cursor

/-- Where there is a token to pass, it is the same in both runs. -/
theorem Beside.twin (hbeside : pairing.Beside first second)
    (hcurrent : first.cursor.current.isEnd = false) :
    pairing.twin first.cursor.current second.cursor.current := by
  rcases hbeside.spent_or_twin with hspent | htwin
  · rw [hspent.isEnd] at hcurrent
    cases hcurrent
  · exact htwin

theorem Beside.passed (hbeside : pairing.Beside first second)
    (hcurrent : first.cursor.current.isEnd = false) :
    pairing.Beside first.passed second.passed :=
  ⟨pairing.advance hbeside.cursor hcurrent, hbeside.mirrors⟩

theorem runs_pure {value result : Result} (hsame : same value result) :
    pairing.Runs before before same (pure value) (pure result) where
  beside hbeside := .inl ⟨result, _, rfl, hsame, hbeside⟩
  spent hloose hspent := ⟨hloose, hspent, result, hsame⟩

theorem runs_refuse (reason : Reason) :
    pairing.Runs .loose after same (Parse.refuse reason) (Parse.refuse reason) where
  beside hbeside := by
    rcases hbeside.spent_or_twin with hspent | htwin
    · exact .inl hspent.1
    · exact .inr ⟨_, _, rfl, pairing.unexpected reason htwin⟩
  spent _ _ := trivial

theorem runs_throw {diagnostic other : Diagnostic} (hfailure : pairing.failure diagnostic other) :
    pairing.Runs before after same (throw diagnostic) (throw other) where
  beside _ := .inr ⟨_, _, rfl, hfailure⟩
  spent _ _ := trivial

/-- The numbers of a node in both runs. -/
def node (pairing : Pairing) (id other : NodeId) : Prop :=
  other = pairing.rename id

/-- The numbers of some nodes in both runs. -/
def nodes (pairing : Pairing) (ids others : List NodeId) : Prop :=
  others = ids.map pairing.rename

/-- The same edge in both runs. -/
def edge (pairing : Pairing) (edge other : Edge) : Prop :=
  other.seen pairing.view = (edge.seen pairing.view).rename pairing.rename

/-- The same shape in both runs. -/
def shape (pairing : Pairing) (shape other : Shape NodeId) : Prop :=
  other.seen pairing.view = (shape.seen pairing.view).map pairing.rename

theorem shape_iff {shape other : Shape NodeId} : pairing.shape shape other ↔
    other.mapTokens pairing.view.keep =
      (shape.mapTokens pairing.view.keep).mapIdx fun _ => pairing.rename := Iff.rfl

theorem edge_token {token other : Token} (htwin : pairing.twin token other) :
    pairing.edge (.token token) (.token other) := by
  change Edge.piece (pairing.view.place other.span) = .piece (pairing.view.place token.span)
  rw [pairing.place htwin]

theorem edge_asName {token other : Token} (htwin : pairing.twin token other) :
    pairing.edge (.token token.asName) (.token other.asName) := by
  change pairing.edge (.token token) (.token other)
  exact edge_token htwin

theorem edge_node (id : NodeId) : pairing.edge (.node id) (.node (pairing.rename id)) := rfl

theorem edge_nodeOr {left right : Edge} (hedge : pairing.edge left right) (id : Option NodeId) :
    pairing.edge (.nodeOr id left) (.nodeOr (id.map pairing.rename) right) := by
  cases id with
  | none => exact hedge
  | some id => exact edge_node id

theorem edge_tokenOr {left right : Edge} (hedge : pairing.edge left right)
    {token other : Option Token} (htwin : Option.Rel pairing.twin token other) :
    pairing.edge (.tokenOr token left) (.tokenOr other right) := by
  cases htwin with
  | none => exact hedge
  | some htwin => exact edge_token htwin

theorem keep_identifier (pairing : Pairing) {token other : Token}
    (htwin : pairing.twin token other) (htoken : (token.kind == .identifier) = true) :
    pairing.view.keep token = pairing.view.keep other :=
  pairing.keep htwin (Token.not_semicolon_of_kind (by rw [beq_iff_eq.mp htoken]; nofun))

theorem rel_imp {alike closer : Token → Token → Prop} {token other : Option Token}
    (hrel : Option.Rel closer token other)
    (hcloser : ∀ token other, closer token other → alike token other) :
    Option.Rel alike token other := by
  cases hrel with
  | none => exact .none
  | some hsame => exact .some (hcloser _ _ hsame)

theorem eq_map_of_rel {id other : Option NodeId} (hnode : Option.Rel pairing.node id other) :
    other = id.map pairing.rename := by
  cases hnode with
  | none => rfl
  | some hnode => exact congrArg some hnode

/-- The same node is drafted in both runs. -/
structure Drafts (pairing : Pairing) (draft other : Draft) : Prop where
  shape : pairing.shape draft.shape other.shape
  first : pairing.edge draft.first other.first
  last : pairing.edge draft.last other.last

theorem runs_add {draft other : Draft} (hdrafts : pairing.Drafts draft other) :
    pairing.Runs before before pairing.node (Parse.add draft) (Parse.add other) where
  beside {first second} hbeside := by
    have hid : second.tree.size + 1 = pairing.rename (first.tree.size + 1) := by
      rw [hbeside.mirrors.size, rename, shift, Nat.add_assoc]
    have hdraft : other.seen pairing.view =
        (draft.seen pairing.view).rename pairing.rename := by
      rw [Draft.seen, Draft.rename, hdrafts.shape, hdrafts.first, hdrafts.last]
      rfl
    exact .inl ⟨_, _, rfl, hid, hbeside.cursor, hbeside.mirrors.add hdraft⟩
  spent hloose hspent := ⟨hloose, hspent, _, rfl⟩

theorem outcome_advance (hbeside : pairing.Beside first second)
    (hcurrent : first.cursor.current.isEnd = false) :
    pairing.Outcome .firm pairing.twin (Parse.advance first) (Parse.advance second) :=
  .inl ⟨_, _, rfl, hbeside.twin hcurrent, hbeside.passed hcurrent⟩

/-- Passing a token that is there and known. -/
theorem outcome_bind_known {next another : Token → Parse Result}
    (hbeside : pairing.Beside first second) (hcurrent : first.cursor.current.isEnd = false)
    (hnext : pairing.Runs .firm after same (next first.cursor.current)
      (another second.cursor.current)) :
    pairing.Outcome after same ((Parse.advance >>= next) first)
      ((Parse.advance >>= another) second) :=
  hnext.beside (hbeside.passed hcurrent)

/-- Passing a token that is there. -/
theorem outcome_bind_advance {next another : Token → Parse Result}
    (hbeside : pairing.Beside first second) (hcurrent : first.cursor.current.isEnd = false)
    (hnext : ∀ token other, pairing.twin token other →
      pairing.Runs .firm after same (next token) (another other)) :
    pairing.Outcome after same ((Parse.advance >>= next) first)
      ((Parse.advance >>= another) second) :=
  outcome_bind_known hbeside hcurrent (hnext _ _ (hbeside.twin hcurrent))

theorem runs_eatComments :
    pairing.Runs .loose .loose
      (fun comment other => comment.map pairing.view.keep = other.map pairing.view.keep)
      Parse.eatComments Parse.eatComments where
  beside hbeside := by
    rcases pairing.comments hbeside.cursor with hspent | ⟨hcursor, hcomment⟩
    · exact .inr ⟨rfl, hspent, _, rfl⟩
    · exact .inl ⟨_, _, rfl, hcomment, hcursor, hbeside.mirrors⟩
  spent {session} _ hspent := by
    exact ⟨rfl, ⟨hspent.1, Cursor.skipComments_of_nil hspent.2⟩, _, rfl⟩

/-! ## Choices -/

/-- A question about a token that the end token answers in the negative. -/
structure Asks (test : Token → Bool) : Prop where
  superficial : Token.Superficial test
  not_isEnd {token : Token} : test token = true → token.isEnd = false

theorem Asks.of_isEnd {test : Token → Bool} (htest : Asks test) {token : Token}
    (htoken : token.isEnd = true) : test token = false := by
  cases hanswer : test token with
  | false => rfl
  | true =>
      rw [htest.not_isEnd hanswer] at htoken
      cases htoken

theorem Asks.of_isWord {test : Token → Bool} (hsuperficial : Token.Superficial test)
    (htest : ∀ token, test token = true → token.isWord = true) : Asks test :=
  ⟨hsuperficial, fun htoken => Token.isEnd_of_isWord (htest _ htoken)⟩

theorem asks_isPunctuation (mark : String) : Asks (·.isPunctuation mark) :=
  .of_isWord (Token.superficial_isPunctuation mark) fun _ => Token.isWord_of_isPunctuation

theorem asks_isKeyword (word : String) : Asks (·.isKeyword word) :=
  .of_isWord (Token.superficial_isKeyword word) fun _ => Token.isWord_of_isKeyword

theorem asks_isOperator (symbol : String) : Asks (·.isOperator symbol) :=
  .of_isWord (Token.superficial_isOperator symbol) fun _ => Token.isWord_of_isOperator

theorem asks_identifier : Asks fun token => token.kind == .identifier :=
  .of_isWord (fun _ => rfl) fun _ htoken => Token.isWord_of_kind (beq_iff_eq.mp htoken) rfl

theorem asks_isPropertyName : Asks Token.isPropertyName :=
  .of_isWord Token.superficial_isPropertyName fun _ => Token.isWord_of_isPropertyName

theorem asks_isMemberName : Asks Token.isMemberName :=
  .of_isWord Token.superficial_isMemberName fun _ => Token.isWord_of_isMemberName

variable {test : Token → Bool}

theorem eq_false_of_not_isConnective {token : Token}
    (hconnective : ∀ token, test token = true → token.isConnective = true)
    (htoken : token.isConnective = false) : test token = false := by
  rw [Bool.eq_false_iff]
  intro hanswer
  rw [hconnective token hanswer] at htoken
  cases htoken

/-- Of the token after the current one, only connectives are asked for. -/
theorem next_eq (pairing : Pairing) (hbeside : pairing.Beside first second)
    (hcurrent : first.cursor.current.isEnd = false) (htest : Asks test)
    (hconnective : ∀ token, test token = true → token.isConnective = true) :
    test first.cursor.next = test second.cursor.next := by
  rcases pairing.next hbeside.cursor hcurrent with htwin | ⟨hfirst, hsecond⟩
  · exact htest.superficial.congr (pairing.signal htwin)
  · rw [eq_false_of_not_isConnective hconnective hfirst,
      eq_false_of_not_isConnective hconnective hsecond]

/-- A choice by the token under the cursor. -/
theorem runs_bind_current {next another : Token → Parse Result}
    (hbeside : ∀ first second : Session, pairing.Beside first second →
      pairing.twin first.cursor.current second.cursor.current →
      pairing.Outcome after same (next first.cursor.current first)
        (another second.cursor.current second))
    (hspent : ∀ session : Session, pairing.Spent session →
      pairing.Fades after same (next session.cursor.current session)) :
    pairing.Runs .loose after same (Parse.current >>= next) (Parse.current >>= another) where
  beside {first second} hsessions := by
    rcases hsessions.spent_or_twin with hend | htwin
    · exact (hspent first hend).outcome hend.1 _
    · exact hbeside first second hsessions htwin
  spent _ hsession := hspent _ hsession

theorem runs_choice (htest : Asks test) {yes yes' no no' : Parse Result}
    (hyes : ∀ first second : Session, pairing.Beside first second →
      test first.cursor.current = true → pairing.Outcome after same (yes first) (yes' second))
    (hno : pairing.Runs .loose after same no no') :
    pairing.Runs .loose after same
      (Parse.current >>= fun token => if test token then yes else no)
      (Parse.current >>= fun token => if test token then yes' else no') := by
  apply runs_bind_current
  · intro first second hbeside htwin
    rw [← htest.superficial.congr (pairing.signal htwin)]
    split
    · exact hyes first second hbeside ‹_›
    · exact hno.beside hbeside
  · intro session hspent
    rw [htest.of_isEnd hspent.isEnd]
    exact hno.spent rfl hspent

/-- A choice in which the token that decides is passed. -/
theorem runs_choice_advance (htest : Asks test) {yes yes' : Token → Parse Result}
    {no no' : Parse Result}
    (hyes : ∀ token other, pairing.twin token other → test token = true →
      pairing.Runs .firm after same (yes token) (yes' other))
    (hno : pairing.Runs .loose after same no no') :
    pairing.Runs .loose after same
      (Parse.current >>= fun token => if test token then Parse.advance >>= yes else no)
      (Parse.current >>= fun token => if test token then Parse.advance >>= yes' else no') := by
  apply runs_choice htest _ hno
  intro first second hbeside hcurrent
  have hend := htest.not_isEnd hcurrent
  exact (hyes _ _ (hbeside.twin hend) hcurrent).beside (hbeside.passed hend)

theorem runs_expect (htest : Asks test) (reason : Reason) :
    pairing.Runs .loose .firm (fun token other => pairing.twin token other ∧ test token = true)
      (Parse.expect test reason) (Parse.expect test reason) := by
  apply runs_choice htest
  · intro first second hbeside hcurrent
    have hend := htest.not_isEnd hcurrent
    exact .inl ⟨_, _, rfl, ⟨hbeside.twin hend, hcurrent⟩, hbeside.passed hend⟩
  · exact runs_refuse reason

theorem runs_expectPunctuation (mark : String) :
    pairing.Runs .loose .firm pairing.twin (Parse.expectPunctuation mark)
      (Parse.expectPunctuation mark) :=
  (runs_expect (asks_isPunctuation mark) _).imp fun _ _ => And.left

theorem runs_accept? (htest : Asks test) :
    pairing.Runs .loose .loose
      (Option.Rel fun token other => pairing.twin token other ∧ test token = true)
      (Parse.accept? test) (Parse.accept? test) := by
  apply runs_choice_advance htest
  · intro token other htwin htoken
    exact (runs_pure (Option.Rel.some ⟨htwin, htoken⟩)).loosen
  · exact runs_pure .none

theorem runs_separator (closing : String) :
    pairing.Runs .loose .firm (fun _ _ => True) (Production.separator closing)
      (Production.separator closing) := by
  apply runs_bind_current
  · intro first second hbeside htwin
    have hsignal := pairing.signal htwin
    rw [← (Token.superficial_isPunctuation ",").congr hsignal,
      ← (Token.superficial_isPunctuation closing).congr hsignal]
    split
    · rename_i hcomma
      have hend := (asks_isPunctuation ",").not_isEnd hcomma
      exact .inl ⟨_, _, rfl, trivial, hbeside.passed hend⟩
    · split
      · exact (runs_refuse _).beside hbeside
      · exact (runs_pure trivial).beside hbeside
  · intro session hspent
    rw [(asks_isPunctuation ",").of_isEnd hspent.isEnd,
      (asks_isPunctuation closing).of_isEnd hspent.isEnd]
    trivial

/-- A construct that is read unless a token comes first. -/
theorem Runs.readUnless {reader other : Parse Result} (htest : Asks test)
    (hreader : pairing.Runs .loose .loose same reader other) :
    pairing.Runs .loose .loose (Option.Rel same) (Parse.readUnless test reader)
      (Parse.readUnless test other) := by
  apply runs_choice htest
  · intro first second hbeside _
    exact .inl ⟨_, _, rfl, .none, hbeside⟩
  · apply hreader.bind
    intro value result hsame
    exact runs_pure (.some hsame)

/-- A construct that is read behind a token. -/
theorem Runs.readAfter? {reader other : Parse Result} (htest : Asks test)
    (hreader : pairing.Runs .loose .loose same reader other) :
    pairing.Runs .loose .loose (Option.Rel same) (Parse.readAfter? test reader)
      (Parse.readAfter? test other) := by
  apply runs_choice_advance htest
  · intro token _ _ _
    apply hreader.tighten.bind
    intro value result hsame
    exact runs_pure (.some hsame)
  · exact runs_pure .none

/-- A construct that is read behind a connective, which is missing in both runs where the
first one has no more tokens. -/
theorem Runs.readAfterConnective? {reader other : Parse Result} (htest : Asks test)
    (hconnective : ∀ token, test token = true → token.isConnective = true)
    (hreader : pairing.Runs .firm .firm same reader other) :
    pairing.Runs .firm .firm (Option.Rel same) (Parse.readAfter? test reader)
      (Parse.readAfter? test other) where
  beside {first second} hbeside := by
    have hsame : test second.cursor.current = test first.cursor.current := by
      rcases hbeside.spent_or_twin with hspent | htwin
      · rw [htest.of_isEnd hspent.isEnd]
        exact eq_false_of_not_isConnective hconnective
          (pairing.connective hbeside.cursor hspent.1 hspent.2)
      · exact (htest.superficial.congr (pairing.signal htwin)).symm
    change pairing.Outcome .firm _ ((if test first.cursor.current then _ else _ : Parse _) first)
      ((if test second.cursor.current then _ else _ : Parse _) second)
    rw [hsame]
    split
    · rename_i htaken
      apply outcome_bind_advance hbeside (htest.not_isEnd htaken)
      intro _ _ _
      apply hreader.bind
      intro value result hvalue
      exact runs_pure (.some hvalue)
    · exact (runs_pure .none).beside hbeside
  spent hloose := by cases hloose

/-- A list with the mark that closes it. -/
theorem Runs.bind_closing {reader other : Parse Other} {next another : Other → Token → Parse Result}
    {semicolons : Semicolons} (hreader : pairing.Runs before .firm alike reader other)
    (htest : Asks test)
    (hstop : ∀ session, reader.GoesOnTo semicolons pairing.whole session test)
    (hnext : ∀ value result token final, alike value result → pairing.twin token final →
      pairing.Runs .firm after same (next value token) (another result final)) :
    pairing.Runs before after same (reader >>= fun value => Parse.advance >>= next value)
      (other >>= fun result => Parse.advance >>= another result) where
  beside {first second} hbeside := by
    apply (hreader.beside hbeside).bind
    intro value result session final hok hsame hsessions
    have hclosed := ((hstop first (pairing.inside hbeside.cursor)).of_ok hok).2
    exact outcome_bind_advance hsessions (htest.not_isEnd hclosed)
      fun token other htwin => hnext value result token other hsame htwin
  spent hloose hspent := (hreader.spent hloose hspent).bind

/-! ## Ends of statements -/

/-- Where only comments are left, a semicolon that has to be written is missing. -/
theorem endStatement_fades {alike : Option Token → Option Token → Prop} (hfront : pairing.front)
    (hpending : first.cursor.skipComments.pending = []) :
    pairing.Fades after alike (Parse.endStatement pairing.semicolons first) := by
  have hcomments : ∀ token ∈ first.cursor.pending, token.isPunctuation ";" = false := by
    intro token htoken
    apply Token.not_semicolon_of_kind
    intro hkind
    have hcomment := Cursor.isComment_of_skipComments hpending token htoken
    simp [Token.isComment, hkind] at hcomment
  have hline : first.cursor.atSemicolon = false := by
    rw [Bool.eq_false_iff]
    intro hsemicolon
    obtain ⟨token, hfound, hmark⟩ := (Option.any_eq_true _ _).mp hsemicolon
    obtain ⟨others, hothers⟩ := Cursor.dropWhile_of_firstOnLine? hfound
    have hmem : token ∈ first.cursor.pending :=
      (List.dropWhile_suffix _).mem (hothers ▸ List.mem_cons_self)
    rw [hcomments token hmem] at hmark
    cases hmark
  have hcurrent : first.cursor.current.isPunctuation ";" = false := by
    cases htokens : first.cursor.pending with
    | nil =>
        have hkind := Cursor.current_kind_of_pending_nil htokens
        simp [Token.isPunctuation, Token.is, hkind]
    | cons token tokens =>
        have hfirst : first.cursor.current = token := by rw [Cursor.current, htokens]; rfl
        rw [hfirst]
        exact hcomments token (htokens ▸ List.mem_cons_self)
  have herror : Parse.expectPunctuation ";" first =
      .error (first.cursor.current.unexpected (.expected ";")) first := by
    change ((if first.cursor.current.isPunctuation ";" then _ else _ : Parse Token) first) = _
    rw [if_neg (by simp [hcurrent])]
    rfl
  rw [pairing.required hfront]
  change pairing.Fades after alike ((if first.cursor.atSemicolon then _ else _ : Parse _) first)
  rw [if_neg (by simp [hline])]
  change pairing.Fades after alike
    ((Parse.expectPunctuation ";" >>= fun token => pure (some token)) first)
  rw [Parse.bind_of_error herror]
  trivial

theorem endStatement_fades_of_spent (hspent : pairing.Spent first) :
    pairing.Fades .firm (fun _ _ => True) (Parse.endStatement pairing.semicolons first) :=
  endStatement_fades hspent.1 (Cursor.skipComments_of_nil hspent.2)

/-- Statements end in the same way behind a token that they may end with. -/
theorem outcome_endStatement (hbeside : pairing.Beside first second)
    (hends : Token.EndsBefore pairing.whole first.cursor.pending) :
    pairing.Outcome .firm (Option.Rel pairing.twin)
      (Parse.endStatement pairing.semicolons first)
      (Parse.endStatement pairing.semicolons second) := by
  rcases pairing.lines hbeside.cursor hends with ⟨hfront, hpending⟩ | ⟨hsemicolon, hline⟩
  · exact (endStatement_fades hfront hpending).outcome hfront _
  change pairing.Outcome .firm _ ((if first.cursor.atSemicolon then _ else _ : Parse _) first)
    ((if second.cursor.atSemicolon then _ else _ : Parse _) second)
  rw [← hsemicolon]
  split
  · rename_i hwritten
    have hcursor := pairing.semicolon hbeside.cursor hwritten (hsemicolon ▸ hwritten)
    have hskipped : pairing.Beside ⟨first.cursor.skipBlockComments, first.tree⟩
        ⟨second.cursor.skipBlockComments, second.tree⟩ := ⟨hcursor, hbeside.mirrors⟩
    have hend := (asks_isPunctuation ";").not_isEnd (Cursor.current_skipBlockComments hwritten)
    exact .inl ⟨_, _, rfl, .some (hskipped.twin hend), hskipped.passed hend⟩
  · cases hmode : pairing.semicolons with
    | required =>
        apply ((runs_expectPunctuation ";").bind fun token other htwin => ?_).beside hbeside
        exact runs_pure (Option.Rel.some htwin)
    | inserted =>
        dsimp only
        rw [← hline hmode]
        split
        · exact .inl ⟨_, _, rfl, .none, hbeside⟩
        · exact (runs_refuse _).beside hbeside

/-- A statement that ends behind what a reader has read. -/
theorem outcome_bind_ended {reader other : Parse Other}
    {next another : Other → Option Token → Parse Result}
    (hreader : pairing.Outcome between alike (reader first) (other second))
    (hends : ∀ value final, reader first = .ok value final →
      Token.EndsBefore pairing.whole final.cursor.pending)
    (hnext : ∀ value result semicolon final, alike value result →
      Option.Rel pairing.twin semicolon final →
      pairing.Runs .firm after same (next value semicolon) (another result final)) :
    pairing.Outcome after same
      ((reader >>= fun value => Parse.endStatement pairing.semicolons >>= next value) first)
      ((other >>= fun result => Parse.endStatement pairing.semicolons >>= another result)
        second) := by
  apply outcome_bind hreader
  · intro value result session final hok hsame hsessions
    apply (outcome_endStatement hsessions (hends value session hok)).bind
    intro semicolon _ _ _ _ hsemicolon hended
    exact (hnext value result semicolon _ hsame hsemicolon).beside hended
  · intro value session _ _ hsession _
    exact (endStatement_fades_of_spent hsession).bind

theorem Runs.bind_ended {reader other : Parse Other}
    {next another : Other → Option Token → Parse Result}
    (hreader : pairing.Runs before .loose alike reader other)
    (hends : ∀ (session : Session) value final, session.cursor.pending <:+ pairing.whole →
      reader session = .ok value final → Token.EndsBefore pairing.whole final.cursor.pending)
    (hnext : ∀ value result semicolon final, alike value result →
      Option.Rel pairing.twin semicolon final →
      pairing.Runs .firm after same (next value semicolon) (another result final)) :
    pairing.Runs before after same
      (reader >>= fun value => Parse.endStatement pairing.semicolons >>= next value)
      (other >>= fun result => Parse.endStatement pairing.semicolons >>= another result) where
  beside {first second} hbeside :=
    outcome_bind_ended (hreader.beside hbeside)
      (fun value final => hends first value final (pairing.inside hbeside.cursor)) hnext
  spent hloose hsession := by
    apply fades_bind (hreader.spent hloose hsession)
    intro value final _ _ hfinal _
    exact (endStatement_fades_of_spent hfinal).bind

end Pairing

end ScriptSyntax

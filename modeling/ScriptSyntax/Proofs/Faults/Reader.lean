import ScriptSyntax.Proofs.Progress

/-!
# Where readers fail

A reader moves forwards and adds nodes, and one that fails points at the token that it stands
before.  There is one exception: that a definition lacks a name is noticed behind its body only,
and then the keyword that it opens with is pointed at.
-/

namespace ScriptSyntax

open Parse

namespace Session

variable {first second third : Session}

/-- The later session has no other tokens to come than the last ones of the earlier. -/
def Before (session later : Session) : Prop :=
  later.cursor.upcoming <:+ session.cursor.upcoming

theorem Before.refl (session : Session) : session.Before session :=
  List.suffix_rfl

theorem Before.trans (hfirst : first.Before second) (hsecond : second.Before third) :
    first.Before third :=
  List.IsSuffix.trans hsecond hfirst

/-- Tokens are passed from the front. -/
theorem before_of_suffix {session : Session} {cursor : Cursor} {tree : Tree}
    (hpending : cursor.pending <:+ session.cursor.pending)
    (hlast : cursor.last = session.cursor.last) : session.Before ⟨cursor, tree⟩ := by
  obtain ⟨passed, hpassed⟩ := hpending
  refine ⟨passed, ?_⟩
  rw [Cursor.upcoming, Cursor.upcoming, hlast, ← hpassed, List.append_assoc]

/-- The later session has passed tokens and added nodes. -/
structure Onwards (session later : Session) : Prop where
  before : session.Before later
  kept : session.tree.StandsIn later.tree

theorem Onwards.refl (session : Session) : session.Onwards session :=
  ⟨.refl session, .refl session.tree⟩

theorem Onwards.trans (hfirst : first.Onwards second) (hsecond : second.Onwards third) :
    first.Onwards third :=
  ⟨hfirst.before.trans hsecond.before, hfirst.kept.trans hsecond.kept⟩

/-- Passing tokens adds no nodes. -/
theorem onwards_of_suffix {session : Session} {cursor : Cursor}
    (hpending : cursor.pending <:+ session.cursor.pending)
    (hlast : cursor.last = session.cursor.last) : session.Onwards ⟨cursor, session.tree⟩ :=
  ⟨before_of_suffix hpending hlast, .refl session.tree⟩

theorem onwards_grown (session : Session) (draft : Draft) :
    session.Onwards (session.grown draft) :=
  ⟨before_of_suffix List.suffix_rfl rfl, Tree.standsIn_insert _ _ _⟩

/-- From the first session on a function definition without a name is read, up to the second
session.  As a literal the function would have been read. -/
structure Nameless (semicolons : Semicolons) (opening after : Session) : Prop where
  keyword : opening.cursor.current.isKeyword "function" = true
  nameless : opening.cursor.next.kind ≠ .identifier
  read : ∃ depth,
    Production.function (.upTo semicolons depth) .definition opening =
        .error (opening.cursor.current.unexpected .expectedFunctionName) after ∧
      ∃ id final, Production.function (.upTo semicolons depth) .literal opening = .ok id final ∧
        final.cursor = after.cursor

/-- The diagnostics that a reader may fail with, by the session in which it fails. -/
inductive Fault (semicolons : Semicolons) (session : Session) : Diagnostic → Session → Prop
  | here {after : Session} {reason : Reason} : reason ≠ .expectedFunctionName →
      session.Before after → Fault semicolons session (after.cursor.current.unexpected reason) after
  | nameless {opening after : Session} : session.Before opening → opening.Before after →
      opening.Nameless semicolons after →
      Fault semicolons session (opening.cursor.current.unexpected .expectedFunctionName) after

theorem Fault.earlier {semicolons : Semicolons} {diagnostic : Diagnostic}
    (hbefore : first.Before second) (hfault : second.Fault semicolons diagnostic third) :
    first.Fault semicolons diagnostic third := by
  cases hfault with
  | here hreason hafter => exact .here hreason (hbefore.trans hafter)
  | nameless hopening hafter hnameless => exact .nameless (hbefore.trans hopening) hafter hnameless

end Session

namespace Parse

variable {Result Other : Type} {semicolons : Semicolons} {session : Session}

/-- From the session on a reader passes tokens and adds nodes, and if it fails it points at
what is at fault. -/
def PointsFrom (semicolons : Semicolons) (reader : Parse Result) (session : Session) : Prop :=
  match reader session with
  | .ok _ after => session.Onwards after
  | .error diagnostic after => session.Fault semicolons diagnostic after

/-- A reader that moves onwards and points at what is at fault, from any session on. -/
def Points (semicolons : Semicolons) (reader : Parse Result) : Prop :=
  ∀ session, reader.PointsFrom semicolons session

theorem PointsFrom.bind {reader : Parse Other} {next : Other → Parse Result}
    (hreader : reader.PointsFrom semicolons session)
    (hnext : ∀ value after, reader session = .ok value after →
      (next value).PointsFrom semicolons after) :
    (reader >>= next).PointsFrom semicolons session := by
  unfold PointsFrom at hreader ⊢
  cases houtcome : reader session with
  | ok value after =>
      rw [houtcome] at hreader
      rw [bind_of_ok houtcome]
      have hafter := hnext value after houtcome
      unfold PointsFrom at hafter
      cases hlast : next value after with
      | ok result final =>
          rw [hlast] at hafter
          exact hreader.trans hafter
      | error diagnostic final =>
          rw [hlast] at hafter
          exact hafter.earlier hreader.before
  | error diagnostic after =>
      rw [houtcome] at hreader
      rw [bind_of_error houtcome]
      exact hreader

theorem Points.bind {reader : Parse Other} {next : Other → Parse Result}
    (hreader : reader.Points semicolons) (hnext : ∀ value, (next value).Points semicolons) :
    (reader >>= next).Points semicolons :=
  fun session => (hreader session).bind fun value after _ => hnext value after

theorem Points.ite {condition : Prop} [Decidable condition] {yes no : Parse Result}
    (hyes : yes.Points semicolons) (hno : no.Points semicolons) :
    (if condition then yes else no).Points semicolons := by
  split
  · exact hyes
  · exact hno

section Rules

theorem points_pure (result : Result) : (pure result : Parse Result).Points semicolons :=
  fun session => .refl session

theorem points_refuse (reason : Reason) (hreason : reason ≠ .expectedFunctionName) :
    (refuse reason : Parse Result).Points semicolons :=
  fun session => .here hreason (.refl session)

theorem points_add (draft : Draft) : (add draft).Points semicolons :=
  fun session => session.onwards_grown draft

theorem points_current : current.Points semicolons :=
  fun session => .refl session

theorem points_next : Parse.next.Points semicolons :=
  fun session => .refl session

theorem points_cursor : cursor.Points semicolons :=
  fun session => .refl session

theorem points_advance : advance.Points semicolons :=
  fun _ => Session.onwards_of_suffix (List.tail_suffix _) rfl

theorem points_eatComments : eatComments.Points semicolons :=
  fun _ => Session.onwards_of_suffix (List.dropWhile_suffix _) rfl

theorem points_node (id : NodeId) : (node id).Points semicolons := by
  intro session
  unfold PointsFrom
  cases hfound : session.tree.find? id with
  | some found =>
      rw [node_of_find? hfound]
      exact .refl session
  | none =>
      have hget : session.tree.get id = .error ⟨id⟩ := by rw [Tree.get, hfound]
      have hsession : (get : Parse Session) session = .ok session session := rfl
      have hfails : node id session =
          .error (session.cursor.current.unexpected (.missingNode id)) session := by
        rw [node, bind_of_ok hsession, hget]
        rfl
      rw [hfails]
      exact .here Reason.noConfusion (.refl session)

theorem points_expect (test : Token → Bool) (reason : Reason)
    (hreason : reason ≠ .expectedFunctionName) : (expect test reason).Points semicolons :=
  points_current.bind fun _ => points_advance.ite (points_refuse reason hreason)

theorem points_expectPunctuation (mark : String) : (expectPunctuation mark).Points semicolons :=
  points_expect _ _ nofun

theorem points_expectKeyword (word : String) : (expectKeyword word).Points semicolons :=
  points_expect _ _ nofun

theorem points_expectIdentifier (reason : Reason) (hreason : reason ≠ .expectedFunctionName) :
    (expectIdentifier reason).Points semicolons :=
  points_expect _ reason hreason

theorem points_accept? (test : Token → Bool) : (accept? test).Points semicolons := by
  apply points_current.bind
  intro token
  apply Points.ite
  · exact points_advance.bind fun passed => points_pure _
  · exact points_pure _

theorem Points.readUnless {test : Token → Bool} {reader : Parse Result}
    (hreader : reader.Points semicolons) : (readUnless test reader).Points semicolons := by
  apply points_current.bind
  intro token
  apply Points.ite
  · exact points_pure _
  · exact hreader.bind fun result => points_pure _

theorem Points.readAfter? {test : Token → Bool} {reader : Parse Result}
    (hreader : reader.Points semicolons) : (readAfter? test reader).Points semicolons := by
  apply points_current.bind
  intro token
  apply Points.ite
  · apply points_advance.bind
    intro passed
    exact hreader.bind fun result => points_pure _
  · exact points_pure _

theorem points_separator (closing : String) :
    (Production.separator closing).Points semicolons := by
  apply points_current.bind
  intro token
  apply Points.ite
  · exact points_advance.bind fun comma => points_pure _
  · apply Points.ite
    · exact points_refuse _ nofun
    · exact points_pure _

theorem points_endStatement (mode : Semicolons) : (endStatement mode).Points semicolons := by
  apply points_cursor.bind
  intro cursor
  apply Points.ite
  · have hskipped : (move Cursor.skipBlockComments).Points semicolons := fun session =>
      Session.onwards_of_suffix (List.dropWhile_suffix _) rfl
    apply hskipped.bind
    intro _
    exact points_advance.bind fun semicolon => points_pure _
  · cases mode with
    | required => exact (points_expectPunctuation ";").bind fun semicolon => points_pure _
    | inserted => exact (points_pure _).ite (points_refuse _ nofun)

end Rules

end Parse

/-- A grammar whose readers point at what is at fault. -/
structure Grammar.Points (grammar : Grammar) (semicolons : Semicolons) : Prop where
  /-- The grammar is one of those that programs are read over. -/
  level : ∃ depth, grammar = .upTo semicolons depth
  statement (labels : Bool) : (grammar.statement labels).Points semicolons
  statements (enclosure : Enclosure) : (grammar.statements enclosure).Points semicolons
  parameters : grammar.parameters.Points semicolons
  declarations : grammar.declarations.Points semicolons
  expression (commas : Bool) : (grammar.expression commas).Points semicolons
  assignment : grammar.assignment.Points semicolons
  operand (calls : Bool) : (grammar.operand calls).Points semicolons
  operations (left : NodeId) (floor : Token.Binding) :
    (grammar.operations left floor).Points semicolons
  suffixes (target : NodeId) (calls : Bool) : (grammar.suffixes target calls).Points semicolons
  items (closing : String) : (grammar.items closing).Points semicolons
  properties : grammar.properties.Points semicolons

namespace Production

variable {grammar : Grammar} {semicolons : Semicolons} {session : Session}

/-! ## Functions -/

/-- What is read of a function before its role matters. -/
def functionParts (grammar : Grammar) :
    Parse (Token × Option Token × List Token × NodeId) := do
  let first ← advance
  let name ← accept? fun token => token.kind == .identifier
  let _ ← expectPunctuation "("
  let parameters ← grammar.parameters
  let _ ← advance
  let body ← block grammar
  return (first, name, parameters, body)

theorem function_eq (grammar : Grammar) (role : FunctionRole) :
    function grammar role = (do
      let parts ← functionParts grammar
      if role = .definition ∧ parts.2.1 = none then
        throw (parts.1.unexpected .expectedFunctionName)
      else
        add (.function role parts.1 parts.2.1 parts.2.2.1 parts.2.2.2)) := by
  simp only [function, functionParts, bind_assoc, pure_bind]

/-- The first token is kept, and a name that stands behind it. -/
theorem functionParts_meets (grammar : Grammar) (session : Session) :
    (functionParts grammar).Meets session
      (fun parts _ => parts.1 = session.cursor.current ∧
        (parts.2.1 = none → session.cursor.next.kind ≠ .identifier))
      (fun _ => True) := by
  have hany : ∀ {Result : Type} (reader : Parse Result) (later : Session),
      reader.Meets later (fun _ _ => True) (fun _ => True) := by
    intro Result reader later
    unfold Meets
    split <;> trivial
  unfold functionParts
  rw [meets_bind_advance]
  have hname : (accept? fun token => token.kind == .identifier).Meets session.passed
      (fun name _ => name = none → session.cursor.next.kind ≠ .identifier) (fun _ => True) := by
    rw [meets_accept?]
    split
    · nofun
    · rename_i hkind
      intro _ hidentifier
      exact hkind (beq_iff_eq.mpr hidentifier)
  apply hname.bind
  intro name _ hnext
  apply (hany _ _).bind
  intro opening _ _
  apply (hany _ _).bind
  intro parameters _ _
  apply (hany _ _).bind
  intro closing _ _
  apply (hany _ _).bind
  intro body _ _
  exact ⟨rfl, hnext⟩

theorem block_points (hgrammar : grammar.Points semicolons) :
    (block grammar).Points semicolons := by
  apply (points_expectPunctuation "\x7b").bind
  intro opening
  apply (hgrammar.statements .block).bind
  intro statements
  apply points_advance.bind
  intro closing
  exact points_add _

theorem functionParts_points (hgrammar : grammar.Points semicolons) :
    (functionParts grammar).Points semicolons := by
  apply points_advance.bind
  intro first
  apply (points_accept? _).bind
  intro name
  apply (points_expectPunctuation "(").bind
  intro opening
  apply hgrammar.parameters.bind
  intro parameters
  apply points_advance.bind
  intro closing
  apply (block_points hgrammar).bind
  intro body
  exact points_pure _

/-- The keyword of a definition is pointed at if its name is missing. -/
theorem function_pointsFrom (hgrammar : grammar.Points semicolons) (role : FunctionRole)
    (hkeyword : session.cursor.current.isKeyword "function" = true) :
    (function grammar role).PointsFrom semicolons session := by
  have hparts := functionParts_points hgrammar session
  have hmeets := functionParts_meets grammar session
  obtain ⟨depth, rfl⟩ := hgrammar.level
  unfold PointsFrom at hparts ⊢
  rw [function_eq]
  cases houtcome : functionParts (.upTo semicolons depth) session with
  | error diagnostic after =>
      rw [houtcome] at hparts
      rw [bind_of_error houtcome]
      exact hparts
  | ok parts after =>
      rw [houtcome] at hparts
      rw [bind_of_ok houtcome]
      obtain ⟨hfirst, hname⟩ := hmeets.of_ok houtcome
      by_cases hnameless : role = .definition ∧ parts.2.1 = none
      · rw [if_pos hnameless, hfirst]
        refine .nameless (.refl session) hparts.before ⟨hkeyword, hname hnameless.2, depth, ?_, ?_⟩
        · rw [function_eq, bind_of_ok houtcome, if_pos ⟨rfl, hnameless.2⟩, hfirst]
          rfl
        · rw [function_eq, bind_of_ok houtcome, if_neg nofun]
          exact ⟨_, _, rfl, rfl⟩
      · rw [if_neg hnameless]
        exact hparts.trans (Session.onwards_grown after _)

theorem parameters_points (hgrammar : grammar.Points semicolons) :
    (parameters grammar).Points semicolons := by
  apply points_current.bind
  intro token
  apply (points_pure _).ite
  apply Points.ite
  · exact points_refuse _ nofun
  · apply (points_expectIdentifier .expectedParameter nofun).bind
    intro name
    apply (points_separator ")").bind
    intro _
    exact hgrammar.parameters.bind fun others => points_pure _

/-! ## Expressions -/

theorem parenthesized_points (hgrammar : grammar.Points semicolons) :
    (parenthesized grammar).Points semicolons := by
  apply (points_expectPunctuation "(").bind
  intro opening
  apply (hgrammar.expression true).bind
  intro inner
  apply points_eatComments.bind
  intro comment
  apply (points_expectPunctuation ")").bind
  intro closing
  exact points_add _

theorem array_points (hgrammar : grammar.Points semicolons) :
    (array grammar).Points semicolons := by
  apply points_advance.bind
  intro opening
  apply (hgrammar.items "]").bind
  intro elements
  exact points_advance.bind fun closing => points_add _

theorem property_points (hgrammar : grammar.Points semicolons) :
    (property grammar).Points semicolons := by
  apply (points_expect _ .expectedName nofun).bind
  intro name
  apply (points_expectPunctuation ":").bind
  intro colon
  exact (hgrammar.expression false).bind fun value => points_add _

theorem properties_points (hgrammar : grammar.Points semicolons) :
    (properties grammar).Points semicolons := by
  apply points_eatComments.bind
  intro comment
  apply points_current.bind
  intro token
  apply (points_pure _).ite
  apply (property_points hgrammar).bind
  intro property
  apply points_eatComments.bind
  intro comment
  apply (points_separator "\x7d").bind
  intro _
  exact hgrammar.properties.bind fun others => points_pure _

theorem object_points (hgrammar : grammar.Points semicolons) (comment : Option Token) :
    (object grammar comment).Points semicolons := by
  apply points_advance.bind
  intro opening
  apply hgrammar.properties.bind
  intro properties
  exact points_advance.bind fun closing => points_add _

theorem arguments_points (hgrammar : grammar.Points semicolons) :
    (arguments grammar).Points semicolons := by
  apply points_advance.bind
  intro opening
  apply (hgrammar.items ")").bind
  intro expressions
  exact points_advance.bind fun closing => points_add _

theorem newObject_points (hgrammar : grammar.Points semicolons) :
    (newObject grammar).Points semicolons := by
  have hadded : ∀ (first : Token) (callee : NodeId) (arguments : Option NodeId),
      (do
        let object ← add (.newObject first callee arguments)
        grammar.suffixes object true).Points semicolons := by
    intro first callee arguments
    exact (points_add _).bind fun object => hgrammar.suffixes object true
  apply points_advance.bind
  intro first
  apply (hgrammar.operand false).bind
  intro callee
  apply points_current.bind
  intro token
  apply Points.ite
  · exact (arguments_points hgrammar).bind fun list => hadded first callee (some list)
  · exact hadded first callee none

theorem operand_points (hgrammar : grammar.Points semicolons) (calls : Bool) :
    (operand grammar calls).Points semicolons := by
  apply points_eatComments.bind
  intro comment session
  apply (points_current session).bind
  rintro token _ ⟨⟩
  have hopens := OperandStart.of_opens session.cursor.current
  cases hof : OperandStart.of session.cursor.current
  all_goals
    rw [hof] at hopens
    dsimp only
  case newObject => exact newObject_points hgrammar session
  case unary =>
    apply points_advance.bind
    intro mark
    exact (hgrammar.operand calls).bind fun inner => points_add _
  case function =>
    apply (function_pointsFrom hgrammar .literal hopens).bind
    intro literal after _
    exact hgrammar.suffixes literal true after
  case valueKeyword =>
    apply points_advance.bind
    intro word
    exact (points_add _).bind fun name => hgrammar.suffixes name calls
  case leaf =>
    apply points_advance.bind
    intro token
    exact (points_add _).bind fun leaf => hgrammar.suffixes leaf calls
  case parenthesis =>
    exact (parenthesized_points hgrammar).bind (fun inner => hgrammar.suffixes inner calls) session
  case bracket =>
    exact (array_points hgrammar).bind (fun array => hgrammar.suffixes array calls) session
  case brace =>
    exact (object_points hgrammar _).bind (fun object => hgrammar.suffixes object calls) session
  case refused => exact points_refuse .expectedOperand nofun session

theorem suffixes_points (hgrammar : grammar.Points semicolons) (target : NodeId) (calls : Bool) :
    (suffixes grammar target calls).Points semicolons := by
  apply points_current.bind
  intro token
  apply Points.ite
  · apply points_advance.bind
    intro dot
    apply (points_expect _ .expectedName nofun).bind
    intro name
    apply (points_add _).bind
    intro member
    exact (points_add _).bind fun access => hgrammar.suffixes access calls
  apply Points.ite
  · apply points_advance.bind
    intro opening
    apply (hgrammar.expression true).bind
    intro index
    apply (points_expectPunctuation "]").bind
    intro closing
    exact (points_add _).bind fun subscript => hgrammar.suffixes subscript calls
  apply Points.ite
  · apply points_advance.bind
    intro opening
    apply (hgrammar.items ")").bind
    intro items
    apply points_advance.bind
    intro closing
    exact (points_add _).bind fun call => hgrammar.suffixes call calls
  apply Points.ite
  · exact points_advance.bind fun operator => points_add _
  · exact points_pure _

theorem operations_points (hgrammar : grammar.Points semicolons) (left : NodeId)
    (floor : Token.Binding) : (operations grammar left floor).Points semicolons := by
  apply points_current.bind
  intro token
  apply (points_pure _).ite
  apply points_advance.bind
  intro operator
  apply (hgrammar.operand true).bind
  intro operand
  apply (hgrammar.operations operand _).bind
  intro right
  exact (points_add _).bind fun joined => hgrammar.operations joined floor

theorem conditional_points (hgrammar : grammar.Points semicolons) :
    (conditional grammar).Points semicolons := by
  apply (operand_points hgrammar true).bind
  intro operand
  apply (hgrammar.operations operand .lowest).bind
  intro test
  apply points_current.bind
  intro token
  apply Points.ite
  · apply points_advance.bind
    intro mark
    apply hgrammar.assignment.bind
    intro consequent
    apply (points_expectPunctuation ":").bind
    intro colon
    exact hgrammar.assignment.bind fun alternate => points_add _
  · exact points_pure _

theorem assignment_points (hgrammar : grammar.Points semicolons) :
    (assignment grammar).Points semicolons := by
  apply (conditional_points hgrammar).bind
  intro left
  apply points_current.bind
  intro token
  apply (points_pure _).ite
  apply (points_node left).bind
  intro found
  apply Points.ite
  · apply points_advance.bind
    intro operator
    exact hgrammar.assignment.bind fun right => points_add _
  · exact points_refuse _ nofun

theorem expression_points (hgrammar : grammar.Points semicolons) (commas : Bool) :
    (expression grammar commas).Points semicolons := by
  apply (assignment_points hgrammar).bind
  intro left
  apply points_current.bind
  intro token
  apply Points.ite
  · apply points_advance.bind
    intro comma
    exact (hgrammar.expression true).bind fun rest => points_add _
  · exact points_pure _

theorem items_points (hgrammar : grammar.Points semicolons) (closing : String) :
    (items grammar closing).Points semicolons := by
  apply points_eatComments.bind
  intro comment
  apply points_current.bind
  intro token
  apply (points_pure _).ite
  apply (expression_points hgrammar false).bind
  intro item
  apply points_eatComments.bind
  intro comment
  apply (points_separator closing).bind
  intro _
  exact (hgrammar.items closing).bind fun others => points_pure _

end Production

end ScriptSyntax

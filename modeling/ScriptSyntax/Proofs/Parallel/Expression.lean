import ScriptSyntax.Proofs.Parallel.Basic

/-!
# Expressions side by side

An expression may go on with whatever comes next, so a run that has only the front of the
tokens is spent at the end of it.  Brackets are closed by a token of their own, and what
stands in them keeps both runs side by side.
-/

namespace ScriptSyntax

open Parse

/-- The readers of a grammar run side by side with themselves. -/
structure Grammar.Parallel (grammar : Grammar) (pairing : Pairing) : Prop where
  semicolons : grammar.semicolons = pairing.semicolons
  reaching : grammar.Reaching pairing.whole
  statement (labels : Bool) : pairing.Runs .loose .firm pairing.node (grammar.statement labels)
    (grammar.statement labels)
  statements (enclosure : Enclosure) : enclosure ≠ .program ∨ ¬pairing.front →
    pairing.Runs .loose .firm pairing.nodes (grammar.statements enclosure)
      (grammar.statements enclosure)
  parameters : pairing.Runs .loose .firm
    (fun names others => names.map pairing.view.keep = others.map pairing.view.keep)
    grammar.parameters grammar.parameters
  declarations : pairing.Runs .loose .loose pairing.nodes grammar.declarations
    grammar.declarations
  expression (commas : Bool) : pairing.Runs .loose .loose pairing.node
    (grammar.expression commas) (grammar.expression commas)
  assignment : pairing.Runs .loose .loose pairing.node grammar.assignment grammar.assignment
  operand (calls : Bool) : pairing.Runs .loose .loose pairing.node (grammar.operand calls)
    (grammar.operand calls)
  operations (left : NodeId) (floor : Token.Binding) : pairing.Runs .loose .loose pairing.node
    (grammar.operations left floor) (grammar.operations (pairing.rename left) floor)
  suffixes (target : NodeId) (calls : Bool) : pairing.Runs .loose .loose pairing.node
    (grammar.suffixes target calls) (grammar.suffixes (pairing.rename target) calls)
  items (closing : String) : pairing.Runs .loose .firm pairing.nodes (grammar.items closing)
    (grammar.items closing)
  properties : pairing.Runs .loose .firm pairing.nodes grammar.properties grammar.properties

theorem Grammar.exhausted_parallel (pairing : Pairing) :
    (Grammar.exhausted pairing.semicolons).Parallel pairing where
  semicolons := rfl
  reaching := exhausted_reaching _ _
  statement _ := Pairing.runs_refuse _
  statements _ _ := Pairing.runs_refuse _
  parameters := Pairing.runs_refuse _
  declarations := Pairing.runs_refuse _
  expression _ := Pairing.runs_refuse _
  assignment := Pairing.runs_refuse _
  operand _ := Pairing.runs_refuse _
  operations _ _ := Pairing.runs_refuse _
  suffixes _ _ := Pairing.runs_refuse _
  items _ := Pairing.runs_refuse _
  properties := Pairing.runs_refuse _

namespace Production

open Pairing

variable {pairing : Pairing} {grammar : Grammar} {first second : Session}

theorem block_runs (hgrammar : grammar.Parallel pairing) :
    pairing.Runs .loose .firm pairing.node (block grammar) (block grammar) := by
  apply (runs_expectPunctuation "\x7b").bind
  intro opening other hopening
  apply (hgrammar.statements .block (.inl nofun)).tighten.bind_closing
    (asks_isPunctuation "\x7d") (hgrammar.reaching.statements .block)
  rintro statements _ closing final rfl hclosing
  apply runs_add
  constructor
  · simp [Draft.block, shape_iff, Shape.mapTokens, Shape.mapIdx, Shape.mapIdx_eq_map]
  · exact edge_token hopening
  · exact edge_token hclosing

theorem parameters_runs (hgrammar : grammar.Parallel pairing) :
    pairing.Runs .loose .firm
      (fun names others => names.map pairing.view.keep = others.map pairing.view.keep)
      (parameters grammar) (parameters grammar) := by
  have hname : pairing.Runs .loose .firm
      (fun names others => names.map pairing.view.keep = others.map pairing.view.keep)
      (do
        let name ← expectIdentifier .expectedParameter
        separator ")"
        return name :: (← grammar.parameters))
      (do
        let name ← expectIdentifier .expectedParameter
        separator ")"
        return name :: (← grammar.parameters)) := by
    apply (runs_expect asks_identifier _).bind
    rintro name other ⟨hname, hidentifier⟩
    apply (runs_separator ")").tighten.bind
    intro _ _ _
    apply hgrammar.parameters.tighten.bind
    intro names others hnames
    apply runs_pure
    rw [List.map_cons, List.map_cons, hnames, pairing.keep_identifier hname hidentifier]
  apply runs_bind_current
  · intro first second hbeside htwin
    have hsignal := pairing.signal htwin
    rw [← (Token.superficial_isPunctuation ")").congr hsignal,
      ← Token.superficial_isEnd.congr hsignal]
    split
    · apply (runs_pure _).beside hbeside
      rfl
    · split
      · exact (runs_refuse _).beside hbeside
      · exact hname.beside hbeside
  · intro session hspent
    rw [(asks_isPunctuation ")").of_isEnd hspent.isEnd, hspent.isEnd]
    trivial

/-- A function from its first token on, whatever that is. -/
theorem function_outcome (hgrammar : grammar.Parallel pairing) (role : FunctionRole)
    (hbeside : pairing.Beside first second) (hfirst : first.cursor.current.isEnd = false) :
    pairing.Outcome .firm pairing.node (function grammar role first)
      (function grammar role second) := by
  apply outcome_bind_advance hbeside hfirst
  intro token other htoken
  apply (runs_accept? asks_identifier).tighten.bind
  intro name copy hname
  apply (runs_expectPunctuation "(").bind
  intro _ _ _
  apply hgrammar.parameters.tighten.bind_closing (asks_isPunctuation ")")
    hgrammar.reaching.parameters
  intro parameters others _ _ hparameters _
  apply (block_runs hgrammar).tighten.bind
  rintro body _ rfl
  have hkept := View.map_keep_of_rel hname fun _ _ htwin => pairing.keep_identifier htwin.1 htwin.2
  have hdrafts : pairing.Drafts (.function role token name parameters body)
      (.function role other copy others (pairing.rename body)) := by
    constructor
    · simp [Draft.function, shape_iff, Shape.mapTokens, Shape.mapIdx, hkept, hparameters]
    · exact edge_token htoken
    · exact edge_node body
  have hmissing : (role = .definition ∧ name = none) ↔ (role = .definition ∧ copy = none) := by
    cases hname <;> simp
  simp only [← hmissing]
  split
  · exact runs_throw (pairing.unexpected _ htoken)
  · exact runs_add hdrafts

theorem parenthesized_runs (hgrammar : grammar.Parallel pairing) :
    pairing.Runs .loose .firm pairing.node (parenthesized grammar) (parenthesized grammar) := by
  apply (runs_expectPunctuation "(").bind
  intro opening other hopening
  apply (hgrammar.expression true).tighten.bind
  rintro inner _ rfl
  apply runs_eatComments.bind
  intro _ _ _
  apply (runs_expectPunctuation ")").bind
  intro closing final hclosing
  apply runs_add
  constructor
  · simp [Draft.parenthesized, shape_iff, Shape.mapTokens, Shape.mapIdx]
  · exact edge_token hopening
  · exact edge_token hclosing

/-- A list between two marks. -/
theorem bracketed_outcome {reader : Parse (List NodeId)} {closing : String}
    {shape other : List NodeId → Shape NodeId}
    (hshape : ∀ ids, pairing.shape (shape ids) (other (ids.map pairing.rename)))
    (hreader : pairing.Runs .loose .firm pairing.nodes reader reader)
    (hclosing : ∀ session, reader.GoesOnTo grammar.semicolons pairing.whole session
      (·.isPunctuation closing))
    (hbeside : pairing.Beside first second) (hfirst : first.cursor.current.isEnd = false) :
    pairing.Outcome .firm pairing.node
      ((do
        let first ← advance
        let ids ← reader
        let last ← advance
        add ⟨shape ids, .token first, .token last⟩ : Parse NodeId) first)
      ((do
        let first ← advance
        let ids ← reader
        let last ← advance
        add ⟨other ids, .token first, .token last⟩ : Parse NodeId) second) := by
  apply outcome_bind_advance hbeside hfirst
  intro opening _ hopening
  apply hreader.tighten.bind_closing (asks_isPunctuation closing) hclosing
  rintro ids _ last final rfl hlast
  exact runs_add ⟨hshape ids, edge_token hopening, edge_token hlast⟩

theorem array_outcome (hgrammar : grammar.Parallel pairing)
    (hbeside : pairing.Beside first second) (hfirst : first.cursor.current.isEnd = false) :
    pairing.Outcome .firm pairing.node (array grammar first) (array grammar second) := by
  refine bracketed_outcome ?_ (hgrammar.items "]") (hgrammar.reaching.items "]") hbeside hfirst
  intro ids
  simp [shape_iff, Shape.mapTokens, Shape.mapIdx, Shape.mapIdx_eq_map]

theorem object_outcome (hgrammar : grammar.Parallel pairing) {comment other : Option Token}
    (hcomment : comment.map pairing.view.keep = other.map pairing.view.keep)
    (hbeside : pairing.Beside first second) (hfirst : first.cursor.current.isEnd = false) :
    pairing.Outcome .firm pairing.node (object grammar comment first)
      (object grammar other second) := by
  refine bracketed_outcome ?_ hgrammar.properties hgrammar.reaching.properties hbeside hfirst
  intro ids
  simp [shape_iff, Shape.mapTokens, Shape.mapIdx, Shape.mapIdx_eq_map, hcomment]

theorem arguments_outcome (hgrammar : grammar.Parallel pairing)
    (hbeside : pairing.Beside first second) (hfirst : first.cursor.current.isEnd = false) :
    pairing.Outcome .firm pairing.node (arguments grammar first) (arguments grammar second) := by
  refine bracketed_outcome ?_ (hgrammar.items ")") (hgrammar.reaching.items ")") hbeside hfirst
  intro ids
  simp [shape_iff, Shape.mapTokens, Shape.mapIdx, Shape.mapIdx_eq_map]

theorem property_runs (hgrammar : grammar.Parallel pairing) :
    pairing.Runs .loose .loose pairing.node (property grammar) (property grammar) := by
  apply (runs_expect asks_isPropertyName _).bind
  rintro name other ⟨hname, hproperty⟩
  apply (runs_expectPunctuation ":").tighten.bind
  intro _ _ _
  apply (hgrammar.expression false).tighten.bind
  rintro value _ rfl
  apply runs_add
  have hkept := pairing.keep_asName hname (Token.not_semicolon_of_isPropertyName hproperty)
  constructor
  · simp [Draft.property, shape_iff, Shape.mapTokens, Shape.mapIdx, hkept]
  · exact edge_asName hname
  · exact edge_node value

theorem properties_runs (hgrammar : grammar.Parallel pairing) :
    pairing.Runs .loose .firm pairing.nodes (properties grammar) (properties grammar) := by
  apply runs_eatComments.bind
  intro _ _ _
  apply runs_choice (asks_isPunctuation "\x7d")
  · intro first second hbeside _
    apply (runs_pure _).beside hbeside
    rfl
  apply (property_runs hgrammar).bind
  rintro first _ rfl
  apply runs_eatComments.bind
  intro _ _ _
  apply (runs_separator "\x7d").bind
  intro _ _ _
  apply hgrammar.properties.tighten.bind
  rintro others _ rfl
  exact runs_pure rfl

theorem newObject_outcome (hgrammar : grammar.Parallel pairing)
    (hbeside : pairing.Beside first second) (hfirst : first.cursor.current.isEnd = false) :
    pairing.Outcome .loose pairing.node (newObject grammar first) (newObject grammar second) := by
  apply outcome_bind_advance hbeside hfirst
  intro token other htoken
  apply (hgrammar.operand false).tighten.bind
  rintro callee _ rfl
  have hadded : ∀ arguments : Option NodeId, pairing.Runs .loose .loose pairing.node
      (add (.newObject token callee arguments) >>= fun id => grammar.suffixes id true)
      (add (.newObject other (pairing.rename callee) (arguments.map pairing.rename)) >>=
        fun id => grammar.suffixes id true) := by
    intro arguments
    apply (runs_add _).bind
    · rintro id _ rfl
      exact hgrammar.suffixes id true
    constructor
    · simp [Draft.newObject, shape_iff, Shape.mapTokens, Shape.mapIdx]
    · exact edge_token htoken
    · exact edge_nodeOr (edge_node callee) arguments
  apply runs_choice (asks_isPunctuation "(")
  · intro first second hbeside hopening
    have hend := (asks_isPunctuation "(").not_isEnd hopening
    apply (arguments_outcome hgrammar hbeside hend).bind
    rintro arguments _ session final _ rfl hsessions
    exact (hadded (some arguments)).beside hsessions
  · exact hadded none

/-- An operand with what follows it. -/
theorem suffixed_outcome {reader other : Parse NodeId} {after : Hold}
    (hgrammar : grammar.Parallel pairing) (calls : Bool)
    (hreader : pairing.Outcome after pairing.node (reader first) (other second)) :
    pairing.Outcome .loose pairing.node ((reader >>= fun id => grammar.suffixes id calls) first)
      ((other >>= fun id => grammar.suffixes id calls) second) := by
  apply outcome_bind hreader
  · rintro id _ session final _ rfl hsessions
    exact (hgrammar.suffixes id calls).beside hsessions
  · rintro id session _ _ hsession rfl
    exact (hgrammar.suffixes id calls).spent rfl hsession

/-- A token that is an operand by itself. -/
theorem leaf_outcome (hgrammar : grammar.Parallel pairing) (kind : Leaf) (calls : Bool)
    {token other : Token} (hkeep : pairing.view.keep token = pairing.view.keep other)
    (hplace : pairing.edge (.token token) (.token other))
    (hbeside : pairing.Beside first second) (hfirst : first.cursor.current.isEnd = false) :
    pairing.Outcome .loose pairing.node
      ((do
        let _ ← advance
        grammar.suffixes (← add (.leaf kind token)) calls : Parse NodeId) first)
      ((do
        let _ ← advance
        grammar.suffixes (← add (.leaf kind other)) calls : Parse NodeId) second) := by
  apply outcome_bind_advance hbeside hfirst
  intro _ _ _
  apply (runs_add _).bind
  · rintro id _ rfl
    exact (hgrammar.suffixes id calls).tighten
  constructor
  · simp [Draft.leaf, shape_iff, Shape.mapTokens, Shape.mapIdx, hkeep]
  · exact hplace
  · exact hplace

theorem unaryBefore_outcome (hgrammar : grammar.Parallel pairing) (calls : Bool)
    {token other : Token} (htoken : pairing.twin token other)
    (hmark : token.isPunctuation ";" = false)
    (hbeside : pairing.Beside first second) (hfirst : first.cursor.current.isEnd = false) :
    pairing.Outcome .loose pairing.node
      ((do
        let _ ← advance
        let inner ← grammar.operand calls
        add (.unaryBefore token inner) : Parse NodeId) first)
      ((do
        let _ ← advance
        let inner ← grammar.operand calls
        add (.unaryBefore other inner) : Parse NodeId) second) := by
  apply outcome_bind_advance hbeside hfirst
  intro _ _ _
  apply (hgrammar.operand calls).tighten.bind
  rintro inner _ rfl
  apply runs_add
  constructor
  · simp [Draft.unaryBefore, shape_iff, Shape.mapTokens, Shape.mapIdx, pairing.keep htoken hmark]
  · exact edge_token htoken
  · exact edge_node inner

theorem OperandStart.not_semicolon_of_leaf {kind : Leaf} {token : Token}
    (htoken : (OperandStart.leaf kind).Opens token) : token.isPunctuation ";" = false := by
  apply Token.not_semicolon_of_kind
  cases kind with
  | comment => exact htoken.elim
  | _ =>
    have hkind : token.kind = _ := htoken
    rw [hkind]
    nofun

theorem operand_runs (hgrammar : grammar.Parallel pairing) (calls : Bool) :
    pairing.Runs .loose .loose pairing.node (operand grammar calls) (operand grammar calls) := by
  apply runs_eatComments.bind
  intro comment annotation hcomment
  apply runs_bind_current
  · intro first second hbeside htwin
    have hopens := OperandStart.of_opens first.cursor.current
    have hend : OperandStart.of first.cursor.current ≠ .refused →
        first.cursor.current.isEnd = false := OperandStart.isEnd_of_ne_refused
    rw [← Token.superficial_operandStart.congr (pairing.signal htwin)]
    cases hof : OperandStart.of first.cursor.current
    all_goals rw [hof] at hopens hend
    case newObject => exact newObject_outcome hgrammar hbeside (hend nofun)
    case unary =>
      have hmark := Token.not_semicolon_of_operator hopens
      exact unaryBefore_outcome hgrammar calls htwin hmark hbeside (hend nofun)
    case function =>
      exact suffixed_outcome hgrammar true
        (function_outcome hgrammar .literal hbeside (hend nofun))
    case valueKeyword =>
      have hname := Token.isMemberName_of_isValueKeyword hopens
      have hkeep := pairing.keep_asName htwin (Token.not_semicolon_of_isMemberName hname)
      exact leaf_outcome hgrammar .name calls hkeep (edge_asName htwin) hbeside (hend nofun)
    case leaf kind =>
      have hkeep := pairing.keep htwin (OperandStart.not_semicolon_of_leaf hopens)
      exact leaf_outcome hgrammar kind calls hkeep (edge_token htwin) hbeside (hend nofun)
    case parenthesis =>
      exact suffixed_outcome hgrammar calls ((parenthesized_runs hgrammar).beside hbeside)
    case bracket =>
      exact suffixed_outcome hgrammar calls (array_outcome hgrammar hbeside (hend nofun))
    case brace =>
      exact suffixed_outcome hgrammar calls
        (object_outcome hgrammar hcomment hbeside (hend nofun))
    case refused => exact (runs_refuse _).beside hbeside
  · intro session hspent
    have hrefused : OperandStart.of session.cursor.current = .refused := by
      by_contra hopens
      have hend := OperandStart.isEnd_of_ne_refused hopens
      rw [hspent.isEnd] at hend
      cases hend
    rw [hrefused]
    trivial

/-- An operator between nodes that both runs have. -/
theorem binary_drafts {left right : NodeId} {token other : Token}
    (htoken : pairing.twin token other) (hkept : token.isPunctuation ";" = false) :
    pairing.Drafts (.binary left token right)
      (.binary (pairing.rename left) other (pairing.rename right)) := by
  constructor
  · simp [Draft.binary, shape_iff, Shape.mapTokens, Shape.mapIdx, pairing.keep htoken hkept]
  · exact edge_node left
  · exact edge_node right

theorem member_outcome (hgrammar : grammar.Parallel pairing) (target : NodeId) (calls : Bool)
    {token other : Token} (htoken : pairing.twin token other)
    (hdot : token.isPunctuation "." = true) (hbeside : pairing.Beside first second)
    (hfirst : first.cursor.current.isEnd = false) :
    pairing.Outcome .loose pairing.node
      ((do
        let _ ← advance
        let name ← expect Token.isMemberName .expectedName
        let member ← add (.leaf .name name.asName)
        grammar.suffixes (← add (.binary target token member)) calls : Parse NodeId) first)
      ((do
        let _ ← advance
        let name ← expect Token.isMemberName .expectedName
        let member ← add (.leaf .name name.asName)
        grammar.suffixes (← add (.binary (pairing.rename target) other member)) calls :
          Parse NodeId) second) := by
  apply outcome_bind_advance hbeside hfirst
  intro _ _ _
  apply (runs_expect asks_isMemberName _).tighten.bind
  rintro name copy ⟨hname, hword⟩
  have hleaf : pairing.Drafts (.leaf .name name.asName) (.leaf .name copy.asName) := by
    constructor
    · simp [Draft.leaf, shape_iff, Shape.mapTokens, Shape.mapIdx,
        pairing.keep_asName hname (Token.not_semicolon_of_isMemberName hword)]
    · exact edge_asName hname
    · exact edge_asName hname
  apply (runs_add hleaf).bind
  rintro member _ rfl
  apply (runs_add (binary_drafts htoken
    (Token.not_isPunctuation_of_isPunctuation hdot (by decide)))).bind
  rintro id _ rfl
  exact (hgrammar.suffixes id calls).tighten

theorem subscript_outcome (hgrammar : grammar.Parallel pairing) (target : NodeId) (calls : Bool)
    (hbeside : pairing.Beside first second) (hfirst : first.cursor.current.isEnd = false) :
    pairing.Outcome .loose pairing.node
      ((do
        let _ ← advance
        let index ← grammar.expression true
        let last ← expectPunctuation "]"
        grammar.suffixes (← add (.subscript target index last)) calls : Parse NodeId) first)
      ((do
        let _ ← advance
        let index ← grammar.expression true
        let last ← expectPunctuation "]"
        grammar.suffixes (← add (.subscript (pairing.rename target) index last)) calls :
          Parse NodeId) second) := by
  apply outcome_bind_advance hbeside hfirst
  intro _ _ _
  apply (hgrammar.expression true).tighten.bind
  rintro index _ rfl
  apply (runs_expectPunctuation "]").bind
  intro last final hlast
  apply (runs_add _).bind
  · rintro id _ rfl
    exact (hgrammar.suffixes id calls).tighten
  constructor
  · simp [Draft.subscript, shape_iff, Shape.mapTokens, Shape.mapIdx]
  · exact edge_node target
  · exact edge_token hlast

theorem application_outcome (hgrammar : grammar.Parallel pairing) (target : NodeId)
    (calls : Bool) (hbeside : pairing.Beside first second)
    (hfirst : first.cursor.current.isEnd = false) :
    pairing.Outcome .loose pairing.node
      ((do
        let _ ← advance
        let items ← grammar.items ")"
        let last ← advance
        grammar.suffixes (← add (.application target items last)) calls : Parse NodeId) first)
      ((do
        let _ ← advance
        let items ← grammar.items ")"
        let last ← advance
        grammar.suffixes (← add (.application (pairing.rename target) items last)) calls :
          Parse NodeId) second) := by
  apply outcome_bind_advance hbeside hfirst
  intro _ _ _
  apply (hgrammar.items ")").tighten.bind_closing (asks_isPunctuation ")")
    (hgrammar.reaching.items ")")
  rintro items _ last final rfl hlast
  apply (runs_add _).bind
  · rintro id _ rfl
    exact (hgrammar.suffixes id calls).tighten
  constructor
  · simp [Draft.application, shape_iff, Shape.mapTokens, Shape.mapIdx, Shape.mapIdx_eq_map]
  · exact edge_node target
  · exact edge_token hlast

theorem unaryAfter_outcome (target : NodeId) {token other : Token}
    (htoken : pairing.twin token other) (hoperator : token.isPostfix = true)
    (hbeside : pairing.Beside first second) (hfirst : first.cursor.current.isEnd = false) :
    pairing.Outcome .loose pairing.node
      ((advance >>= fun _ => add (.unaryAfter target token)) first)
      ((advance >>= fun _ => add (.unaryAfter (pairing.rename target) other)) second) := by
  apply outcome_bind_advance hbeside hfirst
  intro _ _ _
  apply (runs_add _).loosen
  constructor
  · simp [Draft.unaryAfter, shape_iff, Shape.mapTokens, Shape.mapIdx,
      pairing.keep htoken (Token.not_semicolon_of_operator hoperator)]
  · exact edge_node target
  · exact edge_token htoken

theorem asks_suffix (calls : Bool) :
    Asks fun token => calls && token.isPostfix && !token.newlineBefore := by
  apply Asks.of_isWord
  · intro token
    simp only [Bool.and_assoc]
    exact congrArg (calls && ·) (Token.superficial_suffix token)
  · intro token htoken
    simp only [Bool.and_eq_true] at htoken
    exact Token.isWord_of_isPostfix htoken.1.2

theorem asks_call (calls : Bool) (mark : String) :
    Asks fun token => calls && token.isPunctuation mark := by
  apply Asks.of_isWord
  · intro token
    exact congrArg (calls && ·) (Token.superficial_isPunctuation mark token)
  · intro token htoken
    rw [Bool.and_eq_true] at htoken
    exact Token.isWord_of_isPunctuation htoken.2

theorem suffixes_runs (hgrammar : grammar.Parallel pairing) (target : NodeId) (calls : Bool) :
    pairing.Runs .loose .loose pairing.node (suffixes grammar target calls)
      (suffixes grammar (pairing.rename target) calls) := by
  apply runs_bind_current
  · intro first second hbeside htwin
    have hsignal := pairing.signal htwin
    rw [← (asks_isPunctuation ".").superficial.congr hsignal,
      ← (asks_isPunctuation "[").superficial.congr hsignal,
      ← (asks_call calls "(").superficial.congr hsignal,
      ← (asks_suffix calls).superficial.congr hsignal]
    split
    · rename_i hdot
      exact member_outcome hgrammar target calls htwin hdot hbeside
        ((asks_isPunctuation ".").not_isEnd hdot)
    · split
      · rename_i hopening
        exact subscript_outcome hgrammar target calls hbeside
          ((asks_isPunctuation "[").not_isEnd hopening)
      · split
        · rename_i hopening
          exact application_outcome hgrammar target calls hbeside
            ((asks_call calls "(").not_isEnd hopening)
        · split
          · rename_i hsuffix
            have hend := (asks_suffix calls).not_isEnd hsuffix
            simp only [Bool.and_eq_true] at hsuffix
            exact unaryAfter_outcome target htwin hsuffix.1.2 hbeside hend
          · apply (runs_pure _).beside hbeside
            rfl
  · intro session hspent
    have hend := hspent.isEnd
    rw [(asks_isPunctuation ".").of_isEnd hend, (asks_isPunctuation "[").of_isEnd hend,
      (asks_call calls "(").of_isEnd hend, (asks_suffix calls).of_isEnd hend]
    exact ⟨rfl, hspent, _, rfl⟩

theorem operations_runs (hgrammar : grammar.Parallel pairing) (left : NodeId)
    (floor : Token.Binding) :
    pairing.Runs .loose .loose pairing.node (operations grammar left floor)
      (operations grammar (pairing.rename left) floor) := by
  apply runs_bind_current
  · intro first second hbeside htwin
    rw [← Token.superficial_binding.congr (pairing.signal htwin)]
    split
    · apply (runs_pure _).beside hbeside
      rfl
    · rename_i hlevel
      have hend := Token.isEnd_of_isWord (Token.isWord_of_not_binding_le hlevel)
      have hkept := Token.not_isPunctuation_of_lt_binding (Nat.lt_of_not_le hlevel) ";"
      apply outcome_bind_known hbeside hend
      apply (hgrammar.operand true).tighten.bind
      rintro operand _ rfl
      apply (hgrammar.operations operand _).bind
      rintro right _ rfl
      apply (runs_add (binary_drafts htwin hkept)).bind
      rintro joined _ rfl
      exact hgrammar.operations joined floor
  · intro session hspent
    have hlevel : session.cursor.current.binding ≤ floor := by
      rw [Token.binding, beq_iff_eq.mp hspent.isEnd]
      exact Token.Binding.lowest_le floor
    rw [if_pos hlevel]
    exact ⟨rfl, hspent, _, rfl⟩

theorem conditional_runs (hgrammar : grammar.Parallel pairing) :
    pairing.Runs .loose .loose pairing.node (conditional grammar) (conditional grammar) := by
  apply (operand_runs hgrammar true).bind
  rintro operand _ rfl
  apply (hgrammar.operations operand .lowest).bind
  rintro test _ rfl
  apply runs_choice_advance (asks_isOperator "?")
  · intro _ _ _ _
    apply hgrammar.assignment.tighten.bind
    rintro consequent _ rfl
    apply (runs_expectPunctuation ":").bind
    intro _ _ _
    apply hgrammar.assignment.tighten.bind
    rintro alternate _ rfl
    apply runs_add
    constructor
    · simp [Draft.conditional, shape_iff, Shape.mapTokens, Shape.mapIdx]
    · exact edge_node test
    · exact edge_node alternate
  · exact runs_pure rfl

/-- A node that both runs have is looked up; it can be assigned to in both runs or in neither. -/
theorem outcome_bind_node {Result : Type} {after : Hold} {same : Result → Result → Prop}
    {id : NodeId} {found : Node} {next another : Node → Parse Result}
    (hbeside : pairing.Beside first second) (hfound : first.tree.find? id = some found)
    (hnext : ∀ other : Node, found.shape.isAssignable = other.shape.isAssignable →
      pairing.Outcome after same (next found first) (another other second)) :
    pairing.Outcome after same ((node id >>= next) first)
      ((node (pairing.rename id) >>= another) second) := by
  have hnodes := hbeside.mirrors.nodes id
  rw [hfound] at hnodes
  obtain ⟨other, hother, hseen⟩ := Option.map_eq_some_iff.mp hnodes
  have hassignable := congrArg (fun node => node.shape.isAssignable) hseen
  simp only [Node.seen, Node.rename, Shape.isAssignable_seen, Shape.isAssignable_map]
    at hassignable
  have hrenamed : second.tree.find? (pairing.rename id) = some other := hother
  rw [bind_of_ok (node_of_find? hfound), bind_of_ok (node_of_find? hrenamed)]
  exact hnext other hassignable.symm

theorem asks_isAssignment : Asks Token.isAssignment :=
  .of_isWord Token.superficial_isAssignment fun _ => Token.isWord_of_isAssignment

/-- An assignment to an expression that has been read. -/
theorem assigned_outcome (hgrammar : grammar.Parallel pairing) {left : NodeId} {found : Node}
    (hbeside : pairing.Beside first second) (hfound : first.tree.find? left = some found)
    (hassignment : first.cursor.current.isAssignment = true) :
    pairing.Outcome .loose pairing.node
      ((do
        if (← node left).shape.isAssignable then
          let operator ← advance
          let right ← grammar.assignment
          add (.binary left operator right)
        else
          refuse .notAssignable : Parse NodeId) first)
      ((do
        if (← node (pairing.rename left)).shape.isAssignable then
          let operator ← advance
          let right ← grammar.assignment
          add (.binary (pairing.rename left) operator right)
        else
          refuse .notAssignable : Parse NodeId) second) := by
  apply outcome_bind_node hbeside hfound
  intro other hassignable
  rw [← hassignable]
  split
  · have hend := asks_isAssignment.not_isEnd hassignment
    have hkept := Token.not_semicolon_of_operator hassignment
    apply outcome_bind_known hbeside hend
    apply hgrammar.assignment.tighten.bind
    rintro right _ rfl
    exact runs_add (binary_drafts (hbeside.twin hend) hkept)
  · exact (runs_refuse _).beside hbeside

theorem assignment_runs (hgrammar : grammar.Parallel pairing) :
    pairing.Runs .loose .loose pairing.node (assignment grammar) (assignment grammar) := by
  have hspent : ∀ (left : NodeId) (session : Session), pairing.Spent session →
      pairing.Fades .loose pairing.node
        ((do
          if !(← current).isAssignment then
            return left
          else if (← node left).shape.isAssignable then
            let operator ← advance
            let right ← grammar.assignment
            add (.binary left operator right)
          else
            refuse .notAssignable : Parse NodeId) session) := by
    intro left session hspent
    have hcurrent := asks_isAssignment.of_isEnd hspent.isEnd
    change pairing.Fades .loose pairing.node
      ((if !session.cursor.current.isAssignment then _ else _ : Parse NodeId) session)
    rw [if_pos (by simp [hcurrent])]
    exact ⟨rfl, hspent, _, rfl⟩
  constructor
  · intro first second hbeside
    apply outcome_bind ((conditional_runs hgrammar).beside hbeside)
    · rintro left _ session final hok rfl hsessions
      obtain ⟨found, hfound, -⟩ := ((conditional_stops hgrammar.reaching
        (pairing.inside hbeside.cursor)).of_ok hok).2
      change pairing.Outcome .loose pairing.node
        ((if !session.cursor.current.isAssignment then _ else _ : Parse NodeId) session)
        ((if !final.cursor.current.isAssignment then _ else _ : Parse NodeId) final)
      rcases hsessions.spent_or_twin with hend | htwin
      · exact (hspent left session hend).outcome hend.1 _
      · rw [← asks_isAssignment.superficial.congr (pairing.signal htwin)]
        split
        · apply (runs_pure _).beside hsessions
          rfl
        · rename_i hassignment
          exact assigned_outcome hgrammar hsessions hfound (by simpa using hassignment)
    · rintro left session _ _ hsession -
      exact hspent left session hsession
  · intro _ hloose hsession
    apply fades_bind ((conditional_runs hgrammar).spent hloose hsession)
    rintro left session _ _ hsession -
    exact hspent left session hsession

theorem expression_runs (hgrammar : grammar.Parallel pairing) (commas : Bool) :
    pairing.Runs .loose .loose pairing.node (expression grammar commas)
      (expression grammar commas) := by
  apply (assignment_runs hgrammar).bind
  rintro first _ rfl
  apply runs_choice_advance (asks_call commas ",")
  · intro comma other hcomma hmark
    rw [Bool.and_eq_true] at hmark
    apply (hgrammar.expression true).tighten.bind
    rintro rest _ rfl
    exact runs_add (binary_drafts hcomma
      (Token.not_isPunctuation_of_isPunctuation hmark.2 (by decide)))
  · exact runs_pure rfl

theorem items_runs (hgrammar : grammar.Parallel pairing) (closing : String) :
    pairing.Runs .loose .firm pairing.nodes (items grammar closing) (items grammar closing) := by
  apply runs_eatComments.bind
  intro _ _ _
  apply runs_choice (asks_isPunctuation closing)
  · intro first second hbeside _
    apply (runs_pure _).beside hbeside
    rfl
  apply (expression_runs hgrammar false).bind
  rintro first _ rfl
  apply runs_eatComments.bind
  intro _ _ _
  apply (runs_separator closing).bind
  intro _ _ _
  apply (hgrammar.items closing).tighten.bind
  rintro others _ rfl
  exact runs_pure rfl

end Production

end ScriptSyntax

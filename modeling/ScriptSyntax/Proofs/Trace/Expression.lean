import ScriptSyntax.Parse.Expression
import ScriptSyntax.Proofs.Trace.Reader

/-!
# Traces of expressions

The productions of expressions push one part, the node of the expression;
productions that continue an operand put the new node in its place.
-/

namespace ScriptSyntax

open Parse

/-- The part of one node. -/
def Part.one (id : NodeId) : List (Part NodeId) :=
  [.below id]

/-- The parts of some nodes. -/
def Part.many (ids : List NodeId) : List (Part NodeId) :=
  ids.map .below

/-- From the given session the reader continues a node: whatever has that node as
its last part has the result in its place afterwards. -/
def Parse.Continues (reader : Parse NodeId) (target : NodeId) (session : Session) : Prop :=
  ∀ start, Trace start [.below target] session →
    reader.Meets session (fun id after => Trace start [.below id] after) (Stuck start)

/-- All readers of a grammar leave traces. -/
structure Grammar.Traced (grammar : Grammar) : Prop where
  statement (labels : Bool) (session : Session) :
    (grammar.statement labels).Pushes session Part.one
  statements (enclosure : Enclosure) (session : Session) :
    (grammar.statements enclosure).PushesTo session Part.many enclosure.closedBy
  parameters (session : Session) :
    grammar.parameters.PushesTo session (List.map .own) (·.isPunctuation ")")
  declarations (session : Session) : grammar.declarations.Pushes session Part.many
  expression (commas : Bool) (session : Session) :
    (grammar.expression commas).Pushes session Part.one
  assignment (session : Session) : grammar.assignment.Pushes session Part.one
  operand (calls : Bool) (session : Session) :
    (grammar.operand calls).Pushes session Part.one
  operations (left : NodeId) (floor : Token.Binding) (session : Session) :
    (grammar.operations left floor).Continues left session
  suffixes (target : NodeId) (calls : Bool) (session : Session) :
    (grammar.suffixes target calls).Continues target session
  items (closing : String) (session : Session) :
    (grammar.items closing).PushesTo session Part.many (·.isPunctuation closing)
  properties (session : Session) :
    grammar.properties.PushesTo session Part.many (·.isPunctuation "\x7d")

theorem Grammar.exhausted_traced (semicolons : Semicolons) :
    (Grammar.exhausted semicolons).Traced where
  statement _ _ := Stuck.of_trace Trace.start
  statements _ _ := Stuck.of_trace Trace.start
  parameters _ := Stuck.of_trace Trace.start
  declarations _ := Stuck.of_trace Trace.start
  expression _ _ := Stuck.of_trace Trace.start
  assignment _ := Stuck.of_trace Trace.start
  operand _ _ := Stuck.of_trace Trace.start
  operations _ _ _ _ hdone := Stuck.of_trace hdone
  suffixes _ _ _ _ hdone := Stuck.of_trace hdone
  items _ _ := Stuck.of_trace Trace.start
  properties _ := Stuck.of_trace Trace.start

/-- A token that may serve as a name is taken up by a name. -/
theorem Draft.name_covers (token : Token) (htoken : token.isMemberName = true) :
    (Draft.leaf .name token.asName).Covers [.own token] where
  gists := by
    simp [leaf, Shape.layout, Part.gists_cons_memberName htoken, Part.gists_cons_asWritten]
  first := by simp [leaf, Edge.token]
  last := by simp [leaf, Edge.token]
  shown := ⟨token, List.mem_cons_self, htoken, rfl⟩

theorem Draft.binary_covers (left right : NodeId) {operator : Token}
    (hoperator : operator.kind = .operator ∨ operator.kind = .punctuation) :
    (Draft.binary left operator right).Covers [.below left, .own operator, .below right] :=
  ⟨rfl, rfl, rfl, by simp, hoperator⟩

namespace Production

/-- What is known of a token that opens an operand. -/
def OperandStart.Opens : OperandStart → Token → Prop
  | .newObject, token => token.isOperator "new" = true
  | .unary, token => token.isPrefix = true
  | .function, token => token.isKeyword "function" = true
  | .valueKeyword, token => token.isValueKeyword = true
  | .leaf .comment, _ => False
  | .leaf .name, token => token.kind = .identifier
  | .leaf .number, token => token.kind = .number
  | .leaf .string, token => token.kind = .string
  | .leaf .regex, token => token.kind = .regex
  | .parenthesis, token => token.isPunctuation "(" = true
  | .bracket, token => token.isPunctuation "[" = true
  | .brace, token => token.isPunctuation "\x7b" = true
  | .refused, _ => True

theorem OperandStart.of_opens (token : Token) : (OperandStart.of token).Opens token := by
  unfold OperandStart.of
  cases hkind : token.kind
  all_goals dsimp only
  case operator =>
    split
    · rename_i hvalue
      simp [Opens, Token.isOperator, Token.is, hkind, hvalue]
    · split
      · assumption
      · trivial
  case keyword =>
    split
    · rename_i hvalue
      simp [Opens, Token.isKeyword, Token.is, hkind, hvalue]
    · split
      · assumption
      · trivial
  case punctuation =>
    split
    · rename_i hvalue
      simp [Opens, Token.isPunctuation, Token.is, hkind, hvalue]
    · split
      · rename_i hvalue
        simp [Opens, Token.isPunctuation, Token.is, hkind, hvalue]
      · split
        · rename_i hvalue
          simp [Opens, Token.isPunctuation, Token.is, hkind, hvalue]
        · trivial
  all_goals first | exact hkind | trivial

/-- An operand opens with a token that can be passed. -/
theorem OperandStart.isEnd_of_ne_refused {token : Token}
    (htoken : OperandStart.of token ≠ .refused) : token.isEnd = false := by
  cases hkind : token.kind <;> simp_all [OperandStart.of, Token.isEnd]

/-- A token that opens a leaf is taken up by the leaf. -/
theorem OperandStart.leaf_covers {kind : Leaf} {token : Token}
    (htoken : (OperandStart.leaf kind).Opens token) :
    (Draft.leaf kind token).Covers [.own token] := by
  cases kind with
  | comment => cases htoken
  | name =>
      have hkind : token.kind = .identifier := htoken
      have hname : token.asName = token := by rw [Token.asName, ← hkind]
      have hcovers := Draft.name_covers token (by simp [Token.isMemberName, hkind])
      rwa [hname] at hcovers
  | number => exact ⟨rfl, rfl, rfl, List.mem_cons_self, htoken⟩
  | string => exact ⟨rfl, rfl, rfl, List.mem_cons_self, htoken⟩
  | regex => exact ⟨rfl, rfl, rfl, List.mem_cons_self, htoken⟩

variable {grammar : Grammar} {session : Session}

theorem block_pushes (hgrammar : grammar.Traced) :
    (block grammar).Pushes session Part.one := by
  apply meets_bind_expectPunctuation Trace.start
  intro first opened hopened hfirst
  apply (hgrammar.statements .block opened).andThen hopened
  intro statements closed hclosed hlast
  apply meets_bind_advance_of_trace hclosed (Token.isWord_of_isPunctuation hlast)
  intro hpassed
  apply meets_add_of_trace hpassed
  constructor
  · simp [Draft.block, Shape.layout, Part.many, Part.gists_cons_punctuation hfirst,
      Part.gists_cons_punctuation hlast]
  · simp [Draft.block]
  · simp [Draft.block]
  · trivial

theorem parameters_pushesTo (hgrammar : grammar.Traced) :
    (parameters grammar).PushesTo session (List.map .own) (·.isPunctuation ")") := by
  unfold PushesTo parameters
  rw [meets_bind_current]
  split
  · rename_i hclosed
    exact ⟨Trace.start, hclosed⟩
  · split
    · exact Stuck.of_trace Trace.start
    · apply meets_bind_expectIdentifier Trace.start
      intro name named hnamed _
      apply (separator_pushes ")").andThen hnamed
      intro _ separated hseparated
      apply (hgrammar.parameters separated).andThen hseparated
      intro others after hafter hclosed
      exact ⟨by simpa using hafter, hclosed⟩

/-- A function from behind its first token, whatever that is. -/
theorem function_meets (hgrammar : grammar.Traced) {role : FunctionRole} {start : Session}
    {done : List (Part NodeId)} {success : NodeId → Session → Prop}
    (hdone : Trace start done session.passed)
    (hadded : ∀ (name : Option Token) (opening : Token) (parameters : List Token)
      (closing : Token) (body : NodeId) (after : Session),
      Trace start (done ++ name.toList.map .own ++ [.own opening] ++ parameters.map .own ++
        [.own closing] ++ [.below body]) after →
      opening.isPunctuation "(" = true → closing.isPunctuation ")" = true →
      success (after.tree.size + 1)
        (after.grown (.function role session.cursor.current name parameters body))) :
    (function grammar role).Meets session success (Stuck start) := by
  unfold function
  rw [meets_bind_advance]
  apply meets_bind_accept? hdone
  · intro token htoken
    exact Token.isWord_of_kind (beq_iff_eq.mp htoken) (by decide)
  intro name named hnamed _
  apply meets_bind_expectPunctuation hnamed
  intro opening opened hopened hopening
  apply (hgrammar.parameters opened).andThen hopened
  intro parameters listed hlisted hclosing
  apply meets_bind_advance_of_trace hlisted (Token.isWord_of_isPunctuation hclosing)
  intro hclosed
  apply (block_pushes hgrammar).andThen hclosed
  intro body after hafter
  split
  · exact Stuck.of_trace hafter
  · exact meets_add.mpr (hadded name opening parameters _ body after hafter hopening hclosing)

/-- A function that starts with the keyword. -/
theorem function_pushes (hgrammar : grammar.Traced) {role : FunctionRole}
    (hfirst : session.cursor.current.isKeyword "function" = true) :
    (function grammar role).Pushes session Part.one := by
  apply function_meets hgrammar (Trace.start.shift (Token.isWord_of_isKeyword hfirst))
  intro name opening parameters closing body after hafter hopening hclosing
  apply hafter.reduceAll
  constructor
  · simp [Draft.function, Shape.layout, Part.gists_cons_keyword hfirst,
      Part.gists_cons_punctuation hopening, Part.gists_cons_punctuation hclosing]
  · simp [Draft.function]
  · simp [Draft.function]
  · trivial

theorem parenthesized_pushes (hgrammar : grammar.Traced) :
    (parenthesized grammar).Pushes session Part.one := by
  apply meets_bind_expectPunctuation Trace.start
  intro first opened hopened hfirst
  apply (hgrammar.expression true opened).andThen hopened
  intro inner read hread
  apply meets_bind_eatComments_of_trace hread
  intro huncommented
  apply meets_bind_expectPunctuation huncommented
  intro last closed hclosed hlast
  apply meets_add_of_trace hclosed
  constructor
  · simp [Draft.parenthesized, Shape.layout, Part.one, Part.gists_cons_punctuation hfirst,
      Part.gists_cons_punctuation hlast]
  · simp [Draft.parenthesized]
  · simp [Draft.parenthesized]
  · trivial

theorem array_pushes (hgrammar : grammar.Traced)
    (hfirst : session.cursor.current.isPunctuation "[" = true) :
    (array grammar).Pushes session Part.one := by
  apply meets_bind_advance_of_trace Trace.start (Token.isWord_of_isPunctuation hfirst)
  intro hopened
  apply (hgrammar.items "]" _).andThen hopened
  intro elements read hread hlast
  apply meets_bind_advance_of_trace hread (Token.isWord_of_isPunctuation hlast)
  intro hclosed
  apply meets_add_of_trace hclosed
  constructor
  · simp [Draft.array, Shape.layout, Part.many, Part.gists_cons_punctuation hfirst,
      Part.gists_cons_punctuation hlast]
  · simp [Draft.array]
  · simp [Draft.array]
  · trivial

theorem property_pushes (hgrammar : grammar.Traced) :
    (property grammar).Pushes session Part.one := by
  apply meets_bind_expect Trace.start
  · intro token htoken
    exact Token.isWord_of_isPropertyName htoken
  intro name named hnamed hname
  apply meets_bind_expectPunctuation hnamed
  intro colon marked hmarked hcolon
  apply (hgrammar.expression false marked).andThen hmarked
  intro value after hafter
  apply meets_add_of_trace hafter
  constructor
  · simp [Draft.property, Shape.layout, Part.one, Part.gists_cons_propertyName hname,
      Part.gists_cons_punctuation hcolon, Part.gists_cons_asName]
  · simp [Draft.property, Edge.token]
  · simp [Draft.property, Part.one]
  · trivial

theorem properties_pushesTo (hgrammar : grammar.Traced) :
    (properties grammar).PushesTo session Part.many (·.isPunctuation "\x7d") := by
  apply meets_bind_eatComments_of_trace Trace.start
  intro huncommented
  rw [meets_bind_current]
  split
  · rename_i hclosed
    exact ⟨huncommented, hclosed⟩
  · apply (property_pushes hgrammar).andThen huncommented
    intro first read hread
    apply meets_bind_eatComments_of_trace hread
    intro hseen
    apply (separator_pushes "\x7d").andThen hseen
    intro _ separated hseparated
    apply (hgrammar.properties separated).andThen hseparated
    intro others after hafter hclosed
    exact ⟨by simpa [Part.one, Part.many] using hafter, hclosed⟩

theorem object_pushes (hgrammar : grammar.Traced) {comment : Option Token}
    (hfirst : session.cursor.current.isPunctuation "\x7b" = true) :
    (object grammar comment).Pushes session Part.one := by
  apply meets_bind_advance_of_trace Trace.start (Token.isWord_of_isPunctuation hfirst)
  intro hopened
  apply (hgrammar.properties _).andThen hopened
  intro properties read hread hlast
  apply meets_bind_advance_of_trace hread (Token.isWord_of_isPunctuation hlast)
  intro hclosed
  apply meets_add_of_trace hclosed
  constructor
  · simp [Draft.object, Shape.layout, Part.many, Part.gists_cons_punctuation hfirst,
      Part.gists_cons_punctuation hlast]
  · simp [Draft.object]
  · simp [Draft.object]
  · trivial

theorem arguments_pushes (hgrammar : grammar.Traced)
    (hfirst : session.cursor.current.isPunctuation "(" = true) :
    (arguments grammar).Pushes session Part.one := by
  apply meets_bind_advance_of_trace Trace.start (Token.isWord_of_isPunctuation hfirst)
  intro hopened
  apply (hgrammar.items ")" _).andThen hopened
  intro expressions read hread hlast
  apply meets_bind_advance_of_trace hread (Token.isWord_of_isPunctuation hlast)
  intro hclosed
  apply meets_add_of_trace hclosed
  constructor
  · simp [Draft.exprList, Shape.layout, Part.many, Part.gists_cons_punctuation hfirst,
      Part.gists_cons_punctuation hlast]
  · simp [Draft.exprList]
  · simp [Draft.exprList]
  · trivial

theorem newObject_pushes (hgrammar : grammar.Traced)
    (hfirst : session.cursor.current.isOperator "new" = true) :
    (newObject grammar).Pushes session Part.one := by
  apply meets_bind_advance_of_trace Trace.start (Token.isWord_of_isOperator hfirst)
  intro hpassed
  apply (hgrammar.operand false _).andThen hpassed
  intro callee read hread
  have hadded : ∀ (arguments : Option NodeId) (after : Session),
      Trace session ([.own session.cursor.current, .below callee] ++
        arguments.toList.map .below) after →
      (do
        let id ← add (.newObject session.cursor.current callee arguments)
        grammar.suffixes id true).Meets
        after (fun id after => Trace session [.below id] after) (Stuck session) := by
    intro arguments after hafter
    apply meets_bind_addAll_of_trace hafter
    · constructor
      · simp [Draft.newObject, Shape.layout, Part.gists_cons_operator hfirst]
      · simp [Draft.newObject]
      · cases arguments <;> simp [Draft.newObject, Edge.nodeOr]
      · trivial
    intro id added hadded
    exact hgrammar.suffixes id true added session hadded
  rw [meets_bind_current]
  split
  · rename_i hopening
    apply (arguments_pushes hgrammar hopening).andThen hread
    intro arguments after hafter
    exact hadded (some arguments) after hafter
  · exact hadded none read hread

theorem operand_pushes (hgrammar : grammar.Traced) (calls : Bool) :
    (operand grammar calls).Pushes session Part.one := by
  apply meets_bind_eatComments_of_trace Trace.start
  intro hstart
  rw [meets_bind_current]
  have hopens := OperandStart.of_opens session.uncommented.cursor.current
  cases hof : OperandStart.of session.uncommented.cursor.current
  all_goals rw [hof] at hopens
  case newObject => exact (newObject_pushes hgrammar hopens).meets hstart
  case unary =>
    apply meets_bind_advance_of_trace hstart (Token.isWord_of_isPrefix hopens)
    intro hpassed
    apply (hgrammar.operand calls _).andThen hpassed
    intro inner after hafter
    apply meets_add_of_trace hafter
    constructor
    · simp [Draft.unaryBefore, Shape.layout, Part.one]
    · simp [Draft.unaryBefore]
    · simp [Draft.unaryBefore, Part.one]
    · exact ⟨by simp [Part.one], Token.kind_of_isPrefix hopens⟩
  case function =>
    apply (function_pushes hgrammar hopens).andThen hstart
    intro id after hafter
    exact hgrammar.suffixes id true after session hafter
  case valueKeyword =>
    apply meets_bind_advance_of_trace hstart (Token.isWord_of_isValueKeyword hopens)
    intro hpassed
    apply meets_bind_addAll_of_trace hpassed
    · exact Draft.name_covers _ (Token.isMemberName_of_isValueKeyword hopens)
    intro id after hafter
    exact hgrammar.suffixes id calls after session hafter
  case leaf kind =>
    have hword : session.uncommented.cursor.current.isWord = true := by
      cases kind with
      | comment => cases hopens
      | name => exact Token.isWord_of_kind hopens (by decide)
      | number => exact Token.isWord_of_kind hopens (by decide)
      | string => exact Token.isWord_of_kind hopens (by decide)
      | regex => exact Token.isWord_of_kind hopens (by decide)
    apply meets_bind_advance_of_trace hstart hword
    intro hpassed
    apply meets_bind_addAll_of_trace hpassed (OperandStart.leaf_covers hopens)
    intro id after hafter
    exact hgrammar.suffixes id calls after session hafter
  case parenthesis =>
    apply (parenthesized_pushes hgrammar).andThen hstart
    intro id after hafter
    exact hgrammar.suffixes id calls after session hafter
  case bracket =>
    apply (array_pushes hgrammar hopens).andThen hstart
    intro id after hafter
    exact hgrammar.suffixes id calls after session hafter
  case brace =>
    apply (object_pushes hgrammar hopens).andThen hstart
    intro id after hafter
    exact hgrammar.suffixes id calls after session hafter
  case refused => exact Stuck.of_trace hstart

theorem suffixes_continues (hgrammar : grammar.Traced) (target : NodeId) (calls : Bool) :
    (suffixes grammar target calls).Continues target session := by
  intro start htarget
  unfold suffixes
  rw [meets_bind_current]
  split
  · rename_i hdot
    apply meets_bind_advance_of_trace htarget (Token.isWord_of_isPunctuation hdot)
    intro hpassed
    apply meets_bind_expect hpassed (fun _ => Token.isWord_of_isMemberName)
    intro name named hnamed hname
    apply meets_bind_add_of_trace hnamed (Draft.name_covers name hname)
    intro member added hadded
    apply meets_bind_addAll_of_trace hadded
    · exact Draft.binary_covers _ _ (.inr (Token.kind_of_isPunctuation hdot))
    intro id after hafter
    exact hgrammar.suffixes id calls after start hafter
  · split
    · rename_i hopening
      apply meets_bind_advance_of_trace htarget (Token.isWord_of_isPunctuation hopening)
      intro hpassed
      apply (hgrammar.expression true _).andThen hpassed
      intro index read hread
      apply meets_bind_expectPunctuation hread
      intro last closed hclosed hlast
      apply meets_bind_addAll_of_trace hclosed
      · constructor
        · simp [Draft.subscript, Shape.layout, Part.one,
            Part.gists_cons_punctuation hopening, Part.gists_cons_punctuation hlast]
        · simp [Draft.subscript]
        · simp [Draft.subscript]
        · trivial
      intro id after hafter
      exact hgrammar.suffixes id calls after start hafter
    · split
      · rename_i hcall
        obtain ⟨-, hopening⟩ := Bool.and_eq_true_iff.mp hcall
        apply meets_bind_advance_of_trace htarget (Token.isWord_of_isPunctuation hopening)
        intro hpassed
        apply (hgrammar.items ")" _).andThen hpassed
        intro items read hread hlast
        apply meets_bind_advance_of_trace hread (Token.isWord_of_isPunctuation hlast)
        intro hclosed
        apply meets_bind_addAll_of_trace hclosed
        · constructor
          · simp [Draft.application, Shape.layout, Part.many,
              Part.gists_cons_punctuation hopening, Part.gists_cons_punctuation hlast]
          · simp [Draft.application]
          · simp [Draft.application]
          · trivial
        intro id after hafter
        exact hgrammar.suffixes id calls after start hafter
      · split
        · rename_i hsuffix
          simp only [Bool.and_eq_true] at hsuffix
          apply meets_bind_advance_of_trace htarget (Token.isWord_of_isPostfix hsuffix.1.2)
          intro hpassed
          apply meets_add_of_trace hpassed
          constructor
          · simp [Draft.unaryAfter, Shape.layout]
          · simp [Draft.unaryAfter]
          · simp [Draft.unaryAfter]
          · exact ⟨by simp, Token.kind_of_isPostfix hsuffix.1.2⟩
        · exact htarget

/-- An operand with the operations that bind tighter than a level. -/
theorem operand_operations_pushes (hgrammar : grammar.Traced) (level : Token.Binding) :
    (grammar.operand true >>= fun first => grammar.operations first level).Pushes
      session Part.one := by
  apply (hgrammar.operand true session).andThen Trace.start
  intro first read hread
  exact hgrammar.operations first level read session hread

theorem operations_continues (hgrammar : grammar.Traced) (left : NodeId)
    (floor : Token.Binding) : (operations grammar left floor).Continues left session := by
  intro start hleft
  unfold operations
  rw [meets_bind_current]
  dsimp only
  split
  · exact hleft
  · rename_i hlevel
    apply meets_bind_advance_of_trace hleft (Token.isWord_of_not_binding_le hlevel)
    intro hpassed
    rw [← bind_assoc]
    apply (operand_operations_pushes hgrammar _).andThen hpassed
    intro right read hread
    apply meets_bind_addAll_of_trace hread
    · exact Draft.binary_covers _ _ (.inl (Token.kind_of_not_binding_le hlevel))
    intro joined after hafter
    exact hgrammar.operations joined floor after start hafter

theorem conditional_pushes (hgrammar : grammar.Traced) :
    (conditional grammar).Pushes session Part.one := by
  apply (operand_pushes hgrammar true).andThen Trace.start
  intro first read hread
  apply Meets.bind (hgrammar.operations first .lowest read session hread)
  intro test tested htested
  rw [meets_bind_current]
  split
  · rename_i hmark
    apply meets_bind_advance_of_trace htested (Token.isWord_of_isOperator hmark)
    intro hpassed
    apply (hgrammar.assignment _).andThen hpassed
    intro consequent chosen hchosen
    apply meets_bind_expectPunctuation hchosen
    intro colon marked hmarked hcolon
    apply (hgrammar.assignment _).andThen hmarked
    intro alternate after hafter
    apply meets_add_of_trace hafter
    constructor
    · simp [Draft.conditional, Shape.layout, Part.one, Part.gists_cons_operator hmark,
        Part.gists_cons_punctuation hcolon]
    · simp [Draft.conditional]
    · simp [Draft.conditional, Part.one]
    · trivial
  · exact htested

theorem assignment_pushes (hgrammar : grammar.Traced) :
    (assignment grammar).Pushes session Part.one := by
  apply (conditional_pushes hgrammar).andThen Trace.start
  intro left read hread
  rw [meets_bind_current]
  split
  · exact hread
  · rename_i hassignment
    have hoperator : read.cursor.current.isAssignment = true := by simpa using hassignment
    rw [meets_bind_node]
    split
    · split
      · apply meets_bind_advance_of_trace hread (Token.isWord_of_isAssignment hoperator)
        intro hpassed
        apply (hgrammar.assignment _).andThen hpassed
        intro right after hafter
        apply meets_add_of_trace hafter
        exact Draft.binary_covers _ _ (.inl (Token.kind_of_isAssignment hoperator))
      · exact Stuck.of_trace hread
    · exact Stuck.of_trace hread

theorem expression_pushes (hgrammar : grammar.Traced) (commas : Bool) :
    (expression grammar commas).Pushes session Part.one := by
  apply (assignment_pushes hgrammar).andThen Trace.start
  intro first read hread
  rw [meets_bind_current]
  split
  · rename_i hcomma
    obtain ⟨-, hcomma⟩ := Bool.and_eq_true_iff.mp hcomma
    apply meets_bind_advance_of_trace hread (Token.isWord_of_isPunctuation hcomma)
    intro hpassed
    apply (hgrammar.expression true _).andThen hpassed
    intro rest after hafter
    apply meets_add_of_trace hafter
    exact Draft.binary_covers _ _ (.inr (Token.kind_of_isPunctuation hcomma))
  · exact hread

theorem items_pushesTo (hgrammar : grammar.Traced) (closing : String) :
    (items grammar closing).PushesTo session Part.many (·.isPunctuation closing) := by
  apply meets_bind_eatComments_of_trace Trace.start
  intro huncommented
  rw [meets_bind_current]
  split
  · rename_i hclosed
    exact ⟨huncommented, hclosed⟩
  · apply (expression_pushes hgrammar false).andThen huncommented
    intro first read hread
    apply meets_bind_eatComments_of_trace hread
    intro hseen
    apply (separator_pushes closing).andThen hseen
    intro _ separated hseparated
    apply (hgrammar.items closing separated).andThen hseparated
    intro others after hafter hclosed
    exact ⟨by simpa [Part.one, Part.many] using hafter, hclosed⟩

end Production

end ScriptSyntax

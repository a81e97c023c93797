import ScriptSyntax.Proofs.Accord.Statement
import ScriptSyntax.Proofs.Reach.Basic
import ScriptSyntax.Proofs.Trace.Statement

/-!
# How far expressions reach

An expression ends with its last token: a name, a literal, a closing bracket or an
operator behind its operand.  A production that continues an operand starts right behind
it, so nothing but the tokens of the expression lies between its edges.
-/

namespace ScriptSyntax

open Parse

/-- The declarations that were read, one at least, of which the last stops right behind its
tokens. -/
def Tree.LastStopsAt (tree : Tree) (ids : List NodeId) (whole later : List Token) : Prop :=
  ∃ last, ids.getLast? = some last ∧ tree.StopsAt last whole later

/-- The readers of a grammar go on, and those of expressions stop right behind them. -/
structure Grammar.Reaching (grammar : Grammar) (whole : List Token) : Prop where
  statement (labels : Bool) (session : Session) :
    (grammar.statement labels).GoesOn grammar.semicolons whole session
  statements (enclosure : Enclosure) (session : Session) :
    (grammar.statements enclosure).GoesOnTo grammar.semicolons whole session enclosure.closedBy
  parameters (session : Session) :
    grammar.parameters.GoesOnTo grammar.semicolons whole session (·.isPunctuation ")")
  declarations (session : Session) : session.cursor.pending <:+ whole →
    grammar.declarations.Meets session
      (fun ids after => session.Onward grammar.semicolons whole after ∧
        after.tree.LastStopsAt ids session.cursor.pending after.cursor.pending)
      Anyhow
  expression (commas : Bool) (session : Session) :
    (grammar.expression commas).Stops grammar.semicolons whole session
  assignment (session : Session) :
    grammar.assignment.Stops grammar.semicolons whole session
  operand (calls : Bool) (session : Session) :
    (grammar.operand calls).Stops grammar.semicolons whole session
  operations (left : NodeId) (floor : Token.Binding) (session : Session) :
    (grammar.operations left floor).Extends grammar.semicolons whole left session
  suffixes (target : NodeId) (calls : Bool) (session : Session) :
    (grammar.suffixes target calls).Extends grammar.semicolons whole target session
  items (closing : String) (session : Session) :
    (grammar.items closing).GoesOnTo grammar.semicolons whole session (·.isPunctuation closing)
  properties (session : Session) :
    grammar.properties.GoesOnTo grammar.semicolons whole session (·.isPunctuation "\x7d")

theorem Grammar.exhausted_reaching (semicolons : Semicolons) (whole : List Token) :
    (Grammar.exhausted semicolons).Reaching whole where
  statement _ _ _ := trivial
  statements _ _ _ := trivial
  parameters _ _ := trivial
  declarations _ _ := trivial
  expression _ _ _ := trivial
  assignment _ _ := trivial
  operand _ _ _ := trivial
  operations _ _ _ _ _ _ := trivial
  suffixes _ _ _ _ _ _ := trivial
  items _ _ _ := trivial
  properties _ _ := trivial

namespace Production

variable {grammar : Grammar} {whole : List Token} {session : Session}

theorem block_stops (hgrammar : grammar.Reaching whole) :
    (block grammar).Stops grammar.semicolons whole session := by
  intro hsession
  apply meets_bind_expectPunctuation_of_onward (.refl hsession)
  intro first opened hopened hfirst
  apply (hgrammar.statements .block opened).andThen hopened
  intro statements closed hclosed hread hlast
  rw [meets_bind_advance]
  apply meets_add_of_onward hclosed.passed rfl
  exact hfirst.between ((closed.covers_closing hlast rfl).mono hread.suffix)

theorem parameters_goesOnTo (hgrammar : grammar.Reaching whole) :
    (parameters grammar).GoesOnTo grammar.semicolons whole session (·.isPunctuation ")") := by
  intro hsession
  have hstart : session.Onward grammar.semicolons whole session := .refl hsession
  unfold parameters
  rw [meets_bind_current]
  split
  · rename_i hclosed
    exact ⟨hstart, hclosed⟩
  · split
    · trivial
    · apply meets_bind_expect_of_onward hstart
      · intro token htoken
        exact Token.isWord_of_kind (beq_iff_eq.mp htoken) rfl
      intro name named hnamed _
      apply (separator_goesOn ")").andThen hnamed
      intro _ separated hseparated _
      apply (hgrammar.parameters separated).andThen hseparated
      intro others after hafter _ hclosed
      exact ⟨hafter, hclosed⟩

/-- A function from its first token on, whatever that is. -/
theorem function_stops (hgrammar : grammar.Reaching whole) {role : FunctionRole}
    (hfirst : session.cursor.current.isEnd = false) :
    (function grammar role).Stops grammar.semicolons whole session := by
  intro hsession
  have hstart : session.Onward grammar.semicolons whole session := .refl hsession
  apply meets_bind_advance.mpr
  apply (accept?_goesOn _).andThen hstart.passed
  intro name named hnamed hname
  apply meets_bind_expectPunctuation_of_onward hnamed
  intro _ opened hopened hopening
  apply (hgrammar.parameters opened).andThen hopened
  intro parameters listed hlisted hlist _
  apply meets_bind_advance.mpr
  apply (block_stops hgrammar).andThen hlisted.passed
  intro body after hafter hbody hstops
  split
  · trivial
  · apply meets_add_of_onward hafter rfl
    have hinner : listed.passed.cursor.pending <:+ session.passed.cursor.pending :=
      (List.tail_suffix _).trans (hlist.suffix.trans (hopening.suffix.trans hname.suffix))
    exact (session.covers_first hfirst).between (hstops.covers.mono hinner)

theorem parenthesized_stops (hgrammar : grammar.Reaching whole) :
    (parenthesized grammar).Stops grammar.semicolons whole session := by
  intro hsession
  apply meets_bind_expectPunctuation_of_onward (.refl hsession)
  intro first opened hopened hfirst
  apply (hgrammar.expression true opened).andThen hopened
  intro inner read hread hinner _
  apply meets_bind_eatComments.mpr
  apply meets_bind_expectPunctuation_of_onward hread.uncommented
  intro last closed hclosed hlast
  apply meets_add_of_onward hclosed rfl
  have hend := hlast.imp fun _ hmark => Token.mayEnd_of_isPunctuation hmark rfl
  exact hfirst.between (hend.mono (hinner.uncommented.suffix))

/-- A list between two marks. -/
theorem bracketed_stops {reader : Parse (List NodeId)} {closing : String}
    (shape : List NodeId → Shape NodeId) (hshape : ∀ ids, (shape ids).isPinned = false)
    (hreader : ∀ session, reader.GoesOnTo grammar.semicolons whole session
      (·.isPunctuation closing))
    (hclosing : [")", "]", "\x7d"].contains closing = true)
    (hfirst : session.cursor.current.isEnd = false) :
    (do
      let first ← advance
      let ids ← reader
      let last ← advance
      add ⟨shape ids, .token first, .token last⟩).Stops grammar.semicolons whole session := by
  intro hsession
  have hstart : session.Onward grammar.semicolons whole session := .refl hsession
  apply meets_bind_advance.mpr
  apply (hreader _).andThen hstart.passed
  intro ids read hread hids hlast
  rw [meets_bind_advance]
  apply meets_add_of_onward hread.passed (hshape ids)
  exact (session.covers_first hfirst).between
    ((read.covers_closing hlast hclosing).mono hids.suffix)

theorem array_stops (hgrammar : grammar.Reaching whole)
    (hfirst : session.cursor.current.isEnd = false) :
    (array grammar).Stops grammar.semicolons whole session :=
  bracketed_stops .array (fun _ => rfl) (hgrammar.items "]") rfl hfirst

theorem object_stops (hgrammar : grammar.Reaching whole) {comment : Option Token}
    (hfirst : session.cursor.current.isEnd = false) :
    (object grammar comment).Stops grammar.semicolons whole session :=
  bracketed_stops (.object comment) (fun _ => rfl) hgrammar.properties rfl hfirst

theorem arguments_stops (hgrammar : grammar.Reaching whole)
    (hfirst : session.cursor.current.isEnd = false) :
    (arguments grammar).Stops grammar.semicolons whole session :=
  bracketed_stops .exprList (fun _ => rfl) (hgrammar.items ")") rfl hfirst

theorem property_goesOn (hgrammar : grammar.Reaching whole) :
    (property grammar).GoesOn grammar.semicolons whole session := by
  intro hsession
  apply meets_bind_expect_of_onward (.refl hsession) (fun _ => Token.isWord_of_isPropertyName)
  intro name named hnamed _
  apply meets_bind_expectPunctuation_of_onward hnamed
  intro colon marked hmarked _
  apply (hgrammar.expression false marked).andThen hmarked
  intro value after hafter _ _
  rw [meets_add]
  exact hafter.grown (Shape.placed_of_free rfl)

theorem properties_goesOnTo (hgrammar : grammar.Reaching whole) :
    (properties grammar).GoesOnTo grammar.semicolons whole session
      (·.isPunctuation "\x7d") := by
  intro hsession
  have hstart : session.Onward grammar.semicolons whole session := .refl hsession
  apply meets_bind_eatComments.mpr
  rw [meets_bind_current]
  split
  · rename_i hclosed
    exact ⟨hstart.uncommented, hclosed⟩
  · apply (property_goesOn hgrammar).andThen hstart.uncommented
    intro first read hread _
    apply meets_bind_eatComments.mpr
    apply (separator_goesOn "\x7d").andThen hread.uncommented
    intro _ separated hseparated _
    apply (hgrammar.properties separated).andThen hseparated
    intro others after hafter _ hclosed
    exact ⟨hafter, hclosed⟩

theorem newObject_stops (hgrammar : grammar.Reaching whole)
    (hfirst : session.cursor.current.isEnd = false) :
    (newObject grammar).Stops grammar.semicolons whole session := by
  intro hsession
  have hstart : session.Onward grammar.semicolons whole session := .refl hsession
  apply meets_bind_advance.mpr
  apply (hgrammar.operand false _).andThen hstart.passed
  intro callee read hread _ hcallee
  have hadded : ∀ (arguments : Option NodeId) (after : Session),
      session.Onward grammar.semicolons whole after →
      ((Edge.nodeOr arguments (.node callee)).span after.tree).Covers
        session.passed.cursor.pending after.cursor.pending Token.mayEnd →
      (do
        let id ← add (.newObject session.cursor.current callee arguments)
        grammar.suffixes id true).Meets after
        (fun id final => session.Onward grammar.semicolons whole final ∧
          final.tree.StopsAt id session.cursor.pending final.cursor.pending) Anyhow := by
    intro arguments after hafter hlast
    apply meets_bind_add_of_onward hafter
    · rfl
    · exact (session.covers_first hfirst).between hlast
    intro id added hadded _ hid
    exact (hgrammar.suffixes id true added).meets hadded hid
  rw [meets_bind_current]
  split
  · rename_i hopening
    have hword := Token.isEnd_of_isWord (Token.isWord_of_isPunctuation hopening)
    apply (arguments_stops hgrammar hword).andThen hread
    intro arguments after hafter _ hstops
    exact hadded (some arguments) after hafter (hstops.covers.mono hcallee.covers.suffix)
  · exact hadded none read hread hcallee.covers

/-- An operand with what follows it. -/
theorem suffixed_stops (hgrammar : grammar.Reaching whole) {reader : Parse NodeId}
    (hreader : reader.Stops grammar.semicolons whole session) (calls : Bool) :
    (reader >>= fun id => grammar.suffixes id calls).Stops grammar.semicolons whole session := by
  intro hsession
  apply hreader.andThen (.refl hsession)
  intro id after hafter _ hid
  exact (hgrammar.suffixes id calls after).meets hafter hid

/-- A token that is an operand by itself. -/
theorem leaf_stops {kind : Leaf} {token : Token}
    (hcurrent : session.cursor.current.mayEnd = true)
    (htoken : token.span = session.cursor.current.span) :
    (advance >>= fun _ => add (.leaf kind token)).Stops grammar.semicolons whole session := by
  intro hsession
  have hstart : session.Onward grammar.semicolons whole session := .refl hsession
  apply meets_bind_advance.mpr
  apply meets_add_of_onward hstart.passed rfl
  have hleaf : (Draft.leaf kind token).span session.passed.tree = session.cursor.current.span :=
    htoken
  rw [hleaf]
  exact session.covers_current (Token.isEnd_of_mayEnd hcurrent) hcurrent

theorem unaryBefore_stops (hgrammar : grammar.Reaching whole) (calls : Bool)
    (hfirst : session.cursor.current.isEnd = false) :
    (do
      let _ ← advance
      let inner ← grammar.operand calls
      add (.unaryBefore session.cursor.current inner)).Stops grammar.semicolons whole
        session := by
  intro hsession
  have hstart : session.Onward grammar.semicolons whole session := .refl hsession
  apply meets_bind_advance.mpr
  apply (hgrammar.operand calls _).andThen hstart.passed
  intro inner after hafter _ hinner
  apply meets_add_of_onward hafter rfl
  exact (session.covers_first hfirst).between hinner.covers

theorem OperandStart.mayEnd_of_leaf {kind : Leaf} {token : Token}
    (htoken : (OperandStart.leaf kind).Opens token) : token.mayEnd = true := by
  cases kind with
  | comment => exact htoken.elim
  | _ =>
    have hkind : token.kind = _ := htoken
    rw [Token.mayEnd, hkind]

theorem operand_stops (hgrammar : grammar.Reaching whole) (calls : Bool) :
    (operand grammar calls).Stops grammar.semicolons whole session := by
  intro hsession
  have hstart : session.Onward grammar.semicolons whole session := .refl hsession
  have hopens := OperandStart.of_opens session.uncommented.cursor.current
  have hend : OperandStart.of session.uncommented.cursor.current ≠ .refused →
      session.uncommented.cursor.current.isEnd = false := OperandStart.isEnd_of_ne_refused
  apply meets_bind_eatComments.mpr
  rw [meets_bind_current]
  refine Stops.meets ?_ hstart.uncommented
  cases hof : OperandStart.of session.uncommented.cursor.current
  all_goals rw [hof] at hopens hend
  all_goals dsimp only
  case newObject => exact newObject_stops hgrammar (hend nofun)
  case unary => exact unaryBefore_stops hgrammar calls (hend nofun)
  case function => exact suffixed_stops hgrammar (function_stops hgrammar (hend nofun)) true
  case valueKeyword =>
    rw [← bind_assoc]
    apply suffixed_stops hgrammar
    exact leaf_stops (Token.mayEnd_of_isMemberName
      (Token.isMemberName_of_isValueKeyword hopens)) rfl
  case leaf kind =>
    rw [← bind_assoc]
    apply suffixed_stops hgrammar
    exact leaf_stops (OperandStart.mayEnd_of_leaf hopens) rfl
  case parenthesis => exact suffixed_stops hgrammar (parenthesized_stops hgrammar) calls
  case bracket => exact suffixed_stops hgrammar (array_stops hgrammar (hend nofun)) calls
  case brace => exact suffixed_stops hgrammar (object_stops hgrammar (hend nofun)) calls
  case refused => exact fun _ => trivial

theorem suffixes_extends (hgrammar : grammar.Reaching whole) (target : NodeId) (calls : Bool) :
    (suffixes grammar target calls).Extends grammar.semicolons whole target session := by
  intro tokens hsession htarget
  have hstart : session.Onward grammar.semicolons whole session := .refl hsession
  unfold suffixes
  rw [meets_bind_current]
  split
  · apply meets_bind_advance.mpr
    apply meets_bind_expect_of_onward hstart.passed (fun _ => Token.isWord_of_isMemberName)
    intro name named hnamed hname
    apply meets_bind_add_of_onward hnamed
    · rfl
    · exact hname.imp fun _ => Token.mayEnd_of_isMemberName
    intro member added hadded _ hmember
    apply meets_bind_add_of_onward hadded
    · rfl
    · exact (htarget.stays hadded.stays).covers.between
        (hmember.covers.mono (List.tail_suffix _))
    intro id after hafter _ hid
    exact (hgrammar.suffixes id calls after).meets hafter hid
  · split
    · apply meets_bind_advance.mpr
      apply (hgrammar.expression true _).andThen hstart.passed
      intro index read hread hindex _
      apply meets_bind_expectPunctuation_of_onward hread
      intro last closed hclosed hlast
      apply meets_bind_add_of_onward hclosed
      · rfl
      · have hend := hlast.imp fun _ hmark => Token.mayEnd_of_isPunctuation hmark rfl
        exact (htarget.stays hclosed.stays).covers.between (hend.mono hread.suffix)
      intro id after hafter _ hid
      exact (hgrammar.suffixes id calls after).meets hafter hid
    · split
      · apply meets_bind_advance.mpr
        apply (hgrammar.items ")" _).andThen hstart.passed
        intro items read hread _ hlast
        apply meets_bind_advance.mpr
        apply meets_bind_add_of_onward hread.passed
        · rfl
        · exact (htarget.stays hread.stays).covers.between
            ((read.covers_closing hlast rfl).mono hread.suffix)
        intro id after hafter _ hid
        exact (hgrammar.suffixes id calls after).meets hafter hid
      · split
        · rename_i hsuffix
          simp only [Bool.and_eq_true] at hsuffix
          have hend := Token.mayEnd_of_isPostfix hsuffix.1.2
          apply meets_bind_advance.mpr
          apply meets_add_of_onward hstart.passed
          · rfl
          · exact htarget.covers.between
              (session.covers_current (Token.isEnd_of_mayEnd hend) hend)
        · exact ⟨hstart, htarget⟩

theorem operations_extends (hgrammar : grammar.Reaching whole) (left : NodeId)
    (floor : Token.Binding) :
    (operations grammar left floor).Extends grammar.semicolons whole left session := by
  intro tokens hsession hleft
  have hstart : session.Onward grammar.semicolons whole session := .refl hsession
  unfold operations
  rw [meets_bind_current]
  dsimp only
  split
  · exact ⟨hstart, hleft⟩
  · apply meets_bind_advance.mpr
    apply (hgrammar.operand true _).andThen hstart.passed
    intro first read hread _ hfirst
    apply (hgrammar.operations first _ read).andThen hread hfirst
    intro right joined hjoined _ hright
    apply meets_bind_add_of_onward hjoined
    · rfl
    · exact (hleft.stays hjoined.stays).covers.between
        (hright.covers.mono (List.tail_suffix _))
    intro id after hafter _ hid
    exact (hgrammar.operations id floor after).meets hafter hid

/-- The two alternatives behind a test. -/
theorem alternatives_extends (hgrammar : grammar.Reaching whole) (test : NodeId) :
    (do
      let _ ← advance
      let consequent ← grammar.assignment
      let _ ← expectPunctuation ":"
      let alternate ← grammar.assignment
      add (.conditional test consequent alternate)).Extends grammar.semicolons whole test
        session := by
  intro tokens hsession htest
  have hstart : session.Onward grammar.semicolons whole session := .refl hsession
  apply meets_bind_advance.mpr
  apply (hgrammar.assignment _).andThen hstart.passed
  intro consequent chosen hchosen _ _
  apply meets_bind_expectPunctuation_of_onward hchosen
  intro colon marked hmarked _
  apply (hgrammar.assignment _).andThen hmarked
  intro alternate after hafter _ halternate
  apply meets_add_of_onward hafter
  · rfl
  · exact (htest.stays hafter.stays).covers.between (halternate.covers.mono hmarked.suffix)

theorem conditional_stops (hgrammar : grammar.Reaching whole) :
    (conditional grammar).Stops grammar.semicolons whole session := by
  intro hsession
  apply (operand_stops hgrammar true).andThen (.refl hsession)
  intro first read hread _ hfirst
  apply (hgrammar.operations first .lowest read).andThen hread hfirst
  intro test tested htested _ htest
  rw [meets_bind_current]
  split
  · exact (alternatives_extends hgrammar test).meets htested htest
  · exact ⟨htested, htest⟩

theorem assignment_stops (hgrammar : grammar.Reaching whole) :
    (assignment grammar).Stops grammar.semicolons whole session := by
  intro hsession
  apply (conditional_stops hgrammar).andThen (.refl hsession)
  intro left read hread _ hleft
  rw [meets_bind_current]
  split
  · exact ⟨hread, hleft⟩
  · rw [meets_bind_node]
    split
    · split
      · apply meets_bind_advance.mpr
        apply (hgrammar.assignment _).andThen hread.passed
        intro right after hafter hfrom hright
        apply meets_add_of_onward hafter
        · rfl
        · exact (hleft.stays hfrom.stays).covers.between
            (hright.covers.mono (List.tail_suffix _))
      · trivial
    · trivial

theorem expression_stops (hgrammar : grammar.Reaching whole) (commas : Bool) :
    (expression grammar commas).Stops grammar.semicolons whole session := by
  intro hsession
  apply (assignment_stops hgrammar).andThen (.refl hsession)
  intro first read hread _ hfirst
  rw [meets_bind_current]
  split
  · apply meets_bind_advance.mpr
    apply (hgrammar.expression true _).andThen hread.passed
    intro rest after hafter hfrom hrest
    apply meets_add_of_onward hafter
    · rfl
    · exact (hfirst.stays hfrom.stays).covers.between
        (hrest.covers.mono (List.tail_suffix _))
  · exact ⟨hread, hfirst⟩

theorem items_goesOnTo (hgrammar : grammar.Reaching whole) (closing : String) :
    (items grammar closing).GoesOnTo grammar.semicolons whole session
      (·.isPunctuation closing) := by
  intro hsession
  have hstart : session.Onward grammar.semicolons whole session := .refl hsession
  apply meets_bind_eatComments.mpr
  rw [meets_bind_current]
  split
  · rename_i hclosed
    exact ⟨hstart.uncommented, hclosed⟩
  · apply (expression_stops hgrammar false).andThen hstart.uncommented
    intro first read hread _ _
    apply meets_bind_eatComments.mpr
    apply (separator_goesOn closing).andThen hread.uncommented
    intro _ separated hseparated _
    apply (hgrammar.items closing separated).andThen hseparated
    intro others after hafter _ hclosed
    exact ⟨hafter, hclosed⟩

end Production

end ScriptSyntax

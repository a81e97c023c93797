import ScriptSyntax.Parse.Grammar
import ScriptSyntax.Proofs.Layout
import ScriptSyntax.Proofs.Outcome

/-!
# Traces of readers

Seen from outside, a reader passes tokens and adds nodes.  A trace keeps the
tokens and nodes that no node has taken up yet in a row of parts: a token that
is passed joins the row at its end or, if nothing depends on it, is dropped; a
comment that is kept joins the row as a node; any other new node takes the place
of the last parts of the row, which are laid out as its shape asks and reach from
its first edge to its last.

The tokens, the links and the spans of a tree are all settled by these steps, so
each production needs to be followed only once.
-/

namespace ScriptSyntax

/-- Tokens of the kind belong to the text of a tree. -/
def Token.Kind.isWord : Token.Kind → Bool
  | .lineComment | .blockComment | .eof => false
  | _ => true

namespace Token

/-- The token belongs to the text of a tree: it is no comment and not the end. -/
def isWord (token : Token) : Bool :=
  token.kind.isWord

theorem isWord_of_kind {token : Token} {kind : Kind} (htoken : token.kind = kind)
    (hkind : kind.isWord = true) : token.isWord = true := by
  rw [isWord, htoken, hkind]

theorem kind_of_isPunctuation {token : Token} {mark : String}
    (htoken : token.isPunctuation mark = true) : token.kind = .punctuation :=
  ((token.is_iff _ _).mp htoken).1

theorem kind_of_isPrefix {token : Token} (htoken : token.isPrefix = true) :
    token.kind = .operator := by
  simp only [isPrefix, Bool.and_eq_true, beq_iff_eq] at htoken
  exact htoken.1

theorem kind_of_isPostfix {token : Token} (htoken : token.isPostfix = true) :
    token.kind = .operator := by
  simp only [isPostfix, Bool.and_eq_true, beq_iff_eq] at htoken
  exact htoken.1

theorem kind_of_isAssignment {token : Token} (htoken : token.isAssignment = true) :
    token.kind = .operator := by
  simp only [isAssignment, Bool.and_eq_true, beq_iff_eq] at htoken
  exact htoken.1

/-- Only operators bind tighter than the lowest level. -/
theorem kind_of_not_binding_le {token : Token} {floor : Binding}
    (htoken : ¬token.binding ≤ floor) : token.kind = .operator := by
  by_cases hkind : token.kind = .operator
  · exact hkind
  · rw [binding, if_neg hkind] at htoken
    exact absurd (Binding.lowest_le floor) htoken

theorem isWord_of_isPunctuation {token : Token} {mark : String}
    (htoken : token.isPunctuation mark = true) : token.isWord = true :=
  isWord_of_kind (kind_of_isPunctuation htoken) rfl

theorem isWord_of_isKeyword {token : Token} {word : String}
    (htoken : token.isKeyword word = true) : token.isWord = true :=
  isWord_of_kind ((token.is_iff _ _).mp htoken).1 rfl

theorem isWord_of_isOperator {token : Token} {symbol : String}
    (htoken : token.isOperator symbol = true) : token.isWord = true :=
  isWord_of_kind ((token.is_iff _ _).mp htoken).1 rfl

theorem isWord_of_isPropertyName {token : Token} (htoken : token.isPropertyName = true) :
    token.isWord = true := by
  cases hkind : token.kind <;>
    simp_all [isPropertyName, isMemberName, isWordOperator, isWord, Kind.isWord]

theorem isWord_of_isMemberName {token : Token} (htoken : token.isMemberName = true) :
    token.isWord = true :=
  isWord_of_isPropertyName (by simp [isPropertyName, htoken])

theorem isWord_of_isPrefix {token : Token} (htoken : token.isPrefix = true) :
    token.isWord = true :=
  isWord_of_kind (kind_of_isPrefix htoken) rfl

theorem isWord_of_isPostfix {token : Token} (htoken : token.isPostfix = true) :
    token.isWord = true :=
  isWord_of_kind (kind_of_isPostfix htoken) rfl

theorem isWord_of_isAssignment {token : Token} (htoken : token.isAssignment = true) :
    token.isWord = true :=
  isWord_of_kind (kind_of_isAssignment htoken) rfl

theorem isWord_of_isValueKeyword {token : Token} (htoken : token.isValueKeyword = true) :
    token.isWord = true := by
  simp only [isValueKeyword, Bool.and_eq_true, beq_iff_eq] at htoken
  exact isWord_of_kind htoken.1 rfl

theorem isMemberName_of_isValueKeyword {token : Token}
    (htoken : token.isValueKeyword = true) : token.isMemberName = true := by
  simp only [isValueKeyword, Bool.and_eq_true, beq_iff_eq] at htoken
  simp [isMemberName, htoken.1]

theorem isWord_of_not_binding_le {token : Token} {floor : Binding}
    (htoken : ¬token.binding ≤ floor) : token.isWord = true :=
  isWord_of_kind (kind_of_not_binding_le htoken) rfl

/-- The token leaves nothing behind if it is passed over. -/
def isSkippable (token : Token) : Bool :=
  token.isComment || token.isPunctuation ","

theorem isSkippable_of_isComment {token : Token} (htoken : token.isComment = true) :
    token.isSkippable = true := by
  simp [isSkippable, htoken]

theorem isSkippable_of_isComma {token : Token} (htoken : token.isPunctuation "," = true) :
    token.isSkippable = true := by
  simp [isSkippable, htoken]

theorem isEnd_of_isWord {token : Token} (htoken : token.isWord = true) :
    token.isEnd = false := by
  cases hkind : token.kind <;> simp_all [isWord, Kind.isWord, isEnd]

theorem isComment_of_isWord {token : Token} (htoken : token.isWord = true) :
    token.isComment = false := by
  cases hkind : token.kind <;> simp_all [isWord, Kind.isWord, isComment]

theorem isEnd_of_isComment {token : Token} (htoken : token.isComment = true) :
    token.isEnd = false := by
  cases hkind : token.kind <;> simp_all [isComment, isEnd]

theorem isEnd_of_isSkippable {token : Token} (htoken : token.isSkippable = true) :
    token.isEnd = false := by
  cases hkind : token.kind <;>
    simp_all [isSkippable, isComment, isPunctuation, Token.is, isEnd]

end Token

/-- A cursor that does not stand on an end token has tokens to pass. -/
theorem Cursor.pending_eq_cons {cursor : Cursor} (hcursor : cursor.current.isEnd = false) :
    cursor.pending = cursor.current :: cursor.advance.pending := by
  cases hpending : cursor.pending with
  | nil =>
      have hkind := current_kind_of_pending_nil hpending
      simp [Token.isEnd, hkind] at hcursor
  | cons token tokens => simp [current, advance, hpending]

namespace Part

variable {parts : List (Part NodeId)} {token : Token}

/-- The edge of a node that starts or ends with the part. -/
def edge : Part NodeId → Edge
  | .own token => .token token
  | .below id => .node id

/-- The edge at which some parts start. -/
def firstEdge? (parts : List (Part NodeId)) : Option Edge :=
  parts.head?.map edge

/-- The edge at which some parts end. -/
def lastEdge? (parts : List (Part NodeId)) : Option Edge :=
  parts.getLast?.map edge

@[simp]
theorem edge_own (token : Token) : edge (.own token) = .token token := rfl

@[simp]
theorem edge_below (id : NodeId) : edge (.below id) = .node id := rfl

@[simp]
theorem firstEdge?_cons (part : Part NodeId) (parts : List (Part NodeId)) :
    firstEdge? (part :: parts) = some part.edge := rfl

@[simp]
theorem lastEdge?_nil : lastEdge? [] = none := rfl

@[simp]
theorem lastEdge?_cons (part : Part NodeId) (parts : List (Part NodeId)) :
    lastEdge? (part :: parts) = some ((lastEdge? parts).getD part.edge) := by
  rw [lastEdge?, lastEdge?, List.getLast?_cons]
  cases parts.getLast? <;> rfl

@[simp]
theorem lastEdge?_append (left right : List (Part NodeId)) :
    lastEdge? (left ++ right) = (lastEdge? right).or (lastEdge? left) := by
  rw [lastEdge?, lastEdge?, lastEdge?, List.getLast?_append]
  cases right.getLast? <;> rfl

@[simp]
theorem lastEdge?_map_own (token : Option Token) :
    lastEdge? (token.toList.map own) = token.map Edge.token := by
  cases token <;> rfl

@[simp]
theorem lastEdge?_map_below (ids : List NodeId) :
    lastEdge? (ids.map below) = ids.getLast?.map Edge.node := by
  rw [lastEdge?, List.getLast?_map, Option.map_map]
  rfl

theorem gists_semicolon {semicolon : Option Token}
    (hsemicolon : ∀ token ∈ semicolon, token.isPunctuation ";" = true) :
    gists (semicolon.toList.map own : List (Part NodeId)) = [] := by
  cases semicolon with
  | none => rfl
  | some token =>
      have htoken : token.isSeparator = true := by
        simp [Token.isSeparator, hsemicolon token rfl]
      simp [gists_cons_own, htoken]

theorem gists_cons_punctuation {mark : String} (htoken : token.isPunctuation mark = true)
    (hsemicolon : mark ≠ ";") (hcomma : mark ≠ ",") :
    gists (.own token :: parts) = .inl mark :: gists parts := by
  obtain ⟨hkind, hvalue⟩ := (token.is_iff _ _).mp htoken
  simp [gists_cons_own, Token.isSeparator, Token.isPunctuation, Token.is, hkind, hvalue,
    hsemicolon, hcomma]

theorem gists_cons_of_kind (hpunctuation : token.kind ≠ .punctuation) :
    gists (.own token :: parts) = .inl token.value :: gists parts := by
  simp [gists_cons_own, Token.isSeparator, Token.isPunctuation, Token.is, hpunctuation]

theorem gists_cons_keyword {word : String} (htoken : token.isKeyword word = true) :
    gists (.own token :: parts) = .inl word :: gists parts := by
  obtain ⟨hkind, hvalue⟩ := (token.is_iff _ _).mp htoken
  rw [gists_cons_of_kind (by simp [hkind]), hvalue]

theorem gists_cons_operator {symbol : String} (htoken : token.isOperator symbol = true) :
    gists (.own token :: parts) = .inl symbol :: gists parts := by
  obtain ⟨hkind, hvalue⟩ := (token.is_iff _ _).mp htoken
  rw [gists_cons_of_kind (by simp [hkind]), hvalue]

theorem gists_cons_propertyName (htoken : token.isPropertyName = true) :
    gists (.own token :: parts) = .inl token.value :: gists parts := by
  apply gists_cons_of_kind
  intro hkind
  simp [Token.isPropertyName, Token.isMemberName, Token.isWordOperator, hkind] at htoken

/-- A token that is kept as a name counts as its value. -/
theorem gists_cons_asName :
    gists (.own token.asName :: parts) = .inl token.value :: gists parts :=
  gists_cons_of_kind (by simp)

theorem gists_cons_asWritten :
    gists (.own token.asName.asWritten :: parts) = .inl token.value :: gists parts := by
  rw [gists_cons_of_kind, Token.asWritten_value, Token.asName_value]
  unfold Token.asWritten
  split <;> simp

theorem gists_cons_memberName (htoken : token.isMemberName = true) :
    gists (.own token :: parts) = .inl token.value :: gists parts :=
  gists_cons_propertyName (by simp [Token.isPropertyName, htoken])

theorem gists_cons_semicolon (htoken : token.isPunctuation ";" = true) :
    gists (.own token :: parts) = gists parts := by
  simp [gists_cons_own, Token.isSeparator, htoken]

@[simp]
theorem gists_cons_mark (value : String) :
    gists (mark value :: parts) =
      if value = ";" ∨ value = "," then gists parts else .inl value :: gists parts := by
  by_cases hvalue : value = ";" ∨ value = ","
  · rcases hvalue with rfl | rfl <;> rfl
  · rw [if_neg hvalue]
    have hmark : Token.isPunctuation (.plain .punctuation value) value = true := by
      simp [Token.isPunctuation, Token.is, Token.plain]
    exact gists_cons_punctuation hmark (fun h => hvalue (.inl h)) (fun h => hvalue (.inr h))

@[simp]
theorem gists_cons_word (value : String) :
    gists (word value :: parts) = .inl value :: gists parts := rfl

@[simp]
theorem gists_cons_symbol (value : String) :
    gists (operator value :: parts) = .inl value :: gists parts := rfl

end Part

/-- The tokens of leaves and operations are among some parts: a leaf is a token of its kind,
or a word that serves as a name, and an operator is an operator or a punctuation mark. -/
def Shape.ShownIn (parts : List (Part NodeId)) : Shape NodeId → Prop
  | .leaf .name token =>
      ∃ word, .own word ∈ parts ∧ word.isMemberName = true ∧ token = word.asName
  | .leaf .number token => .own token ∈ parts ∧ token.kind = .number
  | .leaf .string token => .own token ∈ parts ∧ token.kind = .string
  | .leaf .regex token => .own token ∈ parts ∧ token.kind = .regex
  | .leaf .comment token => .own token ∈ parts ∧ token.isComment = true
  | .unary _ operator _ => .own operator ∈ parts ∧ operator.kind = .operator
  | .binary _ operator _ =>
      .own operator ∈ parts ∧ (operator.kind = .operator ∨ operator.kind = .punctuation)
  | _ => True

/-- The parts that a drafted node takes up: what counts of them is what its shape
asks for, they reach from its first edge to its last, and the tokens that the shape
shows are among them. -/
structure Draft.Covers (draft : Draft) (parts : List (Part NodeId)) : Prop where
  gists : Part.gists parts = Part.gists draft.shape.layout
  first : Part.firstEdge? parts = some draft.first
  last : Part.lastEdge? parts = some draft.last
  shown : draft.shape.ShownIn parts

/-- The parts left over on the way from one session to another. -/
inductive Trace (start : Session) : List (Part NodeId) → Session → Prop
  | start : Trace start [] start
  | shift {parts : List (Part NodeId)} {session : Session} :
      Trace start parts session → session.cursor.current.isWord = true →
      Trace start (parts ++ [.own session.cursor.current]) session.passed
  | skip {parts : List (Part NodeId)} {session : Session} :
      Trace start parts session → session.cursor.current.isSkippable = true →
      Trace start parts session.passed
  | comment {parts : List (Part NodeId)} {session : Session} :
      Trace start parts session → session.cursor.current.isComment = true →
      Trace start (parts ++ [.below (session.tree.size + 1)])
        (session.passed.grown (.leaf .comment session.cursor.current))
  | reduce {parts taken : List (Part NodeId)} {session : Session} {draft : Draft} :
      Trace start (parts ++ taken) session → draft.Covers taken →
      Trace start (parts ++ [.below (session.tree.size + 1)]) (session.grown draft)

namespace Trace

variable {start session after : Session} {parts done : List (Part NodeId)}

theorem trans (hfirst : Trace start done session) (hsecond : Trace session parts after) :
    Trace start (done ++ parts) after := by
  induction hsecond with
  | start => rwa [List.append_nil]
  | shift _ hword ih =>
      rw [← List.append_assoc]
      exact ih.shift hword
  | skip _ hskippable ih => exact ih.skip hskippable
  | comment _ hcomment ih =>
      rw [← List.append_assoc]
      exact ih.comment hcomment
  | reduce _ hcovers ih =>
      rw [← List.append_assoc] at ih ⊢
      exact ih.reduce hcovers

/-- A node that takes up all parts. -/
theorem reduceAll {draft : Draft} (htrace : Trace start parts session)
    (hcovers : draft.Covers parts) :
    Trace start [.below (session.tree.size + 1)] (session.grown draft) := by
  have hparts : Trace start ([] ++ parts) session := htrace
  exact hparts.reduce hcovers

/-- Tokens that do not count may be passed in a row. -/
theorem dropWhile {test : Token → Bool}
    (htest : ∀ token, test token = true → token.isSkippable = true)
    (htrace : Trace start parts session) :
    Trace start parts
      { session with
        cursor :=
          { session.cursor with pending := session.cursor.pending.dropWhile test } } := by
  obtain ⟨⟨pending, last, hlast⟩, tree⟩ := session
  induction pending with
  | nil => exact htrace
  | cons token pending ih =>
      rw [List.dropWhile_cons]
      split
      · rename_i htoken
        exact ih (htrace.skip (htest token htoken))
      · exact htrace

theorem uncommented (htrace : Trace start parts session) :
    Trace start parts session.uncommented :=
  htrace.dropWhile fun _ => Token.isSkippable_of_isComment

theorem skipBlockComments (htrace : Trace start parts session) :
    Trace start parts { session with cursor := session.cursor.skipBlockComments } := by
  apply htrace.dropWhile
  intro token htoken
  apply Token.isSkippable_of_isComment
  simp [Token.isComment, htoken]

end Trace

end ScriptSyntax

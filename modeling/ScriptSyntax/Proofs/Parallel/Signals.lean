import ScriptSyntax.Parse.Statement

/-!
# What steers the parser

Of a token only its kind, the text of operators, keywords and punctuation, and the line
break before it can decide what is read.  This part of a token is its signal.  The line
break before a semicolon is left out of it: no test of a single token asks for it, and
where the search for the end of a statement does, the semicolon stands among others.
-/

namespace ScriptSyntax

namespace Token

/-- Tokens of the kind are told apart by their text. -/
def Kind.isSyntactic : Kind → Bool
  | .operator | .keyword | .punctuation => true
  | .lineComment | .blockComment | .number | .string | .regex | .identifier | .eof => false

/-- What of the token steers the parser, apart from the line break before a semicolon. -/
def signal (token : Token) : Token where
  kind := token.kind
  value := if token.kind.isSyntactic then token.value else ""
  span := .null
  newlineBefore := token.newlineBefore && !token.isPunctuation ";"

@[simp]
theorem signal_kind (token : Token) : token.signal.kind = token.kind := rfl

theorem signal_value {token : Token} (htoken : token.kind.isSyntactic = true) :
    token.signal.value = token.value :=
  if_pos htoken

theorem signal_newlineBefore {token : Token} (htoken : token.isPunctuation ";" = false) :
    token.signal.newlineBefore = token.newlineBefore := by
  simp [signal, htoken]

/-- What is asked of a token depends on its signal only. -/
def Superficial {Result : Type} (question : Token → Result) : Prop :=
  ∀ token : Token, question token.signal = question token

variable {Result : Type} {question : Token → Result} {first second : Token}

theorem Superficial.congr (hquestion : Superficial question)
    (hsignal : first.signal = second.signal) : question first = question second := by
  rw [← hquestion first, hsignal, hquestion second]

/-- A question that is settled by the kind and, for the kinds that are told apart by it, the
text. -/
theorem superficial_of_text (answer : Kind → String → Result)
    (hanswer : ∀ kind value, kind.isSyntactic = false → answer kind value = answer kind "") :
    Superficial fun token => answer token.kind token.value := by
  intro token
  change answer token.signal.kind token.signal.value = answer token.kind token.value
  cases hkind : token.kind.isSyntactic with
  | true => rw [signal_kind, signal_value hkind]
  | false =>
      have hvalue : token.signal.value = "" := by simp [signal, hkind]
      rw [signal_kind, hvalue, ← hanswer token.kind token.value hkind]

theorem superficial_kind : Superficial kind :=
  fun _ => rfl

theorem superficial_is {kind : Kind} (hkind : kind.isSyntactic = true) (value : String) :
    Superficial (·.is kind value) := by
  apply superficial_of_text fun other text => other == kind && text == value
  intro other text hother
  have hne : (other == kind) = false := by
    rw [beq_eq_false_iff_ne]
    rintro rfl
    rw [hkind] at hother
    cases hother
  change (other == kind && text == value) = (other == kind && "" == value)
  rw [hne, Bool.false_and, Bool.false_and]

theorem superficial_isPunctuation (mark : String) : Superficial (·.isPunctuation mark) :=
  superficial_is rfl mark

theorem superficial_isKeyword (word : String) : Superficial (·.isKeyword word) :=
  superficial_is rfl word

theorem superficial_isOperator (symbol : String) : Superficial (·.isOperator symbol) :=
  superficial_is rfl symbol

theorem superficial_isEnd : Superficial isEnd :=
  fun _ => rfl

theorem superficial_isComment : Superficial isComment :=
  fun _ => rfl

theorem superficial_isPostfix : Superficial isPostfix := by
  apply superficial_of_text fun kind value => kind == .operator && postfixOperators.contains value
  intro kind value hkind
  cases kind <;> first | rfl | cases hkind

theorem superficial_isAssignment : Superficial isAssignment := by
  apply superficial_of_text fun kind value =>
    kind == .operator && assignmentOperators.contains value
  intro kind value hkind
  cases kind <;> first | rfl | cases hkind

theorem superficial_isMemberName : Superficial isMemberName := by
  apply superficial_of_text fun kind value =>
    kind == .identifier || kind == .keyword ||
      (kind == .operator && value.toList.all Char.isAlpha)
  intro kind value hkind
  cases kind <;> first | rfl | cases hkind

theorem superficial_isPropertyName : Superficial isPropertyName := by
  intro token
  simp only [isPropertyName, superficial_isMemberName token, signal_kind]

theorem superficial_binding : Superficial binding := by
  apply superficial_of_text fun kind value =>
    if kind = .operator then Binding.ofOperator value else .lowest
  intro kind value hkind
  cases kind <;> first | rfl | cases hkind

open Production in
theorem superficial_operandStart : Superficial OperandStart.of := by
  intro token
  cases hkind : token.kind <;>
    simp [OperandStart.of, signal, hkind, Kind.isSyntactic, isPrefix, isValueKeyword]

/-- An operator behind its operand has to stand on the line of the operand. -/
theorem superficial_suffix : Superficial fun token => token.isPostfix && !token.newlineBefore := by
  intro token
  change (token.signal.isPostfix && _) = (token.isPostfix && _)
  rw [superficial_isPostfix]
  cases hpostfix : token.isPostfix with
  | false => rfl
  | true =>
      have hkind : token.kind = .operator := by
        simp only [isPostfix, Bool.and_eq_true, beq_iff_eq] at hpostfix
        exact hpostfix.1
      rw [signal_newlineBefore (by simp [isPunctuation, is, hkind])]

/-- A label has to stand on the line of its jump, where semicolons are inserted. -/
theorem superficial_label (required : Bool) :
    Superficial fun token => token.kind == .identifier && (!token.newlineBefore || required) := by
  intro token
  cases hkind : token.kind == .identifier with
  | false => simp [hkind]
  | true =>
      have hname : token.kind = .identifier := beq_iff_eq.mp hkind
      simp only [signal_kind]
      rw [signal_newlineBefore (by simp [isPunctuation, is, hname])]

theorem not_semicolon_of_kind {token : Token} (htoken : token.kind ≠ .punctuation) :
    token.isPunctuation ";" = false := by
  simp [isPunctuation, is, htoken]

theorem not_semicolon_of_isKeyword {token : Token} {word : String}
    (htoken : token.isKeyword word = true) : token.isPunctuation ";" = false := by
  apply not_semicolon_of_kind
  rw [((token.is_iff _ _).mp htoken).1]
  nofun

/-- Prefixes, postfixes and assignments are operators of a vocabulary. -/
theorem not_semicolon_of_operator {token : Token} {vocabulary : List String}
    (htoken : (token.kind == .operator && vocabulary.contains token.value) = true) :
    token.isPunctuation ";" = false := by
  rw [Bool.and_eq_true, beq_iff_eq] at htoken
  apply not_semicolon_of_kind
  rw [htoken.1]
  nofun

theorem not_semicolon_of_isPropertyName {token : Token} (htoken : token.isPropertyName = true) :
    token.isPunctuation ";" = false := by
  apply not_semicolon_of_kind
  intro hkind
  simp [isPropertyName, isMemberName, isWordOperator, hkind] at htoken

theorem not_semicolon_of_isMemberName {token : Token} (htoken : token.isMemberName = true) :
    token.isPunctuation ";" = false := by
  apply not_semicolon_of_kind
  intro hkind
  simp [isMemberName, isWordOperator, hkind] at htoken

/-- A token that continues a construct which is complete without it, or turns what comes
before it into something else. -/
def isConnective (token : Token) : Bool :=
  token.isPunctuation ":" || token.isOperator "in" || token.isKeyword "else" ||
    token.isKeyword "catch" || token.isKeyword "finally"

theorem isConnective_of_kind {token : Token} (htoken : token.kind = .eof) :
    token.isConnective = false := by
  simp [isConnective, isPunctuation, isOperator, isKeyword, is, htoken]

end Token

/-- What a statement opens with is settled by the signal of the first token and by whether
a colon follows. -/
theorem Production.Opening.of_congr (labels : Bool) {first second next other : Token}
    (hsignal : first.signal = second.signal)
    (hcolon : first.kind = .identifier → next.isPunctuation ":" = other.isPunctuation ":") :
    Opening.of labels first next = Opening.of labels second other := by
  have hkind : first.kind = second.kind := Token.superficial_kind.congr hsignal
  have hvalue : first.kind.isSyntactic = true → first.value = second.value := by
    intro hsyntactic
    rw [← Token.signal_value hsyntactic, hsignal, Token.signal_value (hkind ▸ hsyntactic)]
  unfold Opening.of
  rw [← hkind]
  cases hfirst : first.kind with
  | identifier => simp only [hcolon hfirst]
  | punctuation => simp only [hvalue (by rw [hfirst]; rfl)]
  | keyword => simp only [hvalue (by rw [hfirst]; rfl)]
  | _ => rfl

end ScriptSyntax

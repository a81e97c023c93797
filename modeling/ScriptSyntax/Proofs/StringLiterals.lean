import ScriptSyntax.Proofs.Lexeme.Quotation
import ScriptSyntax.Proofs.Segmentation

/-!
# Writing strings

Every text can be written as a string in either kind of quotes, and the scanner
reads it back.  Two readers have to agree on where an escape ends: the one that
looks for the closing quote, and the one that decodes what stands before it.
They disagree on a backslash before a carriage return and a line feed, which is
one escape to the second but not to the first.
-/

namespace ScriptSyntax

open Text

namespace StringText

/-! ## Escapes -/

theorem decode_cons {character : Char} (hbackslash : character ≠ '\\') (rest : List Char) :
    decode (character :: rest) = character :: decode rest := by
  rw [decode]
  · exact fun hsame _ => hbackslash hsame
  · exact fun _ _ hsame _ => hbackslash hsame

theorem decode_escape (letter : Char) (rest : List Char) :
    decode ('\\' :: letter :: rest) =
      (escape letter rest).1 ++ decode (rest.drop (escape letter rest).2) := by
  rw [decode]

/-- How a character is written between quotes: backslashes, the quote itself and
line ends are escaped. -/
def escaped (quote character : Char) : List Char :=
  if character = '\n' then ['\\', 'n']
  else if character = '\r' then ['\\', 'r']
  else if character = '\\' ∨ character = quote then ['\\', character]
  else [character]

/-- How a text is written between quotes. -/
def encode (quote : Char) (text : List Char) : List Char :=
  text.flatMap (escaped quote)

variable {quote : Char}

theorem isStringBody_escaped (quote character : Char) :
    Lexeme.IsStringBody quote (escaped quote character) := by
  unfold escaped
  split
  · exact .escape 'n' .nil
  split
  · exact .escape 'r' .nil
  split
  · exact .escape character .nil
  · rename_i hfeed hreturn hother
    obtain ⟨hbackslash, hquote⟩ := not_or.mp hother
    exact .plain hquote hbackslash (by simp [Lexeme.isLineEnd, hfeed, hreturn]) .nil

theorem isStringBody_encode (quote : Char) (text : List Char) :
    Lexeme.IsStringBody quote (encode quote text) := by
  induction text with
  | nil => exact .nil
  | cons character text ih => exact (isStringBody_escaped quote character).append ih

/-- An escaped backslash or quote stands for itself. -/
theorem escape_self (hquote : Lexeme.isQuote quote = true) {character : Char}
    (hcharacter : character = '\\' ∨ character = quote) (rest : List Char) :
    escape character rest = ([character], 0) := by
  simp only [Lexeme.isQuote, Bool.or_eq_true, beq_iff_eq] at hquote
  rcases hcharacter with rfl | rfl
  · rfl
  · rcases hquote with rfl | rfl <;> rfl

theorem decode_escaped_append (hquote : Lexeme.isQuote quote = true) (character : Char)
    (rest : List Char) : decode (escaped quote character ++ rest) = character :: decode rest := by
  unfold escaped
  split
  · rename_i hfeed
    rw [hfeed]
    exact decode_escape 'n' rest
  split
  · rename_i hreturn
    rw [hreturn]
    exact decode_escape 'r' rest
  split
  · rename_i hself
    have hescape := decode_escape character rest
    rwa [escape_self hquote hself] at hescape
  · rename_i hother
    exact decode_cons (fun hbackslash => hother (.inl hbackslash)) rest

/-- What is written decodes to the text, whatever stands behind it. -/
theorem decode_encode_append (hquote : Lexeme.isQuote quote = true) (text rest : List Char) :
    decode (encode quote text ++ rest) = text ++ decode rest := by
  induction text with
  | nil => rfl
  | cons character text ih =>
      rw [encode, List.flatMap_cons, List.append_assoc, decode_escaped_append hquote]
      exact congrArg (character :: ·) ih

theorem decode_encode (hquote : Lexeme.isQuote quote = true) (text : List Char) :
    decode (encode quote text) = text := by
  simpa [decode] using decode_encode_append hquote text []

end StringText

open StringText
open Lexeme (quotation)

/-! ## Sources of one string -/

/-- The tokens of a source that is one string of the given value, and the end
token. -/
def stringTokens (file : String) (source value : List Char) : List Token :=
  [{ kind := .string, value := String.ofList value
     span := ⟨.ofByte file 0, .ofByte file (byteLength source)⟩, newlineBefore := false },
    .endOfInput ⟨.ofByte file (byteLength source), .ofByte file (byteLength source)⟩ false]

section Source

variable {quote : Char} (hquote : Lexeme.isQuote quote = true) (file : String)

include hquote

/-- A body between quotes is one string token, of the value it decodes to. -/
theorem tokenize_quotation {body : List Char} (hbody : Lexeme.IsStringBody quote body) :
    tokenize (String.ofList (quotation quote body)) file =
      .ok (stringTokens file (quotation quote body) (decode body)) := by
  have hlength : Lexeme.stringLength (quotation quote body) = (quotation quote body).length := by
    simpa using hbody.stringLength_append hquote []
  have hpos : 0 < LexemeClass.string.measure (quotation quote body) := by
    rw [LexemeClass.measure, hlength]
    exact Nat.zero_lt_succ _
  have hfirst : Lexeme.first? true (quotation quote body ++ []) = some ⟨.string, _, hpos⟩ := by
    rw [List.append_nil]
    exact (Lexeme.first?_of_isQuote hquote true _).trans (dif_pos hpos)
  have hscan : scan ⟨file, 0, false⟩ none (quotation quote body ++ []) = _ :=
    scan_append hfirst hlength
  have hinside : (quotation quote body).tail.dropLast = body := List.dropLast_concat
  have hcomment : (Token.Kind.string == Token.Kind.blockComment) = false := rfl
  rw [tokenize, String.toList_ofList, ← List.append_nil (quotation quote body), hscan,
    Lexeme.kind?, Option.elim_some, scan_nil, Lexeme.value, hinside, List.append_nil]
  simp [stringTokens, Except.map, Reader.token, Reader.pass, Reader.endToken, Reader.span,
    Reader.position, hcomment]

/-- A quote behind which no quote closes the string is where the scanner fails. -/
theorem tokenize_of_stringTail?_eq_none {rest : List Char}
    (hopen : Lexeme.stringTail? quote rest = none) :
    tokenize (String.ofList (quote :: rest)) file =
      .error ⟨.unterminated (String.ofList ((quote :: rest).take 8)), .ofByte file 0⟩ := by
  have hnone : Lexeme.first? true (quote :: rest) = none := by
    rw [Lexeme.first?_of_isQuote hquote, Lexeme.ofClass?_eq_none_iff, LexemeClass.measure,
      Lexeme.stringLength_cons hquote, hopen]
    rfl
  have hopens : Reader.opensLiteral (quote :: rest) = true := by
    simp only [Lexeme.isQuote, Bool.or_eq_true, beq_iff_eq] at hquote
    rcases hquote with rfl | rfl <;> rfl
  rw [tokenize, String.toList_ofList, scan.eq_def]
  simp only [Option.all_none, hnone, Reader.failure, hopens, if_true, Reader.position]

/-- Every text is the value of the string that it is written as. -/
theorem tokenize_encode (text : List Char) :
    tokenize (String.ofList (quotation quote (encode quote text))) file =
      .ok (stringTokens file (quotation quote (encode quote text)) text) := by
  rw [tokenize_quotation hquote file (isStringBody_encode quote text), decode_encode hquote]

end Source

/-- A backslash, quotes of both kinds, the end of a line, and a character of
several bytes. -/
theorem tokenize_encode_mixed :
    let text := "\\\"'\r\n\u2028".toList
    let source := "\"\\\\\\\"'\\r\\n\u2028\""
    Lexeme.isQuote '"' = true ∧
      tokenize source "a" = .ok (stringTokens "a" source.toList text) := by
  intro text source
  have hquote : Lexeme.isQuote '"' = true := rfl
  have hsource : quotation '"' (encode '"' text) = source.toList := by decide +kernel
  have hread := tokenize_encode hquote "a" text
  rw [hsource, String.ofList_toList] at hread
  exact ⟨hquote, hread⟩

/-! ## Continued lines -/

/-- The ends of a line.  A carriage return with a line feed behind it is one. -/
def lineTerminators : List (List Char) :=
  [['\n'], ['\r'], ['\r', '\n'], ['\u2028'], ['\u2029']]

/-- A string that holds two texts with a backslash and the end of a line between
them. -/
def continuation (quote : Char) (first terminator second : List Char) : List Char :=
  quotation quote (encode quote first ++ '\\' :: (terminator ++ encode quote second))

/-- A backslash vanishes together with the character behind it that ends a
line. -/
theorem escape_lineTerminator {terminator : Char} (hterminator : [terminator] ∈ lineTerminators)
    {rest : List Char} (hrest : rest.head? ≠ some '\n') : escape terminator rest = ([], 0) := by
  simp only [lineTerminators, List.mem_cons, List.cons.injEq, and_true, List.not_mem_nil,
    or_false, reduceCtorEq, and_false, false_or] at hterminator
  rcases hterminator with rfl | rfl | rfl | rfl
  · rfl
  · simp [escape, hrest]
  · rfl
  · rfl

section Continuation

variable {quote : Char} (hquote : Lexeme.isQuote quote = true) (file : String)
  (first second : List Char)

include hquote

/-- A line may be continued behind an end of one character. -/
theorem tokenize_continuation_single {terminator : Char}
    (hterminator : [terminator] ∈ lineTerminators) :
    tokenize (String.ofList (continuation quote first [terminator] second)) file =
      .ok (stringTokens file (continuation quote first [terminator] second) (first ++ second)) := by
  have hsecond := isStringBody_encode quote second
  have hbody : Lexeme.IsStringBody quote
      (encode quote first ++ '\\' :: terminator :: encode quote second) :=
    (isStringBody_encode quote first).append (.escape terminator hsecond)
  have hescape : escape terminator (encode quote second) = ([], 0) :=
    escape_lineTerminator hterminator (hsecond.head?_ne rfl)
  have hdecode : decode (encode quote first ++ '\\' :: terminator :: encode quote second) =
      first ++ second := by
    rw [decode_encode_append hquote, decode_escape, hescape]
    exact congrArg (first ++ ·) (decode_encode hquote second)
  have hread := tokenize_quotation hquote file hbody
  rwa [hdecode] at hread

/-- Behind a carriage return and a line feed it may not: the backslash takes only
the carriage return with it, and the line feed leaves the string open. -/
theorem tokenize_continuation_pair :
    tokenize (String.ofList (continuation quote first ['\r', '\n'] second)) file =
      .error ⟨.unterminated (String.ofList ((continuation quote first ['\r', '\n'] second).take 8)),
        .ofByte file 0⟩ := by
  have hbody : Lexeme.IsStringBody quote (encode quote first ++ ['\\', '\r']) :=
    (isStringBody_encode quote first).append (.escape '\r' .nil)
  have hfeed : '\n' ≠ quote := by
    rintro rfl
    cases hquote
  have hopen : Lexeme.stringTail? quote
      (encode quote first ++ ['\\', '\r'] ++ '\n' :: (encode quote second ++ [quote])) = none := by
    rw [hbody.stringTail?_append, Lexeme.stringTail?_cons (by decide), if_neg hfeed]
    rfl
  have hsource : continuation quote first ['\r', '\n'] second = quote ::
      (encode quote first ++ ['\\', '\r'] ++ '\n' :: (encode quote second ++ [quote])) := by
    simp [continuation, quotation]
  rw [hsource]
  exact tokenize_of_stringTail?_eq_none hquote file hopen

/-- A string may be continued on another line behind every end of a line but
that of two characters, which leaves it open. -/
theorem tokenize_continuation {terminator : List Char}
    (hterminator : terminator ∈ lineTerminators) :
    tokenize (String.ofList (continuation quote first terminator second)) file =
      if terminator = ['\r', '\n'] then
        .error ⟨.unterminated (String.ofList ((continuation quote first terminator second).take 8)),
          .ofByte file 0⟩
      else
        .ok (stringTokens file (continuation quote first terminator second)
          (first ++ second)) := by
  by_cases hpair : terminator = ['\r', '\n']
  · rw [if_pos hpair, hpair]
    exact tokenize_continuation_pair hquote file first second
  · have hsingle : ∀ terminator ∈ lineTerminators, terminator ≠ ['\r', '\n'] →
        ∃ character, terminator = [character] := by
      simp [lineTerminators]
    obtain ⟨character, rfl⟩ := hsingle terminator hterminator hpair
    rw [if_neg hpair]
    exact tokenize_continuation_single hquote file first second hterminator

end Continuation

/-- A string on two lines, with a quote in each part. -/
theorem tokenize_continuation_quotes :
    let source := "'a\\'\\\u2028\"b'"
    Lexeme.isQuote '\'' = true ∧ ['\u2028'] ∈ lineTerminators ∧
      tokenize source "a" = .ok (stringTokens "a" source.toList "a'\"b".toList) := by
  intro source
  have hquote : Lexeme.isQuote '\'' = true := rfl
  have hterminator : ['\u2028'] ∈ lineTerminators := by decide
  have hsource : continuation '\'' "a'".toList ['\u2028'] "\"b".toList = source.toList := by
    decide +kernel
  have hread := tokenize_continuation hquote "a" "a'".toList "\"b".toList hterminator
  rw [if_neg (by decide), hsource, String.ofList_toList] at hread
  exact ⟨hquote, hterminator, hread⟩

/-- Nothing on either line, and yet no string. -/
theorem tokenize_continuation_pair_fails :
    let source := "\"\\\r\n\""
    Lexeme.isQuote '"' = true ∧ ['\r', '\n'] ∈ lineTerminators ∧
      source = String.ofList (continuation '"' [] ['\r', '\n'] []) ∧
        ∀ tokens, tokenize source "a" ≠ .ok tokens := by
  intro source
  have hsource : source = String.ofList (continuation '"' [] ['\r', '\n'] []) := by
    decide +kernel
  refine ⟨rfl, by decide, hsource, ?_⟩
  intro tokens hread
  rw [hsource, tokenize_continuation_pair rfl] at hread
  cases hread

end ScriptSyntax

import ScriptSyntax.Proofs.Lexeme.Cutting
import ScriptSyntax.Proofs.Lexeme.Numerals
import ScriptSyntax.Proofs.Lexeme.Quotation
import ScriptSyntax.Proofs.Scanning
import ScriptSyntax.Proofs.Segmentation

/-!
# Where the scanner stops

The scanner stops in front of a text that starts no lexeme.  What it has passed
over by then scans on its own: no lexeme changes when the source is cut off
behind it.  And what it reports is the case: a literal is not closed, or a
character starts no lexeme whatever stands behind it.
-/

namespace ScriptSyntax

open Text

namespace Lexeme

/-! ## Texts that start no lexeme -/

/-- Where the scanner finds nothing there is a lexeme of no class, except for a
regular expression that may not stand there. -/
theorem measure_of_first?_eq_none {admitted : Bool} {text : List Char}
    (hnone : first? admitted text = none) (category : LexemeClass)
    (hcategory : category ≠ .regex) : category.measure text = 0 := by
  have hmember : category ∈ LexemeClass.inOrder := by cases category <;> decide
  have hmissed := List.findSome?_eq_none_iff.mp hnone category hmember
  rw [if_neg fun hregex => hcategory hregex.1] at hmissed
  exact ofClass?_eq_none_iff.mp hmissed

theorem ne_nil_of_mem_symbolOperators :
    ∀ symbol ∈ Token.symbolOperators, symbol.toList ≠ [] := by
  decide

theorem operatorLength_eq_zero_iff {text : List Char} :
    operatorLength text = 0 ↔ ∀ symbol ∈ Token.symbolOperators, ¬symbol.toList <+: text := by
  unfold operatorLength
  split
  · rename_i hnone
    simpa using hnone
  · rename_i symbol hsome
    have hmember := List.mem_of_find?_eq_some hsome
    have hheads : symbol.toList <+: text := by simpa using List.find?_some hsome
    have hne := ne_nil_of_mem_symbolOperators symbol hmember
    exact iff_of_false (mt List.length_eq_zero_iff.mp hne) fun hopen =>
      hopen symbol hmember hheads

/-- The first character of an operator in symbols is one itself. -/
theorem head_mem_symbolOperators :
    ∀ symbol ∈ Token.symbolOperators, ∀ first ∈ symbol.toList.head?,
      String.ofList [first] ∈ Token.symbolOperators := by
  have hall : (Token.symbolOperators.all fun symbol => symbol.toList.head?.all fun first =>
      Token.symbolOperators.contains (String.ofList [first])) = true := by decide
  simpa only [List.all_eq_true, Option.all_eq_true, List.contains_iff_mem, Option.mem_def]
    using hall

/-- The character is none of those that a lexeme may start with. -/
structure IsStray (character : Char) : Prop where
  blank : isBlank character = false
  digit : character.isDigit = false
  quote : isQuote character = false
  word : isWordStart character = false
  mark : character ∉ Token.punctuationMarks
  symbol : String.ofList [character] ∉ Token.symbolOperators

namespace IsStray

variable {character : Char} (hstray : IsStray character)

include hstray

theorem ne_slash : character ≠ '/' := by
  rintro rfl
  exact hstray.symbol (by decide)

theorem ne_dot : character ≠ '.' := by
  rintro rfl
  exact hstray.mark (by decide)

theorem numberLength_cons (rest : List Char) : numberLength (character :: rest) = 0 := by
  have hdigits : runLength Char.isDigit (character :: rest) = 0 := by simp [hstray.digit]
  apply numberLength_eq_zero
  · rintro ⟨⟩
    cases hstray.digit
  · rw [mantissaLength_eq, hdigits]
    exact mantissaWith_of_head_ne (by simpa using hstray.ne_dot)

theorem operatorLength_cons (rest : List Char) : operatorLength (character :: rest) = 0 := by
  rw [operatorLength_eq_zero_iff]
  intro symbol hsymbol hheads
  obtain ⟨first, others, hfirst⟩ :=
    List.exists_cons_of_ne_nil (ne_nil_of_mem_symbolOperators symbol hsymbol)
  rw [hfirst, List.cons_prefix_cons] at hheads
  apply hstray.symbol
  exact hheads.1 ▸ head_mem_symbolOperators symbol hsymbol first (by rw [hfirst]; rfl)

/-- No lexeme starts with a stray character. -/
theorem first?_cons (admitted : Bool) (rest : List Char) :
    first? admitted (character :: rest) = none := by
  apply List.findSome?_eq_none_iff.mpr
  intro category _
  split
  · rfl
  apply ofClass?_eq_none_iff.mpr
  cases category with
  | blank => simp [LexemeClass.measure, hstray.blank]
  | lineComment | blockComment | regex =>
      exact measure_of_ne_slash (by decide) hstray.ne_slash rest
  | number => exact hstray.numberLength_cons rest
  | string => exact stringLength_of_not_isQuote hstray.quote rest
  | word => simp [LexemeClass.measure, wordLength, hstray.word]
  | punctuation => exact if_neg hstray.mark
  | operator => exact hstray.operatorLength_cons rest

end IsStray

section Missing

variable {admitted : Bool}

/-- A character that starts no lexeme in one text, and is no quote, starts none
in any. -/
theorem isStray_of_first? {character : Char} {rest : List Char}
    (hnone : first? admitted (character :: rest) = none) (hquote : isQuote character = false) :
    IsStray character where
  blank := by
    have hblank : runLength isBlank (character :: rest) = 0 :=
      measure_of_first?_eq_none hnone .blank (by decide)
    simpa using hblank
  digit := by
    have hnumber : numberLength (character :: rest) = 0 :=
      measure_of_first?_eq_none hnone .number (by decide)
    rw [Bool.eq_false_iff]
    intro hdigit
    have hnumeral : IsNumeral [character] :=
      .plain (.whole (List.cons_ne_nil _ _) (by simpa using hdigit))
    have hlength := hnumeral.length_le rest
    rw [List.singleton_append, hnumber] at hlength
    cases hlength
  quote := hquote
  word := by
    have hword : wordLength (character :: rest) = 0 :=
      measure_of_first?_eq_none hnone .word (by decide)
    simpa [wordLength] using hword
  mark := by
    have hmark : punctuationLength (character :: rest) = 0 :=
      measure_of_first?_eq_none hnone .punctuation (by decide)
    simpa [punctuationLength] using hmark
  symbol := by
    have hsymbol : operatorLength (character :: rest) = 0 :=
      measure_of_first?_eq_none hnone .operator (by decide)
    intro hmember
    apply operatorLength_eq_zero_iff.mp hsymbol _ hmember
    rw [String.toList_ofList]
    exact List.prefix_append [character] rest

/-- The scanner never stops at a slash, which is an operator if it is nothing
else.  So it passes over the marks of a comment that nothing closes. -/
theorem head?_ne_slash_of_first?_eq_none {text : List Char} (hnone : first? admitted text = none) :
    text.head? ≠ some '/' := by
  intro hslash
  obtain ⟨rest, rfl⟩ := List.head?_eq_some_iff.mp hslash
  have hsymbol : operatorLength ('/' :: rest) = 0 :=
    measure_of_first?_eq_none hnone .operator (by decide)
  exact operatorLength_eq_zero_iff.mp hsymbol "/" (by decide) (List.prefix_append ['/'] rest)

/-- Where the scanner finds nothing there is no closed string. -/
theorem not_isStringLiteral_prefix {rest : List Char} (hnone : first? admitted rest = none)
    {literal : List Char} (hliteral : IsStringLiteral literal) : ¬literal <+: rest := by
  rintro ⟨behind, rfl⟩
  obtain ⟨quote, body, hquote, hbody, rfl⟩ := hliteral
  have hstring : stringLength (Lexeme.quotation quote body ++ behind) = 0 :=
    measure_of_first?_eq_none hnone .string (by decide)
  rw [hbody.stringLength_append hquote] at hstring
  cases hstring

theorem isSome_commentTail?_iff {text : List Char} :
    (commentTail? text).isSome = true ↔ ['*', '/'] <:+: text := by
  induction text with
  | nil => simp [commentTail?]
  | cons character text ih =>
      rw [isSome_commentTail?_cons, ih, List.infix_cons_iff]
      apply or_congr_left
      rw [List.cons_prefix_cons, List.singleton_prefix_iff_head?_eq_some]
      exact and_congr_left fun _ => eq_comm

/-- Where the scanner finds nothing a comment does not close. -/
theorem not_closes_comment {behind : List Char}
    (hnone : first? admitted ('/' :: '*' :: behind) = none) : ¬['*', '/'] <:+: behind := by
  rw [← isSome_commentTail?_iff]
  intro hclosed
  obtain ⟨tail, htail⟩ := Option.isSome_iff_exists.mp hclosed
  have hcomment : blockCommentLength ('/' :: '*' :: behind) = 0 :=
    measure_of_first?_eq_none hnone .blockComment (by decide)
  simp [blockCommentLength, htail] at hcomment

end Missing

end Lexeme

/-! ## The prefix that was passed over -/

/-- A scanner that fails has found no lexeme at some place, and the text before
that place scans. -/
theorem exists_front_of_scan_error {reader : Reader} {previous : Option Token} {text : List Char}
    {diagnostic : Diagnostic} (hscan : scan reader previous text = .error diagnostic) :
    ∃ front rest admitted tokens, text = front ++ rest ∧ rest ≠ [] ∧
      Lexeme.first? admitted rest = none ∧
        diagnostic = (reader.advance (byteLength front)).failure rest ∧
          scan reader previous front = .ok tokens := by
  fun_induction scan reader previous text with
  | case1 => cases hscan
  | case2 =>
      rename_i reader previous head tail hnone
      cases hscan
      exact ⟨[], head :: tail, _, _, rfl, List.cons_ne_nil head tail, hnone, rfl, scan_nil ..⟩
  | case3 =>
      rename_i reader previous head tail lexeme hfirst taken rest hkind ih
      obtain ⟨front, behind, admitted, tokens, hrest, hne, hnone, hfailure, hfront⟩ := ih hscan
      obtain ⟨hwhole, hcut, hlength⟩ := Lexeme.first?_of_drop_eq hfirst hrest
      refine ⟨taken ++ front, behind, admitted, tokens, hwhole, hne, hnone, ?_, ?_⟩
      · rw [hfailure, byteLength_append]
        simp only [Reader.failure, Reader.advance, Reader.skip, Reader.position, Nat.add_assoc]
      · rw [scan_append hcut hlength, hkind]
        exact hfront
  | case4 =>
      rename_i reader previous head tail lexeme hfirst taken rest kind hkind token ih
      cases hothers : scan (reader.pass kind taken) (token.significant previous) rest with
      | ok others =>
          rw [hothers] at hscan
          cases hscan
      | error failure =>
          rw [hothers] at hscan
          cases hscan
          obtain ⟨front, behind, admitted, tokens, hrest, hne, hnone, hfailure, hfront⟩ :=
            ih hothers
          obtain ⟨hwhole, hcut, hlength⟩ := Lexeme.first?_of_drop_eq hfirst hrest
          refine ⟨taken ++ front, behind, admitted, token :: tokens, hwhole, hne, hnone, ?_, ?_⟩
          · rw [hfailure, byteLength_append]
            simp only [Reader.failure, Reader.advance, Reader.pass, Reader.position, Nat.add_assoc]
          · rw [scan_append hcut hlength, hkind]
            exact congrArg (Except.map _) hfront

/-! ## What is reported -/

/-- The text starts with the mark that opens a comment, or with a quote. -/
def OpensLiteral (text : List Char) : Prop :=
  ['/', '*'] <+: text ∨ ∃ quote, Lexeme.isQuote quote = true ∧ [quote] <+: text

theorem opensLiteral_iff {text : List Char} :
    Reader.opensLiteral text = true ↔ OpensLiteral text := by
  unfold Reader.opensLiteral
  split
  · simp [OpensLiteral]
  · exact iff_of_true rfl (.inr ⟨'"', rfl, List.prefix_append ['"'] _⟩)
  · exact iff_of_true rfl (.inr ⟨'\'', rfl, List.prefix_append ['\''] _⟩)
  · rename_i hcomment hdouble hsingle
    apply iff_of_false Bool.false_ne_true
    rintro (⟨behind, rfl⟩ | ⟨quote, hquote, behind, rfl⟩)
    · exact hcomment behind rfl
    · simp only [Lexeme.isQuote, Bool.or_eq_true, beq_iff_eq] at hquote
      rcases hquote with rfl | rfl
      · exact hdouble behind rfl
      · exact hsingle behind rfl

/-- The cause of a failure in front of the rest of a source is the case. -/
structure Cause.TrueOf (cause : Cause) (rest : List Char) : Prop where
  /-- A literal is reported exactly if one is opened. -/
  unterminated_iff : (∃ text, cause = .unterminated text) ↔ OpensLiteral rest
  /-- It is shown by its first characters. -/
  shown : ∀ text, cause = .unterminated text → text = String.ofList (rest.take 8)
  /-- If it is a comment, nothing closes it. -/
  comment : ∀ behind, rest = '/' :: '*' :: behind → ¬['*', '/'] <:+: behind
  /-- If it is a string, nothing closes it. -/
  string : ∀ literal, Lexeme.IsStringLiteral literal → ¬literal <+: rest
  /-- Otherwise the first character is reported, and no text that starts with it
  starts with a lexeme. -/
  unrecognised : ¬OpensLiteral rest → ∃ first behind, rest = first :: behind ∧
    cause = .unrecognised (String.ofList [first]) ∧
      ∀ admitted text, Lexeme.first? admitted (first :: text) = none

theorem Reader.failure_trueOf (reader : Reader) {rest : List Char} (hrest : rest ≠ [])
    {admitted : Bool} (hnone : Lexeme.first? admitted rest = none) :
    (reader.failure rest).cause.TrueOf rest := by
  have hcomment : ∀ behind, rest = '/' :: '*' :: behind → ¬['*', '/'] <:+: behind := by
    rintro behind rfl
    exact Lexeme.not_closes_comment hnone
  have hstring : ∀ literal, Lexeme.IsStringLiteral literal → ¬literal <+: rest :=
    fun _ hliteral => Lexeme.not_isStringLiteral_prefix hnone hliteral
  by_cases hopens : OpensLiteral rest
  · have hcause : (reader.failure rest).cause = .unterminated (String.ofList (rest.take 8)) :=
      if_pos (opensLiteral_iff.mpr hopens)
    constructor
    case unterminated_iff => exact iff_of_true ⟨_, hcause⟩ hopens
    case shown => exact fun _ hshown => Cause.unterminated.inj (hshown.symm.trans hcause)
    case comment => exact hcomment
    case string => exact hstring
    case unrecognised => exact fun hnot => absurd hopens hnot
  · obtain ⟨first, behind, rfl⟩ := List.exists_cons_of_ne_nil hrest
    have hcause : (reader.failure (first :: behind)).cause =
        .unrecognised (String.ofList [first]) :=
      if_neg (mt opensLiteral_iff.mp hopens)
    have hquote : Lexeme.isQuote first = false := by
      rw [Bool.eq_false_iff]
      exact fun hquote => hopens (.inr ⟨first, hquote, List.prefix_append [first] behind⟩)
    have hstray : Lexeme.IsStray first := Lexeme.isStray_of_first? hnone hquote
    constructor
    case unterminated_iff =>
      apply iff_of_false _ hopens
      rintro ⟨_, hother⟩
      cases hcause.symm.trans hother
    case shown => exact fun _ hother => nomatch hcause.symm.trans hother
    case comment => exact hcomment
    case string => exact hstring
    case unrecognised => exact fun _ => ⟨first, behind, rfl, hcause, hstray.first?_cons⟩

/-- Where the scanner fails, the source cut off at that place scans, and what is
reported is the case.  The rest does not start with a slash, so the literal that is
reported as unterminated is always a string. -/
theorem tokenize_failures_truthful {source file : String} {diagnostic : Diagnostic}
    (htokens : tokenize source file = .error diagnostic) :
    ∃ front rest tokens, source.toList = front ++ rest ∧
      diagnostic.position = .ofByte file (byteLength front) ∧
        tokenize (String.ofList front) file = .ok tokens ∧ diagnostic.cause.TrueOf rest ∧
          rest.head? ≠ some '/' := by
  obtain ⟨front, rest, admitted, tokens, hsource, hrest, hnone, rfl, hfront⟩ :=
    exists_front_of_scan_error htokens
  refine ⟨front, rest, tokens, hsource, ?_, ?_, Reader.failure_trueOf _ hrest hnone,
    Lexeme.head?_ne_slash_of_first?_eq_none hnone⟩
  · simp only [Reader.failure, Reader.advance, Reader.position, Nat.zero_add]
  · rw [tokenize, String.toList_ofList]
    exact hfront

/-- A string whose last quote is escaped, behind a regular expression. -/
theorem tokenize_failures_truthful_string :
    let source := "/a/ + 'b\\'"
    ∃ diagnostic, tokenize source "a" = .error diagnostic ∧
      diagnostic.cause = .unterminated "'b\\'" ∧ diagnostic.position = .ofByte "a" 6 ∧
        ∃ front rest tokens, source.toList = front ++ rest ∧
          diagnostic.position = .ofByte "a" (byteLength front) ∧
            tokenize (String.ofList front) "a" = .ok tokens ∧ diagnostic.cause.TrueOf rest ∧
              rest.head? ≠ some '/' := by
  intro source
  let failure : Diagnostic := ⟨.unterminated "'b\\'", .ofByte "a" 6⟩
  have hread : tokenize source "a" = .error failure := eq_error_of_fails (by decide +kernel)
  exact ⟨failure, hread, rfl, rfl, tokenize_failures_truthful hread⟩

end ScriptSyntax

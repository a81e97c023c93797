import ScriptSyntax.Proofs.Lexeme.Escapes
import ScriptSyntax.Proofs.LineBreaks
import ScriptSyntax.Proofs.LongestMatch
import ScriptSyntax.Proofs.Respacing

/-!
# Tokens of a single line

Line comments and regular expressions are meant to stay in their line.  They end
before a line feed or a carriage return, but two of the characters that end a
line are plain characters to them, and an escape of a regular expression takes a
carriage return with it.  A line comment ends where the source does or before a
line break that the next token is flagged with.
-/

namespace ScriptSyntax

open Text

/-- The characters that end a line and are plain in comments, strings and
regular expressions. -/
def Text.lineSeparators : List Char :=
  ['\u2028', '\u2029']

theorem Text.mem_lineBreaks_iff (character : Char) :
    character ∈ lineBreaks ↔
      Lexeme.isLineEnd character = true ∨ character ∈ lineSeparators := by
  simp [lineBreaks, Lexeme.isLineEnd, lineSeparators, or_assoc]

namespace Lexeme

/-! ## Line ends in lexemes -/

/-- The text of a regular expression, its brackets and slashes aside: plain
characters are no line ends, and escaped ones no line feeds. -/
abbrev IsRegexText : List Char → Prop :=
  EscapedText (fun character => isLineEnd character = false) (fun character => character ≠ '\n')

theorem isRegexText_take {inBrackets : Bool} {text : List Char} {length : Nat}
    (hlength : regexTail? inBrackets text = some length) : IsRegexText (text.take length) := by
  fun_induction regexTail? inBrackets text generalizing length with
  | case1 | case2 | case3 | case5 => cases hlength
  | case4 inBrackets escaped rest hfeed ih =>
      obtain ⟨inner, hinner, rfl⟩ := Option.map_eq_some_iff.mp hlength
      exact .escape hfeed (ih hinner)
  | case6 character rest hlone hescape hline ih =>
      obtain ⟨inner, hinner, rfl⟩ := Option.map_eq_some_iff.mp hlength
      exact .plain (ne_backslash hlone hescape) (Bool.eq_false_iff.mpr hline) (ih hinner)
  | case7 =>
      cases hlength
      exact .plain (by decide) rfl .nil
  | case8 inBrackets character rest hlone hescape hline _ _ ih =>
      obtain ⟨inner, hinner, rfl⟩ := Option.map_eq_some_iff.mp hlength
      exact .plain (ne_backslash hlone hescape) (Bool.eq_false_iff.mpr hline) (ih hinner)

section Own

variable {text rest : List Char} (htext : 0 < text.length)

include htext

theorem isRegexText_of_regexLength (hown : regexLength (text ++ rest) = text.length) :
    IsRegexText text := by
  obtain ⟨body, flags, rfl, -, -, hbody, hflags⟩ := exists_regex_body htext hown
  have hinside := isRegexText_take hbody
  rw [List.take_left] at hinside
  have hletters : ∀ character ∈ flags, character ≠ '\\' ∧ isLineEnd character = false := by
    intro character hcharacter
    have htaken : character ∈ (flags ++ rest).take (runLength Char.isAlpha (flags ++ rest)) := by
      rwa [hflags, List.take_left]
    have hpart := isWordPart_of_isAlpha (of_mem_take_runLength htaken)
    exact ⟨ne_of_isWordPart hpart rfl, isLineEnd_of_isWordPart hpart⟩
  exact .plain (by decide) rfl (hinside.append (.of_forall hletters))

theorem isLineEnd_of_lineCommentLength (hown : lineCommentLength (text ++ rest) = text.length) :
    ∀ character ∈ text, isLineEnd character = false := by
  obtain ⟨body, rfl, hbody⟩ := exists_lineComment_body htext hown
  have hinside : ∀ character ∈ body, isLineEnd character = false := by
    intro character hcharacter
    have htaken : character ∈ (body ++ rest).take
        (runLength (fun character => !isLineEnd character) (body ++ rest)) := by
      rwa [hbody, List.take_left]
    have hnot := of_mem_take_runLength htaken
    rwa [Bool.not_eq_true'] at hnot
  exact List.forall_mem_cons.mpr ⟨rfl, List.forall_mem_cons.mpr ⟨rfl, hinside⟩⟩

end Own

end Lexeme

/-- What line breaks a token that is meant to stay in its line may hold: a line
comment the separators, and a regular expression also escaped carriage
returns. -/
structure Token.KeepsLine (token : Token) : Prop where
  comment : token.kind = .lineComment →
    ∀ character ∈ token.value.toList, character ∈ lineBreaks → character ∈ lineSeparators
  regex : token.kind = .regex →
    ∀ front character behind, token.value.toList = front ++ character :: behind →
      character ∈ lineBreaks → character ∈ lineSeparators ∨
        character = '\r' ∧ ∃ whole, Lexeme.EscapesWithin whole ∧ front = whole ++ ['\\']

theorem Segment.keepsLine {segment : Segment} {admitted : Bool} {rest : List Char}
    (hfirst : Lexeme.first? admitted (segment.text ++ rest) = some segment.lexeme)
    (reader : Reader) :
    (reader.token segment.kind segment.value segment.text).KeepsLine where
  comment := by
    intro hkind
    have hcategory : segment.lexeme.category = .lineComment :=
      segment.category_of_kind.2.2.2 hkind
    have hown := segment.measure_eq hfirst
    rw [hcategory] at hown
    show ∀ character ∈ segment.value.toList, _
    rw [segment.value_of_category (by simp [hcategory])]
    intro character hcharacter hbreak
    have hline := Lexeme.isLineEnd_of_lineCommentLength segment.length_pos hown character hcharacter
    exact ((mem_lineBreaks_iff character).mp hbreak).resolve_left (Bool.eq_false_iff.mp hline)
  regex := by
    intro hkind
    have hcategory : segment.lexeme.category = .regex := segment.category_of_kind.1 hkind
    have hown := segment.measure_eq hfirst
    rw [hcategory] at hown
    show ∀ front character behind, segment.value.toList = _ → _
    rw [segment.value_of_category (by simp [hcategory])]
    intro front character behind hparts hbreak
    have htext := Lexeme.isRegexText_of_regexLength segment.length_pos hown
    rcases (mem_lineBreaks_iff character).mp hbreak with hline | hseparator
    · have hbackslash : character ≠ '\\' := by
        rintro rfl
        cases hline
      rcases htext.plain_or_escaped hparts hbackslash with hplain | ⟨hfeed, hescape⟩
      · rw [hline] at hplain
        cases hplain
      · simp only [Lexeme.isLineEnd, Bool.or_eq_true, beq_iff_eq] at hline
        exact .inr ⟨hline.resolve_left hfeed, hescape⟩
    · exact .inl hseparator

/-- Behind a line comment stands a token that is flagged with a line break, or
the end token at the end of the comment. -/
theorem Segmentation.next_of_lineComment {segmentation : Segmentation} {admitted : Bool}
    (hscanned : segmentation.Scanned admitted) (reader : Reader) {index : Nat} {token : Token}
    (htoken : (segmentation.tokens reader)[index]? = some token)
    (hkind : token.kind = .lineComment) :
    ∃ next, (segmentation.tokens reader)[index + 1]? = some next ∧
      (next.newlineBefore = true ∨ next.isEnd = true ∧ next.span.start = token.span.stop) := by
  induction segmentation generalizing admitted reader index with
  | stop blanks =>
      cases index with
      | zero =>
          cases htoken
          cases hkind
      | succ index => cases htoken
  | next blanks segment rest ih =>
      obtain ⟨hfirst, hrest⟩ := hscanned
      cases index with
      | succ index => exact ih hrest _ htoken
      | zero =>
          cases htoken
          have hline := isLineEnd_of_lineComment hfirst (segment.category_of_kind.2.2.2 hkind)
          cases rest with
          | next behind other later =>
              refine ⟨_, rfl, .inl ?_⟩
              simp [Reader.token, Reader.skip, hasLineBreak_of_head? hrest hline]
          | stop behind =>
              obtain ⟨behind, hbehind⟩ := behind
              refine ⟨_, rfl, ?_⟩
              cases behind with
              | nil => exact .inr ⟨rfl, by simp [Reader.endToken, Token.endOfInput, Reader.span,
                  Reader.token, Reader.pass, Reader.position]⟩
              | cons first others =>
                  have hbreak := Lexeme.isLineBreak_of_isLineEnd (hline first rfl)
                  exact .inl (by simp [Reader.endToken, Token.endOfInput, Reader.skip,
                    hasLineBreak, hbreak])

/-- Line comments and regular expressions hold no line feed, and a carriage
return only where an escape of a regular expression takes it; a line comment
goes on to the end of the source or to a line break that the next token is
flagged with. -/
theorem single_lines_kept {source file : String} {tokens : List Token}
    (htokens : tokenize source file = .ok tokens) {index : Nat} {token : Token}
    (htoken : tokens[index]? = some token) :
    token.KeepsLine ∧ (token.kind = .lineComment →
      ∃ next, tokens[index + 1]? = some next ∧
        (next.newlineBefore = true ∨
          next.isEnd = true ∧ next.span.start = token.span.stop)) := by
  obtain ⟨segmentation, hwritten, hscanned, rfl⟩ := exists_segmentation htokens
  refine ⟨?_, segmentation.next_of_lineComment hscanned _ htoken⟩
  cases hend : token.isEnd with
  | true =>
      have hkind : token.kind = .eof := beq_iff_eq.mp hend
      constructor
      · intro hcomment
        cases hkind.symm.trans hcomment
      · intro hregex
        cases hkind.symm.trans hregex
  | false =>
      obtain ⟨segment, _, place, _, _, -, -, rfl, hfirst⟩ := Segmentation.exists_segment hscanned
        (hwritten.trans (List.nil_append _).symm) rfl (List.mem_of_getElem? htoken) hend
      exact Segment.keepsLine hfirst place

/-- A regular expression with an escaped carriage return, before a comment that a
line separator does not end. -/
theorem single_lines_kept_separator :
    let source := "/\\\r/ //a\u2028b\nc"
    ∃ tokens regex comment, tokenize source "a" = .ok tokens ∧
      tokens[0]? = some regex ∧ regex.kind = .regex ∧ regex.KeepsLine ∧
      tokens[1]? = some comment ∧ comment.kind = .lineComment ∧ comment.KeepsLine ∧
        ∃ next, tokens[2]? = some next ∧
          (next.newlineBefore = true ∨
            next.isEnd = true ∧ next.span.start = comment.span.stop) := by
  intro source
  have hread : (tokenize source "a").toOption.map (fun tokens =>
      (tokens[0]?.map Token.kind, tokens[1]?.map Token.kind)) =
        some (some .regex, some .lineComment) := by decide +kernel
  obtain ⟨tokens, htokens, hkinds⟩ := exists_tokenize_eq hread
  obtain ⟨hfirst, hsecond⟩ := Prod.mk.inj hkinds
  obtain ⟨regex, hregex, hregexKind⟩ := Option.map_eq_some_iff.mp hfirst
  obtain ⟨comment, hcomment, hcommentKind⟩ := Option.map_eq_some_iff.mp hsecond
  obtain ⟨hkeeps, hnext⟩ := single_lines_kept htokens hcomment
  exact ⟨tokens, regex, comment, htokens, hregex, hregexKind,
    (single_lines_kept htokens hregex).1, hcomment, hcommentKind, hkeeps, hnext hcommentKind⟩

/-- A line comment that holds a separator, and regular expressions that hold one
and an escaped carriage return. -/
theorem single_lines_hold_line_breaks :
    let sources := [("//a\u2028b", Token.Kind.lineComment), ("/\u2029/", .regex),
      ("/\\\r/", .regex)]
    sources.all (fun (source, kind) => (tokenize source "a").toOption.any fun tokens =>
      tokens.any fun token => token.kind == kind && hasLineBreak token.value.toList) = true := by
  decide +kernel

end ScriptSyntax

import ScriptSyntax.Proofs.SingleLines

/-!
# Line feeds in values

A token is mostly written within a line.  Numbers, words, marks and operators hold no
separators at all, and a line comment or a regular expression ends before a line feed.  So
only the text of a block comment and the decoded body of a string can hold line feeds.
-/

namespace ScriptSyntax

namespace Lexeme

theorem isSeparator_of_isWordPart {character : Char} (hpart : isWordPart character = true) :
    isSeparator character = false := by
  rw [Bool.eq_false_iff]
  intro hseparator
  rw [isWordPart_of_isSeparator hseparator] at hpart
  cases hpart

theorem isSeparator_of_isDigit {digit : Char} (hdigit : digit.isDigit = true) :
    isSeparator digit = false :=
  isSeparator_of_isWordPart (isWordPart_of_isDigit hdigit)

theorem IsMantissa.not_isSeparator {mantissa : List Char} (hmantissa : IsMantissa mantissa)
    {character : Char} (hcharacter : character ∈ mantissa) : isSeparator character = false := by
  cases hmantissa with
  | whole _ hdigits => exact isSeparator_of_isDigit (hdigits character hcharacter)
  | pointed _ hdigits =>
      rw [List.forall_mem_append] at hdigits
      rcases List.mem_append.mp hcharacter with hwhole | hpointed
      · exact isSeparator_of_isDigit (hdigits.1 character hwhole)
      · rcases List.mem_cons.mp hpointed with rfl | hfraction
        · rfl
        · exact isSeparator_of_isDigit (hdigits.2 character hfraction)

theorem IsExponent.not_isSeparator {exponent : List Char} (hexponent : IsExponent exponent)
    {character : Char} (hcharacter : character ∈ exponent) : isSeparator character = false := by
  obtain ⟨hmark, hsign, -, hdigits⟩ := hexponent
  rcases List.mem_cons.mp hcharacter with rfl | hbehind
  · rcases hmark with rfl | rfl <;> rfl
  · rcases List.mem_append.mp hbehind with hsigned | hdigit
    · rcases hsign with rfl | rfl | rfl
      · cases hsigned
      · rw [List.mem_singleton.mp hsigned]
        rfl
      · rw [List.mem_singleton.mp hsigned]
        rfl
    · exact isSeparator_of_isDigit (hdigits character hdigit)

/-- A number holds no separator. -/
theorem IsNumeral.not_isSeparator {text : List Char} (htext : IsNumeral text) {character : Char}
    (hcharacter : character ∈ text) : isSeparator character = false := by
  cases htext with
  | hexadecimal hmark _ hdigits =>
      rcases List.mem_cons.mp hcharacter with rfl | hbehind
      · rfl
      · rcases List.mem_cons.mp hbehind with rfl | hdigit
        · rcases hmark with rfl | rfl <;> rfl
        · exact isSeparator_of_isWordPart (isWordPart_of_isHexDigit (hdigits character hdigit))
  | plain hmantissa => exact hmantissa.not_isSeparator hcharacter
  | scaled hmantissa hexponent =>
      rcases List.mem_append.mp hcharacter with hfront | hbehind
      · exact hmantissa.not_isSeparator hfront
      · exact hexponent.not_isSeparator hbehind

section Own

variable {text rest : List Char} (htext : 0 < text.length)

include htext

theorem not_isSeparator_of_punctuationLength
    (hown : punctuationLength (text ++ rest) = text.length) :
    ∀ character ∈ text, isSeparator character = false := by
  obtain ⟨mark, others, rfl⟩ := List.exists_cons_of_length_pos htext
  rw [List.cons_append, punctuationLength, List.length_cons] at hown
  split at hown
  · rename_i hmark
    obtain rfl : others = [] := List.eq_nil_of_length_eq_zero (by omega)
    exact List.forall_mem_singleton.mpr (not_isSeparator_of_mem_punctuationMarks mark hmark)
  · cases hown

/-- A number, a word, a mark or an operator holds no separator. -/
theorem not_isSeparator_of_measure {category : LexemeClass}
    (hcategory : category ∈ [.number, .word, .punctuation, .operator])
    (hown : category.measure (text ++ rest) = text.length) :
    ∀ character ∈ text, isSeparator character = false := by
  simp only [List.mem_cons, List.not_mem_nil, or_false] at hcategory
  rcases hcategory with rfl | rfl | rfl | rfl
  · have hnumeral := (isLongestPrefix_numeral htext hown).holds
    exact fun character hmem => hnumeral.not_isSeparator hmem
  · have hword := (isWord_of_wordLength htext hown).1
    exact fun character hmem => isSeparator_of_isWordPart (hword.parts character hmem)
  · exact not_isSeparator_of_punctuationLength htext hown
  · have hsymbol := not_isSeparator_of_mem_symbolOperators _
      (isLongestPrefix_symbol htext hown).holds
    rwa [String.toList_ofList] at hsymbol

/-- Only strings and block comments are written over several lines. -/
theorem lineFeed_not_mem_of_measure {category : LexemeClass} (hblank : category ≠ .blank)
    (hstring : category ≠ .string) (hcomment : category ≠ .blockComment)
    (hown : category.measure (text ++ rest) = text.length) : '\n' ∉ text := by
  have hplain : category ∈ [LexemeClass.number, .word, .punctuation, .operator] → '\n' ∉ text := by
    intro hcategory hfeed
    cases not_isSeparator_of_measure htext hcategory hown '\n' hfeed
  cases category with
  | blank => exact absurd rfl hblank
  | string => exact absurd rfl hstring
  | blockComment => exact absurd rfl hcomment
  | lineComment =>
      intro hfeed
      cases isLineEnd_of_lineCommentLength htext hown '\n' hfeed
  | regex =>
      intro hfeed
      obtain ⟨front, behind, hparts⟩ := List.append_of_mem hfeed
      have hinside := isRegexText_of_regexLength htext hown
      rcases hinside.plain_or_escaped hparts (by decide) with hplain | ⟨hescaped, -⟩
      · cases hplain
      · exact hescaped rfl
  | number => exact hplain (by decide)
  | word => exact hplain (by decide)
  | punctuation => exact hplain (by decide)
  | operator => exact hplain (by decide)

end Own

end Lexeme

/-- Tokens of the kind stay within a line; the end of the input is no text at all. -/
def Token.Kind.staysInLine : Token.Kind → Bool
  | .string | .blockComment | .eof => false
  | _ => true

/-- The value of a token that stays within a line holds no line feed. -/
theorem lineFeed_not_mem_value {source file : String} {tokens : List Token}
    (htokens : tokenize source file = .ok tokens) {token : Token} (htoken : token ∈ tokens)
    (hkind : token.kind.staysInLine = true) : '\n' ∉ token.value.toList := by
  obtain ⟨segmentation, hwritten, hscanned, rfl⟩ := exists_segmentation htokens
  have hend : token.isEnd = false := by
    rw [Token.isEnd, beq_eq_false_iff_ne]
    intro heof
    rw [heof] at hkind
    cases hkind
  obtain ⟨segment, _, place, _, _, -, -, rfl, hfirst⟩ := Segmentation.exists_segment hscanned
    (hwritten.trans (List.nil_append _).symm) rfl htoken hend
  have hown : segment.kind.staysInLine = true := hkind
  have hmade := segment.kind_eq
  have hstring : segment.lexeme.category ≠ .string := by
    intro hcategory
    rw [segment.kind_cases.2.mpr hcategory] at hown
    cases hown
  have hcomment : segment.lexeme.category ≠ .blockComment := by
    intro hcategory
    rw [Lexeme.kind?, hcategory] at hmade
    rw [← Option.some.inj hmade] at hown
    cases hown
  show '\n' ∉ segment.value.toList
  rw [segment.value_of_category hstring]
  exact Lexeme.lineFeed_not_mem_of_measure segment.length_pos segment.category_ne_blank hstring
    hcomment (segment.measure_eq hfirst)

end ScriptSyntax

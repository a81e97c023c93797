import ScriptSyntax.Proofs.Lexeme.Numerals
import ScriptSyntax.Proofs.Lexeme.Respelling
import ScriptSyntax.Proofs.Tiling

/-!
# The longest match

The classes of lexemes and the symbols of operators are tried in a fixed order,
and the first that fits is taken.  The number, the word or the operator found in
that way is nevertheless the longest that the rest of the source begins with: a
symbol stands in the table before its own beginnings, and the measures of
numbers and words leave nothing behind that would go on with them.
-/

namespace ScriptSyntax

open Text

namespace Lexeme

/-! ## Words and operators -/

theorem IsWord.length_le {word : List Char} (hword : IsWord word) (rest : List Char) :
    word.length ≤ wordLength (word ++ rest) := by
  obtain ⟨first, others, rfl⟩ := List.exists_cons_of_ne_nil hword.ne_nil
  have hothers := (List.forall_mem_cons.mp hword.parts).2
  rw [List.cons_append, wordLength, if_pos (hword.start first rfl),
    runLength_append_of_all hothers, List.length_cons]
  omega

/-- A word is the longest at the head of its text. -/
theorem isLongestPrefix_word {text rest : List Char} (htext : 0 < text.length)
    (hown : wordLength (text ++ rest) = text.length) :
    IsLongestPrefix IsWord text (text ++ rest) where
  holds := (isWord_of_wordLength htext hown).1
  heads := List.prefix_append ..
  longest := by
    rintro other hother ⟨behind, hbehind⟩
    rw [← hown, ← hbehind]
    exact hother.length_le behind

/-- No symbol of the table begins a later one. -/
theorem pairwise_symbolOperators :
    Token.symbolOperators.Pairwise fun earlier later => ¬earlier.toList <+: later.toList := by
  decide

/-- The first operator of the table that a text begins with is the longest. -/
theorem length_le_of_find? {text : List Char} {symbol other : String}
    (hfind : Token.symbolOperators.find? (fun entry => entry.toList.isPrefixOf text) = some symbol)
    (hother : other ∈ Token.symbolOperators) (hheads : other.toList <+: text) :
    other.toList.length ≤ symbol.toList.length := by
  obtain ⟨hstarts, earlier, later, htable, hearlier⟩ := List.find?_eq_some_iff_append.mp hfind
  have hsymbol : symbol.toList <+: text := List.isPrefixOf_iff_prefix.mp hstarts
  have hordered := pairwise_symbolOperators
  rw [htable, List.pairwise_append, List.pairwise_cons] at hordered
  rw [htable, List.mem_append, List.mem_cons] at hother
  rcases hother with hbefore | rfl | hbehind
  · have hnot := hearlier other hbefore
    rw [List.isPrefixOf_iff_prefix.mpr hheads] at hnot
    cases hnot
  · exact Nat.le_refl _
  · have hopen : ¬symbol.toList <+: other.toList := hordered.2.1.1 other hbehind
    exact ((List.prefix_or_prefix_of_prefix hsymbol hheads).resolve_left hopen).length_le

/-- The text is an operator written in symbols. -/
def IsSymbol (text : List Char) : Prop :=
  String.ofList text ∈ Token.symbolOperators

/-- An operator in symbols is the longest at the head of its text. -/
theorem isLongestPrefix_symbol {text rest : List Char} (htext : 0 < text.length)
    (hown : operatorLength (text ++ rest) = text.length) :
    IsLongestPrefix IsSymbol text (text ++ rest) := by
  unfold operatorLength at hown
  split at hown
  · exact absurd hown (Nat.ne_of_lt htext)
  · rename_i symbol hfind
    have hheads : symbol.toList <+: text ++ rest := by simpa using List.find?_some hfind
    obtain rfl : symbol.toList = text :=
      (List.prefix_of_prefix_length_le hheads (List.prefix_append ..)
        (Nat.le_of_eq hown)).eq_of_length hown
    constructor
    case holds =>
      rw [IsSymbol, String.ofList_toList]
      exact List.mem_of_find?_eq_some hfind
    case heads => exact hheads
    case longest =>
      intro other hother hbegins
      have hlength := length_le_of_find? hfind hother (by rwa [String.toList_ofList])
      rwa [String.toList_ofList] at hlength

end Lexeme

/-! ## Tokens -/

/-- The kinds of words agree with the table of reserved words. -/
theorem Token.Kind.ofWord_iff (word : String) :
    (ofWord word = .keyword ↔ word ∈ keywords) ∧
      (ofWord word = .operator ↔ word ∈ wordOperators) := by
  have hapart : ∀ word ∈ keywords, word ∉ wordOperators := by decide
  unfold ofWord
  split
  · simp [*]
  · split <;> simp [*]

/-- The text of a token is the longest of its sort that the rest of the source
begins with, and words are told apart by the table of reserved words. -/
structure Token.TakesLongest (token : Token) (text remaining : List Char) : Prop where
  number : token.kind = .number → Lexeme.IsLongestPrefix Lexeme.IsNumeral text remaining
  word : token.kind = .identifier ∨ token.kind = .keyword ∨ token.isWordOperator = true →
    Lexeme.IsLongestPrefix Lexeme.IsWord text remaining
  reserved : token.kind = .identifier ∨ token.kind = .keyword ∨ token.isWordOperator = true →
    (token.kind = .keyword ↔ String.ofList text ∈ keywords) ∧
      (token.kind = .operator ↔ String.ofList text ∈ wordOperators)
  symbol : token.kind = .operator → token.isWordOperator = false →
    Lexeme.IsLongestPrefix Lexeme.IsSymbol text remaining

namespace Segment

variable {segment : Segment} {admitted : Bool} {rest : List Char}
  (hfirst : Lexeme.first? admitted (segment.text ++ rest) = some segment.lexeme) (reader : Reader)

include hfirst

theorem takesLongest_number (hcategory : segment.lexeme.category = .number) :
    (reader.token segment.kind segment.value segment.text).TakesLongest segment.text
      (segment.text ++ rest) := by
  have hkind : segment.kind = .number :=
    Option.some.inj (by rw [← segment.kind_eq, Lexeme.kind?, hcategory])
  have hown : LexemeClass.number.measure (segment.text ++ rest) = segment.text.length :=
    hcategory ▸ segment.measure_eq hfirst
  have hlongest := Lexeme.isLongestPrefix_numeral segment.length_pos hown
  constructor <;> simp [Reader.token, Token.isWordOperator, hkind, hlongest]

theorem takesLongest_word (hcategory : segment.lexeme.category = .word) :
    (reader.token segment.kind segment.value segment.text).TakesLongest segment.text
      (segment.text ++ rest) := by
  have hkind : segment.kind = .ofWord (String.ofList segment.text) :=
    Option.some.inj (by rw [← segment.kind_eq, Lexeme.kind?, hcategory])
  have hvalue : segment.value = String.ofList segment.text := by
    rw [value, Lexeme.value, hcategory]
  have hown : LexemeClass.word.measure (segment.text ++ rest) = segment.text.length :=
    hcategory ▸ segment.measure_eq hfirst
  obtain ⟨hkeyword, hoperator⟩ := Token.Kind.ofWord_iff (String.ofList segment.text)
  constructor
  case number =>
    intro hnumber
    have hother : Token.Kind.ofWord (String.ofList segment.text) = .number :=
      hkind.symm.trans hnumber
    rcases Token.Kind.ofWord_cases (String.ofList segment.text) with hcase | hcase | hcase
    all_goals cases hcase.symm.trans hother
  case word => exact fun _ => Lexeme.isLongestPrefix_word segment.length_pos hown
  case reserved =>
    intro _
    rw [← hkeyword, ← hoperator, ← hkind]
    exact ⟨Iff.rfl, Iff.rfl⟩
  case symbol =>
    intro hsymbol hletters
    have hspelled : ∀ word ∈ Token.wordOperators, word.toList.all Char.isAlpha = true := by decide
    have hword := hspelled _ (hoperator.mp (hkind.symm.trans hsymbol))
    have hsame : segment.kind = .operator := hsymbol
    rw [Token.isWordOperator, Reader.token, hsame, hvalue, hword] at hletters
    cases hletters

theorem takesLongest_operator (hcategory : segment.lexeme.category = .operator) :
    (reader.token segment.kind segment.value segment.text).TakesLongest segment.text
      (segment.text ++ rest) := by
  have hkind : segment.kind = .operator :=
    Option.some.inj (by rw [← segment.kind_eq, Lexeme.kind?, hcategory])
  have hvalue : segment.value = String.ofList segment.text := by
    rw [value, Lexeme.value, hcategory]
  have hown : LexemeClass.operator.measure (segment.text ++ rest) = segment.text.length :=
    hcategory ▸ segment.measure_eq hfirst
  have hlongest := Lexeme.isLongestPrefix_symbol segment.length_pos hown
  have hspelled : ∀ symbol ∈ Token.symbolOperators, symbol.toList.all Char.isAlpha = false := by
    decide
  have hletters : segment.value.toList.all Char.isAlpha = false :=
    hvalue ▸ hspelled _ hlongest.holds
  have hmark : (reader.token segment.kind segment.value segment.text).isWordOperator = false := by
    rw [Token.isWordOperator, Reader.token, hletters, Bool.and_false]
  have hnoWord : ¬(segment.kind = .identifier ∨ segment.kind = .keyword ∨
      (reader.token segment.kind segment.value segment.text).isWordOperator = true) := by
    rw [hmark, hkind]
    simp
  constructor
  case number =>
    intro hnumber
    cases hkind.symm.trans hnumber
  case word => exact fun hletters => absurd hletters hnoWord
  case reserved => exact fun hletters => absurd hletters hnoWord
  case symbol => exact fun _ _ => hlongest

/-- The token of every segment is the longest of its sort. -/
theorem takesLongest :
    (reader.token segment.kind segment.value segment.text).TakesLongest segment.text
      (segment.text ++ rest) := by
  cases hcategory : segment.lexeme.category with
  | number => exact takesLongest_number hfirst reader hcategory
  | word => exact takesLongest_word hfirst reader hcategory
  | operator => exact takesLongest_operator hfirst reader hcategory
  | blank => exact absurd hcategory segment.category_ne_blank
  | _ =>
      have hkind := segment.kind_eq
      rw [Lexeme.kind?, hcategory] at hkind
      have hkind := Option.some.inj hkind
      constructor <;> simp [Reader.token, Token.isWordOperator, ← hkind]

end Segment

/-- Every token of a text that is cut, the end token apart, is that of a segment
which the scanner found at its place. -/
theorem Segmentation.exists_segment {segmentation : Segmentation} {admitted : Bool}
    (hscanned : segmentation.Scanned admitted) {reader : Reader} {source before : List Char}
    (hsource : source = before ++ segmentation.written)
    (hoffset : reader.offset = byteLength before) {token : Token}
    (htoken : token ∈ segmentation.tokens reader) (hword : token.isEnd = false) :
    ∃ (segment : Segment) (allowed : Bool) (place : Reader) (front rest : List Char),
      source = front ++ (segment.text ++ rest) ∧ place.offset = byteLength front ∧
        token = place.token segment.kind segment.value segment.text ∧
          Lexeme.first? allowed (segment.text ++ rest) = some segment.lexeme := by
  induction segmentation generalizing admitted reader before with
  | stop blanks =>
      obtain rfl := List.mem_singleton.mp htoken
      cases hword
  | next blanks segment rest ih =>
      obtain ⟨hfirst, hrest⟩ := hscanned
      have hskip := Reader.offset_skip hoffset blanks.val
      have hbehind : source = before ++ blanks.val ++ (segment.text ++ rest.written) := by
        rw [hsource, written, List.append_assoc]
      rcases List.mem_cons.mp htoken with rfl | hlater
      · exact ⟨segment, admitted, _, _, _, hbehind, hskip, rfl, hfirst⟩
      · exact ih hrest (hbehind.trans (List.append_assoc ..).symm)
          (Reader.offset_pass hskip _ _) hlater

/-- Numbers, words and operators are the longest that the rest of their source
begins with. -/
theorem tokens_take_longest {source file : String} {tokens : List Token}
    (hsource : byteLength source.toList < UInt32.size)
    (htokens : tokenize source file = .ok tokens) {token : Token} (htoken : token ∈ tokens)
    (hword : token.isEnd = false) :
    ∃ text remaining, token.span.text? source.toList = some text ∧
      dropBytes? token.span.start.offset.toNat source.toList = some remaining ∧
        token.TakesLongest text remaining := by
  obtain ⟨segmentation, hwritten, hscanned, rfl⟩ := exists_segmentation htokens
  obtain ⟨segment, allowed, place, front, rest, hcut, hoffset, rfl, hfirst⟩ :=
    Segmentation.exists_segment hscanned (hwritten.trans (List.nil_append _).symm) rfl htoken hword
  have hfits : place.offset + byteLength segment.text < UInt32.size := by
    rw [hcut, byteLength_append, byteLength_append] at hsource
    omega
  refine ⟨segment.text, segment.text ++ rest, place.text?_span hcut hoffset hsource, ?_,
    Segment.takesLongest hfirst place⟩
  have hstart := (place.offset_span hfits).1
  rw [show (place.token segment.kind segment.value segment.text).span.start.offset.toNat =
    byteLength front from hstart.trans hoffset, hcut]
  exact dropBytes?_byteLength_append front (segment.text ++ rest)

/-- An exponent behind a point without digits, before an operator that begins
with shorter ones. -/
theorem tokens_take_longest_shift :
    let source := "1.e5>>>=0x1Fg"
    byteLength source.toList < UInt32.size ∧ ∃ tokens number operator,
      tokenize source "a" = .ok tokens ∧ number ∈ tokens ∧ operator ∈ tokens ∧
        number.isEnd = false ∧ operator.isEnd = false ∧
        number.kind = .number ∧ operator.kind = .operator ∧
          (∃ text remaining, number.span.text? source.toList = some text ∧
            dropBytes? number.span.start.offset.toNat source.toList = some remaining ∧
              number.TakesLongest text remaining) ∧
          (∃ text remaining, operator.span.text? source.toList = some text ∧
            dropBytes? operator.span.start.offset.toNat source.toList = some remaining ∧
              operator.TakesLongest text remaining) := by
  intro source
  have hsource : byteLength source.toList < UInt32.size := by decide +kernel
  have hread : (tokenize source "a").toOption.map (List.map fun token : Token =>
      (token.kind, token.value)) = some [(.number, "1.e5"), (.operator, ">>>="),
        (.number, "0x1F"), (.identifier, "g"), (.eof, "EOF")] := by decide +kernel
  obtain ⟨tokens, htokens, hfaces⟩ := exists_tokenize_eq hread
  obtain ⟨number, others, rfl, hnumber, hothers⟩ := List.map_eq_cons_iff.mp hfaces
  obtain ⟨operator, later, rfl, hoperator, -⟩ := List.map_eq_cons_iff.mp hothers
  have hnumberKind : number.kind = .number := (Prod.mk.inj hnumber).1
  have hoperatorKind : operator.kind = .operator := (Prod.mk.inj hoperator).1
  have hfirst : number.isEnd = false := by simp [Token.isEnd, hnumberKind]
  have hsecond : operator.isEnd = false := by simp [Token.isEnd, hoperatorKind]
  have hbehind : operator ∈ number :: operator :: later := by simp
  exact ⟨hsource, _, number, operator, htokens, List.mem_cons_self, hbehind, hfirst, hsecond,
    hnumberKind, hoperatorKind,
    tokens_take_longest hsource htokens List.mem_cons_self hfirst,
    tokens_take_longest hsource htokens hbehind hsecond⟩

end ScriptSyntax

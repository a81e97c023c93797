import ScriptSyntax.Proofs.Lexeme.Spacing

/-!
# Another word behind a dot

The lexemes up to the name of a member are the same with any other word in its
place.  Numbers, words, marks and operators do not reach beyond the dot, unless
a number took the dot for its point, and then it did so before the old name as
well.  Comments and regular expressions may look for their end beyond the name,
but letters and digits neither end one nor change what ends it.
-/

namespace ScriptSyntax

open Text

namespace Lexeme

/-! ## Words -/

/-- The text is spelled as a word. -/
structure IsWord (text : List Char) : Prop where
  ne_nil : text ≠ []
  start : ∀ character ∈ text.head?, isWordStart character = true
  parts : ∀ character ∈ text, isWordPart character = true

/-- A text read as a word is spelled as one, and nothing behind it goes on with
the word. -/
theorem isWord_of_wordLength {text rest : List Char} (htext : 0 < text.length)
    (hown : wordLength (text ++ rest) = text.length) :
    IsWord text ∧ ∀ character ∈ rest.head?, isWordPart character = false := by
  cases text with
  | nil => cases htext
  | cons first text =>
      simp only [List.cons_append, wordLength, List.length_cons] at hown
      split at hown
      · rename_i hfirst
        have hrun : runLength isWordPart (text ++ rest) = text.length := Nat.succ.inj hown
        have hparts : ∀ character ∈ text, isWordPart character = true := by
          intro character hcharacter
          have htaken : character ∈ (text ++ rest).take (runLength isWordPart (text ++ rest)) := by
            rwa [hrun, List.take_left]
          exact of_mem_take_runLength htaken
        refine ⟨⟨List.cons_ne_nil _ _, ?_, ?_⟩, head?_of_runLength hrun⟩
        · rintro _ ⟨⟩
          exact hfirst
        · exact List.forall_mem_cons.mpr ⟨isWordStart_isWordPart hfirst, hparts⟩
      · cases hown

theorem IsWord.wordLength_append {text rest : List Char} (htext : IsWord text)
    (hrest : ∀ character ∈ rest.head?, isWordPart character = false) :
    wordLength (text ++ rest) = text.length := by
  obtain ⟨hne, hstart, hparts⟩ := htext
  cases text with
  | nil => exact absurd rfl hne
  | cons first text =>
      have hothers := (List.forall_mem_cons.mp hparts).2
      rw [List.cons_append, wordLength, if_pos (hstart first rfl),
        runLength_append_eq_length hothers hrest]
      rfl

theorem ne_of_isWordPart {character symbol : Char} (hpart : isWordPart character = true)
    (hsymbol : isWordPart symbol = false) : character ≠ symbol := by
  rintro rfl
  rw [hpart] at hsymbol
  cases hsymbol

theorem isBlank_of_isWordPart {character : Char} (hpart : isWordPart character = true) :
    isBlank character = false := by
  rw [Bool.eq_false_iff]
  intro hblank
  rw [isWordPart_of_isSeparator (by simp [isSeparator, hblank])] at hpart
  cases hpart

theorem isDigit_of_isWordStart {character : Char} (hstart : isWordStart character = true) :
    character.isDigit = false := by
  rw [Bool.eq_false_iff, ne_eq, isDigit_iff]
  rw [isWordStart_iff] at hstart
  omega

/-! ## Lexemes that do not reach beyond a dot -/

theorem Local.eq_of_le {measure : List Char → Nat} (hlocal : Local measure)
    {left right other : List Char} (hright : measure (left ++ right) ≤ left.length)
    (hother : measure (left ++ other) ≤ left.length) :
    measure (left ++ other) = measure (left ++ right) :=
  (hlocal.cut hother).symm.trans (hlocal.cut hright)

/-- A lexeme of the class that ends before a dot does so with any other text
behind the dot, as long as no digit stands right behind it. -/
def StopsAtDot (measure : List Char → Nat) : Prop :=
  ∀ ⦃left right other : List Char⦄, 0 < left.length →
    (∀ character ∈ right.head?, character.isDigit = false) →
    (∀ character ∈ other.head?, character.isDigit = false) →
    measure (left ++ '.' :: right) ≤ left.length → measure (left ++ '.' :: other) ≤ left.length

/-- A class whose lexemes end before every dot. -/
theorem StopsAtDot.of_le {measure : List Char → Nat}
    (hmeasure : ∀ left rest, 0 < left.length → measure (left ++ '.' :: rest) ≤ left.length) :
    StopsAtDot measure :=
  fun left _ other hleft _ _ _ => hmeasure left other hleft

theorem runLength_append_le {property : Char → Bool} {stop : Char}
    (hstop : property stop = false) (left rest : List Char) :
    runLength property (left ++ stop :: rest) ≤ left.length := by
  induction left with
  | nil => simp [hstop]
  | cons character left ih =>
      rw [List.cons_append, runLength_cons, List.length_cons]
      split
      · exact Nat.succ_le_succ ih
      · exact Nat.zero_le _

theorem stopsAtDot_wordLength : StopsAtDot wordLength := by
  refine StopsAtDot.of_le fun left rest hleft => ?_
  cases left with
  | nil => cases hleft
  | cons character left =>
      rw [List.cons_append, wordLength]
      split
      · exact Nat.succ_le_succ (runLength_append_le rfl left rest)
      · exact Nat.zero_le _

theorem stopsAtDot_punctuationLength : StopsAtDot punctuationLength := by
  refine StopsAtDot.of_le fun left rest hleft => ?_
  cases left with
  | nil => cases hleft
  | cons character left =>
      rw [List.cons_append, punctuationLength]
      split
      · exact hleft
      · exact Nat.zero_le _

theorem stopsAtDot_operatorLength : StopsAtDot operatorLength := by
  refine StopsAtDot.of_le fun left rest _ => ?_
  unfold operatorLength
  split
  · exact Nat.zero_le _
  · rename_i symbol hfind
    have hsymbol : '.' ∉ symbol.toList := by
      have hall : ∀ symbol ∈ Token.symbolOperators, '.' ∉ symbol.toList := by decide
      exact hall symbol (List.mem_of_find?_eq_some hfind)
    have hheads : symbol.toList <+: left ++ '.' :: rest := by
      simpa using List.find?_some hfind
    refine Nat.le_of_not_lt fun hlong => ?_
    have hinside : left ++ ['.'] <+: symbol.toList := by
      apply List.prefix_of_prefix_length_le ⟨rest, by simp⟩ hheads
      rw [List.length_append, List.length_singleton]
      omega
    exact hsymbol (hinside.subset (by simp))

theorem hexLength_dot_le (left rest : List Char) :
    hexLength (left ++ '.' :: rest) ≤ left.length := by
  by_cases hzero : (left ++ '.' :: rest).head? = some '0'
  · match left with
    | [] => cases hzero
    | [zero] =>
        cases hzero
        rw [List.singleton_append, hexLength_cons]
        exact Nat.zero_le _
    | zero :: mark :: left =>
        cases hzero
        rw [List.cons_append, List.cons_append, hexLength_cons]
        split
        · exact Nat.add_le_add_right (runLength_append_le rfl left rest) 2
        · exact Nat.zero_le _
  · rw [hexLength_of_head?_ne hzero]
    exact Nat.zero_le _

theorem isDigit_dot : Char.isDigit '.' = false := rfl

theorem exponentLength_dot_le (left rest : List Char) :
    exponentLength (left ++ '.' :: rest) ≤ left.length := by
  match left with
  | [] => exact Nat.le_refl 0
  | [mark] =>
      have hdigits : runLength Char.isDigit ('.' :: rest) = 0 := rfl
      rw [List.singleton_append, exponentLength_cons, show signLength ('.' :: rest) = 0 from rfl,
        List.drop_zero, hdigits]
      simp
  | mark :: first :: left =>
      have hsign : signLength (first :: left) ≤ (first :: left).length := signLength_le _
      have hsame : signLength (first :: left ++ '.' :: rest) = signLength (first :: left) := rfl
      have hdigits := runLength_append_le isDigit_dot
        ((first :: left).drop (signLength (first :: left))) rest
      rw [List.length_drop] at hdigits
      rw [List.cons_append, exponentLength_cons, hsame, List.drop_append_of_le_length hsign,
        List.length_cons]
      split
      · omega
      · exact Nat.zero_le _

theorem mantissaWith_dot_le {left : List Char} (hleft : 0 < left.length) (whole : Nat)
    (rest : List Char) : mantissaWith whole (left ++ '.' :: rest) ≤ whole + left.length := by
  cases left with
  | nil => cases hleft
  | cons point left =>
      by_cases hpoint : point = '.'
      · subst hpoint
        have hdigits := runLength_append_le isDigit_dot left rest
        rw [List.cons_append, mantissaWith, List.length_cons]
        split
        · exact Nat.zero_le _
        · omega
      · rw [mantissaWith_of_head_ne (by simpa using hpoint)]
        exact Nat.le_add_right ..

theorem mantissaLength_dot_le {left rest : List Char}
    (hdigits : runLength Char.isDigit (left ++ '.' :: rest) < left.length) :
    mantissaLength (left ++ '.' :: rest) ≤ left.length := by
  rw [mantissaLength_eq, List.drop_append_of_le_length (Nat.le_of_lt hdigits)]
  have hbehind : 0 < (left.drop (runLength Char.isDigit (left ++ '.' :: rest))).length := by
    rw [List.length_drop]
    omega
  have hmantissa := mantissaWith_dot_le hbehind (runLength Char.isDigit (left ++ '.' :: rest)) rest
  rw [List.length_drop] at hmantissa
  omega

/-- Digits alone before a dot take the dot for their point. -/
theorem mantissaLength_digits {left rest : List Char} (hleft : 0 < left.length)
    (hdigits : runLength Char.isDigit (left ++ '.' :: rest) = left.length)
    (hrest : ∀ character ∈ rest.head?, character.isDigit = false) :
    mantissaLength (left ++ '.' :: rest) = left.length + 1 := by
  have hfraction : runLength Char.isDigit rest = 0 :=
    runLength_append_eq_length (List.forall_mem_nil _) hrest
  rw [mantissaLength_eq, hdigits, List.drop_left, mantissaWith, hfraction,
    if_neg fun hnone => Nat.ne_of_gt hleft hnone.1]

/-- Digits take a dot behind them for their point whatever comes after it, and a
number that has its point before the dot ends there at the latest. -/
theorem stopsAtDot_decimalLength : StopsAtDot decimalLength := by
  intro left right other hleft hright hother hlength
  have hrun := runLength_append_le isDigit_dot left other
  have hsame : runLength Char.isDigit (left ++ '.' :: right) =
      runLength Char.isDigit (left ++ '.' :: other) := by
    refine runLength_append hrun ?_
    rintro _ ⟨⟩
    rfl
  rw [decimalLength_eq] at hlength ⊢
  rcases Nat.lt_or_eq_of_le hrun with hdigits | hdigits
  · have hmantissa := mantissaLength_dot_le hdigits
    rw [List.drop_append_of_le_length hmantissa]
    have hexponent :=
      exponentLength_dot_le (left.drop (mantissaLength (left ++ '.' :: other))) other
    rw [List.length_drop] at hexponent
    split <;> omega
  · rw [mantissaLength_digits hleft (hsame.trans hdigits) hright,
      if_neg (Nat.succ_ne_zero _)] at hlength
    omega

theorem stopsAtDot_numberLength : StopsAtDot numberLength := by
  intro left right other hleft hright hother hlength
  rw [numberLength_eq] at hlength ⊢
  have hhex : hexLength (left ++ '.' :: other) = hexLength (left ++ '.' :: right) :=
    local_hexLength.eq_of_le (hexLength_dot_le ..) (hexLength_dot_le ..)
  rw [hhex]
  split at hlength
  · rw [if_pos ‹_›]
    exact stopsAtDot_decimalLength hleft hright hother hlength
  · rw [if_neg ‹_›]
    exact hlength

/-! ## Ends beyond the name -/

theorem isSome_commentTail?_parts {word rest : List Char}
    (hword : ∀ character ∈ word, isWordPart character = true) :
    (commentTail? (word ++ rest)).isSome = (commentTail? rest).isSome := by
  induction word with
  | nil => rfl
  | cons character word ih =>
      obtain ⟨hpart, hothers⟩ := List.forall_mem_cons.mp hword
      have hopen : character = '*' → (word ++ rest).head? ≠ some '/' := fun hstar _ =>
        ne_of_isWordPart hpart rfl hstar
      rw [List.cons_append, commentTail?_cons hopen, Option.isSome_map, ih hothers]

theorem isLineEnd_of_isWordPart {character : Char} (hpart : isWordPart character = true) :
    isLineEnd character = false := by
  have hfeed : character ≠ '\n' := ne_of_isWordPart hpart rfl
  have hreturn : character ≠ '\r' := ne_of_isWordPart hpart rfl
  simp [isLineEnd, hfeed, hreturn]

theorem isSome_regexTail?_parts {inBrackets : Bool} {word rest : List Char}
    (hword : ∀ character ∈ word, isWordPart character = true) :
    (regexTail? inBrackets (word ++ rest)).isSome = (regexTail? inBrackets rest).isSome := by
  induction word with
  | nil => rfl
  | cons character word ih =>
      obtain ⟨hpart, hothers⟩ := List.forall_mem_cons.mp hword
      have hslash : character ≠ '/' := ne_of_isWordPart hpart rfl
      have hopening : (character == '[') = false := beq_false_of_ne (ne_of_isWordPart hpart rfl)
      have hclosing : (character != ']') = true := bne_iff_ne.mpr (ne_of_isWordPart hpart rfl)
      rw [List.cons_append, regexTail?_cons (ne_of_isWordPart hpart rfl),
        isLineEnd_of_isWordPart hpart, ← ih hothers]
      cases inBrackets with
      | true => simp [hclosing]
      | false => simp [hslash, hopening]

theorem IsWord.head?_ne {word : List Char} (hword : IsWord word) {symbol : Char}
    (hsymbol : isWordPart symbol = false) (rest : List Char) :
    (word ++ rest).head? ≠ some symbol := by
  obtain ⟨first, others, rfl⟩ := List.exists_cons_of_ne_nil hword.ne_nil
  intro hhead
  exact ne_of_isWordPart (hword.parts first List.mem_cons_self) hsymbol (Option.some.inj hhead)

/-- Whichever word stands before a text, the same is closed. -/
theorem IsWord.closesNoMore {old new : List Char} (hnew : IsWord new) (hold : IsWord old)
    (rest : List Char) : ClosesNoMore (new ++ rest) (old ++ rest) where
  slash := hnew.head?_ne rfl rest
  star := hnew.head?_ne rfl rest
  comment := by
    rw [isSome_commentTail?_parts hnew.parts, isSome_commentTail?_parts hold.parts]
    exact id
  regex inBrackets := by
    rw [isSome_regexTail?_parts hnew.parts, isSome_regexTail?_parts hold.parts]
    exact id

/-! ## The first lexeme -/

/-- The text ends with a dot and blanks behind it. -/
def EndsInDot (text : List Char) : Prop :=
  ∃ left blanks, text = left ++ '.' :: blanks ∧ ∀ character ∈ blanks, isBlank character = true

theorem EndsInDot.append_left {text : List Char} (htext : EndsInDot text) (front : List Char) :
    EndsInDot (front ++ text) := by
  obtain ⟨left, blanks, rfl, hblanks⟩ := htext
  exact ⟨front ++ left, blanks, (List.append_assoc ..).symm, hblanks⟩

theorem EndsInDot.ne_nil {text : List Char} (htext : EndsInDot text) : text ≠ [] := by
  obtain ⟨left, blanks, rfl, -⟩ := htext
  simp

theorem EndsInDot.getLast?_ne {text : List Char} (htext : EndsInDot text) :
    text.getLast? ≠ some '\\' := by
  obtain ⟨left, blanks, rfl, hblanks⟩ := htext
  intro hlast
  rw [List.getLast?_append, List.getLast?_cons] at hlast
  cases hblank : blanks.getLast? with
  | none =>
      rw [hblank] at hlast
      cases hlast
  | some last =>
      rw [hblank] at hlast
      cases hlast
      cases hblanks _ (List.mem_of_getLast? hblank)

theorem not_isDigit_head {blanks name : List Char}
    (hblanks : ∀ character ∈ blanks, isBlank character = true) (hname : IsWord name)
    (rest : List Char) :
    ∀ character ∈ (blanks ++ (name ++ rest)).head?, character.isDigit = false := by
  intro character hcharacter
  cases blanks with
  | nil =>
      obtain ⟨first, others, rfl⟩ := List.exists_cons_of_ne_nil hname.ne_nil
      exact isDigit_of_isWordStart (hname.start character hcharacter)
  | cons blank blanks =>
      cases hcharacter
      rw [Bool.eq_false_iff]
      intro hdigit
      have hblank := hblanks character List.mem_cons_self
      rw [isBlank_of_isWordPart (isWordPart_of_isDigit hdigit)] at hblank
      cases hblank

section Respelled

variable {text before old new : List Char} (htext : 0 < text.length) (hbefore : EndsInDot before)
  (hold : IsWord old) (hnew : IsWord new)

include htext hbefore hold hnew

/-- A lexeme without an end of its own, somewhere before the dot, is as long with
another name behind the dot. -/
theorem Local.respelled {measure : List Char → Nat} (hlocal : Local measure)
    (hstops : StopsAtDot measure) {rest : List Char}
    (hlength : measure (text ++ (before ++ (old ++ rest))) ≤ text.length) :
    measure (text ++ (before ++ (new ++ rest))) = measure (text ++ (before ++ (old ++ rest))) := by
  obtain ⟨left, blanks, rfl, hblanks⟩ := hbefore
  have hparts (name : List Char) : text ++ (left ++ '.' :: blanks ++ (name ++ rest)) =
      (text ++ left) ++ '.' :: (blanks ++ (name ++ rest)) := by simp
  rw [hparts old] at hlength ⊢
  rw [hparts new]
  have hinside : text.length ≤ (text ++ left).length := by simp
  have hright := Nat.le_trans hlength hinside
  exact hlocal.eq_of_le hright (hstops (Nat.lt_of_lt_of_le htext hinside)
    (not_isDigit_head hblanks hold rest) (not_isDigit_head hblanks hnew rest) hright)

/-- A lexeme somewhere before the dot is as long with another name. -/
theorem measure_respelled {category : LexemeClass} {rest : List Char}
    (hcategory : category ≠ .blank)
    (hown : category.measure (text ++ (before ++ (old ++ rest))) = text.length) :
    category.measure (text ++ (before ++ (new ++ rest))) = text.length := by
  have hlocal {measure : List Char → Nat} (hmeasure : Local measure) (hstops : StopsAtDot measure)
      (hown : measure (text ++ (before ++ (old ++ rest))) = text.length) :
      measure (text ++ (before ++ (new ++ rest))) = text.length :=
    (hmeasure.respelled htext hbefore hold hnew hstops (Nat.le_of_eq hown)).trans hown
  have hhead : (before ++ (new ++ rest)).head? = (before ++ (old ++ rest)).head? := by
    obtain ⟨first, others, rfl⟩ := List.exists_cons_of_ne_nil hbefore.ne_nil
    rfl
  cases category with
  | blank => exact absurd rfl hcategory
  | lineComment =>
      apply lineCommentLength_append htext hown
      obtain ⟨body, -, hbody⟩ := exists_lineComment_body htext hown
      rw [hhead]
      simpa using head?_of_runLength hbody
  | blockComment => exact blockCommentLength_append htext hown _
  | regex =>
      apply regexLength_append htext hown
      obtain ⟨body, flags, -, -, -, -, hflags⟩ := exists_regex_body htext hown
      rw [hhead]
      exact head?_of_runLength hflags
  | number => exact hlocal local_numberLength stopsAtDot_numberLength hown
  | string => exact stringLength_append htext hown _
  | word => exact hlocal local_wordLength stopsAtDot_wordLength hown
  | punctuation => exact hlocal local_punctuationLength stopsAtDot_punctuationLength hown
  | operator => exact hlocal local_operatorLength stopsAtDot_operatorLength hown

/-- A class that has no lexeme somewhere before the dot has none with another
name. -/
theorem measure_respelled_eq_zero {admitted : Bool} {lexeme : Lexeme} {rest : List Char}
    (hfirst : first? admitted (text ++ (before ++ (old ++ rest))) = some lexeme)
    (hlength : lexeme.length = text.length) {category : LexemeClass}
    (hzero : category.measure (text ++ (before ++ (old ++ rest))) = 0) :
    category.measure (text ++ (before ++ (new ++ rest))) = 0 := by
  have hown : lexeme.category.measure (text ++ (before ++ (old ++ rest))) = text.length :=
    (measure_of_first? hfirst).trans hlength
  have hlocal {measure : List Char → Nat} (hmeasure : Local measure) (hstops : StopsAtDot measure)
      (hzero : measure (text ++ (before ++ (old ++ rest))) = 0) :
      measure (text ++ (before ++ (new ++ rest))) = 0 :=
    (hmeasure.respelled htext hbefore hold hnew hstops (hzero ▸ Nat.zero_le _)).trans hzero
  -- The classes that look for an end beyond the name see the whole text before it as one.
  have hwhole : 0 < (text ++ before).length := by
    rw [List.length_append]
    omega
  have hcloses : ClosesNoMore (new ++ rest) (old ++ rest) := hnew.closesNoMore hold rest
  cases category with
  | blank =>
      obtain ⟨first, others, rfl⟩ := List.exists_cons_of_ne_nil (List.ne_nil_of_length_pos htext)
      simp only [LexemeClass.measure, List.cons_append, runLength_cons] at hzero ⊢
      split at hzero
      · cases hzero
      · simp [*]
  | lineComment =>
      rw [← List.append_assoc] at hzero ⊢
      exact lineCommentLength_append_eq_zero hwhole hzero hcloses.slash
  | blockComment =>
      rw [← List.append_assoc] at hzero ⊢
      exact blockCommentLength_append_eq_zero hwhole hzero hcloses
  | regex =>
      -- A text with two slashes at its head has no regular expression there at all.
      rcases Nat.eq_zero_or_pos (lineCommentLength (text ++ (before ++ (old ++ rest)))) with
        hnone | hpos
      · rw [← List.append_assoc] at hzero hnone ⊢
        have hlast := (hbefore.append_left text).getLast?_ne
        exact regexLength_append_eq_zero hwhole hzero hnone hlast hcloses
      · rw [first?_of_lineComment hpos] at hfirst
        cases hfirst
        obtain ⟨body, rfl, -⟩ := exists_lineComment_body htext hown
        rfl
  | number => exact hlocal local_numberLength stopsAtDot_numberLength hzero
  | string => exact stringLength_append_eq_zero htext hown hzero _
  | word => exact hlocal local_wordLength stopsAtDot_wordLength hzero
  | punctuation => exact hlocal local_punctuationLength stopsAtDot_punctuationLength hzero
  | operator => exact hlocal local_operatorLength stopsAtDot_operatorLength hzero

end Respelled

/-- The first lexeme of a text is the first with another name behind a later
dot. -/
theorem first?_respelled {admitted : Bool} {lexeme : Lexeme} {text before old new rest : List Char}
    (hfirst : first? admitted (text ++ (before ++ (old ++ rest))) = some lexeme)
    (hlength : lexeme.length = text.length) (hcategory : lexeme.category ≠ .blank)
    (hbefore : EndsInDot before) (hold : IsWord old) (hnew : IsWord new) :
    first? admitted (text ++ (before ++ (new ++ rest))) = some lexeme := by
  have htext : 0 < text.length := hlength ▸ lexeme.length_pos
  have hown : lexeme.category.measure (text ++ (before ++ (old ++ rest))) = text.length :=
    (measure_of_first? hfirst).trans hlength
  apply first?_congr hfirst
  · exact (measure_respelled htext hbefore hold hnew hcategory hown).trans hlength.symm
  · exact fun _ hzero => measure_respelled_eq_zero htext hbefore hold hnew hfirst hlength hzero

/-! ## The dot and the name -/

/-- The classes that are tried before a class. -/
def earlier (category : LexemeClass) : List LexemeClass :=
  LexemeClass.inOrder.takeWhile (· != category)

theorem first?_of_earlier (category : LexemeClass) {admitted : Bool} {text : List Char}
    (hregex : category ≠ .regex ∨ admitted = true) (hpos : 0 < category.measure text)
    (hearlier : ∀ missed ∈ earlier category, missed.measure text = 0) :
    first? admitted text = some ⟨category, category.measure text, hpos⟩ := by
  have horder : ∃ later, LexemeClass.inOrder = earlier category ++ category :: later := by
    cases category <;> exact ⟨_, rfl⟩
  obtain ⟨later, horder⟩ := horder
  refine List.findSome?_eq_some_iff.mpr ⟨_, category, later, horder, ?_, ?_⟩
  · have hallowed : ¬(category = .regex ∧ (!admitted) = true) := by
      rintro ⟨hbarred, hnot⟩
      rcases hregex with hother | rfl
      · exact hother hbarred
      · cases hnot
    rw [if_neg hallowed]
    exact ofClass?_eq_some_iff.mpr ⟨rfl, rfl⟩
  · intro missed hmissed
    split
    · rfl
    · exact ofClass?_eq_none_iff.mpr (hearlier missed hmissed)

theorem numberLength_eq_zero {text : List Char} (hzero : text.head? ≠ some '0')
    (hmantissa : mantissaLength text = 0) : numberLength text = 0 := by
  rw [numberLength_eq, if_pos (hexLength_of_head?_ne hzero), decimalLength_eq, if_pos hmantissa]

/-- A dot is a mark unless a digit stands behind it. -/
theorem first?_dot (admitted : Bool) {rest : List Char}
    (hrest : ∀ character ∈ rest.head?, character.isDigit = false) :
    first? admitted ('.' :: rest) = some ⟨.punctuation, 1, Nat.one_pos⟩ := by
  have hnumber : numberLength ('.' :: rest) = 0 := by
    have hfraction : runLength Char.isDigit rest = 0 :=
      runLength_append_eq_length (List.forall_mem_nil _) hrest
    apply numberLength_eq_zero (by simp)
    rw [mantissaLength_eq]
    simp [isDigit_dot, mantissaWith, hfraction]
  have hpos : 0 < LexemeClass.punctuation.measure ('.' :: rest) := Nat.one_pos
  refine first?_of_earlier .punctuation (.inl (by decide)) hpos fun missed hmissed => ?_
  cases missed with
  | number => exact hnumber
  | punctuation | operator => exact absurd hmissed (by decide)
  | _ => rfl

/-- A word is read as a whole, wherever it stands. -/
theorem first?_word {text rest : List Char} (htext : IsWord text)
    (hrest : ∀ character ∈ rest.head?, isWordPart character = false) (admitted : Bool) :
    ∃ lexeme, first? admitted (text ++ rest) = some lexeme ∧ lexeme.category = .word ∧
      lexeme.length = text.length := by
  have hlength : LexemeClass.word.measure (text ++ rest) = text.length :=
    htext.wordLength_append hrest
  have hpos : 0 < LexemeClass.word.measure (text ++ rest) :=
    hlength ▸ List.length_pos_iff.mpr htext.ne_nil
  refine ⟨_, first?_of_earlier .word (.inl (by decide)) hpos fun missed hmissed => ?_, rfl, hlength⟩
  obtain ⟨first, others, rfl⟩ := List.exists_cons_of_ne_nil htext.ne_nil
  have hstart := htext.start first rfl
  have hpart := isWordStart_isWordPart hstart
  cases missed with
  | blank => simp [LexemeClass.measure, isBlank_of_isWordPart hpart]
  | lineComment | blockComment | regex =>
      exact measure_of_ne_slash (by decide) (ne_of_isWordPart hpart rfl) (others ++ rest)
  | number =>
      have hdigit : first.isDigit = false := isDigit_of_isWordStart hstart
      have hpoint : first ≠ '.' := ne_of_isWordPart hpart rfl
      apply numberLength_eq_zero
      · rintro ⟨⟩
        cases hdigit
      · have hdigits : runLength Char.isDigit (first :: (others ++ rest)) = 0 := by simp [hdigit]
        rw [mantissaLength_eq, List.cons_append, hdigits]
        exact mantissaWith_of_head_ne (by simpa using hpoint)
  | string =>
      have hdouble : first ≠ '"' := ne_of_isWordPart hpart rfl
      have hsingle : first ≠ '\'' := ne_of_isWordPart hpart rfl
      exact stringLength_of_not_isQuote (by simp [isQuote, hdouble, hsingle]) (others ++ rest)
  | word | punctuation | operator => exact absurd hmissed (by decide)

end Lexeme

end ScriptSyntax

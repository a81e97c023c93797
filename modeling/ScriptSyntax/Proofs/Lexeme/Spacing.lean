import ScriptSyntax.Proofs.Lexeme.Separators

/-!
# Other blanks behind a lexeme

The first lexeme of a text stays the first when what stands behind it is spaced
in another way.  Only two classes look beyond the lexeme itself: a slash opens a
comment or a regular expression if somewhere behind it there is the end of one.
So the new text must not close a comment or a regular expression that the old
one leaves open.
-/

namespace ScriptSyntax

open Text

namespace Lexeme

/-! ## Texts that close nothing new -/

/-- The new text closes no comment and no regular expression that the old one
leaves open, and neither does its first character together with the one before
it. -/
structure ClosesNoMore (new old : List Char) : Prop where
  slash : new.head? ≠ some '/'
  star : new.head? ≠ some '*'
  comment : (commentTail? new).isSome = true → (commentTail? old).isSome = true
  regex : ∀ inBrackets, (regexTail? inBrackets new).isSome = true →
    (regexTail? inBrackets old).isSome = true

/-- The new text is empty or starts with a blank, and it closes no comment and
no regular expression that the old one leaves open. -/
structure Respaces (new old : List Char) : Prop where
  blank : ∀ character ∈ new.head?, isBlank character = true
  comment : (commentTail? new).isSome = true → (commentTail? old).isSome = true
  regex : ∀ inBrackets, (regexTail? inBrackets new).isSome = true →
    (regexTail? inBrackets old).isSome = true

theorem Respaces.separated {new old : List Char} (hnew : Respaces new old) : Separated new := by
  intro character hcharacter
  simp [isSeparator, hnew.blank character hcharacter]

theorem Respaces.closesNoMore {new old : List Char} (hnew : Respaces new old) :
    ClosesNoMore new old :=
  ⟨hnew.separated.head?_ne rfl, hnew.separated.head?_ne rfl, hnew.comment, hnew.regex⟩

theorem isSome_commentTail?_cons {character : Char} {rest : List Char} :
    (commentTail? (character :: rest)).isSome = true ↔
      (character = '*' ∧ rest.head? = some '/') ∨ (commentTail? rest).isSome = true := by
  by_cases hclosed : character = '*' ∧ rest.head? = some '/'
  · obtain ⟨rfl, hhead⟩ := hclosed
    obtain ⟨others, rfl⟩ := List.head?_eq_some_iff.mp hhead
    simp [commentTail?]
  · have hopen : character = '*' → rest.head? ≠ some '/' := fun hstar hhead =>
      hclosed ⟨hstar, hhead⟩
    simp [commentTail?_cons hopen, hclosed]

theorem isSome_commentTail?_append {rest : List Char} (front : List Char)
    (hrest : (commentTail? rest).isSome = true) : (commentTail? (front ++ rest)).isSome = true := by
  induction front with
  | nil => exact hrest
  | cons character front ih => exact isSome_commentTail?_cons.mpr (.inr ih)

/-- A comment that closes in a text or in the new text behind it closes with the
old text behind it: no mark lies across the end of the text. -/
theorem ClosesNoMore.comment_append {new old : List Char} (hnew : ClosesNoMore new old)
    {text : List Char} (htext : (commentTail? (text ++ new)).isSome = true) :
    (commentTail? (text ++ old)).isSome = true := by
  induction text with
  | nil => exact hnew.comment htext
  | cons character text ih =>
      rw [List.cons_append, isSome_commentTail?_cons] at htext ⊢
      rcases htext with ⟨hstar, hslash⟩ | hlater
      · cases text with
        | nil => exact absurd hslash hnew.slash
        | cons slash text => exact .inl ⟨hstar, hslash⟩
      · exact .inr (ih hlater)

/-- A regular expression that closes with the new text behind a text closes with
the old one.  A backslash at the end of the text must not take a blank with it. -/
theorem ClosesNoMore.regex_append {new old : List Char} (hnew : ClosesNoMore new old)
    {inBrackets : Bool} {text : List Char}
    (hend : text.getLast? = some '\\' → ∀ character ∈ new.head?, character = '\n')
    (htext : (regexTail? inBrackets (text ++ new)).isSome = true) :
    (regexTail? inBrackets (text ++ old)).isSome = true := by
  have hshorter {character : Char} {rest : List Char}
      (hend : (character :: rest).getLast? = some '\\' → ∀ next ∈ new.head?, next = '\n') :
      rest.getLast? = some '\\' → ∀ next ∈ new.head?, next = '\n' := fun hrest =>
    hend (by rw [List.getLast?_cons, hrest]; rfl)
  -- The two texts are read in step as long as the common text lasts; the hypothesis on
  -- the new text takes over in whatever state that leaves.
  fun_induction regexTail? inBrackets text with
  | case1 inBrackets => exact hnew.regex inBrackets htext
  | case2 inBrackets =>
      have hbreak := hend rfl
      cases new with
      | nil => cases htext
      | cons character new =>
          rw [hbreak character rfl, List.singleton_append, regexTail?_escape, if_pos rfl] at htext
          cases htext
  | case3 inBrackets rest =>
      rw [List.cons_append, List.cons_append, regexTail?_escape, if_pos rfl] at htext
      cases htext
  | case4 inBrackets escaped rest hescaped ih =>
      simp only [List.cons_append, regexTail?_escape, if_neg hescaped,
        Option.isSome_map] at htext ⊢
      exact ih (hshorter (hshorter hend)) htext
  | case5 inBrackets character rest hlone hescape hline =>
      rw [List.cons_append, regexTail?_cons (ne_backslash hlone hescape), if_pos hline] at htext
      cases htext
  | case6 character rest hlone hescape hinside ih =>
      simp only [List.cons_append, regexTail?_cons (ne_backslash hlone hescape), if_neg hinside,
        if_true, Option.isSome_map] at htext ⊢
      exact ih (hshorter hend) htext
  | case7 inBrackets rest houtside _ _ hinside =>
      rw [List.cons_append, regexTail?_cons (by decide), if_neg hinside, if_neg houtside,
        if_pos rfl]
      rfl
  | case8 inBrackets character rest hlone hescape hinside houtside hslash ih =>
      simp only [List.cons_append, regexTail?_cons (ne_backslash hlone hescape), if_neg hinside,
        if_neg houtside, if_neg hslash, Option.isSome_map] at htext ⊢
      exact ih (hshorter hend) htext

/-! ## The lexeme itself -/

section Own

variable {text old new : List Char} (htext : 0 < text.length)

include htext

theorem lineCommentLength_append (hown : lineCommentLength (text ++ old) = text.length)
    (hnew : ∀ character ∈ new.head?, isLineEnd character = true) :
    lineCommentLength (text ++ new) = text.length := by
  obtain ⟨body, rfl, hbody⟩ := exists_lineComment_body htext hown
  have hends : ∀ character ∈ new.head?, (!isLineEnd character) = false := by simpa using hnew
  simp [lineCommentLength, runLength_append (Nat.le_of_eq hbody) hends, hbody]

theorem blockCommentLength_append (hown : blockCommentLength (text ++ old) = text.length)
    (new : List Char) : blockCommentLength (text ++ new) = text.length := by
  obtain ⟨body, rfl, hbody⟩ := exists_blockComment_body htext hown
  simp [blockCommentLength, closes_commentTail?.append hbody (Nat.le_refl _) new]

theorem stringLength_append (hown : stringLength (text ++ old) = text.length)
    (new : List Char) : stringLength (text ++ new) = text.length := by
  obtain ⟨quote, body, hquote, rfl, hbody⟩ := exists_string_body htext hown
  have hcloses := closes_stringTail? (ne_backslash_of_isQuote hquote)
  simp [stringLength_cons hquote, hcloses.append hbody (Nat.le_refl _) new]

theorem regexLength_append (hown : regexLength (text ++ old) = text.length)
    (hnew : ∀ character ∈ new.head?, character.isAlpha = false) :
    regexLength (text ++ new) = text.length := by
  obtain ⟨body, flags, rfl, hne, hslash, hbody, hflags⟩ := exists_regex_body htext hown
  have hsame := (closes_regexTail? false).append hbody (Nat.le_refl _) (flags ++ new)
  have hhead : (body ++ (flags ++ new)).head? ≠ some '/' := by
    cases body with
    | nil => exact absurd rfl hne
    | cons first body => exact hslash
  rw [List.cons_append, List.append_assoc, regexLength_cons hhead, hsame]
  simp only [List.drop_left, runLength_append (Nat.le_of_eq hflags) hnew, hflags,
    List.length_cons, List.length_append]
  omega

end Own

/-- A lexeme is as long with other blanks behind it.  A line comment reaches to
the end of its line, so for one the line must end there. -/
theorem measure_append {category : LexemeClass} {text old new : List Char}
    (hcategory : category ≠ .blank) (htext : 0 < text.length)
    (hown : category.measure (text ++ old) = text.length) (hnew : Separated new)
    (hline : category = .lineComment → ∀ character ∈ new.head?, isLineEnd character = true) :
    category.measure (text ++ new) = text.length := by
  have hlocal {measure : List Char → Nat} (hmeasure : Local measure)
      (hown : measure (text ++ old) = text.length) : measure (text ++ new) = text.length :=
    (hmeasure (Nat.le_of_eq hown) hnew).trans hown
  cases category with
  | blank => exact absurd rfl hcategory
  | lineComment => exact lineCommentLength_append htext hown (hline rfl)
  | blockComment => exact blockCommentLength_append htext hown new
  | regex => exact regexLength_append htext hown (hnew.ends isWordPart_of_isAlpha)
  | number => exact hlocal local_numberLength hown
  | string => exact stringLength_append htext hown new
  | word => exact hlocal local_wordLength hown
  | punctuation => exact hlocal local_punctuationLength hown
  | operator => exact hlocal local_operatorLength hown

/-! ## The end of a lexeme -/

theorem Local.getLast?_ne {measure : List Char → Nat} (hlocal : Local measure)
    (hmeasure : ∀ text, measure text ≤ text.length) {text rest : List Char}
    (hown : measure (text ++ rest) = text.length) : text.getLast? ≠ some '\\' := by
  intro hlast
  obtain ⟨body, rfl⟩ := List.getLast?_eq_some_iff.mp hlast
  have hseparated : Separated ('\\' :: rest) := by
    rintro _ ⟨⟩
    rfl
  have hinside : measure (body ++ '\\' :: rest) ≤ body.length :=
    hlocal.append_le hmeasure hseparated
  simp only [List.append_assoc, List.singleton_append, List.length_append,
    List.length_singleton] at hown
  omega

/-- Only a line comment ends with a backslash. -/
theorem getLast?_ne_backslash {category : LexemeClass} {text rest : List Char}
    (hcategory : category ≠ .blank) (hline : category ≠ .lineComment) (htext : 0 < text.length)
    (hown : category.measure (text ++ rest) = text.length) : text.getLast? ≠ some '\\' := by
  cases category with
  | blank => exact absurd rfl hcategory
  | lineComment => exact absurd rfl hline
  | blockComment =>
      obtain ⟨body, rfl, hbody⟩ := exists_blockComment_body htext hown
      simp [List.getLast?_cons, closes_commentTail?.getLast? hbody]
  | regex =>
      obtain ⟨body, flags, rfl, -, -, hbody, hflags⟩ := exists_regex_body htext hown
      simp only [List.getLast?_cons, List.getLast?_append,
        (closes_regexTail? false).getLast? hbody]
      cases hlast : flags.getLast? with
      | none => decide
      | some last =>
          rintro ⟨⟩
          have hletter : '\\' ∈ (flags ++ rest).take (runLength Char.isAlpha (flags ++ rest)) := by
            rw [hflags, List.take_left]
            exact List.mem_of_getLast? hlast
          cases of_mem_take_runLength hletter
  | number => exact local_numberLength.getLast?_ne numberLength_le hown
  | string =>
      obtain ⟨quote, body, hquote, rfl, hbody⟩ := exists_string_body htext hown
      have hne := ne_backslash_of_isQuote hquote
      simp [List.getLast?_cons, (closes_stringTail? hne).getLast? hbody, hne]
  | word => exact local_wordLength.getLast?_ne wordLength_le hown
  | punctuation => exact local_punctuationLength.getLast?_ne punctuationLength_le hown
  | operator => exact local_operatorLength.getLast?_ne operatorLength_le hown

/-! ## The first lexeme -/

/-- The second character of a text with a new end is in the text, unless the new
end starts with it. -/
theorem exists_eq_cons_cons {first second : Char} {text new rest : List Char}
    (htext : 0 < text.length) (hnew : new.head? ≠ some second)
    (hwhole : text ++ new = first :: second :: rest) :
    ∃ body, text = first :: second :: body ∧ rest = body ++ new := by
  apply exists_eq_append [first, second] hwhole
  match text with
  | [] => cases htext
  | [only] =>
      obtain ⟨-, rfl⟩ := List.cons.inj hwhole
      exact absurd rfl hnew
  | _ :: _ :: text => simp

/-- What starts with a quote is a string or nothing. -/
theorem measure_of_isQuote {category : LexemeClass} (hcategory : category ≠ .string) {quote : Char}
    (hquote : isQuote quote = true) (rest : List Char) : category.measure (quote :: rest) = 0 := by
  simp only [isQuote, Bool.or_eq_true, beq_iff_eq] at hquote
  rcases hquote with rfl | rfl
  all_goals
    cases category
    case string => exact absurd rfl hcategory
    all_goals rfl

section Missing

variable {text old new : List Char} (htext : 0 < text.length)

include htext

theorem lineCommentLength_append_eq_zero (hzero : lineCommentLength (text ++ old) = 0)
    (hnew : new.head? ≠ some '/') : lineCommentLength (text ++ new) = 0 := by
  refine Nat.eq_zero_of_not_pos fun hpos => ?_
  obtain ⟨rest, hwhole⟩ := lineCommentLength_pos hpos
  obtain ⟨body, rfl, rfl⟩ := exists_eq_cons_cons htext hnew hwhole
  cases hzero

theorem blockCommentLength_append_eq_zero (hzero : blockCommentLength (text ++ old) = 0)
    (hnew : ClosesNoMore new old) : blockCommentLength (text ++ new) = 0 := by
  refine Nat.eq_zero_of_not_pos fun hpos => ?_
  obtain ⟨rest, tail, hwhole, htail, -⟩ := blockCommentLength_pos hpos
  obtain ⟨body, rfl, rfl⟩ := exists_eq_cons_cons htext hnew.star hwhole
  have hclosed := hnew.comment_append (Option.isSome_of_mem htail)
  obtain ⟨closed, hclosed⟩ := Option.isSome_iff_exists.mp hclosed
  simp [blockCommentLength, hclosed] at hzero

theorem regexLength_append_eq_zero (hzero : regexLength (text ++ old) = 0)
    (hline : lineCommentLength (text ++ old) = 0) (hlast : text.getLast? ≠ some '\\')
    (hnew : ClosesNoMore new old) : regexLength (text ++ new) = 0 := by
  refine Nat.eq_zero_of_not_pos fun hpos => ?_
  obtain ⟨rest, tail, hwhole, -, htail, -⟩ := regexLength_pos hpos
  obtain ⟨body, rfl, rfl⟩ := exists_eq_append ['/'] hwhole htext
  have hend : body.getLast? = some '\\' → ∀ character ∈ new.head?, character = '\n' := by
    intro hbody
    rw [List.singleton_append, List.getLast?_cons, hbody] at hlast
    exact absurd rfl hlast
  have hclosed := hnew.regex_append hend (Option.isSome_of_mem htail)
  obtain ⟨closed, hclosed⟩ := Option.isSome_iff_exists.mp hclosed
  have hhead : (body ++ old).head? ≠ some '/' := by
    intro hslash
    obtain ⟨others, hothers⟩ := List.head?_eq_some_iff.mp hslash
    rw [List.append_assoc, hothers] at hline
    cases hline
  rw [List.append_assoc, List.singleton_append, regexLength_cons hhead, hclosed] at hzero
  simp at hzero

theorem stringLength_append_eq_zero {category : LexemeClass}
    (hown : category.measure (text ++ old) = text.length)
    (hzero : stringLength (text ++ old) = 0) (new : List Char) :
    stringLength (text ++ new) = 0 := by
  refine Nat.eq_zero_of_not_pos fun hpos => ?_
  obtain ⟨quote, rest, -, hquote, hwhole, -⟩ := stringLength_pos hpos
  obtain ⟨body, rfl, rfl⟩ := exists_eq_append [quote] hwhole htext
  by_cases hstring : category = .string
  · subst hstring
    exact Nat.ne_of_gt htext (hown.symm.trans hzero)
  · rw [List.append_assoc, List.singleton_append, measure_of_isQuote hstring hquote] at hown
    exact Nat.ne_of_lt htext hown

end Missing

theorem first?_of_lineComment {admitted : Bool} {text : List Char}
    (hpos : 0 < LexemeClass.lineComment.measure text) :
    first? admitted text = some ⟨.lineComment, _, hpos⟩ := by
  obtain ⟨rest, rfl⟩ := lineCommentLength_pos hpos
  rfl

/-- A class that has no lexeme at the head of a text has none there with other
blanks behind the first lexeme. -/
theorem measure_append_eq_zero {admitted : Bool} {text old new : List Char} {lexeme : Lexeme}
    (hfirst : first? admitted (text ++ old) = some lexeme) (hlength : lexeme.length = text.length)
    (hcategory : lexeme.category ≠ .blank) (hnew : Respaces new old) {category : LexemeClass}
    (hzero : category.measure (text ++ old) = 0) : category.measure (text ++ new) = 0 := by
  have htext : 0 < text.length := hlength ▸ lexeme.length_pos
  have hown : lexeme.category.measure (text ++ old) = text.length :=
    (measure_of_first? hfirst).trans hlength
  have hlocal {measure : List Char → Nat} (hmeasure : Local measure)
      (hzero : measure (text ++ old) = 0) : measure (text ++ new) = 0 :=
    (hmeasure (hzero ▸ Nat.zero_le _) hnew.separated).trans hzero
  cases category with
  | blank =>
      cases text with
      | nil => cases htext
      | cons character text =>
          simp only [LexemeClass.measure, List.cons_append, runLength_cons] at hzero ⊢
          split at hzero
          · cases hzero
          · simp [*]
  | lineComment => exact lineCommentLength_append_eq_zero htext hzero hnew.closesNoMore.slash
  | blockComment => exact blockCommentLength_append_eq_zero htext hzero hnew.closesNoMore
  | regex =>
      -- A text with two slashes at its head has no regular expression there at all.
      rcases Nat.eq_zero_or_pos (lineCommentLength (text ++ old)) with hnone | hpos
      · have hother : lexeme.category ≠ .lineComment := by
          intro hcomment
          rw [hcomment] at hown
          exact Nat.ne_of_gt htext (hown.symm.trans hnone)
        exact regexLength_append_eq_zero htext hzero hnone
          (getLast?_ne_backslash hcategory hother htext hown) hnew.closesNoMore
      · rw [first?_of_lineComment hpos] at hfirst
        cases hfirst
        obtain ⟨body, rfl, -⟩ := exists_lineComment_body htext hown
        rfl
  | number => exact hlocal local_numberLength hzero
  | string => exact stringLength_append_eq_zero htext hown hzero new
  | word => exact hlocal local_wordLength hzero
  | punctuation => exact hlocal local_punctuationLength hzero
  | operator => exact hlocal local_operatorLength hzero

/-- The first lexeme of a text is the first with other blanks behind it, if
these close nothing new and a line comment still ends its line. -/
theorem first?_respaced {admitted : Bool} {text old new : List Char} {lexeme : Lexeme}
    (hfirst : first? admitted (text ++ old) = some lexeme) (hlength : lexeme.length = text.length)
    (hcategory : lexeme.category ≠ .blank) (hnew : Respaces new old)
    (hline : lexeme.category = .lineComment → ∀ character ∈ new.head?, isLineEnd character = true) :
    first? admitted (text ++ new) = some lexeme := by
  have htext : 0 < text.length := hlength ▸ lexeme.length_pos
  have hown : lexeme.category.measure (text ++ old) = text.length :=
    (measure_of_first? hfirst).trans hlength
  apply first?_congr hfirst
  · exact (measure_append hcategory htext hown hnew.separated hline).trans hlength.symm
  · exact fun _ hzero => measure_append_eq_zero hfirst hlength hcategory hnew hzero

end Lexeme

end ScriptSyntax

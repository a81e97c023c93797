import ScriptSyntax.Token.Lexeme

/-!
# The extent of a lexeme

A lexeme lies inside the text it heads.  A comment between marks, a string and
the body of a regular expression end at a closing character, and the text behind
that character has no part in them.
-/

namespace ScriptSyntax

open Text

namespace Lexeme

/-! ## Runs -/

@[simp]
theorem runLength_nil (property : Char → Bool) : runLength property [] = 0 := rfl

@[simp]
theorem runLength_cons (property : Char → Bool) (character : Char) (text : List Char) :
    runLength property (character :: text) =
      if property character then runLength property text + 1 else 0 := by
  unfold runLength
  rw [List.takeWhile_cons]
  split <;> rfl

theorem runLength_le (property : Char → Bool) (text : List Char) :
    runLength property text ≤ text.length :=
  (List.takeWhile_prefix property).length_le

/-- A run that ends inside a text, or at its end, is as long with any other text
behind it whose first character does not continue the run. -/
theorem runLength_append {property : Char → Bool} {left right other : List Char}
    (hrun : runLength property (left ++ right) ≤ left.length)
    (hother : ∀ character ∈ other.head?, property character = false) :
    runLength property (left ++ other) = runLength property (left ++ right) := by
  induction left with
  | nil =>
      have hright : runLength property right = 0 := Nat.le_zero.mp hrun
      cases other with
      | nil => exact hright.symm
      | cons character other => simp [hother character rfl, hright]
  | cons character left ih =>
      simp only [List.cons_append, runLength_cons, List.length_cons] at hrun ⊢
      split at hrun
      · rw [ih (Nat.le_of_succ_le_succ hrun)]
      · simp [*]

/-- A run goes on behind characters that all have the property. -/
theorem runLength_append_of_all {property : Char → Bool} {text : List Char}
    (htext : ∀ character ∈ text, property character = true) (rest : List Char) :
    runLength property (text ++ rest) = text.length + runLength property rest := by
  induction text with
  | nil => simp
  | cons character text ih =>
      obtain ⟨hcharacter, hothers⟩ := List.forall_mem_cons.mp htext
      rw [List.cons_append, runLength_cons, if_pos hcharacter, ih hothers, List.length_cons]
      omega

/-- A run over a whole text. -/
theorem runLength_append_eq_length {property : Char → Bool} {text rest : List Char}
    (htext : ∀ character ∈ text, property character = true)
    (hrest : ∀ character ∈ rest.head?, property character = false) :
    runLength property (text ++ rest) = text.length := by
  have hstop : runLength property rest = 0 := by
    cases rest with
    | nil => rfl
    | cons character rest => simp [hrest character rfl]
  rw [runLength_append_of_all htext, hstop, Nat.add_zero]

/-- Behind a run over a whole text stands nothing that continues it. -/
theorem head?_of_runLength {property : Char → Bool} {text rest : List Char}
    (hrun : runLength property (text ++ rest) = text.length) :
    ∀ character ∈ rest.head?, property character = false := by
  induction text with
  | nil =>
      intro character hcharacter
      obtain ⟨others, rfl⟩ := List.head?_eq_some_iff.mp hcharacter
      simpa using hrun
  | cons first text ih =>
      apply ih
      simp only [List.cons_append, runLength_cons, List.length_cons] at hrun
      split at hrun
      · exact Nat.succ.inj hrun
      · cases hrun

/-- The characters of a run have its property. -/
theorem of_mem_take_runLength {property : Char → Bool} {text : List Char} {character : Char}
    (hcharacter : character ∈ text.take (runLength property text)) :
    property character = true := by
  rw [runLength, ← List.prefix_iff_eq_take.mp (List.takeWhile_prefix property)] at hcharacter
  exact List.all_eq_true.mp List.all_takeWhile _ hcharacter

/-! ## Closing characters -/

/-- What a tail function finds at the head of a text ends with the closing
character, and it is found whatever stands behind that. -/
def ClosedAt (tail? : List Char → Option Nat) (closer : Char) (text : List Char)
    (length : Nat) : Prop :=
  ∃ body rest, text = body ++ closer :: rest ∧ length = body.length + 1 ∧
    ∀ other, tail? (body ++ closer :: other) = some length

/-- Whatever a tail function finds is closed. -/
def Closes (tail? : List Char → Option Nat) (closer : Char) : Prop :=
  ∀ ⦃text : List Char⦄ ⦃length : Nat⦄, tail? text = some length →
    ClosedAt tail? closer text length

/-- The tail found by another function, behind characters that are passed over
whatever follows them. -/
theorem ClosedAt.behind {outer inner : List Char → Option Nat} {closer : Char}
    (front : List Char) {text : List Char} {length : Nat}
    (hstep : ∀ rest, outer (front ++ rest) = (inner rest).map (· + front.length))
    (hinner : ∀ length, inner text = some length → ClosedAt inner closer text length)
    (hlength : (inner text).map (· + front.length) = some length) :
    ClosedAt outer closer (front ++ text) length := by
  obtain ⟨found, hfound, rfl⟩ := Option.map_eq_some_iff.mp hlength
  obtain ⟨body, rest, rfl, rfl, hall⟩ := hinner found hfound
  refine ⟨front ++ body, rest, by simp, by simp; omega, fun other => ?_⟩
  rw [List.append_assoc, hstep, hall]
  rfl

namespace Closes

variable {tail? : List Char → Option Nat} {closer : Char} (hcloses : Closes tail? closer)

include hcloses

/-- What is found inside a text is found with anything else behind the text. -/
theorem append {left right : List Char} {length : Nat}
    (hlength : tail? (left ++ right) = some length) (hinside : length ≤ left.length)
    (other : List Char) : tail? (left ++ other) = some length := by
  obtain ⟨body, rest, htext, rfl, hall⟩ := hcloses hlength
  have hbody : body ++ [closer] <+: left := by
    have hwhole : body ++ [closer] <+: left ++ right := ⟨rest, by simp [htext]⟩
    exact List.prefix_of_prefix_length_le hwhole (List.prefix_append ..) (by simpa using hinside)
  obtain ⟨behind, rfl⟩ := hbody
  simpa using hall (behind ++ other)

theorem getLast? {body rest : List Char}
    (hlength : tail? (body ++ rest) = some body.length) : body.getLast? = some closer := by
  obtain ⟨inner, after, hwhole, hsame, -⟩ := hcloses hlength
  have hparts : body ++ rest = (inner ++ [closer]) ++ after := by simp [hwhole]
  have hbody : body = inner ++ [closer] := (List.append_inj hparts (by simp [hsame])).1
  rw [hbody, List.getLast?_concat]

theorem le {text : List Char} {length : Nat} (hlength : tail? text = some length) :
    length ≤ text.length := by
  obtain ⟨body, rest, rfl, rfl, -⟩ := hcloses hlength
  simp

end Closes

theorem commentTail?_cons {character : Char} {rest : List Char}
    (hcharacter : character = '*' → rest.head? ≠ some '/') :
    commentTail? (character :: rest) = (commentTail? rest).map (· + 1) := by
  rw [commentTail?]
  rintro tail rfl rfl
  exact hcharacter rfl rfl

theorem closes_commentTail? : Closes commentTail? '/' := by
  intro text
  induction text with
  | nil =>
      intro length hlength
      cases hlength
  | cons character text ih =>
      intro length hlength
      by_cases hclosed : character = '*' ∧ text.head? = some '/'
      · obtain ⟨rfl, hhead⟩ := hclosed
        obtain ⟨rest, rfl⟩ := List.head?_eq_some_iff.mp hhead
        cases hlength
        exact ⟨['*'], rest, rfl, rfl, fun _ => rfl⟩
      · have hopen : character = '*' → text.head? ≠ some '/' := fun hstar hhead =>
          hclosed ⟨hstar, hhead⟩
        rw [commentTail?_cons hopen] at hlength
        obtain ⟨inner, hinner, rfl⟩ := Option.map_eq_some_iff.mp hlength
        obtain ⟨body, rest, rfl, rfl, hall⟩ := ih hinner
        refine ⟨character :: body, rest, rfl, rfl, fun other => ?_⟩
        -- The first character opens no mark before the other text either: what stands
        -- right behind it is the same in both.
        have hsame : (body ++ '/' :: other).head? = (body ++ '/' :: rest).head? := by
          cases body <;> rfl
        rw [List.cons_append, commentTail?_cons (hsame ▸ hopen), hall]
        rfl

theorem regexTail?_cons {inBrackets : Bool} {character : Char} {rest : List Char}
    (hcharacter : character ≠ '\\') :
    regexTail? inBrackets (character :: rest) =
      if isLineEnd character then none
      else if inBrackets then (regexTail? (character != ']') rest).map (· + 1)
      else if character = '/' then some 1
      else (regexTail? (character == '[') rest).map (· + 1) := by
  rw [regexTail?]
  · exact fun hbackslash _ => hcharacter hbackslash
  · exact fun _ _ hbackslash _ => hcharacter hbackslash

theorem regexTail?_escape (inBrackets : Bool) (escaped : Char) (rest : List Char) :
    regexTail? inBrackets ('\\' :: escaped :: rest) =
      if escaped = '\n' then none else (regexTail? inBrackets rest).map (· + 2) := by
  rw [regexTail?]

theorem stringTail?_cons {quote character : Char} {rest : List Char}
    (hcharacter : character ≠ '\\') :
    stringTail? quote (character :: rest) =
      if character = quote then some 1
      else if isLineEnd character then none
      else (stringTail? quote rest).map (· + 1) := by
  rw [stringTail?]
  · exact fun hbackslash _ => hcharacter hbackslash
  · exact fun _ _ hbackslash _ => hcharacter hbackslash

/-- A character that is neither a lone backslash nor one with a character behind
it is no backslash. -/
theorem ne_backslash {character : Char} {rest : List Char}
    (hlone : character = '\\' → rest = [] → False)
    (hescape : ∀ escaped others, character = '\\' → rest = escaped :: others → False) :
    character ≠ '\\' := by
  intro hbackslash
  cases rest with
  | nil => exact hlone hbackslash rfl
  | cons escaped others => exact hescape escaped others hbackslash rfl

theorem closes_regexTail? (inBrackets : Bool) : Closes (regexTail? inBrackets) '/' := by
  intro text
  fun_induction regexTail? inBrackets text with
  | case1 | case2 | case3 | case5 => exact fun _ hlength => nomatch hlength
  | case4 inBrackets escaped rest hescaped ih =>
      intro length hlength
      refine ClosedAt.behind ['\\', escaped] (fun other => ?_) ih hlength
      exact (regexTail?_escape ..).trans (if_neg hescaped)
  | case6 character rest hlone hescape hinside ih =>
      intro length hlength
      refine ClosedAt.behind [character] (fun other => ?_) ih hlength
      exact (regexTail?_cons (ne_backslash hlone hescape)).trans (if_neg hinside)
  | case7 inBrackets rest houtside =>
      rintro _ ⟨⟩
      refine ⟨[], rest, rfl, rfl, fun other => ?_⟩
      rw [List.nil_append, regexTail?_cons (by decide), if_neg (by decide), if_neg houtside,
        if_pos rfl]
  | case8 inBrackets character rest hlone hescape hinside houtside hslash ih =>
      intro length hlength
      refine ClosedAt.behind [character] (fun other => ?_) ih hlength
      rw [List.singleton_append, regexTail?_cons (ne_backslash hlone hescape), if_neg hinside,
        if_neg houtside, if_neg hslash]
      rfl

theorem closes_stringTail? {quote : Char} (hquote : quote ≠ '\\') :
    Closes (stringTail? quote) quote := by
  intro text
  fun_induction stringTail? quote text with
  | case1 | case2 | case5 => exact fun _ hlength => nomatch hlength
  | case3 escaped rest ih =>
      intro length hlength
      exact ClosedAt.behind ['\\', escaped] (fun _ => stringTail?.eq_3 ..) ih hlength
  | case4 rest =>
      rintro _ ⟨⟩
      refine ⟨[], rest, rfl, rfl, fun other => ?_⟩
      rw [List.nil_append, stringTail?_cons hquote, if_pos rfl]
  | case6 character rest hlone hescape hother hinside ih =>
      intro length hlength
      refine ClosedAt.behind [character] (fun other => ?_) ih hlength
      rw [List.singleton_append, stringTail?_cons (ne_backslash hlone hescape), if_neg hother,
        if_neg hinside]
      rfl

/-! ## Comments, regular expressions and strings -/

theorem lineCommentLength_pos {text : List Char} (hpos : 0 < lineCommentLength text) :
    ∃ rest, text = '/' :: '/' :: rest := by
  unfold lineCommentLength at hpos
  split at hpos
  · exact ⟨_, rfl⟩
  · cases hpos

theorem blockCommentLength_pos {text : List Char} (hpos : 0 < blockCommentLength text) :
    ∃ rest tail, text = '/' :: '*' :: rest ∧ commentTail? rest = some tail ∧
      blockCommentLength text = tail + 2 := by
  unfold blockCommentLength at hpos ⊢
  split at hpos
  · rename_i rest
    cases htail : commentTail? rest with
    | none => simp [htail] at hpos
    | some tail => exact ⟨rest, tail, rfl, htail, rfl⟩
  · cases hpos

theorem regexLength_cons {rest : List Char} (hrest : rest.head? ≠ some '/') :
    regexLength ('/' :: rest) =
      match regexTail? false rest with
      | none => 0
      | some tail => tail + 1 + runLength Char.isAlpha (rest.drop tail) :=
  regexLength.eq_2 rest fun _ hslash => hrest (hslash ▸ rfl)

theorem regexLength_pos {text : List Char} (hpos : 0 < regexLength text) :
    ∃ rest tail, text = '/' :: rest ∧ rest.head? ≠ some '/' ∧
      regexTail? false rest = some tail ∧
        regexLength text = tail + 1 + runLength Char.isAlpha (rest.drop tail) := by
  unfold regexLength at hpos ⊢
  split at hpos
  · cases hpos
  · rename_i rest hslash
    split at hpos
    · cases hpos
    · rename_i tail htail
      refine ⟨rest, tail, rfl, fun hhead => ?_, htail, rfl⟩
      obtain ⟨others, rfl⟩ := List.head?_eq_some_iff.mp hhead
      exact hslash others rfl
  · cases hpos

/-- Comments and regular expressions start with a slash. -/
theorem measure_of_ne_slash {category : LexemeClass}
    (hcategory : category ∈ [.lineComment, .blockComment, .regex]) {character : Char}
    (hslash : character ≠ '/') (rest : List Char) : category.measure (character :: rest) = 0 := by
  have hhead {inner : List Char} : character :: rest ≠ '/' :: inner := fun hwhole =>
    hslash (List.cons.inj hwhole).1
  refine Nat.eq_zero_of_not_pos fun hpos => ?_
  simp only [List.mem_cons, List.not_mem_nil, or_false] at hcategory
  rcases hcategory with rfl | rfl | rfl
  · obtain ⟨_, hwhole⟩ := lineCommentLength_pos hpos
    exact hhead hwhole
  · obtain ⟨_, _, hwhole, -⟩ := blockCommentLength_pos hpos
    exact hhead hwhole
  · obtain ⟨_, _, hwhole, -⟩ := regexLength_pos hpos
    exact hhead hwhole

/-- The characters that open and close a string. -/
def isQuote (character : Char) : Bool :=
  character == '"' || character == '\''

theorem ne_backslash_of_isQuote {quote : Char} (hquote : isQuote quote = true) :
    quote ≠ '\\' := by
  rintro rfl
  cases hquote

theorem stringLength_cons {quote : Char} (hquote : isQuote quote = true) (rest : List Char) :
    stringLength (quote :: rest) = ((stringTail? quote rest).map (· + 1)).getD 0 := by
  simp only [isQuote, Bool.or_eq_true, beq_iff_eq] at hquote
  rcases hquote with rfl | rfl <;> rfl

theorem stringLength_pos {text : List Char} (hpos : 0 < stringLength text) :
    ∃ quote rest tail, isQuote quote = true ∧ text = quote :: rest ∧
      stringTail? quote rest = some tail ∧ stringLength text = tail + 1 := by
  obtain ⟨quote, rest, hquote, rfl⟩ :
      ∃ quote rest, isQuote quote = true ∧ text = quote :: rest := by
    unfold stringLength at hpos
    split at hpos
    · exact ⟨_, _, rfl, rfl⟩
    · exact ⟨_, _, rfl, rfl⟩
    · cases hpos
  rw [stringLength_cons hquote] at hpos ⊢
  cases htail : stringTail? quote rest with
  | none => simp [htail] at hpos
  | some tail => exact ⟨quote, rest, tail, hquote, rfl, htail, rfl⟩

theorem stringLength_of_not_isQuote {character : Char} (hquote : isQuote character = false)
    (rest : List Char) : stringLength (character :: rest) = 0 := by
  refine Nat.eq_zero_of_not_pos fun hpos => ?_
  obtain ⟨quote, _, _, hother, hwhole, -⟩ := stringLength_pos hpos
  obtain ⟨rfl, -⟩ := List.cons.inj hwhole
  cases hquote.symm.trans hother

/-! ## Texts that are lexemes -/

/-- The end of a text whose whole begins with the given characters. -/
theorem exists_eq_append (front : List Char) {text rest behind : List Char}
    (hwhole : text ++ rest = front ++ behind) (hfront : front.length ≤ text.length) :
    ∃ body, text = front ++ body ∧ behind = body ++ rest := by
  obtain ⟨body, rfl⟩ : front <+: text :=
    List.prefix_of_prefix_length_le ⟨behind, hwhole.symm⟩ (List.prefix_append ..) hfront
  refine ⟨body, rfl, ?_⟩
  simpa using hwhole.symm

section Body

variable {text rest : List Char} (htext : 0 < text.length)

include htext

theorem exists_lineComment_body (hown : lineCommentLength (text ++ rest) = text.length) :
    ∃ body, text = '/' :: '/' :: body ∧
      runLength (fun character => !isLineEnd character) (body ++ rest) = body.length := by
  obtain ⟨behind, hwhole⟩ := lineCommentLength_pos (hown ▸ htext)
  rw [hwhole, lineCommentLength] at hown
  obtain ⟨body, rfl, rfl⟩ := exists_eq_append ['/', '/'] hwhole (hown ▸ Nat.le_add_left ..)
  exact ⟨body, rfl, Nat.add_right_cancel hown⟩

theorem exists_blockComment_body (hown : blockCommentLength (text ++ rest) = text.length) :
    ∃ body, text = '/' :: '*' :: body ∧ commentTail? (body ++ rest) = some body.length := by
  obtain ⟨behind, tail, hwhole, htail, hlength⟩ := blockCommentLength_pos (hown ▸ htext)
  rw [hown] at hlength
  obtain ⟨body, rfl, rfl⟩ := exists_eq_append ['/', '*'] hwhole (hlength ▸ Nat.le_add_left ..)
  exact ⟨body, rfl, htail.trans (congrArg some (Nat.add_right_cancel hlength.symm))⟩

theorem exists_string_body (hown : stringLength (text ++ rest) = text.length) :
    ∃ quote body, isQuote quote = true ∧ text = quote :: body ∧
      stringTail? quote (body ++ rest) = some body.length := by
  obtain ⟨quote, behind, tail, hquote, hwhole, htail, hlength⟩ := stringLength_pos (hown ▸ htext)
  rw [hown] at hlength
  obtain ⟨body, rfl, rfl⟩ := exists_eq_append [quote] hwhole htext
  exact ⟨quote, body, hquote, rfl, htail.trans (congrArg some (Nat.add_right_cancel hlength.symm))⟩

/-- The body of a regular expression, slash included, and the letters behind it. -/
theorem exists_regex_body (hown : regexLength (text ++ rest) = text.length) :
    ∃ body flags, text = '/' :: (body ++ flags) ∧ body ≠ [] ∧ body.head? ≠ some '/' ∧
      regexTail? false (body ++ (flags ++ rest)) = some body.length ∧
        runLength Char.isAlpha (flags ++ rest) = flags.length := by
  obtain ⟨behind, tail, hwhole, hslash, htail, hlength⟩ := regexLength_pos (hown ▸ htext)
  rw [hown] at hlength
  obtain ⟨inner, rfl, rfl⟩ := exists_eq_append ['/'] hwhole htext
  obtain ⟨_, _, -, hpos, -⟩ := closes_regexTail? false htail
  rw [List.singleton_append, List.length_cons] at hlength
  have hinside : tail ≤ inner.length := by omega
  have hbody : (inner.take tail).length = tail := List.length_take_of_le hinside
  rw [List.drop_append_of_le_length hinside] at hlength
  refine ⟨inner.take tail, inner.drop tail, by simp, ?_, ?_, ?_, ?_⟩
  · exact List.ne_nil_of_length_pos (by omega)
  · cases inner with
    | nil => simp at hinside; omega
    | cons first inner => rwa [List.head?_take, if_neg (by omega)]
  · rw [← List.append_assoc, List.take_append_drop, hbody]
    exact htail
  · rw [List.length_drop]
    omega

end Body

/-! ## Lengths -/

theorem lineCommentLength_le (text : List Char) : lineCommentLength text ≤ text.length := by
  unfold lineCommentLength
  split
  · exact Nat.add_le_add_right (runLength_le ..) 2
  · exact Nat.zero_le _

theorem blockCommentLength_le (text : List Char) : blockCommentLength text ≤ text.length := by
  rcases Nat.eq_zero_or_pos (blockCommentLength text) with hzero | hpos
  · exact hzero ▸ Nat.zero_le _
  · obtain ⟨rest, tail, rfl, htail, hlength⟩ := blockCommentLength_pos hpos
    rw [hlength]
    exact Nat.add_le_add_right (closes_commentTail?.le htail) 2

theorem regexLength_le (text : List Char) : regexLength text ≤ text.length := by
  rcases Nat.eq_zero_or_pos (regexLength text) with hzero | hpos
  · exact hzero ▸ Nat.zero_le _
  · obtain ⟨rest, tail, rfl, -, htail, hlength⟩ := regexLength_pos hpos
    have hbody := (closes_regexTail? false).le htail
    have hflags := runLength_le Char.isAlpha (rest.drop tail)
    rw [List.length_drop] at hflags
    rw [hlength, List.length_cons]
    omega

theorem stringLength_le (text : List Char) : stringLength text ≤ text.length := by
  rcases Nat.eq_zero_or_pos (stringLength text) with hzero | hpos
  · exact hzero ▸ Nat.zero_le _
  · obtain ⟨quote, rest, tail, hquote, rfl, htail, hlength⟩ := stringLength_pos hpos
    rw [hlength]
    exact Nat.add_le_add_right ((closes_stringTail? (ne_backslash_of_isQuote hquote)).le htail) 1

theorem hexLength_le (text : List Char) : hexLength text ≤ text.length := by
  unfold hexLength
  split
  · dsimp only
    split
    · exact Nat.add_le_add_right (runLength_le ..) 2
    · exact Nat.zero_le _
  · exact Nat.zero_le _

theorem mantissaLength_le (text : List Char) : mantissaLength text ≤ text.length := by
  have hwhole := runLength_le Char.isDigit text
  unfold mantissaLength
  dsimp only
  split
  · rename_i rest hdrop
    have hlength := congrArg List.length hdrop
    have hfraction := runLength_le Char.isDigit rest
    rw [List.length_drop, List.length_cons] at hlength
    split <;> omega
  · exact hwhole

theorem exponentLength_le (text : List Char) : exponentLength text ≤ text.length := by
  unfold exponentLength
  split
  · rename_i mark rest
    dsimp only
    generalize hsign : (if rest.head? = some '+' ∨ rest.head? = some '-' then 1 else 0) = sign
    have hdigits := runLength_le Char.isDigit (rest.drop sign)
    rw [List.length_drop] at hdigits
    split
    · rename_i hmark
      simp only [Bool.and_eq_true, bne_iff_ne, ne_eq] at hmark
      rw [List.length_cons]
      omega
    · exact Nat.zero_le _
  · exact Nat.zero_le _

theorem decimalLength_le (text : List Char) : decimalLength text ≤ text.length := by
  have hmantissa := mantissaLength_le text
  unfold decimalLength
  split
  · exact Nat.zero_le _
  · have hexponent := exponentLength_le (text.drop (mantissaLength text))
    rw [List.length_drop] at hexponent
    omega

theorem numberLength_le (text : List Char) : numberLength text ≤ text.length := by
  unfold numberLength
  split
  · exact decimalLength_le text
  · exact hexLength_le text

theorem wordLength_le (text : List Char) : wordLength text ≤ text.length := by
  unfold wordLength
  split
  · exact Nat.zero_le _
  · split
    · exact Nat.add_le_add_right (runLength_le ..) 1
    · exact Nat.zero_le _

theorem punctuationLength_le (text : List Char) : punctuationLength text ≤ text.length := by
  unfold punctuationLength
  split
  · exact Nat.zero_le _
  · split <;> simp

theorem operatorLength_le (text : List Char) : operatorLength text ≤ text.length := by
  unfold operatorLength
  split
  · exact Nat.zero_le _
  · rename_i symbol hsymbol
    have hhead := List.find?_some hsymbol
    exact (List.isPrefixOf_iff_prefix.mp hhead).length_le

end Lexeme

/-- A lexeme is no longer than the text it heads. -/
theorem LexemeClass.measure_le (category : LexemeClass) (text : List Char) :
    category.measure text ≤ text.length := by
  cases category with
  | blank => exact Lexeme.runLength_le isBlank text
  | lineComment => exact Lexeme.lineCommentLength_le text
  | blockComment => exact Lexeme.blockCommentLength_le text
  | regex => exact Lexeme.regexLength_le text
  | number => exact Lexeme.numberLength_le text
  | string => exact Lexeme.stringLength_le text
  | word => exact Lexeme.wordLength_le text
  | punctuation => exact Lexeme.punctuationLength_le text
  | operator => exact Lexeme.operatorLength_le text

namespace Lexeme

/-! ## The first lexeme -/

theorem ofClass?_eq_some_iff {category : LexemeClass} {text : List Char} {lexeme : Lexeme} :
    ofClass? category text = some lexeme ↔
      lexeme.category = category ∧ category.measure text = lexeme.length := by
  obtain ⟨own, length, hpos⟩ := lexeme
  by_cases hmeasure : 0 < category.measure text
  · simp only [ofClass?, dif_pos hmeasure, Option.some.injEq, mk.injEq]
    exact and_congr_left fun _ => eq_comm
  · simp only [ofClass?, dif_neg hmeasure]
    constructor
    · exact fun hnone => nomatch hnone
    · rintro ⟨-, rfl⟩
      exact absurd hpos hmeasure

theorem ofClass?_eq_none_iff {category : LexemeClass} {text : List Char} :
    ofClass? category text = none ↔ category.measure text = 0 := by
  simp [ofClass?]

/-- The first lexeme is as long as the measure of its class says. -/
theorem measure_of_first? {admitted : Bool} {text : List Char} {lexeme : Lexeme}
    (hfirst : first? admitted text = some lexeme) :
    lexeme.category.measure text = lexeme.length := by
  obtain ⟨category, -, hcategory⟩ := List.exists_of_findSome?_eq_some hfirst
  split at hcategory
  · cases hcategory
  · obtain ⟨rfl, hlength⟩ := ofClass?_eq_some_iff.mp hcategory
    exact hlength

theorem length_le_of_first? {admitted : Bool} {text : List Char} {lexeme : Lexeme}
    (hfirst : first? admitted text = some lexeme) : lexeme.length ≤ text.length :=
  measure_of_first? hfirst ▸ lexeme.category.measure_le text

/-- A text whose lexeme of one class is that of another text, and which has no
lexeme of a class the other has none of, has the same first lexeme. -/
theorem first?_congr {admitted : Bool} {text other : List Char} {lexeme : Lexeme}
    (hfirst : first? admitted text = some lexeme)
    (hown : lexeme.category.measure other = lexeme.length)
    (hothers : ∀ category : LexemeClass, category.measure text = 0 → category.measure other = 0) :
    first? admitted other = some lexeme := by
  obtain ⟨earlier, category, later, horder, hfound, hearlier⟩ :=
    List.findSome?_eq_some_iff.mp hfirst
  refine List.findSome?_eq_some_iff.mpr ⟨earlier, category, later, horder, ?_, ?_⟩
  · split at hfound
    · cases hfound
    · rename_i hallowed
      rw [if_neg hallowed]
      obtain ⟨rfl, -⟩ := ofClass?_eq_some_iff.mp hfound
      exact ofClass?_eq_some_iff.mpr ⟨rfl, hown⟩
  · intro missed hmissed
    have hnone := hearlier missed hmissed
    split at hnone
    · rename_i hbarred
      exact if_pos hbarred
    · rename_i hallowed
      rw [if_neg hallowed]
      exact ofClass?_eq_none_iff.mpr (hothers missed (ofClass?_eq_none_iff.mp hnone))

theorem category_eq_blank {lexeme : Lexeme} {text : List Char}
    (hkind : lexeme.kind? text = none) : lexeme.category = .blank := by
  unfold kind? at hkind
  split at hkind
  · assumption
  all_goals cases hkind

end Lexeme

end ScriptSyntax

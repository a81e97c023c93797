import ScriptSyntax.Proofs.Lexeme.Respelling
import ScriptSyntax.Proofs.Respacing

/-!
# How a member is spelled

Whether a slash divides or opens a regular expression is decided by the token
before it, and a reserved word behind a dot is a reserved word to the scanner.
Hence a member may be named by such a word without changing the other tokens
exactly if the word stands for a value, or if the text behind it does not go on,
comments aside, with what could be a regular expression.
-/

namespace ScriptSyntax

open Text

/-! ## Past the comments -/

/-- Blanks and comments: what may stand between two tokens that count. -/
def LexemeClass.isGap : LexemeClass → Bool
  | .blank | .lineComment | .blockComment => true
  | _ => false

namespace Lexeme

/-- The text from its first token on that is no comment. -/
def significant (text : List Char) : List Char :=
  match _ : first? false text with
  | none => text
  | some lexeme =>
      if lexeme.category.isGap then significant (text.drop lexeme.length) else text
termination_by text.length
decreasing_by
  have hpos := lexeme.length_pos
  have hle := length_le_of_first? ‹_›
  rw [List.length_drop]
  omega

theorem significant_of_gap {text rest : List Char} {lexeme : Lexeme}
    (hfirst : first? false (text ++ rest) = some lexeme) (hlength : lexeme.length = text.length)
    (hgap : lexeme.category.isGap = true) : significant (text ++ rest) = significant rest := by
  rw [significant]
  split
  · rename_i hnone
    cases hnone.symm.trans hfirst
  · rename_i other hother
    cases hother.symm.trans hfirst
    rw [if_pos hgap, hlength, List.drop_left]

theorem significant_of_token {text : List Char} {lexeme : Lexeme}
    (hfirst : first? false text = some lexeme) (hgap : lexeme.category.isGap = false) :
    significant text = text := by
  rw [significant]
  split
  · rfl
  · rename_i other hother
    cases hother.symm.trans hfirst
    rw [if_neg (by simp [hgap])]

theorem significant_nil : significant [] = [] := by
  rw [significant]
  split
  · rfl
  · rename_i lexeme hfirst
    exact absurd (length_le_of_first? hfirst) (Nat.not_le_of_lt lexeme.length_pos)

theorem significant_blanks (blanks : Blanks) {rest : List Char}
    (hrest : ∀ character ∈ rest.head?, isBlank character = false) :
    significant (blanks.val ++ rest) = significant rest := by
  obtain ⟨blanks, hblanks⟩ := blanks
  cases blanks with
  | nil => rfl
  | cons head tail =>
      have hmeasure : LexemeClass.blank.measure (head :: tail ++ rest) = (head :: tail).length :=
        runLength_append_eq_length hblanks hrest
      have hpos : 0 < LexemeClass.blank.measure (head :: tail ++ rest) :=
        hmeasure ▸ Nat.zero_lt_succ _
      exact significant_of_gap (first?_of_blank hpos) hmeasure rfl

/-- Blanks and comments are found before anything else is tried. -/
theorem first?_of_gap {category : LexemeClass} (hgap : category.isGap = true) (admitted : Bool)
    {text : List Char} (hpos : 0 < category.measure text) :
    first? admitted text = some ⟨category, category.measure text, hpos⟩ := by
  cases category with
  | blank => exact first?_of_blank hpos
  | lineComment => exact first?_of_lineComment hpos
  | blockComment =>
      refine first?_of_earlier .blockComment (.inl (by decide)) hpos fun missed hmissed => ?_
      obtain ⟨rest, tail, rfl, -, -⟩ := blockCommentLength_pos hpos
      cases missed with
      | blank | lineComment => rfl
      | _ => exact absurd hmissed (by decide)
  | _ => cases hgap

variable {text : List Char} {lexeme : Lexeme} (hfirst : first? false text = some lexeme)

include hfirst

theorem first?_true_of_gap (hgap : lexeme.category.isGap = true) :
    first? true text = some lexeme := by
  have hmeasure := measure_of_first? hfirst
  have hpos : 0 < lexeme.category.measure text := hmeasure ▸ lexeme.length_pos
  exact ((first?_of_gap hgap true hpos).trans (first?_of_gap hgap false hpos).symm).trans hfirst

/-- Before anything else a regular expression is found as soon as it is
admitted. -/
theorem first?_true_of_regex (hgap : lexeme.category.isGap = false)
    (hpos : 0 < LexemeClass.regex.measure text) :
    first? true text = some ⟨.regex, LexemeClass.regex.measure text, hpos⟩ := by
  refine first?_of_earlier .regex (.inr rfl) hpos fun missed hmissed => ?_
  have hmissed : missed.isGap = true := by
    cases missed with
    | blank | lineComment | blockComment => rfl
    | _ => exact absurd hmissed (by decide)
  refine Nat.eq_zero_of_not_pos fun hfound => ?_
  rw [first?_of_gap hmissed false hfound] at hfirst
  cases hfirst
  rw [hmissed] at hgap
  cases hgap

theorem category_ne_regex : lexeme.category ≠ .regex := by
  obtain ⟨category, -, hcategory⟩ := List.exists_of_findSome?_eq_some hfirst
  split at hcategory
  · cases hcategory
  · rename_i hallowed
    obtain ⟨rfl, -⟩ := ofClass?_eq_some_iff.mp hcategory
    exact fun hregex => hallowed ⟨hregex, rfl⟩

omit hfirst in
/-- Admitting regular expressions makes no difference where there is none. -/
theorem first?_of_no_regex (hnone : LexemeClass.regex.measure text = 0) :
    first? true text = first? false text := by
  unfold first?
  congr 1
  funext category
  by_cases hregex : category = .regex
  · subst hregex
    simpa using ofClass?_eq_none_iff.mpr hnone
  · simp [hregex]

end Lexeme

/-! ## Behind the name -/

theorem exists_of_map_eq_ok {tokens : List Token} {step : List Token → List Token}
    {result : Except Diagnostic (List Token)} (hresult : result.map step = .ok tokens) :
    ∃ others, result = .ok others ∧ tokens = step others := by
  cases result with
  | error diagnostic => cases hresult
  | ok others =>
      cases hresult
      exact ⟨others, rfl, rfl⟩

namespace Segment

theorem isComment_token (segment : Segment) (reader : Reader) :
    (reader.token segment.kind segment.value segment.text).isComment =
      segment.lexeme.category.isGap := by
  obtain ⟨text, lexeme, kind, -, hkind⟩ := segment
  unfold Lexeme.kind? at hkind
  cases hcategory : lexeme.category
  all_goals
    rw [hcategory] at hkind
    cases hkind
  case word =>
    rcases Token.Kind.ofWord_cases (String.ofList text) with hcase | hcase | hcase
    all_goals simp [Token.isComment, Reader.token, hcase, LexemeClass.isGap]
  all_goals simp [Token.isComment, Reader.token, LexemeClass.isGap]

theorem admitsRegex_of_gap {segment : Segment} (hgap : segment.lexeme.category.isGap = true)
    (admitted : Bool) : segment.admitsRegex admitted = admitted :=
  if_pos ((segment.isComment_token ⟨"", 0, false⟩).trans hgap)

theorem admitsRegex_of_token {segment : Segment} (hgap : segment.lexeme.category.isGap = false)
    (admitted other : Bool) : segment.admitsRegex admitted = segment.admitsRegex other := by
  have hcomment : (segment.token .null false).isComment = false :=
    (segment.isComment_token ⟨"", 0, false⟩).trans hgap
  simp [admitsRegex, hcomment]

end Segment

/-- A text that starts with a regular expression is read with its token first. -/
theorem exists_regex_of_scan {reader : Reader} {previous : Option Token} {text : List Char}
    {lexeme : Lexeme} {tokens : List Token}
    (hfirst : Lexeme.first? (previous.all Token.admitsRegex) text = some lexeme)
    (hcategory : lexeme.category = .regex) (hscan : scan reader previous text = .ok tokens) :
    ∃ token others, token.kind = .regex ∧ tokens = token :: others := by
  have hcut := List.take_append_drop lexeme.length text
  have hlength : lexeme.length = (text.take lexeme.length).length :=
    (List.length_take_of_le (Lexeme.length_le_of_first? hfirst)).symm
  have hkind : lexeme.kind? (text.take lexeme.length) = some .regex := by
    rw [Lexeme.kind?, hcategory]
  rw [← hcut] at hfirst hscan
  rw [scan_append hfirst hlength, hkind] at hscan
  obtain ⟨others, -, rfl⟩ := exists_of_map_eq_ok hscan
  exact ⟨_, others, rfl, rfl⟩

namespace Segmentation

/-- What a text goes on with behind its first comments. -/
theorem significant_next {blanks : Blanks} {segment : Segment} {rest : Segmentation}
    (hfirst : Lexeme.first? false (segment.text ++ rest.written) = some segment.lexeme) :
    Lexeme.significant (next blanks segment rest).written =
      if segment.lexeme.category.isGap then Lexeme.significant rest.written
      else segment.text ++ rest.written := by
  rw [written, Lexeme.significant_blanks blanks
    (Lexeme.not_isBlank_head hfirst segment.category_ne_blank)]
  cases hgap : segment.lexeme.category.isGap with
  | true => exact Lexeme.significant_of_gap hfirst segment.length_eq hgap
  | false => exact Lexeme.significant_of_token hfirst hgap

/-- Where no regular expression could stand behind the comments, the tokens are
the same whether one is admitted or not. -/
theorem scanned_true {segmentation : Segmentation} (hscanned : segmentation.Scanned false)
    (hnone : Lexeme.regexLength (Lexeme.significant segmentation.written) = 0) :
    segmentation.Scanned true := by
  induction segmentation with
  | stop blanks => trivial
  | next blanks segment rest ih =>
      obtain ⟨hfirst, hrest⟩ := hscanned
      rw [significant_next hfirst] at hnone
      cases hgap : segment.lexeme.category.isGap with
      | true =>
          rw [hgap, if_pos rfl] at hnone
          rw [Segment.admitsRegex_of_gap hgap] at hrest
          refine ⟨Lexeme.first?_true_of_gap hfirst hgap, ?_⟩
          rw [Segment.admitsRegex_of_gap hgap]
          exact ih hrest hnone
      | false =>
          rw [hgap, if_neg Bool.false_ne_true] at hnone
          refine ⟨(Lexeme.first?_of_no_regex hnone).trans hfirst, ?_⟩
          rwa [Segment.admitsRegex_of_token hgap true false]

/-- Where a regular expression could stand, admitting it puts one where another
token was. -/
theorem exists_place_ne {segmentation : Segmentation} (hscanned : segmentation.Scanned false)
    (hregex : 0 < Lexeme.regexLength (Lexeme.significant segmentation.written))
    {previous : Option Token} (hprevious : previous.all Token.admitsRegex = true)
    {reader other : Reader} {others : List Token}
    (hothers : scan other previous segmentation.written = .ok others) :
    ∃ place : Nat, (others.map Token.face)[place]? ≠
      ((segmentation.tokens reader).map Token.face)[place]? := by
  induction segmentation generalizing previous reader other others with
  | stop blanks =>
      have hnothing : ∀ character ∈ ([] : List Char).head?, isBlank character = false :=
        fun _ hnone => nomatch hnone
      have hblanks := Lexeme.significant_blanks blanks hnothing
      rw [List.append_nil, Lexeme.significant_nil] at hblanks
      rw [written, hblanks] at hregex
      cases hregex
  | next blanks segment rest ih =>
      obtain ⟨hfirst, hrest⟩ := hscanned
      rw [significant_next hfirst] at hregex
      have hhead := Lexeme.not_isBlank_head hfirst segment.category_ne_blank
      rw [written, scan_blanks other previous blanks hhead] at hothers
      cases hgap : segment.lexeme.category.isGap with
      | true =>
          rw [hgap, if_pos rfl] at hregex
          rw [Segment.admitsRegex_of_gap hgap] at hrest
          have hsame : Lexeme.first? (previous.all Token.admitsRegex)
              (segment.text ++ rest.written) = some segment.lexeme := by
            rw [hprevious]
            exact Lexeme.first?_true_of_gap hfirst hgap
          have hlater : (((other.skip blanks.val).token segment.kind segment.value
              segment.text).significant previous).all Token.admitsRegex = true := by
            rw [Token.all_significant, segment.isComment_token, hgap, if_pos rfl]
            exact hprevious
          rw [scan_append hsame segment.length_eq, segment.kind_eq] at hothers
          obtain ⟨behind, hbehind, rfl⟩ := exists_of_map_eq_ok hothers
          obtain ⟨place, hplace⟩ := ih hrest hregex hlater hbehind
          exact ⟨place + 1, hplace⟩
      | false =>
          rw [hgap, if_neg Bool.false_ne_true] at hregex
          have hother : Lexeme.first? (previous.all Token.admitsRegex)
              (segment.text ++ rest.written) = some ⟨.regex, _, hregex⟩ := by
            rw [hprevious]
            exact Lexeme.first?_true_of_regex hfirst hgap hregex
          obtain ⟨token, behind, htoken, rfl⟩ := exists_regex_of_scan hother rfl hothers
          refine ⟨0, fun hsame => ?_⟩
          have hkind : segment.kind = .regex :=
            (congrArg Prod.fst (Option.some.inj hsame)).symm.trans htoken
          exact Lexeme.category_ne_regex hfirst (segment.category_of_kind.1 hkind)

/-- Kinds, values and line breaks do not depend on where the reader stands. -/
theorem map_face_tokens (segmentation : Segmentation) {reader other : Reader}
    (hpending : other.newlinePending = reader.newlinePending) :
    (segmentation.tokens other).map Token.face = (segmentation.tokens reader).map Token.face := by
  induction segmentation generalizing reader other with
  | stop blanks =>
      simp [tokens, Token.face, Reader.endToken, Token.endOfInput, Reader.skip, hpending]
  | next blanks segment rest ih =>
      have hrest :
          (rest.tokens ((other.skip blanks.val).pass segment.kind segment.text)).map Token.face =
            (rest.tokens ((reader.skip blanks.val).pass segment.kind segment.text)).map
              Token.face := ih rfl
      rw [tokens, tokens, List.map_cons, List.map_cons, hrest]
      congr 1
      simp [Token.face, Reader.token, Reader.skip, hpending]

/-- A text is read as the segments that stand there without regular expressions
if none is admitted or none could stand where the first token counts, and only
then. -/
theorem agrees_iff {segmentation : Segmentation} (hscanned : segmentation.Scanned false)
    {reader other : Reader} (hpending : other.newlinePending = reader.newlinePending)
    (previous : Option Token) :
    (∃ others, scan other previous segmentation.written = .ok others ∧
      ∀ place : Nat, (others.map Token.face)[place]? =
        ((segmentation.tokens reader).map Token.face)[place]?) ↔
      previous.all Token.admitsRegex = false ∨
        Lexeme.regexLength (Lexeme.significant segmentation.written) = 0 := by
  constructor
  · rintro ⟨others, hothers, hagree⟩
    cases hadmitted : previous.all Token.admitsRegex with
    | false => exact .inl rfl
    | true =>
        refine .inr (Nat.eq_zero_of_not_pos fun hregex => ?_)
        obtain ⟨place, hplace⟩ := exists_place_ne hscanned hregex hadmitted hothers
        exact hplace (hagree place)
  · intro hcase
    have hsame : segmentation.Scanned (previous.all Token.admitsRegex) := by
      cases hadmitted : previous.all Token.admitsRegex with
      | false => exact hscanned
      | true =>
          rw [hadmitted] at hcase
          exact scanned_true hscanned (hcase.resolve_left nofun)
    refine ⟨segmentation.tokens other, scan_written hsame, fun place => ?_⟩
    rw [segmentation.map_face_tokens hpending]

end Segmentation

/-! ## Up to the name -/

/-- The scanner's step over a dot that starts no number. -/
theorem scan_dot (reader : Reader) (previous : Option Token) {rest : List Char}
    (hrest : ∀ character ∈ rest.head?, character.isDigit = false) :
    scan reader previous ('.' :: rest) =
      (scan (reader.pass .punctuation ['.'])
        (some (reader.token .punctuation "." ['.'])) rest).map
          (reader.token .punctuation "." ['.'] :: ·) := by
  have hfirst : Lexeme.first? (previous.all Token.admitsRegex) (['.'] ++ rest) =
      some ⟨.punctuation, 1, Nat.one_pos⟩ := Lexeme.first?_dot _ hrest
  exact scan_append hfirst rfl

/-- The reader comes to the name of a member behind a dot with the tokens
`front`, and whichever word stands in place of the name. -/
structure NamesMember (reader : Reader) (previous : Option Token) (dot name : Token)
    (before : List Char) (rest : Segmentation) (front : List Token) : Prop where
  dotted : Lexeme.EndsInDot before
  word : Lexeme.IsWord name.value.toList
  ends : ∀ character ∈ rest.written.head?, Lexeme.isWordPart character = false
  scanned : rest.Scanned false
  scan_eq : ∀ {word}, Lexeme.IsWord word →
    scan reader previous (before ++ (word ++ rest.written)) =
      (scan ⟨reader.file, reader.offset + byteLength before, name.newlineBefore⟩ (some dot)
        (word ++ rest.written)).map (front ++ ·)

theorem Lexeme.IsWord.not_isBlank_head {word : List Char} (hword : IsWord word)
    (rest : List Char) : ∀ character ∈ (word ++ rest).head?, isBlank character = false := by
  obtain ⟨first, others, rfl⟩ := List.exists_cons_of_ne_nil hword.ne_nil
  rintro _ ⟨⟩
  exact isBlank_of_isWordPart (hword.parts first List.mem_cons_self)

/-- The reader at a dot with an identifier behind it. -/
theorem NamesMember.here {reader : Reader} {previous : Option Token} {blanks gap : Blanks}
    {point segment : Segment} {rest : Segmentation} {dot name : Token} {admitted : Bool}
    (hscanned : (Segmentation.next blanks point (.next gap segment rest)).Scanned admitted)
    (hdot : dot = (reader.skip blanks.val).token point.kind point.value point.text)
    (hpoint : dot.isPunctuation "." = true)
    (hname : name = (((reader.skip blanks.val).pass point.kind point.text).skip gap.val).token
      segment.kind segment.value segment.text)
    (hkind : name.kind = .identifier) :
    (blanks.val ++ (point.text ++ (gap.val ++ (segment.text ++ rest.written))) =
      (blanks.val ++ '.' :: gap.val) ++ (name.value.toList ++ rest.written)) ∧
    NamesMember reader previous dot name (blanks.val ++ '.' :: gap.val) rest [dot] := by
  obtain ⟨hpunctuation, hvalue⟩ := (dot.is_iff _ _).mp hpoint
  obtain ⟨-, hfirst, hrest⟩ := hscanned
  have hpointKind : point.kind = .punctuation := by rwa [hdot] at hpunctuation
  have hpointValue : point.value = "." := by rwa [hdot] at hvalue
  have hmark : point.lexeme.category = .punctuation := point.category_of_kind.2.1 hpointKind
  have hpointText : point.text = ['.'] := by
    rw [← Segment.value_of_category (by simp [hmark]), hpointValue]
    rfl
  have hsegmentKind : segment.kind = .identifier := by rwa [hname] at hkind
  have hcategory : segment.lexeme.category = .word := segment.category_of_kind.2.2.1 hsegmentKind
  have hnameText : name.value.toList = segment.text := by
    rw [hname]
    exact Segment.value_of_category (by simp [hcategory])
  have hown : Lexeme.wordLength (segment.text ++ rest.written) = segment.text.length := by
    have hmeasure := segment.measure_eq hfirst
    rwa [hcategory] at hmeasure
  obtain ⟨hword, hends⟩ := Lexeme.isWord_of_wordLength segment.length_pos hown
  refine ⟨by simp [hpointText, hnameText], ⟨blanks.val, gap.val, rfl, gap.property⟩,
    hnameText ▸ hword, hends, ?_, ?_⟩
  · have hbarred : segment.admitsRegex (point.admitsRegex admitted) = false := by
      simp [Segment.admitsRegex, Segment.token, Token.isComment, Token.admitsRegex, hsegmentKind]
    rwa [hbarred] at hrest
  · intro word hword
    have hnoDigit := Lexeme.not_isDigit_head gap.property hword rest.written
    have hhead : ∀ character ∈ ('.' :: (gap.val ++ (word ++ rest.written))).head?,
        isBlank character = false := by
      rintro _ ⟨⟩
      rfl
    have hplace : ((reader.skip blanks.val).pass .punctuation ['.']).skip gap.val =
        ⟨reader.file, reader.offset + byteLength (blanks.val ++ '.' :: gap.val),
          name.newlineBefore⟩ := by
      have hoffset : reader.offset + byteLength blanks.val + byteLength ['.'] + byteLength gap.val =
          reader.offset + byteLength (blanks.val ++ '.' :: gap.val) := by
        simp only [byteLength_append, byteLength_cons, byteLength_nil]
        omega
      rw [hname, hpointKind, hpointText, ← hoffset]
      rfl
    rw [hpointKind, hpointValue, hpointText] at hdot
    rw [List.append_assoc, List.cons_append, scan_blanks reader previous blanks hhead,
      scan_dot _ _ hnoDigit, scan_blanks _ _ gap (hword.not_isBlank_head rest.written), hplace,
      hdot]
    rfl

theorem map_cons_map_append (result : Except Diagnostic (List Token)) (token : Token)
    (front : List Token) :
    (result.map (front ++ ·)).map (token :: ·) = result.map (token :: front ++ ·) := by
  cases result <;> rfl

/-- The reader before a lexeme with the name of a member somewhere behind it. -/
theorem NamesMember.behind {reader : Reader} {previous : Option Token} {blanks : Blanks}
    {segment : Segment} {dot name : Token} {before : List Char} {rest : Segmentation}
    {front : List Token}
    (hfirst : Lexeme.first? (previous.all Token.admitsRegex)
      (segment.text ++ (before ++ (name.value.toList ++ rest.written))) = some segment.lexeme)
    (hmember : NamesMember ((reader.skip blanks.val).pass segment.kind segment.text)
      (((reader.skip blanks.val).token segment.kind segment.value segment.text).significant
        previous)
      dot name before rest front) :
    NamesMember reader previous dot name (blanks.val ++ (segment.text ++ before)) rest
      ((reader.skip blanks.val).token segment.kind segment.value segment.text :: front) where
  dotted := (hmember.dotted.append_left _).append_left _
  word := hmember.word
  ends := hmember.ends
  scanned := hmember.scanned
  scan_eq {word} hword := by
    have hfirst := Lexeme.first?_respelled hfirst segment.length_eq segment.category_ne_blank
      hmember.dotted hmember.word hword
    have hhead := Lexeme.not_isBlank_head hfirst segment.category_ne_blank
    rw [List.append_assoc, List.append_assoc, scan_blanks reader previous blanks hhead,
      scan_append hfirst segment.length_eq, segment.kind_eq]
    have hoffset : ((reader.skip blanks.val).pass segment.kind segment.text).offset +
        byteLength before =
          reader.offset + byteLength (blanks.val ++ (segment.text ++ before)) := by
      simp [Reader.skip, Reader.pass, Nat.add_assoc]
    have hscan := hmember.scan_eq hword
    rw [hoffset] at hscan
    exact (congrArg (Except.map _) hscan).trans (map_cons_map_append ..)

/-- Every identifier behind a dot is the name of a member. -/
theorem Segmentation.exists_member {segmentation : Segmentation} {reader : Reader}
    {previous : Option Token} (hscanned : segmentation.Scanned (previous.all Token.admitsRegex))
    {index : Nat} {dot name : Token} (hdot : (segmentation.tokens reader)[index]? = some dot)
    (hpoint : dot.isPunctuation "." = true)
    (hname : (segmentation.tokens reader)[index + 1]? = some name)
    (hkind : name.kind = .identifier) :
    ∃ before rest front, segmentation.written = before ++ (name.value.toList ++ rest.written) ∧
      front.length = index + 1 ∧ NamesMember reader previous dot name before rest front := by
  induction segmentation generalizing reader previous index with
  | stop blanks => cases hname
  | next blanks segment rest ih =>
      cases index with
      | zero =>
          cases rest with
          | stop gap =>
              cases hname
              cases hkind
          | next gap member rest =>
              obtain ⟨hwritten, hmember⟩ := NamesMember.here hscanned
                (Option.some.inj hdot).symm hpoint (Option.some.inj hname).symm hkind
              exact ⟨_, rest, [dot], hwritten, rfl, hmember⟩
      | succ index =>
          obtain ⟨hfirst, hrest⟩ := hscanned
          have hlater : rest.Scanned ((((reader.skip blanks.val).token segment.kind segment.value
              segment.text).significant previous).all Token.admitsRegex) := by
            rw [Token.all_significant]
            exact hrest
          obtain ⟨before, after, front, hwritten, hlength, hmember⟩ := ih hlater hdot hname
          rw [hwritten] at hfirst
          refine ⟨_, after, _, ?_, ?_, hmember.behind hfirst⟩
          · rw [written, hwritten]
            simp
          · rw [List.length_cons, hlength]

/-- The two lists show the same kinds, values and line breaks at all places but
one. -/
def Token.AgreeBut (index : Nat) (others tokens : List Token) : Prop :=
  ∀ place, place ≠ index → (others.map face)[place]? = (tokens.map face)[place]?

theorem Token.agreeBut_append_cons_iff {front tokens others : List Token} {token other : Token} :
    AgreeBut front.length (front ++ other :: others) (front ++ token :: tokens) ↔
      ∀ place : Nat, (others.map face)[place]? = (tokens.map face)[place]? := by
  simp only [AgreeBut, List.map_append, List.map_cons]
  constructor
  · intro hagree place
    have hbehind := hagree (front.length + (place + 1)) (by omega)
    have hlength : (front.map face).length ≤ front.length + (place + 1) := by
      rw [List.length_map]
      omega
    simpa [List.getElem?_append_right hlength] using hbehind
  · intro hagree place hplace
    rcases Nat.lt_or_gt_of_ne hplace with hbefore | hbehind
    · rw [List.getElem?_append_left (by simpa using hbefore),
        List.getElem?_append_left (by simpa using hbefore)]
    · obtain ⟨behind, rfl⟩ : ∃ behind, place = front.length + (behind + 1) :=
        ⟨place - front.length - 1, by omega⟩
      have hlength : (front.map face).length ≤ front.length + (behind + 1) := by
        rw [List.length_map]
        omega
      simpa [List.getElem?_append_right hlength] using hagree behind

theorem Lexeme.isWord_of_reserved {word : String}
    (hword : word ∈ Token.keywords ++ Token.wordOperators) : IsWord word.toList := by
  have hall : ((Token.keywords ++ Token.wordOperators).all fun word =>
      word.toList.head?.any isWordStart && word.toList.all isWordPart) = true := by decide
  obtain ⟨hhead, hparts⟩ := (Bool.and_eq_true ..).mp (List.all_eq_true.mp hall word hword)
  obtain ⟨first, hfirst, hstart⟩ := (Option.any_eq_true ..).mp hhead
  refine ⟨List.ne_nil_of_mem (List.mem_of_head? hfirst), ?_, List.all_eq_true.mp hparts⟩
  intro character hcharacter
  cases hfirst.symm.trans hcharacter
  exact hstart

/-- A reserved word admits a regular expression behind it unless it stands for a
value. -/
theorem Reader.admitsRegex_of_reserved {word : String}
    (hword : word ∈ Token.keywords ++ Token.wordOperators) (reader : Reader) (text : List Char) :
    (reader.token (.ofWord word) word text).admitsRegex = !decide (word ∈ Token.valueKeywords) := by
  have hall : ∀ word ∈ Token.keywords ++ Token.wordOperators,
      Token.admitsRegex ⟨.ofWord word, word, .null, false⟩ =
        !decide (word ∈ Token.valueKeywords) := by decide
  exact hall word hword

theorem Reader.isComment_of_word (reader : Reader) (word value : String) (text : List Char) :
    (reader.token (.ofWord word) value text).isComment = false := by
  rcases Token.Kind.ofWord_cases word with hcase | hcase | hcase
  all_goals
    rw [hcase]
    rfl

/-- No line break is pending behind a word. -/
theorem Reader.newlinePending_pass_word (reader : Reader) (word : String) (text : List Char) :
    (reader.pass (.ofWord word) text).newlinePending = false := by
  rcases Token.Kind.ofWord_cases word with hcase | hcase | hcase
  all_goals
    rw [hcase]
    rfl

/-- The scanner's step over a word. -/
theorem scan_word (reader : Reader) (previous : Option Token) {word rest : List Char}
    (hword : Lexeme.IsWord word)
    (hrest : ∀ character ∈ rest.head?, Lexeme.isWordPart character = false) :
    scan reader previous (word ++ rest) =
      (scan (reader.pass (.ofWord (String.ofList word)) word)
        (some (reader.token (.ofWord (String.ofList word)) (String.ofList word) word)) rest).map
          (reader.token (.ofWord (String.ofList word)) (String.ofList word) word :: ·) := by
  obtain ⟨lexeme, hfirst, hcategory, hlength⟩ :=
    Lexeme.first?_word hword hrest (previous.all Token.admitsRegex)
  have hkind : lexeme.kind? word = some (.ofWord (String.ofList word)) := by
    rw [Lexeme.kind?, hcategory]
  have hvalue : lexeme.value word = String.ofList word := by
    rw [Lexeme.value, hcategory]
  rw [scan_append hfirst hlength, hkind, hvalue]
  simp [Token.significant, Reader.isComment_of_word]

namespace NamesMember

variable {reader : Reader} {previous : Option Token} {dot name : Token} {before : List Char}
  {rest : Segmentation} {front : List Token}
  (hmember : NamesMember reader previous dot name before rest front)

include hmember

/-- From the name on the text is read as the name and the segments behind it. -/
theorem tokens_eq {tokens : List Token} (hkind : name.kind = .identifier)
    (htokens : scan reader previous (before ++ (name.value.toList ++ rest.written)) = .ok tokens)
    (hname : tokens[front.length]? = some name) :
    ∃ later : Reader, later.newlinePending = false ∧
      scan ⟨reader.file, reader.offset + byteLength before, name.newlineBefore⟩ (some dot)
        (name.value.toList ++ rest.written) = .ok (name :: rest.tokens later) ∧
      tokens = front ++ name :: rest.tokens later := by
  rw [hmember.scan_eq hmember.word] at htokens
  generalize (⟨reader.file, reader.offset + byteLength before, name.newlineBefore⟩ : Reader) = here
    at htokens ⊢
  obtain ⟨tail, htail, rfl⟩ := exists_of_map_eq_ok htokens
  have hstep := htail
  rw [scan_word here _ hmember.word hmember.ends, String.ofList_toList] at hstep
  obtain ⟨behind, hbehind, rfl⟩ := exists_of_map_eq_ok hstep
  have hidentifier : here.token (.ofWord name.value) name.value name.value.toList = name := by
    simpa using hname
  rw [hidentifier] at hbehind htail ⊢
  have hbarred : (some name).all Token.admitsRegex = false := by
    simp [Token.admitsRegex, hkind]
  cases (scan_written (hbarred ▸ hmember.scanned)).symm.trans hbehind
  exact ⟨_, here.newlinePending_pass_word .., htail, rfl⟩

/-- With a reserved word in place of the name the other tokens are the same
exactly if the word stands for a value or no regular expression could stand
behind it. -/
theorem agreeBut_iff {word : String} (hreserved : word ∈ Token.keywords ++ Token.wordOperators)
    {later : Reader} (hlater : later.newlinePending = false) :
    (∃ others, scan reader previous (before ++ (word.toList ++ rest.written)) = .ok others ∧
      Token.AgreeBut front.length others (front ++ name :: rest.tokens later)) ↔
      word ∈ Token.valueKeywords ∨
        Lexeme.regexLength (Lexeme.significant rest.written) = 0 := by
  have hword := Lexeme.isWord_of_reserved hreserved
  rw [hmember.scan_eq hword]
  generalize (⟨reader.file, reader.offset + byteLength before, name.newlineBefore⟩ : Reader) = here
  rw [scan_word here _ hword hmember.ends, String.ofList_toList]
  have hpending : (here.pass (.ofWord word) word.toList).newlinePending = later.newlinePending :=
    (here.newlinePending_pass_word ..).trans hlater.symm
  have hadmits : (some (here.token (.ofWord word) word word.toList)).all Token.admitsRegex =
      false ↔ word ∈ Token.valueKeywords := by
    simp [Reader.admitsRegex_of_reserved hreserved]
  rw [← hadmits, ← Segmentation.agrees_iff hmember.scanned hpending]
  constructor
  · rintro ⟨others, hothers, hagree⟩
    obtain ⟨tail, htail, rfl⟩ := exists_of_map_eq_ok hothers
    obtain ⟨behind, hbehind, rfl⟩ := exists_of_map_eq_ok htail
    exact ⟨behind, hbehind, Token.agreeBut_append_cons_iff.mp hagree⟩
  · rintro ⟨behind, hbehind, hagree⟩
    refine ⟨front ++ here.token (.ofWord word) word word.toList :: behind, ?_,
      Token.agreeBut_append_cons_iff.mpr hagree⟩
    rw [hbehind]
    rfl

end NamesMember

theorem exists_tokenize_quotients :
    ∃ tokens, tokenize "x.y / 2 / z;" "a" = .ok tokens ∧ tokens.map Token.face =
      [(.identifier, "x", false), (.punctuation, ".", false), (.identifier, "y", false),
        (.operator, "/", false), (.number, "2", false), (.operator, "/", false),
        (.identifier, "z", false), (.punctuation, ";", false), (.eof, "EOF", false)] :=
  exists_tokenize_eq (by decide +kernel)

/-- Behind a dot an identifier may give way to a reserved word: the new source
has the same other tokens exactly if the word stands for a value, or the text
behind it does not go on, comments aside, with what would be a regular
expression if one were admitted. -/
theorem tokenize_respelled_iff {source file : String} {tokens : List Token}
    (htokens : tokenize source file = .ok tokens) {index : Nat} {dot name : Token}
    (hdot : tokens[index]? = some dot) (hpoint : dot.isPunctuation "." = true)
    (hname : tokens[index + 1]? = some name) (hkind : name.kind = .identifier) :
    ∃ before after, source.toList = before ++ (name.value.toList ++ after) ∧
      scan ⟨file, byteLength before, name.newlineBefore⟩ (some dot) (name.value.toList ++ after) =
        .ok (tokens.drop (index + 1)) ∧
      ∀ word ∈ Token.keywords ++ Token.wordOperators,
        (∃ others, tokenize (String.ofList (before ++ (word.toList ++ after))) file = .ok others ∧
          Token.AgreeBut (index + 1) others tokens) ↔
        word ∈ Token.valueKeywords ∨ Lexeme.regexLength (Lexeme.significant after) = 0 := by
  obtain ⟨segmentation, hwritten, hscanned, hsegments⟩ := exists_segmentation htokens
  rw [hsegments] at hdot hname
  obtain ⟨before, rest, front, hcut, hlength, hmember⟩ :=
    segmentation.exists_member hscanned hdot hpoint hname hkind
  rw [← hsegments, ← hlength] at hname
  have hsource := hwritten.trans hcut
  rw [tokenize, hsource] at htokens
  obtain ⟨later, hlater, hscan, rfl⟩ := hmember.tokens_eq hkind htokens hname
  rw [← hlength]
  refine ⟨before, rest.written, hsource, ?_, fun word hreserved => ?_⟩
  · rw [List.drop_left, ← hscan, Nat.zero_add]
  · rw [tokenize, String.toList_ofList]
    exact hmember.agreeBut_iff hreserved hlater

/-- Behind the `y` stands what would be a regular expression if one were
admitted. -/
theorem tokenize_respelled_iff_quotients :
    let source := "x.y / 2 / z;"
    ∃ tokens before after, tokenize source "a" = .ok tokens ∧
      source.toList = before ++ ("y".toList ++ after) ∧
        ∀ word ∈ Token.keywords ++ Token.wordOperators,
          (∃ others, tokenize (String.ofList (before ++ (word.toList ++ after))) "a" = .ok others ∧
            Token.AgreeBut 2 others tokens) ↔
          word ∈ Token.valueKeywords ∨ Lexeme.regexLength (Lexeme.significant after) = 0 := by
  intro source
  obtain ⟨tokens, htokens, hfaces⟩ := exists_tokenize_quotients
  have hface {place : Nat} {kind : Token.Kind} {value : String}
      (hplace : (tokens.map Token.face)[place]? = some (kind, value, false)) :
      ∃ token, tokens[place]? = some token ∧ token.kind = kind ∧ token.value = value := by
    rw [List.getElem?_map] at hplace
    obtain ⟨token, htoken, hvalues⟩ := Option.map_eq_some_iff.mp hplace
    obtain ⟨hkind, hrest⟩ := Prod.mk.inj hvalues
    exact ⟨token, htoken, hkind, (Prod.mk.inj hrest).1⟩
  obtain ⟨dot, hdot, hpoint⟩ := hface (congrArg (·[1]?) hfaces)
  obtain ⟨name, hname, hkind, hvalue⟩ := hface (congrArg (·[2]?) hfaces)
  obtain ⟨before, after, hsource, -, hwords⟩ :=
    tokenize_respelled_iff htokens hdot ((dot.is_iff _ _).mpr hpoint) hname hkind
  exact ⟨tokens, before, after, htokens, hvalue ▸ hsource, hwords⟩

/-- With `default` for `y` the two slashes enclose a regular expression, though
the member `x.default` can only be divided. -/
theorem respelled_quotients_enclose :
    ∃ tokens others, tokenize "x.y / 2 / z;" "a" = .ok tokens ∧
      "default" ∈ Token.keywords ∧ tokenize "x.default / 2 / z;" "a" = .ok others ∧
        (tokens.map Token.face)[1]? = some (.punctuation, ".", false) ∧
        (tokens.map Token.face)[2]? = some (.identifier, "y", false) ∧
        ¬ Token.AgreeBut 2 others tokens := by
  have henclosed : (tokenize "x.default / 2 / z;" "a").toOption.map (List.map Token.face) =
      some [(.identifier, "x", false), (.punctuation, ".", false), (.keyword, "default", false),
        (.regex, "/ 2 /", false), (.identifier, "z", false), (.punctuation, ";", false),
        (.eof, "EOF", false)] := by
    decide +kernel
  obtain ⟨tokens, htokens, hfaces⟩ := exists_tokenize_quotients
  obtain ⟨others, hothers, hotherFaces⟩ := exists_tokenize_eq henclosed
  refine ⟨tokens, others, htokens, by decide, hothers, congrArg (·[1]?) hfaces,
    congrArg (·[2]?) hfaces, fun hagree => ?_⟩
  have hslash := hagree 3 (by decide)
  rw [hfaces, hotherFaces] at hslash
  cases hslash

end ScriptSyntax

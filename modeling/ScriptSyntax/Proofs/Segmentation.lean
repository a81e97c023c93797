import ScriptSyntax.Proofs.Lexeme.Extent
import ScriptSyntax.Token.Scan

/-!
# Sources cut into tokens and blanks

A segmentation is a text cut into the texts of tokens and the blanks around
them.  It is the scanner's if each token's text is the lexeme at the head of
what is left.  Scanning succeeds exactly on the texts that have a segmentation
of the scanner's, and its tokens are those of the segmentation.
-/

namespace ScriptSyntax

open Text

/-- What stands between two tokens. -/
abbrev Blanks :=
  { text : List Char // ∀ character ∈ text, isBlank character = true }

/-- Blanks in a row. -/
def Blanks.append (first second : Blanks) : Blanks :=
  ⟨first.val ++ second.val, fun character hcharacter =>
    (List.mem_append.mp hcharacter).elim (first.property character) (second.property character)⟩

@[simp]
theorem Reader.skip_nil (reader : Reader) : reader.skip [] = reader := by
  simp [skip, hasLineBreak]

theorem Reader.skip_append (reader : Reader) (first second : List Char) :
    reader.skip (first ++ second) = (reader.skip first).skip second := by
  simp [skip, Nat.add_assoc, Bool.or_assoc]

/-- The text of a token, with the lexeme found there and the kind it gives. -/
structure Segment where
  text : List Char
  lexeme : Lexeme
  kind : Token.Kind
  length_eq : lexeme.length = text.length
  kind_eq : lexeme.kind? text = some kind

namespace Segment

def value (segment : Segment) : String :=
  segment.lexeme.value segment.text

/-- The token of the segment, wherever it stands. -/
def token (segment : Segment) (span : Span) (newlineBefore : Bool) : Token :=
  { kind := segment.kind, value := segment.value, span, newlineBefore }

/-- Whether a regular expression may stand behind the segment.  Comments leave
that as it was. -/
def admitsRegex (segment : Segment) (admitted : Bool) : Bool :=
  if (segment.token .null false).isComment then admitted
  else (segment.token .null false).admitsRegex

theorem category_ne_blank (segment : Segment) : segment.lexeme.category ≠ .blank := by
  intro hblank
  have hkind := segment.kind_eq
  unfold Lexeme.kind? at hkind
  rw [hblank] at hkind
  cases hkind

theorem length_pos (segment : Segment) : 0 < segment.text.length :=
  segment.length_eq ▸ segment.lexeme.length_pos

theorem text_ne_nil (segment : Segment) : segment.text ≠ [] :=
  List.ne_nil_of_length_pos segment.length_pos

/-- The text of a segment is as long as the lexeme found there. -/
theorem measure_eq {segment : Segment} {admitted : Bool} {rest : List Char}
    (hfirst : Lexeme.first? admitted (segment.text ++ rest) = some segment.lexeme) :
    segment.lexeme.category.measure (segment.text ++ rest) = segment.text.length :=
  (Lexeme.measure_of_first? hfirst).trans segment.length_eq

end Segment

/-- A text cut into blanks and the texts of tokens. -/
inductive Segmentation
  | stop (blanks : Blanks)
  | next (blanks : Blanks) (segment : Segment) (rest : Segmentation)

namespace Segmentation

/-- The text that is cut. -/
def written : Segmentation → List Char
  | stop blanks => blanks
  | next blanks segment rest => blanks ++ (segment.text ++ rest.written)

/-- The tokens a reader makes of the segments. -/
def tokens (reader : Reader) : Segmentation → List Token
  | stop blanks => [(reader.skip blanks).endToken]
  | next blanks segment rest =>
      (reader.skip blanks).token segment.kind segment.value segment.text ::
        rest.tokens ((reader.skip blanks).pass segment.kind segment.text)

/-- Each segment is the lexeme at the head of what is left. -/
def Scanned (admitted : Bool) : Segmentation → Prop
  | stop _ => True
  | next _ segment rest =>
      Lexeme.first? admitted (segment.text ++ rest.written) = some segment.lexeme ∧
        rest.Scanned (segment.admitsRegex admitted)

/-- The same segments with more blanks before the first. -/
def behind (front : Blanks) : Segmentation → Segmentation
  | stop blanks => stop (front.append blanks)
  | next blanks segment rest => next (front.append blanks) segment rest

theorem written_behind (front : Blanks) (segmentation : Segmentation) :
    (segmentation.behind front).written = front.val ++ segmentation.written := by
  cases segmentation with
  | stop blanks => rfl
  | next blanks segment rest => exact List.append_assoc ..

theorem tokens_behind (reader : Reader) (front : Blanks) (segmentation : Segmentation) :
    (segmentation.behind front).tokens reader = segmentation.tokens (reader.skip front.val) := by
  cases segmentation with
  | stop blanks => simp [behind, tokens, Blanks.append, Reader.skip_append]
  | next blanks segment rest => simp [behind, tokens, Blanks.append, Reader.skip_append]

theorem scanned_behind {admitted : Bool} {front : Blanks} {segmentation : Segmentation}
    (hscanned : segmentation.Scanned admitted) : (segmentation.behind front).Scanned admitted := by
  cases segmentation with
  | stop blanks => trivial
  | next blanks segment rest => exact hscanned

end Segmentation

theorem Token.all_significant (previous : Option Token) (token : Token) :
    (token.significant previous).all Token.admitsRegex =
      if token.isComment then previous.all Token.admitsRegex else token.admitsRegex := by
  unfold Token.significant
  split <;> rfl

/-- Whatever the scanner reads has a segmentation with the same tokens. -/
theorem exists_segmentation {reader : Reader} {previous : Option Token} {text : List Char}
    {tokens : List Token} (hscan : scan reader previous text = .ok tokens) :
    ∃ segmentation : Segmentation, text = segmentation.written ∧
      segmentation.Scanned (previous.all Token.admitsRegex) ∧
        tokens = segmentation.tokens reader := by
  fun_induction scan reader previous text generalizing tokens with
  | case1 reader =>
      cases hscan
      exact ⟨.stop ⟨[], List.forall_mem_nil _⟩, rfl, trivial, by simp [Segmentation.tokens]⟩
  | case2 => cases hscan
  | case3 =>
      rename_i reader previous head tail lexeme hfirst taken rest hkind ih
      obtain ⟨segmentation, hrest, hscanned, rfl⟩ := ih hscan
      have hblank : ∀ character ∈ taken, isBlank character = true := by
        intro character hcharacter
        have hlength := Lexeme.measure_of_first? hfirst
        rw [Lexeme.category_eq_blank hkind] at hlength
        simp only [taken, ← hlength] at hcharacter
        exact Lexeme.of_mem_take_runLength hcharacter
      refine ⟨segmentation.behind ⟨taken, hblank⟩, ?_, Segmentation.scanned_behind hscanned,
        (Segmentation.tokens_behind reader ⟨taken, hblank⟩ segmentation).symm⟩
      rw [Segmentation.written_behind, ← hrest]
      exact (List.take_append_drop ..).symm
  | case4 =>
      rename_i reader previous head tail lexeme hfirst taken rest kind hkind token ih
      cases hothers : scan (reader.pass kind taken) (token.significant previous) rest with
      | error diagnostic =>
          rw [hothers] at hscan
          cases hscan
      | ok others =>
          rw [hothers] at hscan
          cases hscan
          obtain ⟨segmentation, hrest, hscanned, rfl⟩ := ih hothers
          have hlength : lexeme.length = taken.length :=
            (List.length_take_of_le (Lexeme.length_le_of_first? hfirst)).symm
          have hwhole : head :: tail = taken ++ rest := (List.take_append_drop ..).symm
          refine ⟨.next ⟨[], List.forall_mem_nil _⟩ ⟨taken, lexeme, kind, hlength, hkind⟩
            segmentation, ?_, ⟨?_, ?_⟩, ?_⟩
          · simp [Segmentation.written, ← hrest, hwhole]
          · simpa only [← hrest, ← hwhole] using hfirst
          · rwa [Token.all_significant] at hscanned
          · simp [Segmentation.tokens, Segment.value, token]

theorem scan_nil (reader : Reader) (previous : Option Token) :
    scan reader previous [] = .ok [reader.endToken] := by
  rw [scan.eq_def]

/-- The scanner's step over the first lexeme of a text. -/
theorem scan_append {reader : Reader} {previous : Option Token} {taken rest : List Char}
    {lexeme : Lexeme}
    (hfirst : Lexeme.first? (previous.all Token.admitsRegex) (taken ++ rest) = some lexeme)
    (hlength : lexeme.length = taken.length) :
    scan reader previous (taken ++ rest) =
      (lexeme.kind? taken).elim (scan (reader.skip taken) previous rest) fun kind =>
        (scan (reader.pass kind taken)
          ((reader.token kind (lexeme.value taken) taken).significant previous) rest).map
          (reader.token kind (lexeme.value taken) taken :: ·) := by
  cases taken with
  | nil => exact absurd lexeme.length_pos (by simp [hlength])
  | cons head tail =>
      have htake : (head :: (tail ++ rest)).take lexeme.length = head :: tail := by
        rw [hlength]
        exact List.take_left
      have hdrop : (head :: (tail ++ rest)).drop lexeme.length = rest := by
        rw [hlength]
        exact List.drop_left
      rw [List.cons_append] at hfirst ⊢
      rw [scan.eq_def]
      simp only [hfirst, htake, hdrop]
      cases lexeme.kind? (head :: tail) with
      | none => rfl
      | some kind => rfl

theorem Lexeme.first?_of_blank {admitted : Bool} {text : List Char}
    (hpos : 0 < LexemeClass.blank.measure text) :
    first? admitted text = some ⟨.blank, _, hpos⟩ := by
  simp [first?, LexemeClass.inOrder, ofClass?, hpos]

/-- The scanner passes over all blanks before a token at once. -/
theorem scan_blanks (reader : Reader) (previous : Option Token) (blanks : Blanks)
    {rest : List Char} (hrest : ∀ character ∈ rest.head?, isBlank character = false) :
    scan reader previous (blanks.val ++ rest) = scan (reader.skip blanks.val) previous rest := by
  obtain ⟨blanks, hblanks⟩ := blanks
  cases blanks with
  | nil => simp
  | cons head tail =>
      have hmeasure : LexemeClass.blank.measure (head :: tail ++ rest) = (head :: tail).length :=
        Lexeme.runLength_append_eq_length hblanks hrest
      have hpos : 0 < LexemeClass.blank.measure (head :: tail ++ rest) :=
        hmeasure ▸ Nat.zero_lt_succ _
      exact scan_append (Lexeme.first?_of_blank hpos) hmeasure

/-- A text that starts with a token does not start with a blank. -/
theorem Lexeme.not_isBlank_head {admitted : Bool} {text : List Char} {lexeme : Lexeme}
    (hfirst : first? admitted text = some lexeme) (hcategory : lexeme.category ≠ .blank) :
    ∀ character ∈ text.head?, isBlank character = false := by
  intro character hcharacter
  rw [Bool.eq_false_iff]
  intro hblank
  obtain ⟨rest, rfl⟩ := List.head?_eq_some_iff.mp hcharacter
  have hpos : 0 < LexemeClass.blank.measure (character :: rest) := by
    simp [LexemeClass.measure, hblank]
  rw [first?_of_blank hpos] at hfirst
  cases hfirst
  exact hcategory rfl

/-- The scanner reads a segmentation of its own as the tokens of the segments. -/
theorem scan_written {reader : Reader} {previous : Option Token} {segmentation : Segmentation}
    (hscanned : segmentation.Scanned (previous.all Token.admitsRegex)) :
    scan reader previous segmentation.written = .ok (segmentation.tokens reader) := by
  induction segmentation generalizing reader previous with
  | stop blanks =>
      have hnothing : ∀ character ∈ ([] : List Char).head?, isBlank character = false :=
        fun _ hnone => nomatch hnone
      have hend := scan_blanks reader previous blanks hnothing
      rwa [List.append_nil, scan_nil] at hend
  | next blanks segment rest ih =>
      obtain ⟨hfirst, hrest⟩ := hscanned
      have hothers : rest.Scanned
          ((((reader.skip blanks.val).token segment.kind segment.value segment.text).significant
            previous).all Token.admitsRegex) := by
        rw [Token.all_significant]
        exact hrest
      have hhead := Lexeme.not_isBlank_head hfirst segment.category_ne_blank
      rw [Segmentation.written, scan_blanks reader previous blanks hhead,
        scan_append hfirst segment.length_eq, segment.kind_eq]
      exact congrArg (Except.map _) (ih hothers)

end ScriptSyntax

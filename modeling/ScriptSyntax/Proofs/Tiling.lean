import ScriptSyntax.Proofs.Scanning
import ScriptSyntax.Proofs.Segmentation

/-!
# Tokens tile their source

The spans of the scanned tokens and the gaps between them cut the source into
pieces that lie end to end.  The gaps hold blanks, the text of a token gives its
value, and all pieces in order give the source.  Offsets are words, so all this
needs a source whose length fits into one.
-/

namespace ScriptSyntax

open Text

namespace Text

/-- The first bytes of a text, when these end between two characters. -/
def takeBytes? : Nat → List Char → Option (List Char)
  | 0, _ => some []
  | _ + 1, [] => none
  | bytes + 1, character :: text =>
      if character.utf8Size ≤ bytes + 1 then
        (takeBytes? (bytes + 1 - character.utf8Size) text).map (character :: ·)
      else
        none

/-- The text between two offsets, when both lie between characters. -/
def slice? (start stop : Nat) (text : List Char) : Option (List Char) :=
  if start ≤ stop then (dropBytes? start text).bind (takeBytes? (stop - start)) else none

theorem takeBytes?_byteLength_append (left right : List Char) :
    takeBytes? (byteLength left) (left ++ right) = some left := by
  induction left with
  | nil => simp [takeBytes?]
  | cons character text ih =>
      have hsize : 0 < character.utf8Size := Char.utf8Size_pos character
      obtain ⟨bytes, hbytes⟩ : ∃ bytes, byteLength (character :: text) = bytes + 1 :=
        ⟨byteLength (character :: text) - 1, by
          simp only [byteLength_cons]; omega⟩
      rw [hbytes, List.cons_append, takeBytes?]
      rw [byteLength_cons] at hbytes
      rw [if_pos (by omega), ← hbytes, Nat.add_sub_cancel_left, ih]
      rfl

theorem slice?_append (before middle after : List Char) :
    slice? (byteLength before) (byteLength before + byteLength middle)
      (before ++ (middle ++ after)) = some middle := by
  rw [slice?, if_pos (Nat.le_add_right ..), dropBytes?_byteLength_append, Nat.add_sub_cancel_left]
  exact takeBytes?_byteLength_append middle after

end Text

/-- The text of a source that a span covers. -/
def Span.text? (span : Span) (source : List Char) : Option (List Char) :=
  slice? span.start.offset.toNat span.stop.offset.toNat source

namespace Token

/-- The spans between tokens, from a position before the first to the start of
the last. -/
def gaps (start : Position) : List Token → List Span
  | [] => []
  | token :: tokens => ⟨start, token.span.start⟩ :: gaps token.span.stop tokens

/-- The spans of tokens, each behind the gap before it. -/
def stretches (start : Position) : List Token → List Span
  | [] => []
  | token :: tokens =>
      ⟨start, token.span.start⟩ :: token.span :: stretches token.span.stop tokens

/-- The token has the value its text stands for: a string the decoded text
between its quotes, any other token the text itself. -/
def ReadFrom (token : Token) (text : List Char) : Prop :=
  (token.kind ≠ .string → token.value = String.ofList text) ∧
    (token.kind = .string → ∃ quote body, Lexeme.isQuote quote = true ∧
      text = quote :: (body ++ [quote]) ∧
        token.value = String.ofList (StringText.decode body))

/-- The end token stands last, at the end of the source, and nowhere else. -/
def EndsWith (source : List Char) (tokens : List Token) : Prop :=
  ∃ words last, tokens = words ++ [last] ∧ (∀ word ∈ words, word.isEnd = false) ∧
    last.isEnd = true ∧ last.span.start.offset.toNat = byteLength source ∧
      last.span.stop.offset.toNat = byteLength source

/-- The tokens lie end to end with blanks in the rest of a source, which starts
at a byte of it. -/
structure Tile (source : List Char) (file : String) (byte : Nat) (rest : List Char)
    (tokens : List Token) : Prop where
  /-- All positions are in the named source. -/
  named : ∀ token ∈ tokens, token.span.start.file = file ∧ token.span.stop.file = file
  /-- Only the end token is empty. -/
  solid : ∀ token ∈ tokens, token.isEnd = false → token.span.start.offset < token.span.stop.offset
  /-- A token starts at or after the end of the one before it. -/
  ordered : ∀ gap ∈ gaps (.ofByte file byte) tokens, gap.start.offset ≤ gap.stop.offset
  /-- Only blanks stand between tokens. -/
  apart : ∀ gap ∈ gaps (.ofByte file byte) tokens, ∃ blanks : Blanks,
    gap.text? source = some blanks.val
  /-- Each token is read from the text it spans. -/
  texts : ∀ token ∈ tokens, token.isEnd = false →
    ∃ text, token.span.text? source = some text ∧ token.ReadFrom text
  /-- Gaps and tokens in order give the rest of the source. -/
  rebuilt : ∃ parts,
    (stretches (.ofByte file byte) tokens).mapM (Span.text? · source) = some parts ∧
      parts.flatten = rest

theorem tile_nil (source : List Char) (file : String) (byte : Nat) :
    Tile source file byte [] [] where
  named := List.forall_mem_nil _
  solid := List.forall_mem_nil _
  ordered := List.forall_mem_nil _
  apart := List.forall_mem_nil _
  texts := List.forall_mem_nil _
  rebuilt := ⟨[], rfl, rfl⟩

end Token

theorem Reader.text?_span {reader : Reader} {source before middle after : List Char}
    (hsource : source = before ++ (middle ++ after)) (hoffset : reader.offset = byteLength before)
    (hbytes : byteLength source < UInt32.size) :
    (reader.span (byteLength middle)).text? source = some middle := by
  subst hsource
  have hfits : reader.offset + byteLength middle < UInt32.size := by
    simp only [byteLength_append] at hbytes
    omega
  obtain ⟨hstart, hstop⟩ := reader.offset_span hfits
  rw [Span.text?, hstart, hstop, hoffset]
  exact slice?_append before middle after

theorem Text.byteLength_pos {text : List Char} (htext : text ≠ []) : 0 < byteLength text := by
  cases text with
  | nil => exact absurd rfl htext
  | cons character text =>
      have hsize : 0 < character.utf8Size := Char.utf8Size_pos character
      rw [byteLength_cons]
      omega

theorem Reader.offset_skip {reader : Reader} {before : List Char}
    (hoffset : reader.offset = byteLength before) (blanks : List Char) :
    (reader.skip blanks).offset = byteLength (before ++ blanks) := by
  simp [skip, hoffset]

theorem Reader.offset_pass {reader : Reader} {before : List Char}
    (hoffset : reader.offset = byteLength before) (kind : Token.Kind) (text : List Char) :
    (reader.pass kind text).offset = byteLength (before ++ text) := by
  simp [pass, hoffset]

section Front

variable {reader : Reader} {source before text rest : List Char} {blanks : Blanks}
  {token : Token} {tokens : List Token}

theorem Token.gaps_cons (hspan : token.span = (reader.skip blanks.val).span (byteLength text)) :
    gaps (.ofByte reader.file reader.offset) (token :: tokens) =
      reader.span (byteLength blanks.val) ::
        gaps (.ofByte reader.file (reader.offset + byteLength blanks.val + byteLength text))
          tokens := by
  rw [gaps, hspan]
  rfl

theorem Token.stretches_cons
    (hspan : token.span = (reader.skip blanks.val).span (byteLength text)) :
    stretches (.ofByte reader.file reader.offset) (token :: tokens) =
      reader.span (byteLength blanks.val) :: token.span ::
        stretches (.ofByte reader.file (reader.offset + byteLength blanks.val + byteLength text))
          tokens := by
  rw [stretches, hspan]
  rfl

/-- One more token in front: blanks and the text of the token stand before the
rest of the source. -/
theorem Token.Tile.cons (hsource : source = before ++ (blanks.val ++ (text ++ rest)))
    (hoffset : reader.offset = byteLength before) (hbytes : byteLength source < UInt32.size)
    (hspan : token.span = (reader.skip blanks.val).span (byteLength text))
    (htoken : token.isEnd = false → text ≠ [] ∧ token.ReadFrom text)
    (htile : Tile source reader.file (reader.offset + byteLength blanks.val + byteLength text)
      rest tokens) :
    Tile source reader.file reader.offset (blanks.val ++ (text ++ rest)) (token :: tokens) := by
  have hbehind : source = (before ++ blanks.val) ++ (text ++ rest) := by simpa using hsource
  have hskip := Reader.offset_skip hoffset blanks.val
  have hgap : (reader.span (byteLength blanks.val)).text? source = some blanks.val :=
    reader.text?_span hsource hoffset hbytes
  have hown : token.span.text? source = some text :=
    hspan ▸ Reader.text?_span hbehind hskip hbytes
  have hlength := congrArg byteLength hbehind
  simp only [byteLength_append] at hlength hskip
  constructor
  case named =>
    refine List.forall_mem_cons.mpr ⟨?_, htile.named⟩
    rw [hspan]
    exact ⟨rfl, rfl⟩
  case solid =>
    refine List.forall_mem_cons.mpr ⟨fun hword => ?_, htile.solid⟩
    have hpos := byteLength_pos (htoken hword).1
    have hfits : (reader.skip blanks.val).offset + byteLength text < UInt32.size := by omega
    obtain ⟨hstart, hstop⟩ := (reader.skip blanks.val).offset_span hfits
    rw [hspan, UInt32.lt_iff_toNat_lt, hstart, hstop]
    omega
  case ordered =>
    rw [gaps_cons hspan]
    refine List.forall_mem_cons.mpr ⟨?_, htile.ordered⟩
    have hfits : reader.offset + byteLength blanks.val < UInt32.size := by omega
    obtain ⟨hstart, hstop⟩ := reader.offset_span hfits
    rw [UInt32.le_iff_toNat_le, hstart, hstop]
    exact Nat.le_add_right ..
  case apart =>
    rw [gaps_cons hspan]
    exact List.forall_mem_cons.mpr ⟨⟨blanks, hgap⟩, htile.apart⟩
  case texts =>
    exact List.forall_mem_cons.mpr ⟨fun hword => ⟨text, hown, (htoken hword).2⟩, htile.texts⟩
  case rebuilt =>
    obtain ⟨parts, hparts, rfl⟩ := htile.rebuilt
    refine ⟨blanks.val :: text :: parts, ?_, rfl⟩
    simp [stretches_cons hspan, List.mapM_cons, hgap, hown, hparts]

end Front

/-! ## The text of a token -/

theorem Token.Kind.ofWord_cases (word : String) :
    ofWord word = .keyword ∨ ofWord word = .operator ∨ ofWord word = .identifier := by
  unfold ofWord
  split
  · exact .inl rfl
  · split
    · exact .inr (.inl rfl)
    · exact .inr (.inr rfl)

namespace Segment

/-- No text makes an end token, and only strings make string tokens. -/
theorem kind_cases (segment : Segment) :
    segment.kind ≠ .eof ∧ (segment.kind = .string ↔ segment.lexeme.category = .string) := by
  obtain ⟨text, lexeme, kind, -, hkind⟩ := segment
  unfold Lexeme.kind? at hkind
  cases hcategory : lexeme.category
  all_goals
    rw [hcategory] at hkind
    cases hkind
  case word =>
    rcases Token.Kind.ofWord_cases (String.ofList text) with hcase | hcase | hcase
    all_goals simp [hcase]
  all_goals simp

theorem isEnd_token (segment : Segment) (reader : Reader) :
    (reader.token segment.kind segment.value segment.text).isEnd = false :=
  beq_false_of_ne segment.kind_cases.1

/-- The kinds that one class of lexemes alone makes. -/
theorem category_of_kind (segment : Segment) :
    (segment.kind = .regex → segment.lexeme.category = .regex) ∧
      (segment.kind = .punctuation → segment.lexeme.category = .punctuation) ∧
      (segment.kind = .identifier → segment.lexeme.category = .word) ∧
      (segment.kind = .lineComment → segment.lexeme.category = .lineComment) := by
  have hkind := segment.kind_eq
  unfold Lexeme.kind? at hkind
  cases hcategory : segment.lexeme.category
  all_goals rw [hcategory] at hkind
  case blank => cases hkind
  case word =>
    rcases Token.Kind.ofWord_cases (String.ofList segment.text) with hcase | hcase | hcase
    all_goals simp [← Option.some.inj hkind, hcase]
  all_goals simp [← Option.some.inj hkind]

theorem value_of_category {segment : Segment} (hcategory : segment.lexeme.category ≠ .string) :
    segment.value.toList = segment.text := by
  unfold value Lexeme.value
  split
  · exact absurd ‹_› hcategory
  · exact String.toList_ofList

/-- The text of a string is a body between two quotes of one kind. -/
theorem exists_body {segment : Segment} {admitted : Bool} {rest : List Char}
    (hfirst : Lexeme.first? admitted (segment.text ++ rest) = some segment.lexeme)
    (hstring : segment.lexeme.category = .string) :
    ∃ quote body, Lexeme.isQuote quote = true ∧ segment.text = quote :: (body ++ [quote]) := by
  have hown : LexemeClass.string.measure (segment.text ++ rest) = segment.text.length :=
    hstring ▸ segment.measure_eq hfirst
  obtain ⟨quote, inner, hquote, htext, hinner⟩ :=
    Lexeme.exists_string_body segment.length_pos hown
  have hcloses := Lexeme.closes_stringTail? (Lexeme.ne_backslash_of_isQuote hquote)
  obtain ⟨body, rfl⟩ := List.getLast?_eq_some_iff.mp (hcloses.getLast? hinner)
  exact ⟨quote, body, hquote, htext⟩

theorem readFrom {segment : Segment} {admitted : Bool} {rest : List Char}
    (hfirst : Lexeme.first? admitted (segment.text ++ rest) = some segment.lexeme)
    (reader : Reader) :
    (reader.token segment.kind segment.value segment.text).ReadFrom segment.text := by
  constructor
  · intro hkind
    have hcategory : segment.lexeme.category ≠ .string := mt segment.kind_cases.2.mpr hkind
    show segment.lexeme.value segment.text = _
    unfold Lexeme.value
    split
    · exact absurd ‹_› hcategory
    · rfl
  · intro hkind
    have hcategory : segment.lexeme.category = .string := segment.kind_cases.2.mp hkind
    obtain ⟨quote, body, hquote, htext⟩ := segment.exists_body hfirst hcategory
    refine ⟨quote, body, hquote, htext, ?_⟩
    show segment.lexeme.value segment.text = _
    simp [Lexeme.value, hcategory, htext]

end Segment

/-! ## Whole sources -/

namespace Segmentation

theorem tile {segmentation : Segmentation} {admitted : Bool}
    (hscanned : segmentation.Scanned admitted) (reader : Reader) {source : List Char}
    (before : List Char) (hsource : source = before ++ segmentation.written)
    (hoffset : reader.offset = byteLength before) (hbytes : byteLength source < UInt32.size) :
    Token.Tile source reader.file reader.offset segmentation.written
      (segmentation.tokens reader) := by
  induction segmentation generalizing admitted reader before with
  | stop blanks =>
      have hwhole : source = before ++ (blanks.val ++ ([] ++ [])) := by
        rw [hsource, List.append_nil, List.append_nil]
        rfl
      have hlast := Token.Tile.cons hwhole hoffset hbytes
        (show (reader.skip blanks.val).endToken.span = _ from rfl) (fun hword => nomatch hword)
        (Token.tile_nil ..)
      rwa [List.append_nil, List.append_nil] at hlast
  | next blanks segment rest ih =>
      obtain ⟨hfirst, hrest⟩ := hscanned
      apply Token.Tile.cons hsource hoffset hbytes rfl
      · exact fun _ => ⟨segment.text_ne_nil, segment.readFrom hfirst _⟩
      · have hbehind : source = (before ++ blanks.val ++ segment.text) ++ rest.written := by
          rw [hsource, written]
          simp
        exact ih hrest _ _ hbehind (Reader.offset_pass (Reader.offset_skip hoffset _) _ _)

/-- The last token stands where the text ends. -/
theorem exists_last (segmentation : Segmentation) (reader : Reader) :
    ∃ words last, segmentation.tokens reader = words ++ [last] ∧
      (∀ word ∈ words, word.isEnd = false) ∧ last.isEnd = true ∧
        last.span = (reader.advance (byteLength segmentation.written)).span 0 := by
  induction segmentation generalizing reader with
  | stop blanks => exact ⟨[], _, rfl, List.forall_mem_nil _, rfl, rfl⟩
  | next blanks segment rest ih =>
      obtain ⟨words, last, htokens, hwords, hlast, hspan⟩ :=
        ih ((reader.skip blanks.val).pass segment.kind segment.text)
      refine ⟨_ :: words, last, congrArg (_ :: ·) htokens,
        List.forall_mem_cons.mpr ⟨segment.isEnd_token _, hwords⟩, hlast, ?_⟩
      rw [hspan]
      simp [Reader.advance, Reader.pass, Reader.skip, Reader.span, Reader.position, written,
        Nat.add_assoc]

end Segmentation

/-- The scanned tokens tile their source, if its length fits into a word. -/
theorem tokenize_tiles {source file : String} {tokens : List Token}
    (hsource : byteLength source.toList < UInt32.size)
    (htokens : tokenize source file = .ok tokens) :
    Token.EndsWith source.toList tokens ∧
      Token.Tile source.toList file 0 source.toList tokens := by
  obtain ⟨segmentation, hwritten, hscanned, rfl⟩ := exists_segmentation htokens
  constructor
  · obtain ⟨words, last, htokens, hwords, hlast, hspan⟩ := segmentation.exists_last ⟨file, 0, false⟩
    rw [← hwritten] at hspan
    refine ⟨words, last, htokens, hwords, hlast, ?_⟩
    have hfits : ((Reader.mk file 0 false).advance (byteLength source.toList)).offset + 0 <
        UInt32.size := by simpa [Reader.advance] using hsource
    obtain ⟨hstart, hstop⟩ := Reader.offset_span _ hfits
    rw [hspan, hstart, hstop]
    simp [Reader.advance]
  · have htile := segmentation.tile hscanned ⟨file, 0, false⟩ [] hwritten rfl hsource
    rwa [← hwritten] at htile

/-- A source with characters of several bytes, an escape and blanks at its end. -/
theorem tokenize_tiles_assignment :
    let source := "s = /* é */ 'ü\\t' ;\n"
    byteLength source.toList < UInt32.size ∧ ∃ tokens, tokenize source "a" = .ok tokens ∧
      tokens.length = 6 ∧ Token.EndsWith source.toList tokens ∧
        Token.Tile source.toList "a" 0 source.toList tokens := by
  intro source
  have hsource : byteLength source.toList < UInt32.size := by decide +kernel
  have hlength : (tokenize source "a").toOption.map List.length = some 6 := by decide +kernel
  cases htokens : tokenize source "a" with
  | error diagnostic =>
      rw [htokens] at hlength
      cases hlength
  | ok tokens =>
      rw [htokens] at hlength
      exact ⟨hsource, tokens, rfl, Option.some.inj hlength, tokenize_tiles hsource htokens⟩

end ScriptSyntax

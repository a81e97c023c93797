import ScriptSyntax.Proofs.Lexeme.Spacing
import ScriptSyntax.Proofs.Tiling

/-!
# Sources with other blanks

The texts of the scanned tokens can be written down again with a line feed or a
space before each, as line breaks stood before them or not.  The new source has
the same tokens.  The point is a slash: whether it divides or opens a regular
expression hangs on what follows on its line, and the blanks of the new source
must neither close an expression nor open one.
-/

namespace ScriptSyntax

open Text

namespace Token

/-- What is written before a token: a line feed if a line break stood before it,
else a space, and before the end of the source nothing. -/
def spacing (token : Token) : List Char :=
  if token.newlineBefore then ['\n'] else if token.isEnd then [] else [' ']

/-- The texts of the tokens, with fresh blanks before each. -/
def respaced? (source : List Char) (tokens : List Token) : Option (List Char) :=
  (tokens.mapM fun token : Token =>
    (token.span.text? source).map (token.spacing ++ ·)).map List.flatten

/-- All of a token but its place. -/
def face (token : Token) : Kind × String × Bool :=
  (token.kind, token.value, token.newlineBefore)

theorem respaced?_nil (source : List Char) : respaced? source [] = some [] := rfl

theorem respaced?_cons {source text rest : List Char} {token : Token} {tokens : List Token}
    (htext : token.span.text? source = some text) (hrest : respaced? source tokens = some rest) :
    respaced? source (token :: tokens) = some (token.spacing ++ (text ++ rest)) := by
  obtain ⟨parts, hparts, rfl⟩ := Option.map_eq_some_iff.mp hrest
  simp [respaced?, List.mapM_cons, htext, hparts]

end Token

/-- The blanks before a token of the new source. -/
def Blanks.spacing : (newline last : Bool) → Blanks
  | true, _ => ⟨['\n'], List.forall_mem_singleton.mpr rfl⟩
  | false, true => ⟨[], List.forall_mem_nil _⟩
  | false, false => ⟨[' '], List.forall_mem_singleton.mpr rfl⟩

theorem Token.spacing_eq (token : Token) :
    token.spacing = (Blanks.spacing token.newlineBefore token.isEnd).val := by
  unfold Token.spacing
  cases token.newlineBefore <;> cases token.isEnd <;> rfl

theorem Blanks.newline_spacing (pending newline last : Bool) :
    (pending || hasLineBreak (spacing (pending || newline) last).val) = (pending || newline) := by
  cases pending <;> cases newline <;> cases last <;> decide

theorem Blanks.spacing_last (newline : Bool) :
    (spacing newline true).val = if newline then ['\n'] else [] := by
  cases newline <;> rfl

theorem Blanks.spacing_next (newline : Bool) :
    (spacing newline false).val = [if newline then '\n' else ' '] := by
  cases newline <;> rfl

/-- A line break is due before the token behind the segment. -/
def Segment.breaksLine (segment : Segment) : Bool :=
  segment.kind == .blockComment && hasLineBreak segment.text

/-- The same segments with fresh blanks.  `pending` tells whether a line break
is due before the first. -/
def Segmentation.respaced (pending : Bool) : Segmentation → Segmentation
  | stop blanks => stop (.spacing (pending || hasLineBreak blanks.val) true)
  | next blanks segment rest =>
      next (.spacing (pending || hasLineBreak blanks.val) false) segment
        (rest.respaced segment.breaksLine)

namespace Lexeme

theorem regexTail?_lineFeed (inBrackets : Bool) (rest : List Char) :
    regexTail? inBrackets ('\n' :: rest) = none := by
  rw [regexTail?_cons (by decide)]
  rfl

/-- Blanks within a line neither end a regular expression nor change its state. -/
theorem regexTail?_blank {inBrackets : Bool} {character : Char} {rest : List Char}
    (hblank : isBlank character = true) (hline : isLineBreak character = false) :
    regexTail? inBrackets (character :: rest) = (regexTail? inBrackets rest).map (· + 1) := by
  have hne {other : Char} (hother : isBlank other = false) : character ≠ other := by
    rintro rfl
    rw [hblank] at hother
    cases hother
  have hinside : isLineEnd character = false := by
    simp only [isLineBreak, Bool.or_eq_false_iff] at hline
    simp [isLineEnd, hline]
  have hslash : character ≠ '/' := hne rfl
  have hopening : (character == '[') = false := beq_false_of_ne (hne rfl)
  have hclosing : (character != ']') = true := bne_iff_ne.mpr (hne rfl)
  rw [regexTail?_cons (hne rfl)]
  cases inBrackets with
  | true => simp [hinside, hclosing]
  | false => simp [hinside, hslash, hopening]

theorem regexTail?_blanks {inBrackets : Bool} {rest : List Char} (blanks : Blanks)
    (hline : hasLineBreak blanks.val = false)
    (hrest : (regexTail? inBrackets rest).isSome = true) :
    (regexTail? inBrackets (blanks.val ++ rest)).isSome = true := by
  obtain ⟨blanks, hblanks⟩ := blanks
  induction blanks with
  | nil => exact hrest
  | cons character blanks ih =>
      simp only [hasLineBreak, List.any_cons, Bool.or_eq_false_iff] at hline
      obtain ⟨hblank, hothers⟩ := List.forall_mem_cons.mp hblanks
      rw [List.cons_append, regexTail?_blank hblank hline.1, Option.isSome_map]
      exact ih hothers hline.2

end Lexeme

theorem Lexeme.isLineBreak_of_isLineEnd {character : Char}
    (hline : isLineEnd character = true) : isLineBreak character = true := by
  simp only [isLineEnd, Bool.or_eq_true, beq_iff_eq] at hline
  rcases hline with rfl | rfl <;> rfl

namespace Segmentation

/-- Before the end of a line, or of the source, stand blanks with a line break,
or nothing is left. -/
theorem hasLineBreak_of_head? {blanks : Blanks} {segment : Segment} {rest : Segmentation}
    {admitted : Bool} (hscanned : (next blanks segment rest).Scanned admitted)
    (hline : ∀ character ∈ (next blanks segment rest).written.head?,
      Lexeme.isLineEnd character = true) : hasLineBreak blanks.val = true := by
  cases hblanks : blanks.val with
  | nil =>
      rw [written, hblanks, List.nil_append] at hline
      obtain ⟨first, others, htext⟩ := List.exists_cons_of_ne_nil segment.text_ne_nil
      have hblank := isBlank_of_isLineBreak
        (Lexeme.isLineBreak_of_isLineEnd (hline first (by rw [htext]; rfl)))
      have hnot := Lexeme.not_isBlank_head hscanned.1 segment.category_ne_blank first
        (by rw [htext]; rfl)
      rw [hblank] at hnot
      cases hnot
  | cons character others =>
      rw [written, hblanks] at hline
      simp [hasLineBreak, Lexeme.isLineBreak_of_isLineEnd (hline character rfl)]

/-- Behind the end of a line the new source goes on with a line feed. -/
theorem head?_respaced {segmentation : Segmentation} {admitted : Bool}
    (hscanned : segmentation.Scanned admitted) (pending : Bool)
    (hline : ∀ character ∈ segmentation.written.head?, Lexeme.isLineEnd character = true) :
    ∀ character ∈ (segmentation.respaced pending).written.head?, character = '\n' := by
  intro character hcharacter
  cases segmentation with
  | stop blanks =>
      rw [respaced, written, Blanks.spacing_last] at hcharacter
      split at hcharacter
      · exact (Option.some.inj hcharacter).symm
      · cases hcharacter
  | next blanks segment rest =>
      rw [respaced, written, Blanks.spacing_next, hasLineBreak_of_head? hscanned hline,
        Bool.or_true] at hcharacter
      exact (Option.some.inj hcharacter).symm

/-- A line comment ends its line. -/
theorem isLineEnd_of_lineComment {segment : Segment} {admitted : Bool} {rest : List Char}
    (hfirst : Lexeme.first? admitted (segment.text ++ rest) = some segment.lexeme)
    (hcategory : segment.lexeme.category = .lineComment) :
    ∀ character ∈ rest.head?, Lexeme.isLineEnd character = true := by
  have hown : LexemeClass.lineComment.measure (segment.text ++ rest) = segment.text.length :=
    hcategory ▸ segment.measure_eq hfirst
  obtain ⟨body, -, hbody⟩ := Lexeme.exists_lineComment_body segment.length_pos hown
  intro character hcharacter
  simpa using Lexeme.head?_of_runLength hbody character hcharacter

/-- Behind a segment that ends with a backslash the new source goes on with a
line feed, which no backslash takes with it. -/
theorem line_feed_of_backslash {segment : Segment} {rest : Segmentation} {admitted later : Bool}
    (hfirst : Lexeme.first? admitted (segment.text ++ rest.written) = some segment.lexeme)
    (hrest : rest.Scanned later) {pending : Bool}
    (hlast : segment.text.getLast? = some '\\') :
    ∀ character ∈ (rest.respaced pending).written.head?, character = '\n' := by
  by_cases hcomment : segment.lexeme.category = .lineComment
  · exact head?_respaced hrest pending (isLineEnd_of_lineComment hfirst hcomment)
  · exact absurd hlast (Lexeme.getLast?_ne_backslash segment.category_ne_blank hcomment
      segment.length_pos (segment.measure_eq hfirst))

/-- The new source closes nothing that the old one leaves open. -/
theorem respaces {segmentation : Segmentation} {admitted : Bool}
    (hscanned : segmentation.Scanned admitted) (pending : Bool) :
    Lexeme.Respaces (segmentation.respaced pending).written segmentation.written := by
  induction segmentation generalizing admitted pending with
  | stop blanks =>
      rw [respaced, written, Blanks.spacing_last]
      split
      · constructor
        · rintro _ ⟨⟩
          rfl
        · intro hclosed
          cases hclosed
        · intro inBrackets hclosed
          rw [Lexeme.regexTail?_lineFeed] at hclosed
          cases hclosed
      · constructor
        · intro _ hnone
          cases hnone
        · intro hclosed
          cases hclosed
        · intro _ hclosed
          cases hclosed
  | next blanks segment rest ih =>
      obtain ⟨hfirst, hrest⟩ := hscanned
      have hbehind := ih hrest segment.breaksLine
      rw [respaced, written, written, Blanks.spacing_next, List.singleton_append]
      constructor
      · rintro _ ⟨⟩
        split <;> rfl
      · intro hclosed
        rw [Lexeme.isSome_commentTail?_cons] at hclosed
        have hlater := hclosed.resolve_left fun hstar => by
          split at hstar <;> cases hstar.1
        exact Lexeme.isSome_commentTail?_append _ (hbehind.closesNoMore.comment_append hlater)
      · intro inBrackets hclosed
        -- No regular expression goes beyond a line feed, and a space stands where the
        -- old blanks are within a line.
        cases hbreak : pending || hasLineBreak blanks.val with
        | true =>
            rw [hbreak, if_pos rfl, Lexeme.regexTail?_lineFeed] at hclosed
            cases hclosed
        | false =>
            rw [hbreak, if_neg Bool.false_ne_true, Lexeme.regexTail?_blank rfl rfl,
              Option.isSome_map] at hclosed
            apply Lexeme.regexTail?_blanks blanks (Bool.or_eq_false_iff.mp hbreak).2
            exact hbehind.closesNoMore.regex_append (line_feed_of_backslash hfirst hrest) hclosed

theorem scanned_respaced {segmentation : Segmentation} {admitted : Bool}
    (hscanned : segmentation.Scanned admitted) (pending : Bool) :
    (segmentation.respaced pending).Scanned admitted := by
  induction segmentation generalizing admitted pending with
  | stop blanks => trivial
  | next blanks segment rest ih =>
      obtain ⟨hfirst, hrest⟩ := hscanned
      refine ⟨?_, ih hrest _⟩
      apply Lexeme.first?_respaced hfirst segment.length_eq segment.category_ne_blank
        (respaces hrest _)
      intro hcomment character hcharacter
      have hline := isLineEnd_of_lineComment hfirst hcomment
      rw [head?_respaced hrest _ hline character hcharacter]
      rfl

/-- The tokens of the new source differ from those of the old in nothing but
their places. -/
theorem map_face_respaced (segmentation : Segmentation) (reader other : Reader)
    (hpending : other.newlinePending = reader.newlinePending) :
    ((segmentation.respaced reader.newlinePending).tokens other).map Token.face =
      (segmentation.tokens reader).map Token.face := by
  induction segmentation generalizing reader other with
  | stop blanks =>
      simp [respaced, tokens, Token.face, Reader.endToken, Token.endOfInput, Reader.skip, hpending,
        Blanks.newline_spacing]
  | next blanks segment rest ih =>
      have hrest := ih ((reader.skip blanks.val).pass segment.kind segment.text)
        ((other.skip (Blanks.spacing (reader.newlinePending || hasLineBreak blanks.val)
          false).val).pass segment.kind segment.text) rfl
      rw [respaced, tokens, tokens, List.map_cons, List.map_cons]
      congr 1
      simp [Token.face, Reader.token, Reader.skip, hpending, Blanks.newline_spacing]

theorem respaced?_tokens (segmentation : Segmentation) (reader : Reader) {source : List Char}
    (before : List Char) (hsource : source = before ++ segmentation.written)
    (hoffset : reader.offset = byteLength before) (hbytes : byteLength source < UInt32.size) :
    Token.respaced? source (segmentation.tokens reader) =
      some (segmentation.respaced reader.newlinePending).written := by
  induction segmentation generalizing reader before with
  | stop blanks =>
      have hwhole : source = (before ++ blanks.val) ++ ([] ++ []) := by
        rw [hsource, written]
        simp
      have hend : (reader.skip blanks.val).endToken.span.text? source = some [] :=
        Reader.text?_span hwhole (Reader.offset_skip hoffset _) hbytes
      rw [tokens, Token.respaced?_cons hend (Token.respaced?_nil source), List.append_nil,
        List.append_nil, Token.spacing_eq]
      rfl
  | next blanks segment rest ih =>
      have hwhole : source = (before ++ blanks.val) ++ (segment.text ++ rest.written) := by
        rw [hsource, written]
        simp
      have hskip := Reader.offset_skip hoffset blanks.val
      have hrest := ih ((reader.skip blanks.val).pass segment.kind segment.text)
        (before ++ blanks.val ++ segment.text) (by simpa using hwhole)
        (Reader.offset_pass hskip segment.kind segment.text)
      have htext : ((reader.skip blanks.val).token segment.kind segment.value
          segment.text).span.text? source = some segment.text :=
        Reader.text?_span hwhole hskip hbytes
      rw [tokens, Token.respaced?_cons htext hrest, Token.spacing_eq, segment.isEnd_token]
      rfl

end Segmentation

/-- The tokens of a source, written down with fresh blanks, are the tokens of
what is written. -/
theorem tokenize_respaced {source file : String} {tokens : List Token}
    (hsource : byteLength source.toList < UInt32.size)
    (htokens : tokenize source file = .ok tokens) (other : String) :
    ∃ text, Token.respaced? source.toList tokens = some text ∧
      ∃ again, tokenize (String.ofList text) other = .ok again ∧
        again.map Token.face = tokens.map Token.face := by
  obtain ⟨segmentation, hwritten, hscanned, rfl⟩ := exists_segmentation htokens
  refine ⟨(segmentation.respaced false).written,
    segmentation.respaced?_tokens ⟨file, 0, false⟩ [] hwritten rfl hsource,
    (segmentation.respaced false).tokens ⟨other, 0, false⟩, ?_, ?_⟩
  · rw [tokenize, String.toList_ofList]
    exact scan_written (Segmentation.scanned_respaced hscanned false)
  · exact segmentation.map_face_respaced ⟨file, 0, false⟩ ⟨other, 0, false⟩ rfl

/-- Slashes that divide, begin a comment with a backslash at its end, and open a
regular expression. -/
theorem tokenize_respaced_slashes :
    let source := "(/2\n/3);//\\\r/[/ ]/g"
    let respaced := " ( / 2\n/ 3 ) ; //\\\n/[/ ]/g"
    byteLength source.toList < UInt32.size ∧ ∃ tokens, tokenize source "a" = .ok tokens ∧
      Token.respaced? source.toList tokens = some respaced.toList ∧
        ∃ again, tokenize respaced "b" = .ok again ∧
          again.map Token.face = tokens.map Token.face := by
  intro source respaced
  have hsource : byteLength source.toList < UInt32.size := by decide +kernel
  have hrespaced : ((tokenize source "a").toOption.bind (Token.respaced? source.toList)) =
      some respaced.toList := by decide +kernel
  cases htokens : tokenize source "a" with
  | error diagnostic =>
      rw [htokens] at hrespaced
      cases hrespaced
  | ok tokens =>
      rw [htokens] at hrespaced
      obtain ⟨text, htext, hagain⟩ := tokenize_respaced hsource htokens "b"
      cases htext.symm.trans hrespaced
      rw [String.ofList_toList] at hagain
      exact ⟨hsource, tokens, rfl, htext, hagain⟩

end ScriptSyntax

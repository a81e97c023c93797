import ScriptSyntax.Proofs.Tiling

/-!
# Line breaks before tokens

The flag of a token tells exactly whether a line break stands between it and the
token before it, where a block comment over several lines counts as a line
break behind it.  The scanner carries a pending line break from lexeme to
lexeme; the text that the spans cut out of the source shows where it came from.
-/

namespace ScriptSyntax

open Text

/-- The characters that end a line. -/
def Text.lineBreaks : List Char :=
  ['\n', '\r', '\u2028', '\u2029']

theorem Text.hasLineBreak_iff (text : List Char) :
    hasLineBreak text = true ↔ ∃ character ∈ text, character ∈ lineBreaks := by
  simp [hasLineBreak, isLineBreak, lineBreaks, or_assoc]

namespace Token

/-- The token before the one with an index. -/
def previous? (tokens : List Token) (index : Nat) : Option Token :=
  (tokens.take index).getLast?

/-- What lies between a token of a list and the one before it, or a position
before them all. -/
def gapBefore (start : Position) (tokens : List Token) (index : Nat) (token : Token) : Span :=
  ⟨(previous? tokens index).elim start fun previous => previous.span.stop, token.span.start⟩

/-- The token is a block comment with a line break in its text. -/
def isBrokenComment (source : List Char) (token : Token) : Bool :=
  token.kind == .blockComment && (token.span.text? source).any hasLineBreak

theorem isBrokenComment_iff (source : List Char) (token : Token) :
    token.isBrokenComment source = true ↔ token.kind = .blockComment ∧
      ∃ comment, token.span.text? source = some comment ∧
        ∃ character ∈ comment, character ∈ lineBreaks := by
  simp [isBrokenComment, Option.any_eq_true, hasLineBreak_iff]

/-- Behind the first token, what is said of the start is said of that token. -/
theorem elim_previous?_cons {Value : Type} (first : Token) (tokens : List Token) (index : Nat)
    (start : Value) (say : Token → Value) :
    (previous? (first :: tokens) (index + 1)).elim start say =
      (previous? tokens index).elim (say first) say := by
  rw [previous?, previous?, List.take_succ_cons, List.getLast?_cons]
  cases (tokens.take index).getLast? <;> rfl

/-- The flag of a token with an index agrees with the source.  `pending` tells
whether a line break is due before the first token. -/
def FlagExact (source : List Char) (start : Position) (pending : Bool) (tokens : List Token)
    (index : Nat) (token : Token) : Prop :=
  ∃ text, (gapBefore start tokens index token).text? source = some text ∧
    token.newlineBefore =
      (hasLineBreak text || (previous? tokens index).elim pending (isBrokenComment source))

end Token

section Front

variable {reader : Reader} {source before text rest : List Char} {blanks : Blanks}
  {token : Token} {tokens : List Token}

/-- The first token behind blanks. -/
theorem Token.FlagExact.first (hsource : source = before ++ (blanks.val ++ rest))
    (hoffset : reader.offset = byteLength before) (hbytes : byteLength source < UInt32.size)
    (hstart : token.span.start = (reader.skip blanks.val).position (reader.skip blanks.val).offset)
    (hnewline : token.newlineBefore = (reader.skip blanks.val).newlinePending) :
    FlagExact source (reader.position reader.offset) reader.newlinePending (token :: tokens) 0
      token := by
  refine ⟨blanks.val, ?_, ?_⟩
  · rw [gapBefore, hstart]
    exact reader.text?_span hsource hoffset hbytes
  · rw [hnewline]
    exact Bool.or_comm ..

/-- A token that is not the first has its gap and its line break from those
before it. -/
theorem Token.FlagExact.later {first : Token} {index : Nat} {start : Position} {pending : Bool}
    (hexact : FlagExact source first.span.stop (first.isBrokenComment source) tokens index token) :
    FlagExact source start pending (first :: tokens) (index + 1) token := by
  obtain ⟨text, htext, hnewline⟩ := hexact
  refine ⟨text, ?_, ?_⟩
  · rwa [gapBefore, elim_previous?_cons]
  · rwa [elim_previous?_cons]

end Front

/-- A segment leaves a line break pending exactly if its token is a comment over
several lines. -/
theorem Segment.isBrokenComment_token (segment : Segment) {reader : Reader}
    {source before rest : List Char} (hsource : source = before ++ (segment.text ++ rest))
    (hoffset : reader.offset = byteLength before) (hbytes : byteLength source < UInt32.size) :
    (reader.token segment.kind segment.value segment.text).isBrokenComment source =
      (reader.pass segment.kind segment.text).newlinePending := by
  have htext : (reader.token segment.kind segment.value segment.text).span.text? source =
      some segment.text := reader.text?_span hsource hoffset hbytes
  rw [Token.isBrokenComment, htext]
  rfl

theorem Segmentation.flagExact {segmentation : Segmentation} (reader : Reader)
    {source : List Char} (before : List Char)
    (hsource : source = before ++ segmentation.written)
    (hoffset : reader.offset = byteLength before) (hbytes : byteLength source < UInt32.size)
    {index : Nat} {token : Token} (htoken : (segmentation.tokens reader)[index]? = some token) :
    Token.FlagExact source (reader.position reader.offset) reader.newlinePending
      (segmentation.tokens reader) index token := by
  induction segmentation generalizing reader before index with
  | stop blanks =>
      have hwhole : source = before ++ (blanks.val ++ []) := by rwa [List.append_nil]
      cases index with
      | zero =>
          cases htoken
          exact .first hwhole hoffset hbytes rfl rfl
      | succ index => cases htoken
  | next blanks segment rest ih =>
      have hbehind : source = (before ++ blanks.val) ++ (segment.text ++ rest.written) := by
        rw [hsource, written, List.append_assoc]
      have hskip := Reader.offset_skip hoffset blanks.val
      cases index with
      | zero =>
          cases htoken
          exact .first hsource hoffset hbytes rfl rfl
      | succ index =>
          apply Token.FlagExact.later
          rw [segment.isBrokenComment_token hbehind hskip hbytes]
          exact ih ((reader.skip blanks.val).pass segment.kind segment.text) _
            (hbehind.trans (List.append_assoc ..).symm) (Reader.offset_pass hskip _ _) htoken

/-- A token of a source is flagged exactly if a line break stands between it and
the token before it, or that token is a block comment with a line break in it. -/
theorem newlineBefore_iff_line_break {source file : String} {tokens : List Token}
    (hsource : byteLength source.toList < UInt32.size)
    (htokens : tokenize source file = .ok tokens) {index : Nat} {token : Token}
    (htoken : tokens[index]? = some token) :
    ∃ text, (Token.gapBefore (.ofByte file 0) tokens index token).text? source.toList =
        some text ∧
      (token.newlineBefore = true ↔
        (∃ character ∈ text, character ∈ lineBreaks) ∨
          ∃ previous, Token.previous? tokens index = some previous ∧
            previous.kind = .blockComment ∧
              ∃ comment, previous.span.text? source.toList = some comment ∧
                ∃ character ∈ comment, character ∈ lineBreaks) := by
  obtain ⟨segmentation, hwritten, -, rfl⟩ := exists_segmentation htokens
  obtain ⟨text, htext, hnewline⟩ :=
    segmentation.flagExact ⟨file, 0, false⟩ [] hwritten rfl hsource htoken
  refine ⟨text, htext, ?_⟩
  rw [hnewline, Bool.or_eq_true, hasLineBreak_iff]
  apply or_congr_right
  cases hprevious : Token.previous? (segmentation.tokens ⟨file, 0, false⟩) index with
  | none => simp
  | some previous => simpa using previous.isBrokenComment_iff source.toList

/-- The line break before `b` is in the comment, and a space stands between
them. -/
theorem newlineBefore_iff_line_break_comment :
    let source := "a /*\u2028*/ b"
    byteLength source.toList < UInt32.size ∧ ∃ tokens token,
      tokenize source "c" = .ok tokens ∧ tokens[2]? = some token ∧ token.value = "b" ∧
        token.newlineBefore = true ∧
          ∃ text, (Token.gapBefore (.ofByte "c" 0) tokens 2 token).text? source.toList =
              some text ∧
            ((∃ character ∈ text, character ∈ lineBreaks) ∨
              ∃ previous, Token.previous? tokens 2 = some previous ∧
                previous.kind = .blockComment ∧
                  ∃ comment, previous.span.text? source.toList = some comment ∧
                    ∃ character ∈ comment, character ∈ lineBreaks) := by
  intro source
  have hsource : byteLength source.toList < UInt32.size := by decide +kernel
  have hread : (tokenize source "c").toOption.map (fun tokens =>
      (tokens[2]?).map fun token => (token.value, token.newlineBefore)) =
        some (some ("b", true)) := by decide +kernel
  obtain ⟨tokens, htokens, hface⟩ := exists_tokenize_eq hread
  obtain ⟨token, htoken, hvalues⟩ := Option.map_eq_some_iff.mp hface
  obtain ⟨hvalue, hnewline⟩ := Prod.mk.inj hvalues
  obtain ⟨text, htext, hexact⟩ := newlineBefore_iff_line_break hsource htokens htoken
  exact ⟨hsource, tokens, token, htokens, htoken, hvalue, hnewline, text, htext,
    hexact.mp hnewline⟩

end ScriptSyntax

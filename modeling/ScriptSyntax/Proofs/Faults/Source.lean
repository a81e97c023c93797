import ScriptSyntax.Proofs.Excerpts
import ScriptSyntax.Proofs.Faults.Statement
import ScriptSyntax.Proofs.ScanFailures
import ScriptSyntax.Proofs.Tiling

/-!
# Failures point into the source

A scanner that fails stands between two characters, before the end of its source.  A parser
that fails points at the start of a scanned token.  Either way the source has a line at that
place, so the rendered diagnostic always ends with this line and a caret.
-/

namespace ScriptSyntax

open Text Parse

/-- The diagnostic points at a token of the list: at the one under the cursor where the parser
fails, or at the keyword of the definition that lacks a name. -/
def Diagnostic.PointsInto (diagnostic : Diagnostic) (semicolons : Semicolons)
    (tokens : List Token) (after : Session) : Prop :=
  ∃ index token reason, tokens[index]? = some token ∧ reason.isDefect = false ∧
    diagnostic.cause =
      .syntactic (if token.isEnd then "end of input" else token.value) reason ∧
    diagnostic.position = token.span.start ∧
    (reason ≠ .expectedFunctionName → after.cursor.upcoming = tokens.drop index) ∧
    (reason = .expectedFunctionName → ∃ opening : Session,
      opening.cursor.upcoming = tokens.drop index ∧ opening.Before after ∧
        opening.Nameless semicolons after)

section Scanner

/-- A scanner that fails stands between two characters, with some text left. -/
theorem exists_boundary_of_scan_error {reader : Reader} {previous : Option Token}
    {source before text : List Char} {diagnostic : Diagnostic}
    (hsource : source = before ++ text) (hoffset : reader.offset = byteLength before)
    (hscan : scan reader previous text = .error diagnostic) :
    ∃ front rest, source = front ++ rest ∧ rest ≠ [] ∧
      diagnostic.position = .ofByte reader.file (byteLength front) := by
  obtain ⟨front, rest, _, _, rfl, hrest, -, rfl, -⟩ := exists_front_of_scan_error hscan
  refine ⟨before ++ front, rest, hsource.trans (List.append_assoc ..).symm, hrest, ?_⟩
  rw [byteLength_append, ← hoffset]
  rfl

/-- Each token starts between two characters of the text that is cut. -/
theorem Segmentation.exists_boundary {segmentation : Segmentation} {reader : Reader}
    {source before : List Char} (hsource : source = before ++ segmentation.written)
    (hoffset : reader.offset = byteLength before) :
    ∀ token ∈ segmentation.tokens reader, ∃ front rest, source = front ++ rest ∧
      token.span.start = .ofByte reader.file (byteLength front) := by
  induction segmentation generalizing reader before with
  | stop blanks =>
      intro token htoken
      obtain rfl := List.mem_singleton.mp htoken
      refine ⟨before ++ blanks.val, [], ?_, ?_⟩
      · rw [hsource, List.append_nil]
        rfl
      · rw [byteLength_append, ← hoffset]
        rfl
  | next blanks segment rest ih =>
      have hbehind : source =
          (before ++ blanks.val ++ segment.text) ++ rest.written := by
        rw [hsource, List.append_assoc, List.append_assoc]
        rfl
      rw [tokens, List.forall_mem_cons]
      constructor
      · refine ⟨before ++ blanks.val, segment.text ++ rest.written, ?_, ?_⟩
        · rw [hbehind, List.append_assoc]
        · rw [byteLength_append, ← hoffset]
          rfl
      · apply ih hbehind
        rw [byteLength_append, byteLength_append, ← hoffset]
        rfl

/-- The tokens of a source end in an end token. -/
theorem Segmentation.terminated_tokens (segmentation : Segmentation) (reader : Reader) :
    Token.terminated (segmentation.tokens reader) = segmentation.tokens reader := by
  have hlast : ∃ last, (segmentation.tokens reader).getLast? = some last ∧
      last.isEnd = true := by
    induction segmentation generalizing reader with
    | stop blanks => exact ⟨_, rfl, rfl⟩
    | next blanks segment rest ih =>
        obtain ⟨last, hlast, hend⟩ := ih ((reader.skip blanks).pass segment.kind segment.text)
        refine ⟨last, ?_, hend⟩
        rw [tokens, List.getLast?_cons, hlast]
        rfl
  obtain ⟨last, hlast, hend⟩ := hlast
  rw [Token.terminated, hlast]
  exact if_pos hend

end Scanner

section Parser

variable {semicolons : Semicolons} {tokens : List Token} {diagnostic : Diagnostic}

/-- The token under the cursor of a session is that of the list. -/
theorem Session.exists_index (hterminated : Token.terminated tokens = tokens) {session : Session}
    (hbefore : (Session.start tokens).Before session) :
    ∃ index, tokens[index]? = some session.cursor.current ∧
      session.cursor.upcoming = tokens.drop index := by
  obtain ⟨passed, hpassed⟩ := hbefore
  rw [start, Cursor.upcoming_ofTokens, hterminated] at hpassed
  obtain ⟨others, hothers⟩ := session.cursor.current_cons_upcoming
  refine ⟨passed.length, ?_, ?_⟩
  · rw [← hpassed, List.getElem?_append_right (Nat.le_refl _), hothers, Nat.sub_self]
    rfl
  · rw [← hpassed, List.drop_left]

/-- A parser that fails points at a token of its list. -/
theorem exists_pointsInto_of_parse_error (hterminated : Token.terminated tokens = tokens)
    (hparse : parse semicolons tokens = .error diagnostic) :
    ∃ after, Parse.reading semicolons Production.program (.start tokens) =
        .error diagnostic after ∧ diagnostic.PointsInto semicolons tokens after := by
  have hsettles := parse_settles semicolons tokens
  rw [hparse] at hsettles
  have hpoints := Parse.reading_program_points semicolons (.start tokens)
  unfold parse EStateM.run at hparse
  split at hparse
  · cases hparse
  · rename_i failure after hrun
    cases hparse
    refine ⟨after, hrun, ?_⟩
    unfold Parse.PointsFrom at hpoints
    rw [hrun] at hpoints
    cases hpoints with
    | @here _ reason hreason hafter =>
        obtain ⟨index, htoken, hupcoming⟩ := Session.exists_index hterminated hafter
        exact ⟨index, _, reason, htoken, hsettles, rfl, rfl, fun _ => hupcoming,
          fun hname => absurd hname hreason⟩
    | @nameless opening _ hopening hafter hnameless =>
        obtain ⟨index, htoken, hupcoming⟩ := Session.exists_index hterminated hopening
        exact ⟨index, _, .expectedFunctionName, htoken, rfl, rfl, rfl,
          fun hname => absurd rfl hname, fun _ => ⟨opening, hupcoming, hafter, hnameless⟩⟩

end Parser

/-- Every failure to read the source points into it, at a character below its end where the
scanner fails, and at a token where the parser does; rendered, it shows the line it points into. -/
def FailuresPointInto (semicolons : Semicolons) (source file : String) : Prop :=
  match tokenize source file with
  | .error diagnostic =>
      diagnostic.position.IsBoundary source ∧
        diagnostic.position.offset.toNat < byteLength source.toList ∧ diagnostic.ShowsLine source
  | .ok tokens =>
      ∀ diagnostic, parse semicolons tokens = .error diagnostic →
        (∃ after, Parse.reading semicolons Production.program (.start tokens) =
            .error diagnostic after ∧ diagnostic.PointsInto semicolons tokens after) ∧
          diagnostic.position.IsBoundary source ∧ diagnostic.ShowsLine source

theorem failures_point_into_source (semicolons : Semicolons) (source file : String)
    (hsource : byteLength source.toList < UInt32.size) :
    FailuresPointInto semicolons source file := by
  have hfits : ∀ {front rest : List Char}, source.toList = front ++ rest →
      (Position.ofByte file (byteLength front)).offset.toNat = byteLength front := by
    intro front rest hsplit
    apply Position.ofByte_offset_toNat
    rw [hsplit, byteLength_append] at hsource
    exact Nat.lt_of_le_of_lt (Nat.le_add_right _ _) hsource
  unfold FailuresPointInto
  cases htokens : tokenize source file with
  | error diagnostic =>
      obtain ⟨front, rest, hsplit, hrest, hposition⟩ :=
        exists_boundary_of_scan_error (List.nil_append _).symm rfl htokens
      have hboundary : diagnostic.position.IsBoundary source :=
        ⟨front, rest, hsplit, by rw [hposition, hfits hsplit]⟩
      refine ⟨hboundary, ?_, Diagnostic.showsLine_of_isBoundary hboundary⟩
      rw [hposition, hfits hsplit, hsplit, byteLength_append]
      exact Nat.lt_add_of_pos_right (byteLength_pos hrest)
  | ok tokens =>
      intro diagnostic hparse
      obtain ⟨segmentation, hwritten, -, rfl⟩ := exists_segmentation htokens
      obtain ⟨after, hrun, hpoints⟩ := exists_pointsInto_of_parse_error
        (segmentation.terminated_tokens _) hparse
      refine ⟨⟨after, hrun, hpoints⟩, ?_⟩
      obtain ⟨index, token, reason, htoken, -, -, hposition, -⟩ := hpoints
      obtain ⟨front, rest, hsplit, hstart⟩ := segmentation.exists_boundary
        (hwritten.trans (List.nil_append _).symm) rfl token (List.mem_of_getElem? htoken)
      have hboundary : diagnostic.position.IsBoundary source :=
        ⟨front, rest, hsplit, by rw [hposition, hstart, hfits hsplit]⟩
      exact ⟨hboundary, Diagnostic.showsLine_of_isBoundary hboundary⟩

/-- A definition without a name, in the second line. -/
theorem failures_point_into_source_nameless :
    let source := "x;\n function () \x7b\x7d\n"
    byteLength source.toList < UInt32.size ∧ FailuresPointInto .inserted source "a" ∧
      ∃ diagnostic, (tokenize source "a").bind (parse .inserted) = .error diagnostic ∧
        diagnostic.ShowsLine source ∧
        diagnostic.render source =
          "Error: SyntaxError (expected function name, found `function`)\n-> a\n" ++
            "  |\n2 | function () \x7b\x7d\n  | ^\n" := by
  intro source
  have hsource : byteLength source.toList < UInt32.size := by decide +kernel
  refine ⟨hsource, failures_point_into_source .inserted source "a" hsource, ?_⟩
  let failure : Diagnostic := ⟨.syntactic "function" .expectedFunctionName, .ofByte "a" 4⟩
  have hread : (tokenize source "a").bind (parse .inserted) = .error failure :=
    eq_error_of_fails (by decide +kernel)
  have hboundary : failure.position.IsBoundary source :=
    ⟨"x;\n ".toList, "function () \x7b\x7d\n".toList, by decide, by decide⟩
  exact ⟨failure, hread, Diagnostic.showsLine_of_isBoundary hboundary, by decide +kernel⟩

end ScriptSyntax

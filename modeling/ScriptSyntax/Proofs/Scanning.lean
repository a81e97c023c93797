import ScriptSyntax.Token.Scan

/-!
# Tokens in source order

Spans are in order if each runs forwards and starts at or after the end of the
one before it.  The scanner gives tokens in order as long as offsets fit into a
word: a token starts where the text before it ends.
-/

namespace ScriptSyntax

open Text

namespace Span

/-- The span does not end before it starts. -/
def Forward (span : Span) : Prop :=
  span.start.offset ≤ span.stop.offset

/-- The first span ends at or before the start of the second. -/
def Precedes (first second : Span) : Prop :=
  first.stop.offset ≤ second.start.offset

/-- Each span runs forwards and starts at or after the end of the one before
it. -/
def InOrder : List Span → Prop
  | [] => True
  | span :: spans => span.Forward ∧ (∀ next ∈ spans.head?, span.Precedes next) ∧ InOrder spans

/-- Spans in order run forwards, and an earlier one precedes a later one. -/
theorem InOrder.pairwise {spans : List Span} (hspans : InOrder spans) :
    (∀ span ∈ spans, span.Forward) ∧ spans.Pairwise Precedes := by
  induction spans with
  | nil => exact ⟨List.forall_mem_nil _, List.Pairwise.nil⟩
  | cons span spans ih =>
      obtain ⟨hforward, hnext, hothers⟩ := hspans
      obtain ⟨hall, hpairwise⟩ := ih hothers
      refine ⟨List.forall_mem_cons.mpr ⟨hforward, hall⟩, List.pairwise_cons.mpr ⟨?_, hpairwise⟩⟩
      intro other hother
      cases spans with
      | nil => cases hother
      | cons next spans =>
          have hfirst : span.Precedes next := hnext next rfl
          rcases List.mem_cons.mp hother with rfl | hother
          · exact hfirst
          · have hrest := (List.pairwise_cons.mp hpairwise).1 other hother
            have hnextForward := hall next List.mem_cons_self
            exact UInt32.le_trans (UInt32.le_trans hfirst hnextForward) hrest

end Span

/-- The tokens stand in source order. -/
def Token.InOrder (tokens : List Token) : Prop :=
  Span.InOrder (tokens.map Token.span)

theorem Reader.offset_span (reader : Reader) {bytes : Nat}
    (hbytes : reader.offset + bytes < UInt32.size) :
    (reader.span bytes).start.offset.toNat = reader.offset ∧
      (reader.span bytes).stop.offset.toNat = reader.offset + bytes :=
  ⟨Position.ofByte_offset_toNat _ (by omega), Position.ofByte_offset_toNat _ hbytes⟩

/-- Tokens in order from an offset on. -/
def Token.InOrderFrom (offset : Nat) (tokens : List Token) : Prop :=
  Token.InOrder tokens ∧ ∀ token ∈ tokens.head?, offset ≤ token.span.start.offset.toNat

theorem Token.InOrderFrom.mono {offset earlier : Nat} {tokens : List Token}
    (htokens : Token.InOrderFrom offset tokens) (hoffset : earlier ≤ offset) :
    Token.InOrderFrom earlier tokens :=
  ⟨htokens.1, fun token htoken => Nat.le_trans hoffset (htokens.2 token htoken)⟩

/-- A token whose span is that of the next bytes, before tokens in order behind
them. -/
theorem Token.InOrderFrom.cons {reader : Reader} {bytes : Nat} {token : Token}
    {tokens : List Token} (hspan : token.span = reader.span bytes)
    (hbytes : reader.offset + bytes < UInt32.size)
    (htokens : Token.InOrderFrom (reader.offset + bytes) tokens) :
    Token.InOrderFrom reader.offset (token :: tokens) := by
  obtain ⟨hstart, hstop⟩ := reader.offset_span hbytes
  refine ⟨⟨?_, ?_, htokens.1⟩, ?_⟩
  · rw [hspan, Span.Forward, UInt32.le_iff_toNat_le, hstart, hstop]
    exact Nat.le_add_right ..
  · intro next hnext
    rw [List.head?_map] at hnext
    obtain ⟨other, hother, rfl⟩ := Option.map_eq_some_iff.mp hnext
    rw [hspan, Span.Precedes, UInt32.le_iff_toNat_le, hstop]
    exact htokens.2 other hother
  · rintro _ ⟨⟩
    apply Nat.le_of_eq
    rw [hspan, hstart]

/-- Cutting a text does not change its length. -/
theorem Text.byteLength_take_add_drop (text : List Char) (length : Nat) :
    byteLength (text.take length) + byteLength (text.drop length) = byteLength text := by
  rw [← byteLength_append, List.take_append_drop]

theorem scan_inOrderFrom {reader : Reader} {previous : Option Token} {text : List Char}
    (hbytes : reader.offset + byteLength text < UInt32.size) {tokens : List Token}
    (hscan : scan reader previous text = .ok tokens) :
    Token.InOrderFrom reader.offset tokens := by
  fun_induction scan reader previous text generalizing tokens with
  | case1 reader =>
      cases hscan
      exact Token.InOrderFrom.cons rfl hbytes ⟨trivial, fun _ htoken => nomatch htoken⟩
  | case2 => cases hscan
  | case3 =>
      rename_i reader previous head tail lexeme _ taken rest _ ih
      have hlength := byteLength_take_add_drop (head :: tail) lexeme.length
      have hrest : (reader.skip taken).offset + byteLength rest < UInt32.size := by
        simp only [Reader.skip, taken, rest]
        omega
      apply (ih hrest hscan).mono
      exact Nat.le_add_right ..
  | case4 =>
      rename_i reader previous head tail lexeme _ taken rest kind _ token ih
      have hlength := byteLength_take_add_drop (head :: tail) lexeme.length
      have hrest : (reader.pass kind taken).offset + byteLength rest < UInt32.size := by
        simp only [Reader.pass, taken, rest]
        omega
      cases hothers : scan (reader.pass kind taken) (token.significant previous) rest with
      | error diagnostic =>
          rw [hothers] at hscan
          cases hscan
      | ok others =>
          rw [hothers] at hscan
          cases hscan
          have htaken : reader.offset + byteLength taken < UInt32.size :=
            Nat.lt_of_le_of_lt (Nat.le_add_right ..) hrest
          exact Token.InOrderFrom.cons rfl htaken (ih hrest hothers)

/-- The tokens of a source stand in source order if its length fits into a
word. -/
theorem tokenize_inOrder {source file : String} {tokens : List Token}
    (hsource : byteLength source.toList < UInt32.size)
    (htokens : tokenize source file = .ok tokens) : Token.InOrder tokens := by
  have hbytes : (Reader.mk file 0 false).offset + byteLength source.toList < UInt32.size := by
    rwa [Nat.zero_add]
  exact (scan_inOrderFrom hbytes htokens).1

/-- A reading that fails with the given diagnostic. -/
theorem eq_error_of_fails {Value : Type} {reading : Except Diagnostic Value}
    {failure : Diagnostic}
    (hfails : (match reading with
      | .error diagnostic => decide (diagnostic = failure)
      | .ok _ => false) = true) : reading = .error failure := by
  cases reading with
  | error diagnostic => rw [of_decide_eq_true hfails]
  | ok value => cases hfails

/-- A source that is read, and something of its tokens. -/
theorem exists_tokenize_eq {Value : Type} {source file : String} {read : List Token → Value}
    {value : Value} (hread : (tokenize source file).toOption.map read = some value) :
    ∃ tokens, tokenize source file = .ok tokens ∧ read tokens = value := by
  cases htokens : tokenize source file with
  | error diagnostic =>
      rw [htokens] at hread
      cases hread
  | ok tokens =>
      rw [htokens] at hread
      exact ⟨tokens, rfl, Option.some.inj hread⟩

end ScriptSyntax

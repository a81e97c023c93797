import ScriptSyntax.Proofs.Progress
import ScriptSyntax.Proofs.Reach.Statement
import ScriptSyntax.Proofs.Tiling

/-!
# Statements end in semicolons

In the tokens of a source, those that a node covers and those behind it can be told apart
by offsets alone.  The last token that a statement covers is its semicolon; where one was
inserted, the statement is followed by what lets a semicolon be left out.
-/

namespace ScriptSyntax

open Text

/-- The span covers the token.  A token without text, such as the one at the end of a
source, is covered by no span. -/
def Span.covers (span : Span) (token : Token) : Bool :=
  span.contains token.span && decide (token.span.start.offset < token.span.stop.offset)

namespace Token

/-- The tokens that a span covers. -/
def within (span : Span) (tokens : List Token) : List Token :=
  tokens.filter span.covers

/-- The tokens that start at or after the end of a span. -/
def behind (span : Span) (tokens : List Token) : List Token :=
  tokens.filter fun token => span.stop.offset ≤ token.span.start.offset

/-- A statement before the token may leave its semicolon out. -/
def sparesSemicolon (token : Token) : Bool :=
  token.isPunctuation "\x7d" || token.isEnd || token.kind == .lineComment || token.newlineBefore

/-- All tokens but the end token have a text. -/
def Solid (tokens : List Token) : Prop :=
  ∀ token ∈ tokens, token.isEnd = false → token.span.start.offset < token.span.stop.offset

end Token

/-- Where a closing brace, or nothing, is the next thing on the line, a semicolon may be left
out before the first token that is not passed over. -/
theorem Cursor.exists_sparing {tokens : List Token} {last : Token} (hlast : last.isEnd = true)
    (hline : (firstOnLine? tokens).all (·.isPunctuation "\x7d") = true) :
    ∃ next, (tokens ++ [last]).find? (!·.isPassedOver) = some next ∧
      next.sparesSemicolon = true := by
  induction tokens with
  | nil =>
      have hkind : last.kind = .eof := beq_iff_eq.mp hlast
      exact ⟨last, by simp [Token.isPassedOver, hkind], by simp [Token.sparesSemicolon, hlast]⟩
  | cons token tokens ih =>
      rw [List.cons_append, List.find?_cons]
      rw [firstOnLine?] at hline
      by_cases hover : token.isPassedOver = true
      · have hsame : (token.newlineBefore || token.isEnd || token.kind == .lineComment) = false ∧
            (token.kind == .blockComment) = true := by
          simp only [Token.isPassedOver, Bool.and_eq_true, beq_iff_eq] at hover
          simp_all [Token.isEnd]
        rw [if_neg (by simp [hsame.1]), if_pos hsame.2] at hline
        simpa [hover] using ih hline
      · refine ⟨token, by simp [hover], ?_⟩
        split at hline
        · rename_i hspares
          simp only [Bool.or_eq_true] at hspares
          rcases hspares with (hnewline | hend) | hcomment
          · simp [Token.sparesSemicolon, hnewline]
          · simp [Token.sparesSemicolon, hend]
          · simp [Token.sparesSemicolon, hcomment]
        · split at hline
          · simp_all [Token.isPassedOver]
          · rw [Option.all_some] at hline
            simp [Token.sparesSemicolon, hline]

/-- Tokens around one of them, in source order. -/
theorem Token.InOrder.around {front after : List Token} {token : Token}
    (horder : Token.InOrder (front ++ token :: after)) :
    (∀ earlier ∈ front, earlier.span.Forward ∧ earlier.span.Precedes token.span) ∧
      ∀ later ∈ after, token.span.Precedes later.span := by
  obtain ⟨hforward, hpairwise⟩ := Span.InOrder.pairwise horder
  rw [List.pairwise_map, List.pairwise_append, List.pairwise_cons] at hpairwise
  refine ⟨fun earlier hearlier => ⟨?_, ?_⟩, hpairwise.2.1.1⟩
  · exact hforward _ (List.mem_map_of_mem (List.mem_append_left _ hearlier))
  · exact hpairwise.2.2 earlier hearlier token List.mem_cons_self

namespace Span

variable {span : Span} {words later front after : List Token} {final : Token → Bool}
variable {token last : Token}

/-- The token that a span ends with is the last one it covers. -/
theorem within_getLast? (horder : Token.InOrder (front ++ token :: after))
    (hcovers : span.covers token = true) (hstop : span.stop = token.span.stop) :
    (Token.within span (front ++ token :: after)).getLast? = some token := by
  have hrest : after.filter span.covers = [] := by
    rw [List.filter_eq_nil_iff]
    intro other hother hcovered
    have hprecedes := horder.around.2 other hother
    simp only [covers, contains, Bool.and_eq_true, decide_eq_true_eq, hstop] at hcovered
    exact UInt32.lt_irrefl _ (UInt32.lt_of_lt_of_le hcovered.2
      (UInt32.le_trans hcovered.1.2 hprecedes))
  rw [Token.within, List.filter_append, List.filter_cons, if_pos hcovers, hrest]
  exact List.getLast?_concat

/-- The tokens behind the one that a span ends with are behind the span. -/
theorem behind_eq (horder : Token.InOrder (front ++ token :: after))
    (hwide : ∀ word ∈ front ++ [token], word.span.start.offset < word.span.stop.offset)
    (hstop : span.stop = token.span.stop) :
    Token.behind span (front ++ token :: after) = after := by
  obtain ⟨hfront, hafter⟩ := horder.around
  have htoken := hwide token (List.mem_append_right _ List.mem_cons_self)
  have hnone : (front ++ [token]).filter
      (fun word => decide (span.stop.offset ≤ word.span.start.offset)) = [] := by
    rw [List.filter_eq_nil_iff]
    intro word hword hbehind
    have hends : word.span.stop.offset ≤ token.span.stop.offset := by
      rcases List.mem_append.mp hword with hword | hword
      · exact UInt32.le_trans (hfront word hword).2 (UInt32.le_of_lt htoken)
      · rw [List.mem_singleton.mp hword]
        exact UInt32.le_refl _
    rw [decide_eq_true_eq, hstop] at hbehind
    exact UInt32.lt_irrefl _ (UInt32.lt_of_lt_of_le (hwide word hword)
      (UInt32.le_trans hends hbehind))
  rw [Token.behind, List.append_cons, List.filter_append, hnone, List.nil_append,
    List.filter_eq_self]
  intro other hother
  rw [decide_eq_true_eq, hstop]
  exact hafter other hother

/-- Among tokens in order, the last that a span covers is the one that it ends with, and those
that follow that one are behind the span. -/
theorem Covers.exists_within (hspan : span.Covers words later final)
    (horder : Token.InOrder (words ++ [last])) (hsolid : Token.Solid words)
    (hwords : ∀ word ∈ words, word.isEnd = false) :
    (∃ token, (Token.within span (words ++ [last])).getLast? = some token ∧
      final token = true) ∧ Token.behind span (words ++ [last]) = later ++ [last] := by
  obtain ⟨first, rest, token, ⟨before, rfl⟩, ⟨middle, hmiddle⟩, hfinal, hstart, hstop⟩ := hspan
  have hsplit : before ++ first :: rest ++ [last] =
      (before ++ middle) ++ token :: (later ++ [last]) := by simp [← hmiddle]
  have hwide : ∀ word ∈ before ++ middle ++ [token],
      word.span.start.offset < word.span.stop.offset := by
    intro word hword
    have hmem : word ∈ before ++ first :: rest := by
      rw [← hmiddle]
      simp only [List.mem_append, List.mem_cons, List.not_mem_nil, or_false] at hword ⊢
      grind
    exact hsolid word hmem (hwords word hmem)
  rw [hsplit] at horder ⊢
  have htoken := hwide token (List.mem_append_right _ List.mem_cons_self)
  have hfirst : first.span.start.offset ≤ token.span.start.offset := by
    cases middle with
    | nil =>
        cases hmiddle
        exact UInt32.le_refl _
    | cons head tail =>
        cases hmiddle
        obtain ⟨hforward, hprecedes⟩ := horder.around.1 first (by simp)
        exact UInt32.le_trans hforward hprecedes
  have hcovers : span.covers token = true := by
    simp [covers, contains, hstart, hstop, hfirst, htoken]
  exact ⟨⟨token, within_getLast? horder hcovers hstop, hfinal⟩, behind_eq horder hwide hstop⟩

end Span

/-- A scanned source has an end token, behind tokens with a text. -/
theorem exists_words_of_tokenize {source file : String} {tokens : List Token}
    (hsource : byteLength source.toList < UInt32.size)
    (htokens : tokenize source file = .ok tokens) :
    ∃ words last, tokens = words ++ [last] ∧ (∀ word ∈ words, word.isEnd = false) ∧
      last.isEnd = true ∧ Token.Solid words := by
  obtain ⟨segmentation, hwritten, hscanned, rfl⟩ := exists_segmentation htokens
  have htile := segmentation.tile hscanned ⟨file, 0, false⟩ [] hwritten rfl hsource
  obtain ⟨words, last, hsplit, hwords, hlast, -⟩ := segmentation.exists_last ⟨file, 0, false⟩
  refine ⟨words, last, hsplit, hwords, hlast, fun word hword => htile.solid word ?_⟩
  rw [hsplit]
  exact List.mem_append_left _ hword

/-- No two tokens of a source start at the same place. -/
theorem start_ne_of_tokenize {source file : String} {before later : List Token} {token : Token}
    (hsource : byteLength source.toList < UInt32.size)
    (htokens : tokenize source file = .ok (before ++ token :: later))
    (htoken : token.isEnd = false) :
    ∀ other ∈ before ++ later, other.span.start ≠ token.span.start := by
  obtain ⟨hbefore, hlater⟩ := (tokenize_inOrder hsource htokens).around
  obtain ⟨words, last, hsplit, hwords, hlast, hsolid⟩ := exists_words_of_tokenize hsource htokens
  -- The end token is behind the token, so all others up to it have a text.
  obtain ⟨between, rfl⟩ : ∃ between, words = before ++ token :: between := by
    rcases List.eq_nil_or_concat later with rfl | ⟨between, final, rfl⟩
    · obtain ⟨-, hsame⟩ := List.append_inj' hsplit rfl
      cases hsame
      rw [hlast] at htoken
      cases htoken
    · rw [List.concat_eq_append, ← List.cons_append, ← List.append_assoc] at hsplit
      exact ⟨between, (List.append_inj' hsplit rfl).1.symm⟩
  have hwide : ∀ word ∈ before ++ token :: between,
      word.span.start.offset < word.span.stop.offset := fun word hword =>
    hsolid word hword (hwords word hword)
  intro other hother hstart
  have hoffset := congrArg Position.offset hstart
  rcases List.mem_append.mp hother with hother | hother
  · have hlt := hwide other (List.mem_append_left _ hother)
    rw [hoffset] at hlt
    exact UInt32.lt_irrefl _ (UInt32.lt_of_lt_of_le hlt (hbefore other hother).2)
  · have hlt := hwide token (List.mem_append_right _ List.mem_cons_self)
    rw [← hoffset] at hlt
    exact UInt32.lt_irrefl _ (UInt32.lt_of_lt_of_le hlt (hlater other hother))

theorem Cursor.pending_ofTokens_append {words : List Token} {last : Token}
    (hlast : last.isEnd = true) : (ofTokens (words ++ [last])).pending = words := by
  have hkind : last.kind = .eof := beq_iff_eq.mp hlast
  simp [ofTokens, hkind]

/-- Inserting semicolons is sound: the last token that a statement of the kinds that end in a
semicolon covers is one, unless semicolons are inserted and the first token behind the
statement that is not passed over lets it be left out. -/
theorem statements_end_in_semicolons (semicolons : Semicolons) {source file : String}
    {tokens : List Token} {tree : Tree} (hsource : byteLength source.toList < UInt32.size)
    (htokens : tokenize source file = .ok tokens) (hparse : parse semicolons tokens = .ok tree)
    (id : NodeId) (shape : Shape NodeId) (hshape : tree.shape? id = some shape)
    (hterminated : shape.isTerminated = true) :
    ∃ last, (Token.within (tree.span id) tokens).getLast? = some last ∧
      (last.isPunctuation ";" = true ∨ semicolons = .inserted ∧
        ∃ next, (Token.behind (tree.span id) tokens).find? (!·.isPassedOver) = some next ∧
          next.sparesSemicolon = true) := by
  have horder := tokenize_inOrder hsource htokens
  obtain ⟨words, eof, rfl, hwords, heof, hsolid⟩ := exists_words_of_tokenize hsource htokens
  obtain ⟨later, hends⟩ := ended_of_parse hparse id shape hshape hterminated
  rw [Cursor.pending_ofTokens_append heof] at hends
  rcases hends with hwritten | ⟨hinserted, hbare, hline⟩
  · obtain ⟨⟨last, hlast, hsemicolon⟩, -⟩ := hwritten.exists_within horder hsolid hwords
    exact ⟨last, hlast, .inl hsemicolon⟩
  · obtain ⟨⟨last, hlast, -⟩, hbehind⟩ := hbare.exists_within horder hsolid hwords
    obtain ⟨next, hnext, hspares⟩ := Cursor.exists_sparing heof hline
    rw [← hbehind] at hnext
    exact ⟨last, hlast, .inr ⟨hinserted, next, hnext, hspares⟩⟩

/-- A jump before a comment and a closing brace. -/
theorem statements_end_in_semicolons_jump :
    ∃ tokens tree, tokenize "a: \x7b break a /* b */ \x7d" "<input>" = .ok tokens ∧
      parse .inserted tokens = .ok tree ∧
      ∃ label, tree.shape? 1 = some (.jump .breaks (some label)) ∧
        ∃ last, (Token.within (tree.span 1) tokens).getLast? = some last ∧
          (last.isPunctuation ";" = true ∨ Semicolons.inserted = .inserted ∧
            ∃ next, (Token.behind (tree.span 1) tokens).find? (!·.isPassedOver) = some next ∧
              next.sparesSemicolon = true) := by
  have hshape : ((tokenize "a: \x7b break a /* b */ \x7d" "<input>").toOption.bind fun tokens =>
      (parse .inserted tokens).toOption.bind (Tree.shape? · 1)) =
      some (.jump .breaks (some
        ⟨.identifier, "a", ⟨.ofByte "<input>" 11, .ofByte "<input>" 12⟩, false⟩)) := by
    decide +kernel
  cases htokens : tokenize "a: \x7b break a /* b */ \x7d" "<input>" with
  | error diagnostic => simp [htokens, Except.toOption] at hshape
  | ok tokens =>
      cases hparse : parse .inserted tokens with
      | error diagnostic => simp [htokens, hparse, Except.toOption] at hshape
      | ok tree =>
          simp only [htokens, hparse, Except.toOption, Option.bind_some] at hshape
          exact ⟨tokens, tree, rfl, hparse, _, hshape,
            statements_end_in_semicolons .inserted (by decide) htokens hparse 1 _ hshape rfl⟩

end ScriptSyntax

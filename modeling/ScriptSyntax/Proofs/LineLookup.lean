import ScriptSyntax.Source.Line

/-!
# Looking up lines

The lines of a source are determined by what cutting after each line feed means:
together they give the source, a line feed ends its line, and every line but the
last is ended by one.  A source without text is one line without text.  A byte
position up to the end of the source has a place in these lines, and no other
position has one.
-/

namespace ScriptSyntax

open Text

/-- A text cut after each line feed. -/
structure CutAfterFeeds (text : List Char) (cut : List (List Char)) : Prop where
  whole : cut.flatten = text
  /-- A text without characters is one empty line; no other text has one. -/
  filled : cut = [[]] ∨ cut ≠ [] ∧ [] ∉ cut
  ended : ∀ line ∈ cut.dropLast, line.getLast? = some '\n'
  inside : ∀ line ∈ cut, '\n' ∉ line.dropLast

/-- A number is written without line feeds. -/
theorem lineFeed_not_mem_repr (number : Nat) : '\n' ∉ (Nat.repr number).toList := by
  rw [Nat.toList_repr]
  intro hfeed
  cases Nat.isDigit_of_mem_toDigits (by decide) (Nat.le_refl 10) hfeed

/-! ## The lines of a text -/

theorem lines_cons_of_ne {character : Char} (hfeed : character ≠ '\n') (text : List Char) :
    lines (character :: text) =
      match lines text with
      | [] => [[character]]
      | line :: others => (character :: line) :: others := by
  rw [lines]
  exact if_neg hfeed

theorem lines_ended {front : List Char} (hfront : '\n' ∉ front) (rest : List Char) :
    lines (front ++ '\n' :: rest) = (front ++ ['\n']) :: lines rest := by
  induction front with
  | nil => rw [List.nil_append, lines, if_pos rfl, List.nil_append]
  | cons character front ih =>
      rw [List.mem_cons, not_or] at hfront
      obtain ⟨hfeed, hothers⟩ := hfront
      rw [List.cons_append, lines_cons_of_ne (Ne.symm hfeed), ih hothers, List.cons_append]

theorem lines_unended {line : List Char} (hfeed : '\n' ∉ line) (hline : line ≠ []) :
    lines line = [line] := by
  induction line with
  | nil => exact absurd rfl hline
  | cons character line ih =>
      rw [List.mem_cons, not_or] at hfeed
      obtain ⟨hcharacter, hothers⟩ := hfeed
      rw [lines_cons_of_ne (Ne.symm hcharacter)]
      cases line with
      | nil => rfl
      | cons second line => rw [ih hothers (List.cons_ne_nil _ _)]

theorem lines_single {line : List Char} (hinside : '\n' ∉ line.dropLast) (hline : line ≠ []) :
    lines line = [line] := by
  have hparts := List.dropLast_concat_getLast hline
  by_cases hlast : line.getLast hline = '\n'
  · rw [← hparts, hlast, lines_ended hinside]
    rfl
  · apply lines_unended _ hline
    rw [← hparts, List.mem_append, List.mem_singleton, not_or]
    exact ⟨hinside, Ne.symm hlast⟩

/-- Lines are found again when they are put together. -/
theorem lines_of_flatten {cut : List (List Char)} (hfilled : [] ∉ cut)
    (hended : ∀ line ∈ cut.dropLast, line.getLast? = some '\n')
    (hinside : ∀ line ∈ cut, '\n' ∉ line.dropLast) : lines cut.flatten = cut := by
  induction cut with
  | nil => rfl
  | cons line others ih =>
      rw [List.mem_cons, not_or] at hfilled
      obtain ⟨hline, hothers⟩ := hfilled
      obtain ⟨hfirst, hbehind⟩ := List.forall_mem_cons.mp hinside
      rw [List.flatten_cons]
      cases others with
      | nil => rw [List.flatten_nil, List.append_nil, lines_single hfirst (Ne.symm hline)]
      | cons second others =>
          rw [List.dropLast_cons_cons, List.forall_mem_cons] at hended
          obtain ⟨front, rfl⟩ := List.getLast?_eq_some_iff.mp hended.1
          rw [List.dropLast_concat] at hfirst
          rw [List.append_assoc, List.singleton_append, lines_ended hfirst,
            ih hothers hended.2 hbehind]

/-- The lines of a text are not empty, and a line feed stands at the end of each
but the last, and nowhere else. -/
theorem lines_wellformed (text : List Char) :
    [] ∉ lines text ∧ (∀ line ∈ (lines text).dropLast, line.getLast? = some '\n') ∧
      ∀ line ∈ lines text, '\n' ∉ line.dropLast := by
  induction text with
  | nil => simp [lines]
  | cons character text ih =>
      obtain ⟨hfilled, hended, hinside⟩ := ih
      by_cases hfeed : character = '\n'
      · rw [lines, if_pos hfeed, hfeed]
        cases hlines : lines text with
        | nil => simp
        | cons line others =>
            rw [hlines] at hfilled hended hinside
            refine ⟨?_, ?_, ?_⟩
            · simpa using hfilled
            · rw [List.dropLast_cons_cons]
              exact List.forall_mem_cons.mpr ⟨rfl, hended⟩
            · exact List.forall_mem_cons.mpr ⟨List.not_mem_nil, hinside⟩
      · rw [lines_cons_of_ne hfeed]
        cases hlines : lines text with
        | nil => simp
        | cons line others =>
            rw [hlines] at hfilled hended hinside
            simp only [List.mem_cons, not_or] at hfilled
            obtain ⟨hline, hothers⟩ := hfilled
            obtain ⟨second, line, rfl⟩ := List.exists_cons_of_ne_nil (Ne.symm hline)
            refine ⟨?_, ?_, ?_⟩
            · simpa using hothers
            · cases others with
              | nil => simp
              | cons next others =>
                  rw [List.dropLast_cons_cons, List.forall_mem_cons] at hended ⊢
                  exact ⟨by rw [List.getLast?_cons_cons, hended.1], hended.2⟩
            · rw [List.forall_mem_cons] at hinside ⊢
              refine ⟨?_, hinside.2⟩
              rw [List.dropLast_cons_cons, List.mem_cons, not_or]
              exact ⟨Ne.symm hfeed, hinside.1⟩

theorem cutAfterFeeds_nil : CutAfterFeeds [] [[]] :=
  ⟨rfl, .inl rfl, List.forall_mem_nil _, by simp⟩

theorem lines_ne_nil {text : List Char} (htext : text ≠ []) : lines text ≠ [] := by
  intro hnone
  rw [← lines_flatten text, hnone] at htext
  exact htext rfl

theorem cutAfterFeeds_lines {text : List Char} (htext : text ≠ []) :
    CutAfterFeeds text (lines text) := by
  obtain ⟨hfilled, hended, hinside⟩ := lines_wellformed text
  exact ⟨lines_flatten text, .inr ⟨lines_ne_nil htext, hfilled⟩, hended, hinside⟩

/-- There is one way to cut a text after each line feed. -/
theorem cutAfterFeeds_iff {text : List Char} {cut : List (List Char)} :
    CutAfterFeeds text cut ↔ text = [] ∧ cut = [[]] ∨ text ≠ [] ∧ cut = lines text := by
  constructor
  · intro hcut
    have hwhole := hcut.whole
    rcases hcut.filled with rfl | ⟨hsome, hfilled⟩
    · exact .inl ⟨hwhole.symm, rfl⟩
    · refine .inr ⟨fun htext => ?_, ?_⟩
      · rw [htext, List.flatten_eq_nil_iff] at hwhole
        obtain ⟨line, others, rfl⟩ := List.exists_cons_of_ne_nil hsome
        exact hfilled (hwhole line List.mem_cons_self ▸ List.mem_cons_self)
      · rw [← hwhole, lines_of_flatten hfilled hcut.ended hcut.inside]
  · rintro (⟨rfl, rfl⟩ | ⟨htext, rfl⟩)
    · exact cutAfterFeeds_nil
    · exact cutAfterFeeds_lines htext

theorem exists_cutAfterFeeds (text : List Char) : ∃ cut, CutAfterFeeds text cut := by
  by_cases htext : text = []
  · exact ⟨[[]], htext ▸ cutAfterFeeds_nil⟩
  · exact ⟨lines text, cutAfterFeeds_lines htext⟩

/-! ## Places in lines -/

/-- The location is a place of the byte position in the lines of a source. -/
structure Location.IsPlace (location : Location) (cut : List (List Char)) (position : Nat) :
    Prop where
  number_pos : 1 ≤ location.number
  number_le : location.number ≤ cut.length
  line_eq : cut[location.number - 1]? = some location.line
  position_eq : byteLength (cut.take (location.number - 1)).flatten + location.column = position
  column_le : location.column ≤ byteLength location.line
  column_lt : position ≠ byteLength cut.flatten → location.column < byteLength location.line

theorem exists_locateByte {cut : List (List Char)} {position : Nat}
    (hinside : position < byteLength cut.flatten) (number : Nat) :
    ∃ index line column, locateByte number cut position = some ⟨number + index, line, column⟩ ∧
      cut[index]? = some line ∧ byteLength (cut.take index).flatten + column = position ∧
        column < byteLength line := by
  induction cut generalizing number position with
  | nil => cases hinside
  | cons line others ih =>
      rw [List.flatten_cons, byteLength_append] at hinside
      rw [locateByte]
      split
      · rename_i hline
        exact ⟨0, line, position, rfl, rfl, Nat.zero_add _, hline⟩
      · have hothers : position - byteLength line < byteLength others.flatten := by omega
        obtain ⟨index, found, column, hfound, hindex, hposition, hcolumn⟩ :=
          ih hothers (number + 1)
        refine ⟨index + 1, found, column, ?_, hindex, ?_, hcolumn⟩
        · rw [hfound, Nat.add_right_comm, Nat.add_assoc]
        · rw [List.take_succ_cons, List.flatten_cons, byteLength_append]
          omega

theorem locateByte_eq_none {cut : List (List Char)} {position : Nat}
    (hbeyond : byteLength cut.flatten ≤ position) (number : Nat) :
    locateByte number cut position = none := by
  induction cut generalizing number position with
  | nil => rfl
  | cons line others ih =>
      rw [List.flatten_cons, byteLength_append] at hbeyond
      rw [locateByte, if_neg (by omega)]
      exact ih (by omega) _

theorem locateEnd_isPlace {cut : List (List Char)} (hcut : cut ≠ []) :
    (locateEnd cut).IsPlace cut (byteLength cut.flatten) := by
  have hparts := List.dropLast_concat_getLast hcut
  generalize cut.dropLast = front, cut.getLast hcut = last at hparts
  subst hparts
  have hend : locateEnd (front ++ [last]) = ⟨front.length + 1, last, byteLength last⟩ := by
    simp [locateEnd]
  rw [hend]
  exact {
    number_pos := Nat.le_add_left ..
    number_le := by simp
    line_eq := by simp
    position_eq := by simp
    column_le := Nat.le_refl _
    column_lt := fun hother => absurd rfl hother }

theorem locate?_eq_none_iff (source : String) (position : Nat) :
    locate? source position = none ↔ byteLength source.toList < position := by
  simp [locate?]

theorem isPlace_of_locate? {source : String} {cut : List (List Char)}
    (hcut : CutAfterFeeds source.toList cut) {position : Nat} {location : Location}
    (hlocated : locate? source position = some location) : location.IsPlace cut position := by
  have hinside : position ≤ byteLength source.toList := by
    apply Nat.le_of_not_lt
    rw [← locate?_eq_none_iff, hlocated]
    exact fun hnone => nomatch hnone
  simp only [locate?, if_neg (Nat.not_lt_of_le hinside), Option.some.injEq] at hlocated
  rcases cutAfterFeeds_iff.mp hcut with ⟨htext, rfl⟩ | ⟨htext, rfl⟩
  · rw [htext] at hinside hlocated
    obtain rfl := Nat.le_zero.mp hinside
    rw [← hlocated]
    show (locateEnd [[]]).IsPlace [[]] (byteLength [[]].flatten)
    exact locateEnd_isPlace (List.cons_ne_nil _ _)
  · rw [← lines_flatten source.toList] at hinside
    rcases Nat.lt_or_eq_of_le hinside with hbyte | rfl
    · obtain ⟨index, line, column, hfound, hindex, hposition, hcolumn⟩ :=
        exists_locateByte hbyte 1
      rw [hfound, Option.getD_some] at hlocated
      subst hlocated
      exact {
        number_pos := Nat.le_add_right ..
        number_le := by
          obtain ⟨hlength, -⟩ := List.getElem?_eq_some_iff.mp hindex
          rw [Nat.add_comm]
          exact hlength
        line_eq := by simpa using hindex
        position_eq := by simpa using hposition
        column_le := Nat.le_of_lt hcolumn
        column_lt := fun _ => hcolumn }
    · rw [locateByte_eq_none (Nat.le_refl _), Option.getD_none] at hlocated
      exact hlocated ▸ locateEnd_isPlace (lines_ne_nil htext)

/-- A byte position has no line exactly if it is beyond the end of the source;
otherwise the line found is the one that holds it, with its number and the bytes
before the position. -/
theorem locate?_exact {source : String} {cut : List (List Char)}
    (hcut : CutAfterFeeds source.toList cut) (position : Nat) :
    (locate? source position = none ↔ byteLength source.toList < position) ∧
      ∀ location, locate? source position = some location → location.IsPlace cut position :=
  ⟨locate?_eq_none_iff source position, fun _ hlocated => isPlace_of_locate? hcut hlocated⟩

/-- The end of a source whose last line has no line feed, and a byte inside a
character of a line behind an empty one. -/
theorem locate?_exact_lines :
    let source := "a\n\nbé"
    let cut := ["a\n".toList, "\n".toList, "bé".toList]
    CutAfterFeeds source.toList cut ∧
      (locate? source 7 = none ↔ byteLength source.toList < 7) ∧
      (∀ location, locate? source 6 = some location → location.IsPlace cut 6) ∧
        locate? source 5 = some ⟨3, "bé".toList, 2⟩ ∧
          Location.IsPlace ⟨3, "bé".toList, 2⟩ cut 5 := by
  intro source cut
  have hcut : CutAfterFeeds source.toList cut :=
    ⟨by decide, .inr (by decide), by decide, by decide⟩
  have hlocated : locate? source 5 = some ⟨3, "bé".toList, 2⟩ := by decide +kernel
  exact ⟨hcut, (locate?_exact hcut 7).1, (locate?_exact hcut 6).2, hlocated,
    (locate?_exact hcut 5).2 _ hlocated⟩

end ScriptSyntax

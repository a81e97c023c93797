import ScriptSyntax.Parse.Program
import ScriptSyntax.Proofs.Excerpts
import ScriptSyntax.Proofs.Tiling

/-!
# The column of the caret

A rendered diagnostic ends with the text of a line behind its number and, below
it, a caret.  The column of a place counts bytes and the rows are made of
characters, so the caret stands under the character at fault exactly if every
character before it in the row, from the first that is shown, is a single byte.
-/

namespace ScriptSyntax

open Text

namespace Text

/-! ## Bytes and characters -/

theorem length_le_byteLength (text : List Char) : text.length ≤ byteLength text := by
  induction text with
  | nil => exact Nat.le_refl 0
  | cons character text ih =>
      have hsize := Char.utf8Size_pos character
      rw [List.length_cons, byteLength_cons]
      omega

/-- A text has as many bytes as characters exactly if each of them is a single
byte. -/
theorem byteLength_eq_length_iff (text : List Char) :
    byteLength text = text.length ↔ ∀ character ∈ text, character.utf8Size = 1 := by
  induction text with
  | nil => simp
  | cons character text ih =>
      have hsize := Char.utf8Size_pos character
      have hothers := length_le_byteLength text
      rw [List.forall_mem_cons, ← ih, List.length_cons, byteLength_cons]
      omega

/-- Of two beginnings of a text the one with fewer bytes begins the other. -/
theorem begins_of_byteLength_le {left right text : List Char} (hleft : left <+: text)
    (hright : right <+: text) (hbytes : byteLength left ≤ byteLength right) : left <+: right := by
  rcases List.prefix_or_prefix_of_prefix hleft hright with hshort | ⟨middle, rfl⟩
  · exact hshort
  · cases middle with
    | nil => simp
    | cons character middle =>
        have hpos := byteLength_pos (List.cons_ne_nil character middle)
        rw [byteLength_append] at hbytes
        omega

end Text

/-! ## The place in its line -/

theorem utf8Size_of_isIndent {character : Char} (hindent : isIndent character = true) :
    character.utf8Size = 1 := by
  simp only [isIndent, Bool.or_eq_true, beq_iff_eq] at hindent
  rcases hindent with rfl | rfl <;> rfl

theorem Location.byteLength_indentation (location : Location) :
    byteLength location.indentation = location.indentation.length := by
  apply (byteLength_eq_length_iff _).mpr
  intro character hcharacter
  exact utf8Size_of_isIndent (List.all_eq_true.mp List.all_takeWhile character hcharacter)

/-- A line with what stands before and behind it in the source. -/
theorem Location.IsPlace.exists_around {location : Location} {cut : List (List Char)}
    {position : Nat} (hplace : location.IsPlace cut position) :
    ∃ before after, cut.flatten = before ++ (location.line ++ after) ∧
      byteLength before + location.column = position := by
  obtain ⟨hindex, hline⟩ := List.getElem?_eq_some_iff.mp hplace.line_eq
  refine ⟨(cut.take (location.number - 1)).flatten, (cut.drop (location.number - 1 + 1)).flatten,
    ?_, hplace.position_eq⟩
  calc cut.flatten
      = (cut.take (location.number - 1) ++ cut.drop (location.number - 1)).flatten := by
        rw [List.take_append_drop]
    _ = _ := by
        rw [List.drop_eq_getElem_cons hindex, hline, List.flatten_append, List.flatten_cons]

/-- A place between two characters cuts its line in two, and the source goes on
behind it as the line does. -/
theorem Location.IsPlace.exists_halves {location : Location} {cut : List (List Char)}
    {front rest : List Char} (hplace : location.IsPlace cut (byteLength front))
    (hwhole : cut.flatten = front ++ rest) :
    ∃ start behind, location.line = start ++ behind ∧ location.column = byteLength start ∧
      (rest ≠ [] → behind.head? = rest.head?) := by
  obtain ⟨before, after, haround, hcolumn⟩ := hplace.exists_around
  have hsource : front ++ rest = before ++ (location.line ++ after) := hwhole.symm.trans haround
  have hbefore : before <+: front ++ rest := ⟨_, hsource.symm⟩
  obtain ⟨start, rfl⟩ : before <+: front :=
    begins_of_byteLength_le hbefore (List.prefix_append ..) (by omega)
  rw [byteLength_append, Nat.add_left_cancel_iff] at hcolumn
  rw [List.append_assoc] at hsource
  have hbehind := List.append_cancel_left hsource
  have hownLine : location.line <+: start ++ rest := ⟨_, hbehind.symm⟩
  obtain ⟨behind, hline⟩ : start <+: location.line :=
    begins_of_byteLength_le (List.prefix_append ..) hownLine (hcolumn ▸ hplace.column_le)
  refine ⟨start, behind, hline.symm, hcolumn, fun hrest => ?_⟩
  rw [← hline, List.append_assoc] at hbehind
  have hparts := List.append_cancel_left hbehind
  -- Only the end of the source is a place behind the last character of its line.
  have hsome : behind ≠ [] := by
    rintro rfl
    have hinside : byteLength (before ++ start) ≠ byteLength cut.flatten := by
      have hpos := byteLength_pos hrest
      rw [hwhole]
      simp only [byteLength_append]
      omega
    have hlt := hplace.column_lt hinside
    rw [← hline, List.append_nil, hcolumn] at hlt
    exact Nat.lt_irrefl _ hlt
  obtain ⟨first, others, rfl⟩ := List.exists_cons_of_ne_nil hsome
  rw [hparts]
  rfl

/-- The text between the indentation of a line and a place behind it. -/
theorem Location.exists_lead {location : Location} {source : String} {front rest : List Char}
    (hsource : source.toList = front ++ rest)
    (hlocated : locate? source (byteLength front) = some location)
    (hindent : byteLength location.indentation ≤ location.column) :
    ∃ lead behind, location.line = location.indentation ++ (lead ++ behind) ∧
      location.column = byteLength location.indentation + byteLength lead ∧
        (rest ≠ [] → behind.head? = rest.head?) := by
  obtain ⟨cut, hcut⟩ := exists_cutAfterFeeds source.toList
  obtain ⟨start, behind, hline, hcolumn, hhead⟩ :=
    (isPlace_of_locate? hcut hlocated).exists_halves (hcut.whole.trans hsource)
  have hindented : location.indentation <+: location.line := List.takeWhile_prefix _
  obtain ⟨lead, hstart⟩ : location.indentation <+: start :=
    begins_of_byteLength_le hindented ⟨_, hline.symm⟩ (hcolumn ▸ hindent)
  refine ⟨lead, behind, ?_, ?_, hhead⟩
  · rw [← List.append_assoc, hstart, hline]
  · rw [hcolumn, ← hstart, byteLength_append]

/-! ## The caret below its row -/

/-- The character behind the lead is shown where it stands, if it is no blank. -/
theorem Location.getElem?_textRow {location : Location} {lead behind : List Char}
    (hline : location.line = location.indentation ++ (lead ++ behind)) {character : Char}
    (hhead : behind.head? = some character) (hblank : isBlank character = false) :
    location.textRow[(numbered location.number).length + lead.length]? = some character := by
  obtain ⟨others, rfl⟩ := List.head?_eq_some_iff.mp hhead
  have hshown : location.line.drop location.indentation.length = lead ++ character :: others := by
    rw [hline, List.drop_left]
  rw [textRow, hshown, trimEnd_append_cons hblank,
    List.getElem?_append_right (Nat.le_add_right ..), Nat.add_sub_cancel_left,
    List.getElem?_append_right (Nat.le_refl _), Nat.sub_self]
  rfl

/-- Below the row that shows a line, the caret is as many columns behind the
number and the bar as there are bytes between the indentation and the place.
These are as many as the characters exactly if each is a single byte, and then
the caret stands under the character at the place. -/
theorem caret_stands_under_iff {diagnostic : Diagnostic} {source : String} {location : Location}
    (hboundary : diagnostic.position.IsBoundary source)
    (hlocated : locate? source diagnostic.position.offset.toNat = some location)
    (hindent : byteLength location.indentation ≤ location.column) :
    ∃ before lead, diagnostic.EndsWithRows source location.textRow (before ++ ['^']) ∧
      '^' ∉ before ∧
      slice? (byteLength location.indentation) location.column location.line = some lead ∧
      before.length = (numbered location.number).length + byteLength lead ∧
      (before.length = (numbered location.number).length + lead.length ↔
        ∀ character ∈ lead, character.utf8Size = 1) ∧
      ((∀ character ∈ lead, character.utf8Size = 1) → ∀ character others,
        dropBytes? diagnostic.position.offset.toNat source.toList = some (character :: others) →
          isBlank character = false → location.textRow[before.length]? = some character) := by
  obtain ⟨front, rest, hsource, hoffset⟩ := hboundary
  have hplace := hlocated
  rw [hoffset] at hplace
  obtain ⟨lead, behind, hline, hcolumn, hhead⟩ := Location.exists_lead hsource hplace hindent
  have hlength : location.leader.length =
      (numbered location.number).length + byteLength lead := by
    rw [Location.length_leader, hcolumn, ← location.byteLength_indentation,
      Nat.add_sub_cancel_left]
  refine ⟨location.leader, lead, Diagnostic.endsWithRows hlocated, location.caret_not_mem_leader,
    ?_, hlength, ?_, ?_⟩
  · rw [hcolumn, hline]
    exact slice?_append location.indentation lead behind
  · rw [hlength, Nat.add_left_cancel_iff]
    exact byteLength_eq_length_iff lead
  · intro hsingle character others hdrop hblank
    rw [hoffset, hsource, dropBytes?_byteLength_append] at hdrop
    obtain rfl := Option.some.inj hdrop
    rw [hlength, (byteLength_eq_length_iff lead).mpr hsingle]
    exact Location.getElem?_textRow hline (hhead (List.cons_ne_nil _ _)) hblank

/-- A caret behind an indentation, in the second line. -/
theorem caret_stands_under_iff_indented :
    let source := "x\n\ty = 1 2;"
    let diagnostic : Diagnostic := ⟨.syntactic "2" (.expected ";"), .ofByte "a" 9⟩
    let location : Location := ⟨2, "\ty = 1 2;".toList, 7⟩
    diagnostic.position.IsBoundary source ∧
      locate? source diagnostic.position.offset.toNat = some location ∧
      byteLength location.indentation ≤ location.column ∧
      ∃ before lead, diagnostic.EndsWithRows source location.textRow (before ++ ['^']) ∧
        '^' ∉ before ∧ lead = "y = 1 ".toList ∧
        before.length = (numbered location.number).length + lead.length ∧
          location.textRow[before.length]? = some '2' := by
  intro source diagnostic location
  have hboundary : diagnostic.position.IsBoundary source :=
    ⟨"x\n\ty = 1 ".toList, "2;".toList, by decide, by decide⟩
  have hlocated : locate? source diagnostic.position.offset.toNat = some location := by
    decide +kernel
  have hindent : byteLength location.indentation ≤ location.column := by decide
  obtain ⟨before, lead, hrows, hcaret, hslice, -, haligned, hunder⟩ :=
    caret_stands_under_iff hboundary hlocated hindent
  have hlead : slice? (byteLength location.indentation) location.column location.line =
      some "y = 1 ".toList := by decide +kernel
  obtain rfl : lead = "y = 1 ".toList := Option.some.inj (hslice.symm.trans hlead)
  have hsingle : ∀ character ∈ "y = 1 ".toList, character.utf8Size = 1 :=
    (byteLength_eq_length_iff _).mp (by decide +kernel)
  have hdrop : dropBytes? diagnostic.position.offset.toNat source.toList = some "2;".toList := by
    decide +kernel
  exact ⟨hboundary, hlocated, hindent, before, _, hrows, hcaret, rfl, haligned.mpr hsingle,
    hunder hsingle '2' [';'] hdrop rfl⟩

/-- Behind a character of two bytes the caret stands one column too far to the
right. -/
theorem caret_beyond_wide_character :
    let source := "'é' 2"
    let diagnostic : Diagnostic := ⟨.syntactic "2" (.expected ";"), .ofByte "<input>" 5⟩
    (tokenize source "<input>").bind (parse .inserted) = .error diagnostic ∧
      diagnostic.position.IsBoundary source ∧
      diagnostic.rows source =
        ["Error: SyntaxError (expected ;, found `2`)".toList, "-> <input>".toList,
          "  |".toList, "1 | 'é' 2".toList, "  | -----^".toList] ∧
        ("  | -----".toList).length ≠ ("1 | ".toList).length + ("'é' ".toList).length := by
  intro source diagnostic
  have hread : (tokenize source "<input>").bind (parse .inserted) = .error diagnostic :=
    eq_error_of_fails (by decide +kernel)
  have hboundary : diagnostic.position.IsBoundary source :=
    ⟨"'é' ".toList, ['2'], by decide, by decide⟩
  exact ⟨hread, hboundary, by decide +kernel, by decide⟩

end ScriptSyntax

import Mathlib.Data.List.TakeDrop
import ScriptSyntax.Diagnostic.Excerpt
import ScriptSyntax.Proofs.LineLookup

/-!
# Rendered diagnostics

A diagnostic that points into its source is rendered in five rows.  The first two
name the failure and the source.  The last two show the line that holds the
position, behind its number and without its indentation, and a caret below it.
-/

namespace ScriptSyntax

open Text

namespace Text

/-! ## Trimmed ends -/

theorem trimEnd_begins (text : List Char) : trimEnd text <+: text := by
  have hends : text.reverse.dropWhile isBlank <:+ text.reverse := List.dropWhile_suffix _
  rwa [← List.reverse_prefix, List.reverse_reverse] at hends

/-- Trimming keeps what stands before a character that is no blank, and that
character. -/
theorem trimEnd_append_cons {character : Char} (hblank : isBlank character = false)
    (left right : List Char) :
    trimEnd (left ++ character :: right) = left ++ character :: trimEnd right := by
  have hkept : (character :: left.reverse).dropWhile isBlank = character :: left.reverse :=
    List.dropWhile_cons_of_neg (Bool.eq_false_iff.mp hblank)
  unfold trimEnd
  rw [List.reverse_append, List.reverse_cons, List.append_assoc, List.singleton_append,
    List.dropWhile_append]
  split
  · rename_i hnothing
    rw [List.isEmpty_iff.mp hnothing, hkept]
    simp
  · simp

theorem trimEnd_concat_of_isBlank {character : Char} (hblank : isBlank character = true)
    (text : List Char) : trimEnd (text ++ [character]) = trimEnd text := by
  rw [trimEnd, List.reverse_concat, List.dropWhile_cons_of_pos hblank, trimEnd]

/-- Trimming takes a line feed away that ends the text. -/
theorem lineFeed_not_mem_trimEnd {text : List Char} (hinside : '\n' ∉ text.dropLast) :
    '\n' ∉ trimEnd text := by
  by_cases htext : text = []
  · simp [htext, trimEnd]
  · have hparts := List.dropLast_concat_getLast htext
    by_cases hlast : text.getLast htext = '\n'
    · rw [← hparts, hlast, trimEnd_concat_of_isBlank rfl]
      exact fun hfeed => hinside ((trimEnd_begins _).subset hfeed)
    · intro hfeed
      have hmember := (trimEnd_begins text).subset hfeed
      rw [← hparts, List.mem_append, List.mem_singleton] at hmember
      exact hmember.elim hinside (Ne.symm hlast)

end Text

/-! ## The rows of an excerpt -/

/-- The blanks and tabs that a line begins with. -/
def Location.indentation (location : Location) : List Char :=
  location.line.takeWhile isIndent

/-- What stands before the text of a line: its number and a bar. -/
def numbered (number : Nat) : List Char :=
  (Nat.repr number).toList ++ [' ', '|', ' ']

/-- The row that shows the line, without its indentation. -/
def Location.textRow (location : Location) : List Char :=
  numbered location.number ++ trimEnd (location.line.drop location.indentation.length)

/-- What leads up to the caret in the row below. -/
def Location.leader (location : Location) : List Char :=
  gutter location.number ++ [' '] ++
    List.replicate (location.column - location.indentation.length) '-'

theorem Location.excerpt_eq (location : Location) :
    location.excerpt =
      [gutter location.number, location.textRow, location.leader ++ ['^']] :=
  rfl

theorem Location.length_leader (location : Location) :
    location.leader.length = (numbered location.number).length +
      (location.column - location.indentation.length) := by
  simp only [leader, gutter, numbered, List.length_append, List.length_replicate,
    String.length_toList, List.length_cons, List.length_nil]

theorem Location.caret_not_mem_leader (location : Location) : '^' ∉ location.leader := by
  simp [leader, gutter]

theorem Location.lineFeed_not_mem_leader (location : Location) : '\n' ∉ location.leader := by
  simp [leader, gutter]

/-- The row of a line is a single one: the line feed at the end of the line is trimmed. -/
theorem Location.lineFeed_not_mem_textRow {location : Location}
    (hinside : '\n' ∉ location.line.dropLast) : '\n' ∉ location.textRow := by
  have hnumber : '\n' ∉ numbered location.number := by
    rw [numbered, List.mem_append, not_or]
    exact ⟨lineFeed_not_mem_repr location.number, by decide⟩
  rw [textRow, List.mem_append, not_or]
  refine ⟨hnumber, lineFeed_not_mem_trimEnd fun hfeed => hinside ?_⟩
  rw [List.dropLast_drop_eq_drop_dropLast] at hfeed
  exact List.mem_of_mem_drop hfeed

/-- The rendered diagnostic ends with two rows. -/
structure Diagnostic.EndsWithRows (diagnostic : Diagnostic) (source : String)
    (textRow caretRow : List Char) : Prop where
  rendered : ∃ above, (diagnostic.render source).toList =
    above ++ '\n' :: (textRow ++ '\n' :: (caretRow ++ ['\n']))
  text_single : '\n' ∉ textRow
  caret_single : '\n' ∉ caretRow

theorem Diagnostic.endsWithRows {diagnostic : Diagnostic} {source : String} {location : Location}
    (hlocated : locate? source diagnostic.position.offset.toNat = some location) :
    diagnostic.EndsWithRows source location.textRow (location.leader ++ ['^']) where
  rendered := by
    refine ⟨diagnostic.cause.heading.toList ++ '\n' ::
      ('-' :: '>' :: ' ' :: diagnostic.position.file.toList) ++ '\n' :: gutter location.number, ?_⟩
    simp [render, rows, hlocated, Location.excerpt_eq]
  text_single := by
    obtain ⟨cut, hcut⟩ := exists_cutAfterFeeds source.toList
    have hline := (isPlace_of_locate? hcut hlocated).line_eq
    exact Location.lineFeed_not_mem_textRow (hcut.inside _ (List.mem_of_getElem? hline))
  caret_single := by
    simpa using location.lineFeed_not_mem_leader

/-! ## The line of a position -/

/-- The position is that of a character of the source, or of its end. -/
def Position.IsBoundary (position : Position) (source : String) : Prop :=
  ∃ front rest, source.toList = front ++ rest ∧ position.offset.toNat = byteLength front

/-- The rendered diagnostic shows the location: its first rows name the failure and the source,
and its last rows are the line, which is the one that holds the position, and a caret. -/
structure Diagnostic.ShowsPlace (diagnostic : Diagnostic) (source : String)
    (location : Location) : Prop where
  located : locate? source diagnostic.position.offset.toNat = some location
  isPlace : ∀ cut, CutAfterFeeds source.toList cut →
    location.IsPlace cut diagnostic.position.offset.toNat
  begins : diagnostic.cause.heading.toList ++ '\n' ::
    ("-> ".toList ++ diagnostic.position.file.toList ++ ['\n']) <+:
      (diagnostic.render source).toList
  ends : diagnostic.EndsWithRows source location.textRow (location.leader ++ ['^'])

theorem Diagnostic.showsPlace_of_locate? {diagnostic : Diagnostic} {source : String}
    {location : Location}
    (hlocated : locate? source diagnostic.position.offset.toNat = some location) :
    diagnostic.ShowsPlace source location where
  located := hlocated
  isPlace _ hcut := isPlace_of_locate? hcut hlocated
  begins := by
    refine ⟨location.excerpt.flatMap fun row => row ++ ['\n'], ?_⟩
    simp [render, rows, hlocated]
  ends := endsWithRows hlocated

/-- The rendered diagnostic shows a line of the source, with a caret below it. -/
def Diagnostic.ShowsLine (diagnostic : Diagnostic) (source : String) : Prop :=
  ∃ location, diagnostic.ShowsPlace source location

/-- Where a source has a character boundary, it has a line. -/
theorem Diagnostic.showsLine_of_isBoundary {diagnostic : Diagnostic} {source : String}
    (hboundary : diagnostic.position.IsBoundary source) : diagnostic.ShowsLine source := by
  obtain ⟨front, rest, hsource, hoffset⟩ := hboundary
  have hinside : ¬byteLength source.toList < diagnostic.position.offset.toNat := by
    rw [hsource, byteLength_append, hoffset]
    exact Nat.not_lt_of_le (Nat.le_add_right _ _)
  have hlocated : locate? source diagnostic.position.offset.toNat = some _ := if_neg hinside
  exact ⟨_, showsPlace_of_locate? hlocated⟩

end ScriptSyntax

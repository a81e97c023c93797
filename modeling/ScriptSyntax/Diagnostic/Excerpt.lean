import ScriptSyntax.Diagnostic.Basic
import ScriptSyntax.Source.Line
import ScriptSyntax.Text.Blank

/-!
# Excerpts

A diagnostic is shown to people as a heading, the name of the source, and, if
its position lies in the source, the line it points into with a caret under the
place.  Indentation is left out of the line, and the run of dashes that leads to
the caret is shortened by as much.
-/

namespace ScriptSyntax

open Text

/-- The character of an indentation. -/
def isIndent (character : Char) : Bool :=
  character == ' ' || character == '\t'

/-- The failure and its remark. -/
def Cause.heading (cause : Cause) : String :=
  match cause.tip? with
  | none => "Error: " ++ cause.name
  | some tip => "Error: " ++ cause.name ++ " (" ++ tip ++ ")"

/-- A bar that stands under the bar after the given line number. -/
def gutter (number : Nat) : List Char :=
  List.replicate ((Nat.repr number).length + 1) ' ' ++ ['|']

/-- The three rows that show a place in its line.  The run of dashes has no bound: no
limit is set to the width of a field, such as the 16 bits that some formatters allow. -/
def Location.excerpt (location : Location) : List (List Char) :=
  let indent := (location.line.takeWhile isIndent).length
  let shown := trimEnd (location.line.drop indent)
  let lead := location.column - indent
  [gutter location.number,
    (Nat.repr location.number).toList ++ [' ', '|', ' '] ++ shown,
    gutter location.number ++ [' '] ++ List.replicate lead '-' ++ ['^']]

/-- The rows of a rendered diagnostic. -/
def Diagnostic.rows (diagnostic : Diagnostic) (source : String) : List (List Char) :=
  [diagnostic.cause.heading.toList, ('-' :: '>' :: ' ' :: diagnostic.position.file.toList)] ++
    ((locate? source diagnostic.position.offset.toNat).map Location.excerpt).getD []

/-- The diagnostic as text, with the line of the source it points into. -/
def Diagnostic.render (diagnostic : Diagnostic) (source : String) : String :=
  String.ofList ((diagnostic.rows source).flatMap fun row => row ++ ['\n'])

end ScriptSyntax

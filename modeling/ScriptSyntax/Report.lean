import ScriptSyntax.Diagnostic.Excerpt
import ScriptSyntax.Parse.Program
import ScriptSyntax.Token.Scan
import ScriptSyntax.Tree.Outline

/-!
# Reports

What the command says about a file: how long the steps took, the tokens and the
outline if asked for, and how many nodes of each kind the program has.  A file
that cannot be read, or does not hold a program, is complained about instead.
Times are known only when the command runs, so a report leaves room for them.
-/

namespace ScriptSyntax

/-- What the command is asked to do. -/
structure Request where
  path : String
  semicolons : Semicolons := .inserted
  showTokens : Bool := false
  showTree : Bool := false
  deriving DecidableEq

/-- Why a file could not be read. -/
inductive ReadFailure
  | missing
  | directory
  | notText
  deriving DecidableEq

def ReadFailure.text : ReadFailure → String
  | .missing => "No such file or directory (os error 2)"
  | .directory => "Is a directory (os error 21)"
  | .notText => "stream did not contain valid UTF-8"

/-- The contents of a file as text. -/
def decodeFile (contents : ByteArray) : Except ReadFailure String :=
  match String.fromUTF8? contents with
  | none => .error .notText
  | some source => .ok source

/-- The points of a run whose time is reported. -/
inductive Milestone
  | tokenized
  | parsed
  | finished
  deriving DecidableEq

/-- What stands before the time of a milestone. -/
def Milestone.label : Milestone → String
  | .tokenized => "Tokenized in "
  | .parsed => "Parsed in "
  | .finished => "Total time: "

/-- A piece of the output: text, or a line with the time of a milestone. -/
inductive Piece
  | text (content : String)
  | elapsed (milestone : Milestone)
  deriving DecidableEq

/-- The piece as text, given the times. -/
def Piece.content (time : Milestone → String) : Piece → String
  | .text content => content
  | .elapsed milestone => milestone.label ++ time milestone ++ "\n"

/-- What the command writes, and the complaint with which it fails, if any. -/
structure Report where
  output : List Piece
  complaint : Option String := none
  deriving DecidableEq

namespace Report

/-- The status with which the command ends. -/
def exitCode (report : Report) : Nat :=
  if report.complaint.isSome then 1 else 0

/-- The name under which positions refer to a file: the last component of its
path, or the path itself if that names no file. -/
def fileName (path : String) : String :=
  let components := (path.splitOn "/").filter fun part => part != "" && part != "."
  match components.getLast? with
  | none => path
  | some ".." => path
  | some name => name

/-- A count in a column of six places, and what is counted. -/
def countLine (entry : NodeKind × Nat) : String :=
  let digits := Nat.repr entry.2
  String.ofList (List.replicate (6 - digits.length) ' ') ++ digits ++ " " ++
    entry.1.text ++ "\n"

/-- The listing of the tokens, a line each. -/
def tokenLines (tokens : List Token) : String :=
  String.join (tokens.map fun token => token.listing ++ "\n")

/-- The report on a program that could be read. -/
def ofTree (request : Request) (tree : Tree) : List Piece :=
  [.elapsed .parsed, .text (if request.showTree then tree.outline else ""),
    .text (String.join (tree.census.map countLine)), .elapsed .finished]

/-- The report on the tokens and the tree of a source. -/
def ofResults (request : Request) (source : String)
    (scanned : Except Diagnostic (List Token)) (parsed : Except Diagnostic Tree) :
    Report :=
  match scanned with
  | .error diagnostic => { output := [], complaint := diagnostic.render source }
  | .ok tokens =>
      let listing :=
        [.elapsed .tokenized, .text (if request.showTokens then tokenLines tokens else "")]
      match parsed with
      | .error diagnostic => { output := listing, complaint := diagnostic.render source }
      | .ok tree => { output := listing ++ ofTree request tree }

/-- The tokens of a source. -/
def scanned (request : Request) (source : String) : Except Diagnostic (List Token) :=
  tokenize source (fileName request.path)

/-- The tree of the tokens of a source. -/
def parsed (request : Request) (scanned : Except Diagnostic (List Token)) :
    Except Diagnostic Tree :=
  scanned.bind (parse request.semicolons)

/-- The report on a source. -/
def ofSource (request : Request) (source : String) : Report :=
  let scanned := scanned request source
  ofResults request source scanned (parsed request scanned)

/-- The complaint about a file that could not be read. -/
def unreadable (request : Request) (failure : ReadFailure) : Report :=
  { output := []
    complaint := "Failed to read " ++ request.path ++ ": " ++ failure.text ++ "\n" }

/-- The report on a file. -/
def ofFile (request : Request) (contents : Except ReadFailure ByteArray) : Report :=
  match contents.bind decodeFile with
  | .error failure => unreadable request failure
  | .ok source => ofSource request source

/-- The text that the command writes, given the times. -/
def outputText (report : Report) (time : Milestone → String) : String :=
  String.join (report.output.map (Piece.content time))

end Report

/-- A number with decimal places, trailing zeros left out. -/
def decimalText (whole fraction places : Nat) : String :=
  let digits := (Nat.repr fraction).toList
  let padded := List.replicate (places - digits.length) '0' ++ digits
  let shown := (padded.reverse.dropWhile (· == '0')).reverse
  if shown.isEmpty then Nat.repr whole
  else Nat.repr whole ++ "." ++ String.ofList shown

/-- A time in the largest unit of which it is at least one. -/
def durationText (nanoseconds : Nat) : String :=
  let inUnit (size places : Nat) : String :=
    decimalText (nanoseconds / size) (nanoseconds % size) places
  if 1000000000 ≤ nanoseconds then inUnit 1000000000 9 ++ "s"
  else if 1000000 ≤ nanoseconds then inUnit 1000000 6 ++ "ms"
  else if 1000 ≤ nanoseconds then inUnit 1000 3 ++ "µs"
  else Nat.repr nanoseconds ++ "ns"

end ScriptSyntax

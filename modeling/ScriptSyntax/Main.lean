import ScriptSyntax.Report

/-!
# The command

Reads the file it is given, reports on it, and times the steps.
-/

namespace ScriptSyntax.Command

/-- How the command is called. -/
def usage : String :=
  "usage: [--strict-semicolons] [--tokens] [--tree] FILE\n"

/-- The request that the arguments make: flags and one path. -/
def request? (arguments : List String) : Option Request :=
  let flags := arguments.filter fun argument => argument.startsWith "--"
  let known := ["--strict-semicolons", "--tokens", "--tree"]
  match arguments.filter fun argument => !argument.startsWith "--" with
  | [path] =>
      if flags.all known.contains then
        some
          { path
            semicolons :=
              if flags.contains "--strict-semicolons" then .required else .inserted
            showTokens := flags.contains "--tokens"
            showTree := flags.contains "--tree" }
      else
        none
  | _ => none

/-- The bytes of a file. -/
def readContents (path : String) : IO (Except ReadFailure ByteArray) := do
  try
    return .ok (← IO.FS.readBinFile path)
  catch failure =>
    match failure with
    | .inappropriateType .. => return .error .directory
    | _ => return .error .missing

/-- The result of some work, with the nanoseconds it took. -/
def timed {Result : Type} (work : Unit → Result) : IO (Result × Nat) := do
  let start ← IO.monoNanosNow
  let result ← IO.lazyPure work
  return (result, (← IO.monoNanosNow) - start)

/-- The report on a source, with the time of each milestone. -/
def timedReport (request : Request) (source : String) :
    IO (Report × (Milestone → String)) := do
  let start ← IO.monoNanosNow
  let (scanned, scanTime) ← timed fun _ => Report.scanned request source
  let (parsed, parseTime) ← timed fun _ => Report.parsed request scanned
  let report := Report.ofResults request source scanned parsed
  let total := (← IO.monoNanosNow) - start
  return (report, fun
    | .tokenized => durationText scanTime
    | .parsed => durationText parseTime
    | .finished => durationText total)

/-- Answers a request. -/
def run (request : Request) : IO UInt32 := do
  let (report, time) ←
    match (← readContents request.path).bind decodeFile with
    | .error failure =>
        pure (Report.unreadable request failure, fun _ : Milestone => "")
    | .ok source => timedReport request source
  (← IO.getStdout).putStr (report.outputText time)
  (← IO.getStderr).putStr (report.complaint.getD "")
  return report.exitCode.toUInt32

end ScriptSyntax.Command

def main (arguments : List String) : IO UInt32 := do
  match ScriptSyntax.Command.request? arguments with
  | none =>
      (← IO.getStderr).putStr ScriptSyntax.Command.usage
      return 2
  | some request => ScriptSyntax.Command.run request

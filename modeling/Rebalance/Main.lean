import Rebalance.Console
/-!
# The executable

Reads standard input to its end, runs the command the arguments name and prints its lines.
-/

open Rebalance.Console

/-- Reads the rest of a stream. -/
partial def readAll (stream : IO.FS.Stream) (acc : String) : IO String := do
  let line ← stream.getLine
  if line.isEmpty then return acc else readAll stream (acc ++ line)

/-- Runs the command line. -/
def main (args : List String) : IO UInt32 := do
  match parseArgs args with
  | .error msg =>
    IO.eprintln msg
    return 2
  | .ok cmd =>
    let input ← readAll (← IO.getStdin) ""
    let keys := ["REBALANCER_MAX_PARALLEL", "REBALANCER_MIGRATION_TIMEOUT_SECS",
      "REBALANCER_ROLLBACK_TARGETS"]
    let values ← keys.mapM fun k => (IO.getEnv k : IO (Option String))
    let env := fun k => ((keys.zip values).lookup k).join
    let out := run cmd env input 0
    for line in out.lines do IO.println line
    match out.error with
    | some msg =>
      IO.eprintln ("Error: " ++ msg)
      return 1
    | none => return 0

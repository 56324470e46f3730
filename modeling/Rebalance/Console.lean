import Rebalance.Run
/-!
# The command line

Two commands, both reading their input from standard input:

* `show-plan`: the input is a plan, one movement record per line; prints the plan's summary and
  then, per stealer, its movements.
* `dry-run --stores a,b [--parallelism N] [--timeout-secs N] [--strict-clocks]
  [--rollback-targets affected|none]`: the input's first line is the current topology, its
  second line the target topology (both as JSON), and the lines after them the plan. The plan is
  run against a simulated cluster where every node holds the current topology with the empty
  clock; prints the report and, when the run succeeded, the final topology.

Options left out fall back to the environment (`REBALANCER_MAX_PARALLEL`,
`REBALANCER_MIGRATION_TIMEOUT_SECS`, `REBALANCER_ROLLBACK_TARGETS`) and then to the default
settings. Identical clocks are accepted unless `--strict-clocks` is given.

Everything here is pure: it maps the arguments, the environment and the input to the lines to
print and the error that ended the command, if any.
-/

namespace Rebalance

namespace Console

/-- The options of `dry-run` as given. -/
structure DryRunArgs where
  stores : Option (List String)
  parallelism : Option String
  timeoutSecs : Option String
  strictClocks : Bool
  rollbackTargets : Option String

/-- A command to run. -/
inductive Command where
  | showPlan
  | dryRun (args : DryRunArgs)

/-- The usage text. -/
def usage : String :=
  "usage: rebalance show-plan < PLAN\n" ++
  "       rebalance dry-run --stores S1,S2 [--parallelism N] [--timeout-secs N] " ++
  "[--strict-clocks] [--rollback-targets affected|none] < CURRENT,TARGET,PLAN"

/-- Reads the options of `dry-run`. -/
def parseDryRun : List String → DryRunArgs → Except String DryRunArgs
  | [], a => .ok a
  | "--strict-clocks" :: rest, a => parseDryRun rest { a with strictClocks := true }
  | "--stores" :: v :: rest, a => parseDryRun rest { a with stores := some (v.splitOn ",") }
  | "--parallelism" :: v :: rest, a => parseDryRun rest { a with parallelism := some v }
  | "--timeout-secs" :: v :: rest, a => parseDryRun rest { a with timeoutSecs := some v }
  | "--rollback-targets" :: v :: rest, a => parseDryRun rest { a with rollbackTargets := some v }
  | arg :: _, _ => .error ("unexpected argument '" ++ arg ++ "'")

/-- The command the arguments name. -/
def parseArgs : List String → Except String Command
  | ["show-plan"] => .ok .showPlan
  | "dry-run" :: rest => do
    let a ← parseDryRun rest ⟨none, none, none, false, none⟩
    if a.stores.isNone then throw "the option '--stores' is required"
    return .dryRun a
  | _ => .error usage

/-- A count option: the given value, else the environment's, else the default. -/
def countOption (name : String) (given : Option String) (env : Option String) (d : Nat) :
    Except String Nat :=
  match given.orElse fun _ => env with
  | none => .ok d
  | some v =>
    match Settings.parseCount v with
    | some n => .ok n
    | none => .error ("invalid value '" ++ v ++ "' for '--" ++ name ++ "'")

/-- The settings of a dry run. -/
def settingsOf (a : DryRunArgs) (env : String → Option String) : Except String Settings := do
  let d := Settings.defaults
  let parallel ← countOption "parallelism" a.parallelism (env "REBALANCER_MAX_PARALLEL") d.maxParallel
  let timeout ← countOption "timeout-secs" a.timeoutSecs (env "REBALANCER_MIGRATION_TIMEOUT_SECS")
    d.timeoutSecs
  let targets ← match a.rollbackTargets.orElse fun _ => env "REBALANCER_ROLLBACK_TARGETS" with
    | none => pure d.rollbackTargets
    | some v => (RollbackTargets.parse v).mapError SettingsError.message
  let s : Settings := ⟨parallel, timeout, !a.strictClocks, targets⟩
  (s.validate).mapError SettingsError.message
  return s

/-- The lines `show-plan` prints for a plan. -/
def showPlan (plan : List Movement) : List String :=
  let tasks := groupByStealer plan
  ("Plan: " ++ planSummary tasks) :: tasks.flatMap fun t =>
    "" :: ("Stealer node " ++ toString t.stealer ++ ":") :: t.movements.map fun m => "  " ++ m.render

/-- The lines that show a report. -/
def reportLines (r : Report) : List String :=
  ("Result: " ++ r.summary) :: r.outcomes.map fun o => "  " ++ o.movement.render ++ " -> " ++ o.status.text

/-- The cluster of a dry run: every node of the current topology holds it with the empty
clock, and so does every node only the target has. -/
def dryRunCluster (current target : Topology) : Cluster :=
  (target.nodes.filter fun n => !current.containsNode n.id).foldl
    (fun c n => c.setView n.id ⟨current, Clock.empty⟩) (Cluster.make current)

/-- What a command prints: lines for standard output, and the error that ended it, if any. -/
structure Output where
  lines : List String
  error : Option String

/-- An output with only an error. -/
def Output.failed (msg : String) : Output := ⟨[], some msg⟩

/-- What a dry run prints. -/
def dryRun (current target : Topology) (plan : List Movement) (stores : List String)
    (s : Settings) (now : Int) : Output :=
  let r := rebalance (dryRunCluster current target) Token.free s plan current target stores now
  match r.result with
  | .ok report => ⟨reportLines report ++ ["", "Final topology:", r.cluster.cached.render], none⟩
  | .error e =>
    let shown := match e.report? with
      | some report => reportLines report
      | none => []
    ⟨shown, some e.message⟩

/-- A topology read from one input line. -/
def readTopology (what : String) (line : String) : Except String Topology :=
  (Topology.ofJson line).mapError fun e => "invalid " ++ what ++ " topology: " ++ e.message

/-- What a command prints for the input. -/
def run (cmd : Command) (env : String → Option String) (input : String) (now : Int) : Output :=
  let failed := Output.failed
  match cmd with
  | .showPlan =>
    match planOfLines input with
    | .ok plan => ⟨showPlan plan, none⟩
    | .error e => failed (RunError.descriptor e.message).message
  | .dryRun a =>
    match settingsOf a env with
    | .error msg => failed msg
    | .ok s =>
      match input.splitOn "\n" with
      | currentLine :: targetLine :: planLines =>
        match readTopology "current" currentLine, readTopology "target" targetLine with
        | .error msg, _ => failed msg
        | _, .error msg => failed msg
        | .ok current, .ok target =>
          match planOfLines ("\n".intercalate planLines) with
          | .error e => failed (RunError.descriptor e.message).message
          | .ok plan => dryRun current target plan (a.stores.getD []) s now
      | _ => failed "expected the current and the target topology on the first two lines"

end Console

end Rebalance

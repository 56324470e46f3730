import Rebalance.Plan
import Rebalance.Decimal.Fixed
import Rebalance.Text.Duration
/-!
# Run reports

A run records one outcome per movement it dealt with: completed, commit failed (with the
reason), migration failed (with the stores that failed) or skipped (with the reason). The report
counts them, gives the share of completed outcomes as a percentage (100 when there is none),
and lists what to retry: every movement that did not complete and still has pending stores,
with its attempt raised by one, grouped by stealer.
-/

namespace Rebalance

/-- How the run dealt with one movement. -/
inductive Status where
  | completed
  | commitFailed (reason : String)
  | migrationFailed (failedStores : List String)
  | skipped (reason : String)
deriving DecidableEq, Repr

namespace Status

/-- The status as text. -/
def text : Status → String
  | completed => "completed"
  | commitFailed r => "commit failed: " ++ r
  | migrationFailed stores => "migration failed for " ++ Text.quotedListing stores
  | skipped r => "skipped: " ++ r

/-- Whether the status counts as a failure. -/
def isFailure : Status → Bool
  | commitFailed _ => true
  | migrationFailed _ => true
  | _ => false

/-- Whether the status is a skip. -/
def isSkip : Status → Bool
  | skipped _ => true
  | _ => false

end Status

/-- A movement, as it ended, and what happened to it. -/
structure Outcome where
  movement : Movement
  status : Status

namespace Outcome

/-- Whether the movement completed. -/
def isSuccess (o : Outcome) : Bool := o.status == .completed

end Outcome

/-- The outcomes of a run, in the order they were recorded, and how long the run took. -/
structure Report where
  outcomes : List Outcome
  durationNanos : Nat

namespace Report

/-- The report of a run that dealt with nothing. -/
def empty : Report := ⟨[], 0⟩

/-- The number of completed movements. -/
def succeeded (r : Report) : Nat := (r.outcomes.filter Outcome.isSuccess).length

/-- The number of movements whose commit or migration failed. -/
def failed (r : Report) : Nat := (r.outcomes.filter fun o => o.status.isFailure).length

/-- The number of skipped movements. -/
def skipped (r : Report) : Nat := (r.outcomes.filter fun o => o.status.isSkip).length

/-- The outcomes of one stealer's movements. -/
def forStealer (r : Report) (stealer : Nat) : List Outcome :=
  r.outcomes.filter fun o => o.movement.stealer == stealer

/-- The completed share in percent as a binary64 number: `succeeded / total`, then times 100,
each step rounded; 100 for an empty report. -/
def successRate (r : Report) : Binary64 :=
  let total := r.outcomes.length
  if total = 0 then Binary64.ofNat 100
  else
    let share := (Binary64.ofNat r.succeeded).div (Binary64.ofNat total)
    (share.mul (Binary64.ofNat 100)).getD share

/-- `"{s} succeeded, {f} failed, {k} skipped in {duration} ({rate}% success rate)"`, the rate
with one decimal. -/
def summary (r : Report) : String :=
  toString r.succeeded ++ " succeeded, " ++ toString r.failed ++ " failed, " ++
    toString r.skipped ++ " skipped in " ++ Text.durationText r.durationNanos ++ " (" ++
    Decimal.fixed 1 r.successRate ++ "% success rate)"

/-- The movements to try again, attempt raised, grouped by stealer; the overflow fault if an
attempt is already the largest 32-bit count. -/
def retryTasks (r : Report) : Except Fault (List Task) := do
  let pending := r.outcomes.filter fun o => !o.isSuccess && !o.movement.isComplete
  let raised ← pending.mapM fun o => o.movement.nextAttempt
  return groupByStealer raised

end Report

end Rebalance

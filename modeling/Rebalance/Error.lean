import Rebalance.Report
import Rebalance.Clock
import Rebalance.Settings
/-!
# Errors of clients and runs

A cluster client fails when a node cannot be reached, refuses a request, a migration job fails
or is unknown, or for another reason. A run fails for the reasons listed in `RunError`; only a
failed revert and an aborted run are fatal to a run, and only an aborted run carries the report
of what the run did before it stopped.
-/

namespace Rebalance

/-- Why a cluster client call failed. -/
inductive ClientError where
  | unreachable (node : Nat) (reason : String)
  | rejected (node : Nat) (reason : String)
  | jobFailed (node : Nat) (job : Nat) (reason : String)
  | unknownJob (node : Nat) (job : Nat)
  | other (text : String)
deriving DecidableEq, Repr

namespace ClientError

/-- The sentence that reports the error. -/
def message : ClientError → String
  | unreachable n r => "Node " ++ toString n ++ " unreachable: " ++ r
  | rejected n r => "Node " ++ toString n ++ " rejected request: " ++ r
  | jobFailed n j r => "Job " ++ toString j ++ " on node " ++ toString n ++ " failed: " ++ r
  | unknownJob n j => "Unknown job " ++ toString j ++ " on node " ++ toString n
  | other s => "Admin client error: " ++ s

end ClientError

/-- Why a run, or one of its steps, failed. -/
inductive RunError where
  | tokenUnavailable
  | concurrentClocks (stealer : Nat) (stealerClock : Clock) (donor : Nat) (donorClock : Clock)
  | invalidClockState (stealerClock donorClock : Clock) (ordering : CausalOrder)
  | nodeNotFound (node : Nat)
  | commitFailed (stealer : Nat) (source : RunError)
  | rollbackFailed (stealer : Nat) (cause : String) (rollbackCause : String)
  | commitHalted
  | aborted (report : Report) (source : RunError)
  | migrationFailed (movement : String) (failedStores : List String)
  | migrationTimeout (store : String) (node : Nat)
  | client (e : ClientError)
  | descriptor (text : String)
  | planner (text : String)
  | topology (e : TopologyError)
  | settings (e : SettingsError)

namespace RunError

/-- The sentence that reports the error. -/
def message : RunError → String
  | tokenUnavailable => "Failed to acquire the cluster rebalancing token"
  | concurrentClocks s sc d dc =>
    "Concurrent topology clocks for stealer node " ++ toString s ++ " (" ++ sc.render ++
      ") and donor node " ++ toString d ++ " (" ++ dc.render ++ ")"
  | invalidClockState sc dc o =>
    "Invalid clock state: stealer clock " ++ sc.render ++ ", donor clock " ++ dc.render ++
      ", ordering " ++ o.text
  | nodeNotFound n => "Node " ++ toString n ++ " not found in current or target topology"
  | commitFailed s source =>
    "Failed to commit rebalance on node " ++ toString s ++ ": " ++ source.message
  | rollbackFailed s cause rb =>
    "Failed to revert topology on node " ++ toString s ++ " after '" ++ cause ++ "': " ++ rb
  | commitHalted => "Topology writes halted after an unrecovered revert"
  | aborted _ source => "Rebalance aborted: " ++ source.message
  | migrationFailed m stores => m ++ " failed incomplete, failed stores: " ++ Text.quotedListing stores
  | migrationTimeout store n =>
    "Migration of store " ++ store ++ " on node " ++ toString n ++ " timed out"
  | client e => "Admin client error: " ++ e.message
  | descriptor t => "Invalid movement descriptor: " ++ t
  | planner t => "Planning error: " ++ t
  | topology e => "Topology error: " ++ e.message
  | settings e => "Configuration error: " ++ e.message

/-- Whether the error stops a whole run. -/
def isRunFatal : RunError → Bool
  | rollbackFailed .. => true
  | aborted .. => true
  | _ => false

/-- The report an aborted run carries. -/
def report? : RunError → Option Report
  | aborted r _ => some r
  | _ => none

end RunError

namespace Clock

/-- The clock a commit continues from: the later of the stealer's and the donor's clocks, the
stealer's when they are equal and identical clocks are accepted; concurrent clocks, and equal
ones otherwise, are refused. -/
def resolveLatest (stealer : Nat) (stealerClock : Clock) (donor : Nat) (donorClock : Clock)
    (acceptIdentical : Bool) : Except RunError Clock :=
  match stealerClock.compare donorClock with
  | .after => .ok stealerClock
  | .before => .ok donorClock
  | .concurrent => .error (.concurrentClocks stealer stealerClock donor donorClock)
  | .equal =>
    if acceptIdentical then .ok stealerClock
    else .error (.invalidClockState stealerClock donorClock .equal)

end Clock

end Rebalance

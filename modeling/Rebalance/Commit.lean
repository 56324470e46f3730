import Rebalance.Cluster
/-!
# Committing topology changes

The committer writes one movement's topology change to the cluster. It resolves the newer of
the stealer's and the donor's clocks, moves the primary partitions in the cached topology,
steps the stealer's counter and propagates the new topology to the stealer and the donor.

When the change cannot be written (the partitions cannot be moved, or the propagation fails),
the committer reverts: it restores the cached topology and propagates the previous topology with
the stealer's counter stepped once more, to the stealer and donor or to nobody, as the settings
say. A revert that fails halts the committer: every later write is refused until it is resumed.

Stepping a counter past the largest 64-bit value is a fault, which stops the commit where it
is; what was done before it stays done.
-/

namespace Rebalance

/-- The committer, with the cluster it writes to. -/
structure Committer where
  cluster : Cluster
  halted : Bool
  acceptIdentical : Bool
  rollbackTargets : RollbackTargets

/-- A committer's steps: they change it and its cluster, and may stop with a fault. -/
abbrev CommitM := EStateM Fault Committer

/-- A written change: the new topology and the clock it was written with. -/
structure CommitRecord where
  topology : Topology
  clock : Clock

namespace Committer

/-- A committer over `c` following the settings, not halted. -/
def make (c : Cluster) (s : Settings) : Committer := ⟨c, false, s.acceptIdentical, s.rollbackTargets⟩

/-- Runs a cluster step. -/
def onCluster (f : Cluster → α × Cluster) : CommitM α := do
  let k ← get
  let (a, c) := f k.cluster
  set { k with cluster := c }
  return a

/-- Replaces the cached topology. -/
def setCached (t : Topology) : CommitM Unit :=
  modify fun k => { k with cluster := { k.cluster with cached := t } }

/-- A counter step, or the fault. -/
def stepClock (clock : Clock) (node : Nat) (now : Int) : CommitM Clock :=
  match clock.increment node now with
  | .ok c => pure c
  | .error f => throw f

/-- Undoes a change that could not be written, and gives the error to report. -/
def revert (stealer donor : Nat) (previous : Topology) (clock : Clock) (cause : RunError)
    (now : Int) : CommitM RunError := do
  let clock ← stepClock clock stealer now
  setCached previous
  let k ← get
  let targets := match k.rollbackTargets with
    | .affectedNodes => [stealer, donor]
    | .none => []
  match ← onCluster fun c => c.propagate previous clock targets with
  | .ok () => return .commitFailed stealer cause
  | .error rb =>
    modify fun k => { k with halted := true }
    return .rollbackFailed stealer cause.message rb.message

/-- Writes the movement's change (see the module text); `now` stamps the new clocks. -/
def commit (m : Movement) (now : Int) : CommitM (Except RunError CommitRecord) := do
  let k ← get
  if k.halted then return .error .commitHalted
  match k.cluster.fetch m.stealer, k.cluster.fetch m.donor with
  | .error e, _ => return .error (.client e)
  | .ok _, .error e => return .error (.client e)
  | .ok sv, .ok dv =>
    match Clock.resolveLatest m.stealer sv.clock m.donor dv.clock k.acceptIdentical with
    | .error e => return .error e
    | .ok clock =>
      let previous := k.cluster.cached
      match previous.reassign m.stealer m.donor m.primaryPartitions with
      | .error e => return .error (← revert m.stealer m.donor previous clock (.topology e) now)
      | .ok updated =>
        let clock ← stepClock clock m.stealer now
        match ← onCluster fun c => c.propagate updated clock [m.stealer, m.donor] with
        | .error e => return .error (← revert m.stealer m.donor previous clock (.client e) now)
        | .ok () =>
          setCached updated
          return .ok ⟨updated, clock⟩

/-- Makes sure the cached topology has the node: if only the target has it, it is added with
no partitions. -/
def ensureNode (target : Topology) (node : Nat) : CommitM (Except RunError Unit) := do
  let k ← get
  if k.halted then return .error .commitHalted
  let current := k.cluster.cached
  if current.containsNode node then return .ok ()
  match target.node? node with
  | some n =>
    setCached (current.withNodes [{ n with partitions := [] }])
    return .ok ()
  | none => return .error (.nodeNotFound node)

end Committer

end Rebalance

import Rebalance.Topology.Basic
import Rebalance.KeyMap
import Rebalance.Fault
import Rebalance.Text.Quoted
import Rebalance.Distinct
/-!
# Movement descriptors

A movement takes partitions from a donor node to a stealer node, per replica tier: tier 0
holds the primary partitions to move, higher tiers replicas, and a second map lists per tier
the partitions the stealer deletes. A movement also lists the stores still to migrate (each
once, in first-seen order), counts its attempts, and records the topology it was planned on.

`Movement.make` is the only way in: it refuses a stealer equal to the donor and drops tiers
with no partitions, so a stored tier always has at least one partition. The union of the moved
partitions (`allPartitions`) and the highest tier (`maxTier`) are read off the maps.
-/

namespace Rebalance

/-- What is wrong with a field of a movement record. -/
inductive FieldProblem where
  | notUnsigned
  | outOfRange
  | notArray
  | notString
  | notPartition
  | badTopology (e : TopologyError)
deriving DecidableEq, Repr

namespace FieldProblem

/-- The phrase for a field problem. -/
def text : FieldProblem → String
  | notUnsigned => "expected unsigned integer"
  | outOfRange => "out of range"
  | notArray => "expected array"
  | notString => "expected string"
  | notPartition => "expected partition id"
  | badTopology e => e.message

end FieldProblem

/-- Why a movement could not be built or read. -/
inductive MovementError where
  | sameNode (node : Nat)
  | missingField (key : String)
  | invalidField (key : String) (problem : FieldProblem)
  | unreadable (line : String) (detail : String)
deriving DecidableEq, Repr

namespace MovementError

/-- The sentence that reports the error. -/
def message : MovementError → String
  | sameNode n => "stealer and donor are both node " ++ toString n
  | missingField k => "missing field '" ++ k ++ "'"
  | invalidField k p => "invalid field '" ++ k ++ "': " ++ p.text
  | unreadable line detail => "failed to parse '" ++ line ++ "': " ++ detail

end MovementError

/-- Partitions per replica tier. -/
abbrev Tiers := KeyMap (List Nat)

/-- A movement of partitions from a donor to a stealer. -/
structure Movement where
  stealer : Nat
  donor : Nat
  moves : Tiers
  deletes : Tiers
  storesPending : List String
  attempt : Nat
  initialTopology : Topology

namespace Movement

/-- The movement, unless stealer and donor are the same node; empty tiers are dropped and
repeated stores kept once. -/
def make (stealer donor : Nat) (moves deletes : Tiers) (stores : List String)
    (initialTopology : Topology) (attempt : Nat) : Except MovementError Movement :=
  if stealer = donor then .error (.sameNode stealer)
  else
    .ok ⟨stealer, donor, moves.filterValues (fun ps => !ps.isEmpty),
      deletes.filterValues (fun ps => !ps.isEmpty), firstOccurrences stores, attempt,
      initialTopology⟩

/-- The moved partitions of all tiers, increasing and without repeats. -/
def allPartitions (m : Movement) : List Nat := normalize (m.moves.entries.flatMap Prod.snd)

/-- The partitions of tier 0, as listed. -/
def primaryPartitions (m : Movement) : List Nat := m.moves.getD 0 []

/-- The highest tier in either map, or 0. -/
def maxTier (m : Movement) : Nat :=
  (m.moves.keys ++ m.deletes.keys).foldl max 0

/-- The partitions of a tier, `[]` for a tier not stored. -/
def tier (ts : Tiers) (t : Nat) : List Nat := ts.getD t []

/-- Whether no store is left to migrate. -/
def isComplete (m : Movement) : Bool := m.storesPending.isEmpty

/-- Marks a store migrated: removes every entry equal to it, and tells whether there was one. -/
def completeStore (m : Movement) (store : String) : Bool × Movement :=
  let rest := m.storesPending.filter (fun s => s != store)
  (rest.length != m.storesPending.length, { m with storesPending := rest })

/-- Keeps the pending stores that satisfy `keep`, in order. -/
def retainStores (m : Movement) (keep : String → Bool) : Movement :=
  { m with storesPending := m.storesPending.filter keep }

/-- The next attempt, or the overflow fault past the largest 32-bit count. -/
def nextAttempt (m : Movement) : Except Fault Movement :=
  match bump maxU32 m.attempt with
  | .ok a => .ok { m with attempt := a }
  | .error f => .error f

/-- The movement with its attempt count set. -/
def setAttempt (m : Movement) (attempt : Nat) : Movement := { m with attempt := attempt }

/-- The movement as text: stealer and donor, every tier's moved and deleted partitions up to
the highest tier, the pending stores quoted, and the attempt. -/
def render (m : Movement) : String :=
  let tiers := List.range (m.maxTier + 1)
  "MovementDescriptor(" ++ toString m.stealer ++ " <--- " ++ toString m.donor ++
    ", partitions moved" ++
    String.join (tiers.map fun t => " - " ++ Text.natListing (tier m.moves t)) ++
    ", partitions deleted" ++
    String.join (tiers.map fun t => " - " ++ Text.natListing (tier m.deletes t)) ++
    ", stores: " ++ Text.quotedListing m.storesPending ++ ", attempt: " ++ toString m.attempt ++
    ")"

/-- Movements are equal when all their parts are. -/
def beq (a b : Movement) : Bool :=
  a.stealer == b.stealer && a.donor == b.donor && a.moves.entries == b.moves.entries &&
    a.deletes.entries == b.deletes.entries && a.storesPending == b.storesPending &&
    a.attempt == b.attempt && a.initialTopology == b.initialTopology

instance : BEq Movement := ⟨beq⟩

end Movement

end Rebalance

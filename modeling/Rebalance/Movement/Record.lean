import Rebalance.Movement.Basic
import Rebalance.Topology.Json
/-!
# The flat record form of a movement

A movement is stored as one flat JSON object: `stealerId`, `donorId`, `attempt`, `maxReplicas`
(the highest tier), `storesPending`, `initialTopology` (the topology's JSON text), and for every
tier `t` from 0 to the highest `replicaToPartitions{t}` and `replicaToDeletePartitions{t}`
(`[]` for a tier without partitions). As a JSON line the members are ordered by key.

Reading checks the members in a fixed order and reports the first problem: the four counts
(present, a non-negative integer, at most 32 bits), the stores (an array of strings), the
topology (a string holding a valid topology document), then each tier's two lists (arrays of
32-bit partition ids); members beyond the highest tier are ignored. The movement is then built
with `Movement.make`.
-/

namespace Rebalance

namespace Movement

open Json (Value)

/-- The key of a tier's moved partitions. -/
def moveKey (t : Nat) : String := "replicaToPartitions" ++ toString t

/-- The key of a tier's deleted partitions. -/
def deleteKey (t : Nat) : String := "replicaToDeletePartitions" ++ toString t

/-- A list of numbers as a JSON array. -/
def natArray (ns : List Nat) : Value := .array (ns.map fun n => .number (.nat n))

/-- The members of the tiers below `n`: each tier's moved, then deleted partitions. -/
def tierMembers (m : Movement) (n : Nat) : List (String × Value) :=
  (List.range n).flatMap fun t =>
    [(moveKey t, natArray (tier m.moves t)), (deleteKey t, natArray (tier m.deletes t))]

/-- The members of the flat record, tiers up to the highest one included. -/
def members (m : Movement) : List (String × Value) :=
  [("stealerId", .number (.nat m.stealer)), ("donorId", .number (.nat m.donor)),
    ("storesPending", .array (m.storesPending.map Value.string)),
    ("attempt", .number (.nat m.attempt)), ("maxReplicas", .number (.nat m.maxTier)),
    ("initialTopology", .string m.initialTopology.toJson)] ++ m.tierMembers (m.maxTier + 1)

/-- The members of the flat record, in key order. -/
def toRecord (m : Movement) : List (String × Value) :=
  m.members.foldl (fun acc e => Json.insertMember e.1 e.2 acc) []

/-- The member of key `k`. -/
def lookup (ms : List (String × Value)) (k : String) : Option Value :=
  (ms.find? (fun e => e.1 == k)).map Prod.snd

/-- A 32-bit count member. -/
def readCount (ms : List (String × Value)) (k : String) : Except MovementError Nat :=
  match lookup ms k with
  | none => .error (.missingField k)
  | some (.number (.nat n)) => if n ≤ maxU32 then .ok n else .error (.invalidField k .outOfRange)
  | some _ => .error (.invalidField k .notUnsigned)

/-- An array member. -/
def readArray (ms : List (String × Value)) (k : String) : Except MovementError (List Value) :=
  match lookup ms k with
  | none => .error (.missingField k)
  | some (.array xs) => .ok xs
  | some _ => .error (.invalidField k .notArray)

/-- The pending stores. -/
def readStores (ms : List (String × Value)) : Except MovementError (List String) := do
  let xs ← readArray ms "storesPending"
  xs.mapM fun
    | .string s => .ok s
    | _ => .error (.invalidField "storesPending" .notString)

/-- The initial topology, read from the JSON text it holds. -/
def readTopology (ms : List (String × Value)) : Except MovementError Topology :=
  match lookup ms "initialTopology" with
  | none => .error (.missingField "initialTopology")
  | some (.string s) =>
    match Topology.ofJson s with
    | .ok t => .ok t
    | .error e => .error (.invalidField "initialTopology" (.badTopology e))
  | some _ => .error (.invalidField "initialTopology" .notString)

/-- A list of 32-bit partition ids. -/
def readPartitions (ms : List (String × Value)) (k : String) : Except MovementError (List Nat) := do
  let xs ← readArray ms k
  xs.mapM fun
    | .number (.nat n) => if n ≤ maxU32 then .ok n else .error (.invalidField k .notPartition)
    | _ => .error (.invalidField k .notPartition)

/-- The tiers `t`, `t + 1`, … for `count` tiers: moved then deleted partitions of each; empty
lists are not stored. -/
def readTiers (ms : List (String × Value)) (t : Nat) :
    Nat → Tiers → Tiers → Except MovementError (Tiers × Tiers)
  | 0, moves, deletes => .ok (moves, deletes)
  | count + 1, moves, deletes => do
    let moved ← readPartitions ms (moveKey t)
    let deleted ← readPartitions ms (deleteKey t)
    let moves := if moved.isEmpty then moves else moves.insert t moved
    let deletes := if deleted.isEmpty then deletes else deletes.insert t deleted
    readTiers ms (t + 1) count moves deletes

/-- The movement of a flat record. -/
def ofRecord (ms : List (String × Value)) : Except MovementError Movement := do
  let stealer ← readCount ms "stealerId"
  let donor ← readCount ms "donorId"
  let attempt ← readCount ms "attempt"
  let maxReplicas ← readCount ms "maxReplicas"
  let stores ← readStores ms
  let topology ← readTopology ms
  let (moves, deletes) ← readTiers ms 0 (maxReplicas + 1) KeyMap.empty KeyMap.empty
  make stealer donor moves deletes stores topology attempt

/-- The movement as one JSON line. -/
def toLine (m : Movement) : String := (Value.object m.toRecord).write

/-- The movement of a JSON line holding its flat record. -/
def ofLine (line : String) : Except MovementError Movement :=
  match Json.readDocument .object line with
  | .error e => .error (.unreadable line e.message)
  | .ok (.object ms) => ofRecord ms
  | .ok _ => .error (.unreadable line "not an object")

end Movement

end Rebalance

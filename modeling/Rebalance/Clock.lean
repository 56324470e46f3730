import Rebalance.KeyMap
import Rebalance.Fault
/-!
# Vector clocks

A clock gives every node a 64-bit counter (a node without an entry counts as 0) and carries a
timestamp that plays no part in ordering. Two clocks compare causally: one is after the other
when it is ahead on some node and behind on none.

`compare` walks the nodes of the first clock and then those of the second, raising a flag for
each side it sees ahead, and stops with `concurrent` as soon as both flags are up; it reads the
counters only, so the timestamp never changes an ordering.
-/

namespace Rebalance

/-- Per-node counters and the timestamp of the last step. -/
structure Clock where
  versions : KeyMap Nat
  timestamp : Int

/-- How two clocks relate causally. -/
inductive CausalOrder where
  | after
  | before
  | concurrent
  | equal
deriving DecidableEq, Repr

namespace CausalOrder

/-- The lower-case word for an ordering. -/
def text : CausalOrder → String
  | after => "after"
  | before => "before"
  | concurrent => "concurrently"
  | equal => "equal"

end CausalOrder

namespace Clock

/-- The clock with no entries and timestamp 0. -/
def empty : Clock := ⟨KeyMap.empty, 0⟩

/-- The counter of `node`; 0 when the clock has no entry for it. -/
def counter (c : Clock) (node : Nat) : Nat := c.versions.getD node 0

/-- The clock with the counter of `node` one higher and the timestamp replaced, or the
overflow fault when that counter is already the largest 64-bit value. -/
def increment (c : Clock) (node : Nat) (timestamp : Int) : Except Fault Clock :=
  match bump maxU64 (c.counter node) with
  | .ok n => .ok ⟨c.versions.insert node n, timestamp⟩
  | .error e => .error e

/-- The ordering read off the two flags of a finished walk: whether `a` was seen ahead on some
node, and whether `b` was. -/
def verdict : Bool → Bool → CausalOrder
  | true, false => .after
  | false, true => .before
  | false, false => .equal
  | true, true => .concurrent

/-- Walks the listed nodes in order with the flags `aBigger` and `bBigger`, raising the first
where `a` counts more and the second where `b` does; both up ends the walk at once. -/
def walk (a b : Clock) : List Nat → Bool → Bool → CausalOrder
  | [], aBigger, bBigger => verdict aBigger bBigger
  | n :: rest, aBigger, bBigger =>
    let aBigger := aBigger || decide (b.counter n < a.counter n)
    let bBigger := bBigger || decide (a.counter n < b.counter n)
    if aBigger && bBigger then .concurrent else walk a b rest aBigger bBigger

/-- The causal relation of `a` to `b`: a walk over the nodes of `a`, then over those of `b`. -/
def compare (a b : Clock) : CausalOrder :=
  walk a b (a.versions.keys ++ b.versions.keys) false false

/-- The clock as text: `version(n:c, ...) ts:t`, entries by increasing node. -/
def render (c : Clock) : String :=
  "version(" ++ ", ".intercalate (c.versions.entries.map fun e => s!"{e.1}:{e.2}") ++
    ") ts:" ++ toString c.timestamp

/-- Clocks are equal when their entries and timestamps are. -/
def beq (a b : Clock) : Bool :=
  a.versions.entries == b.versions.entries && a.timestamp == b.timestamp

instance : BEq Clock := ⟨beq⟩

end Clock

end Rebalance

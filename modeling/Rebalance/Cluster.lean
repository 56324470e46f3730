import Rebalance.Error
import Rebalance.Movement.Basic
/-!
# A simulated cluster

The cluster as a rebalancing run sees it: the topology the run works from (`cached`), and for
each node the topology and clock that node currently holds (its view). Writes go out as
propagations of a topology and a clock to a list of nodes; every propagation is logged. Data
moves as migration jobs, one per store, which are issued and then awaited.

Failures can be injected: a node may fail its next propagations (a count per node), after such a
failure every later propagation may fail too (`failRollbacks`), and jobs of chosen stores fail or
never finish.

A propagation visits its targets in order. A node accepts it only if the new clock is after
the clock it holds (a node without a view accepts anything); the first refusal or injected
failure ends the propagation, and the nodes before it keep the new view.
-/

namespace Rebalance

/-- A topology as a node holds it, with the clock of the write that put it there. -/
structure View where
  topology : Topology
  clock : Clock

/-- One propagation: what was sent, to whom, and whether every target took it. -/
structure Propagation where
  topology : Topology
  clock : Clock
  targets : List Nat
  succeeded : Bool

/-- How an issued migration job will end. -/
inductive JobEnd where
  | succeed
  | fail
  | stall
deriving DecidableEq, Repr

/-- A migration job of one store of a movement. -/
structure Job where
  id : Nat
  store : String
  stealer : Nat
  donor : Nat
  partitions : List Nat
  attempt : Nat
  ending : JobEnd

/-- What awaiting a job gives. -/
inductive JobResult where
  | done
  | pending
  | failed (e : ClientError)

/-- The simulated cluster. -/
structure Cluster where
  cached : Topology
  views : KeyMap View
  log : List Propagation
  jobs : List Job
  nextJob : Nat
  failing : KeyMap Nat
  failRollbacks : Bool
  poisoned : Bool
  failingStores : List String
  stalledStores : List String
  stopped : Bool
  propagated : Bool
  awaitPeak : Nat

namespace Cluster

/-- A cluster where every node of `t` holds `t` with the empty clock, and `t` is cached. -/
def make (t : Topology) : Cluster :=
  { cached := t, views := KeyMap.ofList (t.nodeIds.map fun id => (id, ⟨t, Clock.empty⟩)),
    log := [], jobs := [], nextJob := 1, failing := KeyMap.empty, failRollbacks := false,
    poisoned := false, failingStores := [], stalledStores := [], stopped := false,
    propagated := false, awaitPeak := 0 }

/-- The view a node holds. -/
def view? (c : Cluster) (node : Nat) : Option View := c.views.get? node

/-- Gives a node a view. -/
def setView (c : Cluster) (node : Nat) (v : View) : Cluster := { c with views := c.views.insert node v }

/-- Gives a node a new clock, keeping the topology it holds (the cached one if it has none). -/
def setClock (c : Cluster) (node : Nat) (clock : Clock) : Cluster :=
  let t := match c.view? node with
    | some v => v.topology
    | none => c.cached
  c.setView node ⟨t, clock⟩

/-- Makes the next propagation to `node` fail, once more. -/
def failPropagationTo (c : Cluster) (node : Nat) : Cluster :=
  { c with failing := c.failing.insert node (c.failing.getD node 0 + 1) }

/-- Adds a store to a list of stores, once. -/
def addStore (stores : List String) (s : String) : List String :=
  if stores.contains s then stores else stores ++ [s]

/-- Makes the first failed propagation poison the cluster: every later one fails too. -/
def setFailRollbacks (c : Cluster) : Cluster := { c with failRollbacks := true }

/-- Makes the jobs of a store fail. -/
def failStore (c : Cluster) (store : String) : Cluster :=
  { c with failingStores := addStore c.failingStores store }

/-- Makes the jobs of a store never finish. -/
def stallStore (c : Cluster) (store : String) : Cluster :=
  { c with stalledStores := addStore c.stalledStores store }

/-- Stops the client: it issues no more jobs. -/
def stop (c : Cluster) : Cluster := { c with stopped := true }

/-- Replaces the cached topology. -/
def setTopology (c : Cluster) (t : Topology) : Cluster := { c with cached := t }

/-- The view of a node, or unreachable when it holds none. -/
def fetch (c : Cluster) (node : Nat) : Except ClientError View :=
  match c.view? node with
  | some v => .ok v
  | none => .error (.unreachable node "unknown node")

/-- Sends a topology and clock to the targets in order; stops at the first failure. -/
def deliver (t : Topology) (clock : Clock) : List Nat → Cluster → Except ClientError Unit × Cluster
  | [], c => (.ok (), c)
  | node :: rest, c =>
    if c.poisoned then
      (.error (.unreachable node "injected failure after earlier propagation error"), c)
    else if 0 < c.failing.getD node 0 then
      (.error (.unreachable node "injected failure"),
        { c with failing := c.failing.insert node (c.failing.getD node 0 - 1),
                 poisoned := c.failRollbacks })
    else
      match c.view? node with
      | some v =>
        if clock.compare v.clock != .after then
          (.error (.rejected node ("obsolete version " ++ clock.render ++ " (node has " ++
            v.clock.render ++ ")")), c)
        else deliver t clock rest (c.setView node ⟨t, clock⟩)
      | none => deliver t clock rest (c.setView node ⟨t, clock⟩)

/-- A logged propagation (see `deliver`). -/
def propagate (c : Cluster) (t : Topology) (clock : Clock) (targets : List Nat) :
    Except ClientError Unit × Cluster :=
  let (r, c') := deliver t clock targets c
  let ok := match r with
    | .ok () => true
    | .error _ => false
  (r, { c' with log := c'.log ++ [⟨t, clock, targets, ok⟩], propagated := true })

/-- Issues a migration job for a store of a movement; its ending is fixed now (stalled stores
stall, failing stores fail, others succeed). -/
def startMigration (c : Cluster) (store : String) (m : Movement) : Except ClientError Nat × Cluster :=
  if c.stopped then (.error (.other "client stopped"), c)
  else if (c.view? m.stealer).isNone then (.error (.unreachable m.stealer "unknown node"), c)
  else
    let ending :=
      if c.stalledStores.contains store then JobEnd.stall
      else if c.failingStores.contains store then JobEnd.fail
      else JobEnd.succeed
    let job : Job := ⟨c.nextJob, store, m.stealer, m.donor, m.allPartitions, m.attempt, ending⟩
    (.ok job.id, { c with jobs := c.jobs ++ [job], nextJob := c.nextJob + 1 })

/-- Awaits a job of a node while `others` awaits are in flight: unknown unless that node's job; a
stalled job never finishes. The cluster keeps the most awaits it saw in flight at once. -/
def awaitJob (c : Cluster) (others node job : Nat) : JobResult × Cluster :=
  let c := { c with awaitPeak := max c.awaitPeak (others + 1) }
  match c.jobs.find? (fun j => j.id == job && j.stealer == node) with
  | none => (.failed (.unknownJob node job), c)
  | some j =>
    match j.ending with
    | .succeed => (.done, c)
    | .fail => (.failed (.jobFailed node job "injected failure"), c)
    | .stall => (.pending, c)

end Cluster

end Rebalance

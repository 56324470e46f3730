import Rebalance.Commit
import Rebalance.Plan
/-!
# A run's workers on one thread

A run's workers are tasks of a scheduler that has one thread and a virtual clock. Each worker
loops: unless the run is aborted it takes the next task from the queue, adds the task's stealer
to the cached topology, then commits each movement of the task and migrates its stores.

The workers share the thread by taking turns. A worker runs until it has to wait, and then the
next ready worker runs. It waits in three cases:

* **The commit lock.** Adding a stealer and committing a movement happen under one lock. A
  worker that finds the lock taken queues for it. Releasing the lock hands it to the first
  worker in the queue, which becomes ready. Nothing inside the lock waits, so the lock is only
  ever held by a worker that is about to run.
* **Its budget.** A turn may take the lock `turnBudget` times. A worker that asks for the free
  lock with its budget spent takes the lock and yields its turn. It runs again when the thread
  has nothing else to do. The other workers queue behind it for the lock, so from then on the
  lock passes from worker to worker in turn.
* **A timer.** Waiting on a job that never finishes sets a timer at `timeout` seconds from
  now. When no worker is ready and none has yielded, the clock jumps to the earliest deadline,
  and the workers whose timers ran out become ready in the order they set them. Such a store
  has timed out.

Yielded workers also become ready after every `turnsPerCheck` turns in a row. Each time the
thread checks, it first wakes the workers whose timers ran out, then the yielded ones, the
last to yield first.

A fault (a counter stepped past the 64-bit range) ends the worker that met it. Its movement and
the rest of its task get no outcome, and the lock passes on.

Awaits in flight are counted. An await of a job that never finishes stays in flight until its
timer runs out, so the cluster sees one more await in flight for each worker waiting on such a
job.
-/

namespace Rebalance

/-- The reason given to movements skipped after an abort. -/
def abortReason : String := "run aborted after an unrecovered topology revert"

/-- The part of a run its workers share: the committer, the target, the queue of tasks, whether
the run is aborted and by which error, and the outcomes recorded so far. -/
structure RunState where
  committer : Committer
  target : Topology
  queue : List Task
  aborted : Bool
  fatal : Option RunError
  outcomes : List Outcome

namespace RunState

/-- Records an outcome. -/
def record (s : RunState) (m : Movement) (status : Status) : RunState :=
  { s with outcomes := s.outcomes ++ [⟨m, status⟩] }

/-- Records the movements as skipped. -/
def skipAll (s : RunState) (ms : List Movement) : RunState :=
  { s with outcomes := s.outcomes ++ ms.map fun m => ⟨m, .skipped abortReason⟩ }

/-- Records each movement as not committed, for the reason given. -/
def failAll (s : RunState) (ms : List Movement) (reason : String) : RunState :=
  { s with outcomes := s.outcomes ++ ms.map fun m => ⟨m, .commitFailed reason⟩ }

/-- Aborts the run at a movement whose commit failed beyond repair: records it as not committed,
keeps the first such error, and skips the rest of its task. -/
def abortAt (s : RunState) (m : Movement) (rest : List Movement) (e : RunError) : RunState :=
  let s := { s with aborted := true }.record m (.commitFailed e.message)
  { s with fatal := some (s.fatal.getD e) }.skipAll rest

end RunState

/-- Where a worker is in its loop over the queue. -/
inductive Phase where
  /-- At the top of the loop: it stops if the run is aborted or the queue is empty, and takes the
  next task otherwise. -/
  | idle
  /-- Needs the lock to add the task's stealer to the cached topology. -/
  | joining (task : Task)
  /-- Goes through the movements of its task; the first is next. -/
  | moving (ms : List Movement)
  /-- Needs the lock to commit the movement; `rest` follows it. -/
  | committing (m : Movement) (rest : List Movement)
  /-- Migrates the listed stores of a committed movement in turn; `failed` says whether a store
  failed so far. -/
  | migrating (m : Movement) (rest : List Movement) (stores : List String) (failed : Bool)
  /-- Waits until `deadline` on a job that never finishes, then goes on with `stores`; `armed`
  says whether its timer is set. -/
  | waiting (m : Movement) (rest : List Movement) (stores : List String) (failed : Bool)
      (deadline : Nat) (armed : Bool)
  /-- Done: the queue was empty, the run aborted, or a fault ended the worker. -/
  | stopped

/-- A timer a waiting worker set. -/
structure Timer where
  deadline : Nat
  worker : Nat

/-- The scheduler's state: the run, each worker's phase, the ready workers in the order they
run, the workers that yielded, the lock's holder and queue, the timers in the order they were
set, the clock in seconds, the awaits in flight on jobs that never finish, and the turns since
the thread last checked its timers and yielded workers. -/
structure Pool where
  run : RunState
  phases : List Phase
  ready : List Nat
  yielded : List Nat
  holder : Option Nat
  waiters : List Nat
  timers : List Timer
  clock : Nat
  stalls : Nat
  turns : Nat

/-- How often a turn may take the lock. -/
def turnBudget : Nat := 128

/-- How many turns in a row the thread runs before it checks its timers and yielded workers. -/
def turnsPerCheck : Nat := 61

/-- What a worker does after a step: go on in a phase with the budget left, or wait in a phase. -/
inductive Next where
  | go (ph : Phase) (budget : Nat)
  | pause (ph : Phase)

namespace Pool

/-- The pool at the start of a run: every worker idle and ready, in order. -/
def start (s : RunState) (workers : Nat) : Pool :=
  ⟨s, List.replicate workers .idle, List.range workers, [], none, [], [], 0, 0, 0⟩

/-- A worker's phase. -/
def phase (p : Pool) (w : Nat) : Phase := p.phases.getD w .stopped

/-- Sets a worker's phase. -/
def setPhase (p : Pool) (w : Nat) (ph : Phase) : Pool := { p with phases := p.phases.set w ph }

/-- Changes the run. -/
def onRun (p : Pool) (f : RunState → RunState) : Pool := { p with run := f p.run }

/-- Replaces the cluster. -/
def setCluster (p : Pool) (c : Cluster) : Pool :=
  p.onRun fun s => { s with committer := { s.committer with cluster := c } }

/-- Runs a committer step; none when it ended in a fault (which keeps what the step did). -/
def commitStep (p : Pool) (x : CommitM α) : Option α × Pool :=
  match x p.run.committer with
  | .ok a k => (some a, p.onRun fun s => { s with committer := k })
  | .error _ k => (none, p.onRun fun s => { s with committer := k })

/-- A worker yields its turn. -/
def yieldTurn (p : Pool) (w : Nat) : Pool := { p with yielded := p.yielded ++ [w] }

/-- A worker asks for the lock with `budget` left: the budget after taking it, or none when it
has to wait (queued behind the holder, or yielding with the lock when its budget is spent). -/
def acquire (p : Pool) (w budget : Nat) : Option Nat × Pool :=
  match p.holder with
  | some h =>
    if h = w then
      if budget = 0 then (none, p.yieldTurn w) else (some (budget - 1), p)
    else if p.waiters.contains w then (none, p)
    else (none, { p with waiters := p.waiters ++ [w] })
  | none =>
    if budget = 0 then (none, { p.yieldTurn w with holder := some w })
    else (some (budget - 1), { p with holder := some w })

/-- Releases the lock: the first queued worker gets it and becomes ready. -/
def release (p : Pool) : Pool :=
  match p.waiters with
  | [] => { p with holder := none }
  | w :: ws => { p with holder := some w, waiters := ws, ready := p.ready ++ [w] }

/-- The thread checks: workers whose timers ran out become ready in the order they set them,
then the yielded workers, the last to yield first. -/
def check (p : Pool) : Pool :=
  let due := p.timers.filter fun t => t.deadline ≤ p.clock
  let later := p.timers.filter fun t => p.clock < t.deadline
  { p with ready := p.ready ++ due.map Timer.worker ++ p.yielded.reverse, yielded := [],
           timers := later, turns := 0 }

/-- The earliest deadline of the timers. -/
def nextDeadline (p : Pool) : Option Nat :=
  p.timers.foldl (fun acc t => some (match acc with
    | none => t.deadline
    | some d => min d t.deadline)) none

end Pool

/-- One step of worker `w` in a phase with `budget` left. Commits are stamped `now`; a job that
never finishes times out after `timeout` seconds. -/
def step (now : Int) (timeout w budget : Nat) : Phase → Pool → Next × Pool
  | .idle, p =>
    if p.run.aborted then (.pause .stopped, p)
    else
      match p.run.queue with
      | [] => (.pause .stopped, p)
      | t :: rest => (.go (.joining t) budget, p.onRun fun s => { s with queue := rest })
  | .joining t, p =>
    match p.acquire w budget with
    | (none, p) => (.pause (.joining t), p)
    | (some b, p) =>
      match p.commitStep (Committer.ensureNode p.run.target t.stealer) with
      | (none, p) => (.pause .stopped, p.release)
      | (some (.ok ()), p) => (.go (.moving t.movements) b, p.release)
      | (some (.error .commitHalted), p) =>
        (.go .idle b, p.release.onRun fun s => s.skipAll t.movements)
      | (some (.error e), p) =>
        (.go .idle b, p.release.onRun fun s => s.failAll t.movements e.message)
  | .moving [], p => (.go .idle budget, p)
  | .moving (m :: rest), p =>
    if p.run.aborted then (.go .idle budget, p.onRun fun s => s.skipAll (m :: rest))
    else (.go (.committing m rest) budget, p)
  | .committing m rest, p =>
    match p.acquire w budget with
    | (none, p) => (.pause (.committing m rest), p)
    | (some b, p) =>
      match p.commitStep (Committer.commit m now) with
      | (none, p) => (.pause .stopped, p.release)
      | (some (.ok _), p) => (.go (.migrating m rest m.storesPending false) b, p.release)
      | (some (.error .commitHalted), p) =>
        (.go .idle b, p.release.onRun fun s => s.skipAll (m :: rest))
      | (some (.error e), p) =>
        if e.isRunFatal then (.go .idle b, p.release.onRun fun s => s.abortAt m rest e)
        else (.go (.moving rest) b, p.release.onRun fun s => s.record m (.commitFailed e.message))
  | .migrating m rest [] failed, p =>
    let status := if failed then Status.migrationFailed m.storesPending else Status.completed
    (.go (.moving rest) budget, p.onRun fun s => s.record m status)
  | .migrating m rest (store :: stores) failed, p =>
    match p.run.committer.cluster.startMigration store m with
    | (.error _, c) => (.go (.migrating m rest stores true) budget, p.setCluster c)
    | (.ok job, c) =>
      match c.awaitJob p.stalls m.stealer job with
      | (.done, c) =>
        (.go (.migrating (m.completeStore store).2 rest stores failed) budget, p.setCluster c)
      | (.failed _, c) => (.go (.migrating m rest stores true) budget, p.setCluster c)
      | (.pending, c) =>
        (.go (.waiting m rest stores failed (p.clock + timeout) false) budget,
          { p.setCluster c with stalls := p.stalls + 1 })
  | .waiting m rest stores failed deadline armed, p =>
    if budget = 0 then (.pause (.waiting m rest stores failed deadline armed), p.yieldTurn w)
    else if deadline ≤ p.clock then
      (.go (.migrating m rest stores true) (budget - 1), { p with stalls := p.stalls - 1 })
    else if armed then (.pause (.waiting m rest stores failed deadline armed), p)
    else
      (.pause (.waiting m rest stores failed deadline true),
        { p with timers := p.timers ++ [⟨deadline, w⟩] })
  | .stopped, p => (.pause .stopped, p)

/-- A turn of worker `w`: steps from a phase until the worker waits, for at most `fuel` steps. -/
def turn (now : Int) (timeout w : Nat) : Nat → Phase → Nat → Pool → Pool
  | 0, ph, _, p => p.setPhase w ph
  | fuel + 1, ph, budget, p =>
    match step now timeout w budget ph p with
    | (.go ph budget, p) => turn now timeout w fuel ph budget p
    | (.pause ph, p) => p.setPhase w ph

/-- Runs the thread for at most `fuel` rounds, a turn taking at most `steps` steps: the next ready
worker takes a turn; with none ready the thread checks, and with none yielded either the clock
jumps to the earliest deadline. It ends when no worker is ready, none has yielded and no timer
is set. -/
def drive (now : Int) (timeout steps : Nat) : Nat → Pool → Pool
  | 0, p => p
  | fuel + 1, p =>
    if turnsPerCheck ≤ p.turns then drive now timeout steps fuel p.check
    else
      match p.ready with
      | w :: ws =>
        let p := { p with ready := ws, turns := p.turns + 1 }
        drive now timeout steps fuel (turn now timeout w steps (p.phase w) turnBudget p)
      | [] =>
        if p.yielded.isEmpty then
          match p.nextDeadline with
          | none => p
          | some d => drive now timeout steps fuel { p with clock := max p.clock d }.check
        else drive now timeout steps fuel p.check

/-- A bound on the steps a run's workers take in all: a few per task and per movement, two per
store, and two per worker. -/
def stepBound (tasks : List Task) (workers : Nat) : Nat :=
  tasks.foldl (fun n t => t.movements.foldl
    (fun k m => k + 4 * m.storesPending.length + 8) (n + 4)) (2 * workers + 4)

/-- Runs `workers` workers over the run until none can go on. Commits are stamped `now`; a job
that never finishes times out after `timeout` seconds. -/
def runWorkers (now : Int) (timeout workers : Nat) (s : RunState) : Pool :=
  let steps := stepBound s.queue workers
  drive now timeout steps (4 * steps + 8) (Pool.start s workers)

end Rebalance

import Rebalance.Proofs.CommitPaths
import Rebalance.Run
/-!
# Runs of the workers, in any order

The thread of `Rebalance.Workers` runs the workers in one order: turns, checks and clock jumps.
What the workers guarantee does not depend on that order, and the statements about runs say
so: they hold for every order in which the workers' steps can come.

A worker's step is atomic. It reads and changes the pool, and a step that takes the commit lock
calls the committer and releases the lock before it ends. `Pool.Moves now timeout p calls q`
says that `q` is reached from `p` by steps of any workers, each from its own phase with any
budget left (`Pool.advance`), and by moves of the thread that touch no worker
(`Pool.Rescheduled`). `calls` lists the committer calls those steps made, with their answers,
in the order they were made, which is the order in which the workers took the lock.

The thread's own run is one of these (`runWorkers_moves`): a turn is a sequence of steps of one
worker (`turn_moves`), and a check, a clock jump or taking the next ready worker reschedules.
Two facts carry this. A step neither reads nor writes the phases (`step_withPhases`), so the
phase a turn carries along can be stored at every step. And every worker the thread holds on
to has a phase (`Pool.Tracked`), so a turn always runs a worker whose phase is stored.
-/

namespace Rebalance

/-- The phase a worker is in after a step. -/
def Next.phase : Next → Phase
  | .go ph _ => ph
  | .pause ph => ph

/-- A call a worker made to the committer while it held the lock, with the committer's answer;
the answer is none when a fault ended the call. -/
inductive Call where
  | ensure (node : Nat) (answer : Option (Except RunError Unit))
  | commit (m : Movement) (answer : Option (Except RunError CommitRecord))

/-- Whether a worker in this phase needs the commit lock for its next step. -/
def Phase.needsLock : Phase → Bool
  | .joining _ => true
  | .committing _ _ => true
  | _ => false

/-- What a joining worker does once the committer answered for its task's stealer. -/
def joinNext (t : Task) (b : Nat) : Option (Except RunError Unit) → Next
  | none => .pause .stopped
  | some (.ok ()) => .go (.moving t.movements) b
  | some (.error _) => .go .idle b

/-- What a committing worker does once the committer answered for its movement. -/
def commitNext (m : Movement) (rest : List Movement) (b : Nat) :
    Option (Except RunError CommitRecord) → Next
  | none => .pause .stopped
  | some (.ok _) => .go (.migrating m rest m.storesPending false) b
  | some (.error .commitHalted) => .go .idle b
  | some (.error e) => if e.isRunFatal then .go .idle b else .go (.moving rest) b

namespace RunState

/-- How the run records the committer's answer for a task's stealer. -/
def afterJoin (s : RunState) (t : Task) : Option (Except RunError Unit) → RunState
  | some (.error .commitHalted) => s.skipAll t.movements
  | some (.error e) => s.failAll t.movements e.message
  | _ => s

/-- How the run records the committer's answer for a movement. -/
def afterCommit (s : RunState) (m : Movement) (rest : List Movement) :
    Option (Except RunError CommitRecord) → RunState
  | some (.error .commitHalted) => s.skipAll (m :: rest)
  | some (.error e) => if e.isRunFatal then s.abortAt m rest e else s.record m (.commitFailed e.message)
  | _ => s

end RunState

namespace Pool

/-- The committer call worker `w` makes in a step from `ph` with `budget` left: a step of a
joining or committing worker that gets the lock makes one. -/
def call (now : Int) (w budget : Nat) : Phase → Pool → Option Call
  | .joining t, p =>
    match p.acquire w budget with
    | (some _, q) =>
      some (.ensure t.stealer (q.commitStep (Committer.ensureNode q.run.target t.stealer)).1)
    | (none, _) => none
  | .committing m _, p =>
    match p.acquire w budget with
    | (some _, q) => some (.commit m (q.commitStep (Committer.commit m now)).1)
    | (none, _) => none
  | _, _ => none

/-- Worker `w` takes one step from its phase with `budget` left. -/
def advance (now : Int) (timeout w budget : Nat) (p : Pool) : Pool :=
  (step now timeout w budget (p.phase w) p).2.setPhase w
    (step now timeout w budget (p.phase w) p).1.phase

/-- The thread moves without touching a worker: it changes which workers are ready, yielded or
waiting on a timer and how many turns ran, and moves its clock forward. -/
structure Rescheduled (p q : Pool) : Prop where
  run : q.run = p.run
  phases : q.phases = p.phases
  holder : q.holder = p.holder
  waiters : q.waiters = p.waiters
  stalls : q.stalls = p.stalls
  clock : p.clock ≤ q.clock

/-- Steps of any workers, in any order and with any budgets, and moves of the thread lead from
`p` to `q`; `calls` are the committer calls of the steps, in order. -/
inductive Moves (now : Int) (timeout : Nat) : Pool → List Call → Pool → Prop
  | refl (p : Pool) : Moves now timeout p [] p
  | advance {p q : Pool} {calls : List Call} (w budget : Nat) :
      Moves now timeout p calls q →
      Moves now timeout p (calls ++ (q.call now w budget (q.phase w)).toList)
        (q.advance now timeout w budget)
  | reschedule {p q r : Pool} {calls : List Call} :
      Moves now timeout p calls q → q.Rescheduled r → Moves now timeout p calls r

variable {now : Int} {timeout : Nat}

theorem Moves.trans {p q r : Pool} {calls more : List Call} (hpq : Moves now timeout p calls q)
    (hqr : Moves now timeout q more r) : Moves now timeout p (calls ++ more) r := by
  induction hqr with
  | refl => simpa using hpq
  | advance w budget _ ih =>
    rw [← List.append_assoc]
    exact .advance w budget ih
  | reschedule _ hs ih => exact .reschedule ih hs

theorem Rescheduled.refl (p : Pool) : p.Rescheduled p := ⟨rfl, rfl, rfl, rfl, rfl, Nat.le_refl _⟩

/-! ## A step leaves the phases alone -/

variable {p : Pool} {w v budget : Nat} {x : Phase} {l : List Phase}

@[simp] theorem setPhase_run : (p.setPhase v x).run = p.run := rfl
@[simp] theorem setPhase_phases : (p.setPhase v x).phases = p.phases.set v x := rfl
@[simp] theorem setPhase_ready : (p.setPhase v x).ready = p.ready := rfl
@[simp] theorem setPhase_yielded : (p.setPhase v x).yielded = p.yielded := rfl
@[simp] theorem setPhase_holder : (p.setPhase v x).holder = p.holder := rfl
@[simp] theorem setPhase_waiters : (p.setPhase v x).waiters = p.waiters := rfl
@[simp] theorem setPhase_timers : (p.setPhase v x).timers = p.timers := rfl
@[simp] theorem setPhase_clock : (p.setPhase v x).clock = p.clock := rfl
@[simp] theorem setPhase_stalls : (p.setPhase v x).stalls = p.stalls := rfl
@[simp] theorem setPhase_turns : (p.setPhase v x).turns = p.turns := rfl

theorem phase_setPhase_self (h : v < p.phases.length) : (p.setPhase v x).phase v = x := by
  simp [phase, setPhase, List.getD_eq_getElem?_getD, h]

theorem phase_setPhase_of_ne {u : Nat} (h : u ≠ v) : (p.setPhase v x).phase u = p.phase u := by
  simp only [phase, setPhase, List.getD_eq_getElem?_getD, List.getElem?_set, if_neg (Ne.symm h)]

theorem setPhase_setPhase (y : Phase) : (p.setPhase v x).setPhase v y = p.setPhase v y := by
  simp [setPhase]

/-- Storing the phase a worker already has changes nothing. -/
theorem setPhase_phase : p.setPhase w (p.phase w) = p := by
  unfold setPhase phase
  by_cases h : w < p.phases.length
  · simp [List.getD_eq_getElem?_getD, List.getElem?_eq_getElem h]
  · simp [List.set_eq_of_length_le (Nat.not_lt.1 h)]

theorem acquire_withPhases :
    { p with phases := l }.acquire w budget =
      ((p.acquire w budget).1, { (p.acquire w budget).2 with phases := l }) := by
  unfold acquire
  cases hh : p.holder with
  | none => by_cases hb : budget = 0 <;> simp [hh, hb, yieldTurn]
  | some h =>
    by_cases hw : h = w
    · by_cases hb : budget = 0 <;> simp [hh, hw, hb, yieldTurn]
    · by_cases hc : w ∈ p.waiters <;> simp [hh, hw, hc]

theorem release_withPhases : { p with phases := l }.release = { p.release with phases := l } := by
  unfold release
  cases p.waiters <;> rfl

theorem commitStep_withPhases {α : Type} (c : CommitM α) :
    { p with phases := l }.commitStep c = ((p.commitStep c).1, { (p.commitStep c).2 with phases := l }) := by
  unfold commitStep
  cases c p.run.committer <;> rfl

theorem onRun_withPhases (f : RunState → RunState) :
    { p with phases := l }.onRun f = { p.onRun f with phases := l } := rfl

/-- A step neither reads nor writes the phases. -/
theorem step_withPhases (now : Int) (timeout w budget : Nat) (ph : Phase) (p : Pool)
    (l : List Phase) :
    step now timeout w budget ph { p with phases := l } =
      ((step now timeout w budget ph p).1, { (step now timeout w budget ph p).2 with phases := l }) := by
  cases ph with
  | idle =>
    simp only [step]
    by_cases ha : p.run.aborted = true
    · simp only [ha, if_true]
    · simp only [ha, Bool.false_eq_true, if_false]
      cases p.run.queue <;> rfl
  | joining t =>
    simp only [step, acquire_withPhases]
    rcases p.acquire w budget with ⟨_ | b, q⟩
    · rfl
    · simp only [commitStep_withPhases]
      rcases q.commitStep (Committer.ensureNode q.run.target t.stealer) with ⟨_ | (e | _), r⟩
      · simp only [release_withPhases]
      · cases e <;> simp only [release_withPhases, onRun_withPhases]
      · simp only [release_withPhases]
  | moving ms =>
    cases ms with
    | nil => rfl
    | cons m rest =>
      simp only [step]
      by_cases ha : p.run.aborted = true
      · simp only [ha, if_true, onRun_withPhases]
      · simp only [ha, Bool.false_eq_true, if_false]
  | committing m rest =>
    simp only [step, acquire_withPhases]
    rcases p.acquire w budget with ⟨_ | b, q⟩
    · rfl
    · simp only [commitStep_withPhases]
      rcases q.commitStep (Committer.commit m now) with ⟨_ | (e | _), r⟩
      · simp only [release_withPhases]
      · cases e <;> simp only [release_withPhases, onRun_withPhases] <;> split <;> rfl
      · simp only [release_withPhases]
  | migrating m rest stores failed =>
    cases stores with
    | nil => rfl
    | cons store stores =>
      simp only [step]
      rcases p.run.committer.cluster.startMigration store m with ⟨_ | job, c⟩
      · rfl
      · simp only []
        rcases c.awaitJob p.stalls m.stealer job with ⟨_ | _ | _, c'⟩ <;> rfl
  | waiting m rest stores failed deadline armed =>
    simp only [step]
    by_cases hb : budget = 0
    · simp only [hb, if_true]
      rfl
    · by_cases hd : deadline ≤ p.clock
      · simp only [hb, hd, if_false, if_true]
      · cases armed <;> simp [hb, hd]
  | stopped => rfl

@[simp]
theorem step_phases (ph : Phase) : (step now timeout w budget ph p).2.phases = p.phases := by
  -- storing the phases the pool already has is the pool itself
  exact congrArg (fun r : Next × Pool => r.2.phases) (step_withPhases now timeout w budget ph p p.phases)

theorem step_setPhase (ph : Phase) :
    step now timeout w budget ph (p.setPhase v x) =
      ((step now timeout w budget ph p).1, (step now timeout w budget ph p).2.setPhase v x) := by
  have h := step_withPhases now timeout w budget ph p (p.phases.set v x)
  unfold setPhase
  rw [h, step_phases]

/-- A joining worker with the lock makes its call, records the answer and releases the lock. -/
theorem step_joining_of_lock {t : Task} {b : Nat} {q : Pool} (ha : p.acquire w budget = (some b, q)) :
    step now timeout w budget (.joining t) p =
      (joinNext t b (q.commitStep (Committer.ensureNode q.run.target t.stealer)).1,
        (q.commitStep (Committer.ensureNode q.run.target t.stealer)).2.release.onRun
          fun s => s.afterJoin t (q.commitStep (Committer.ensureNode q.run.target t.stealer)).1) := by
  simp only [step, ha]
  rcases q.commitStep (Committer.ensureNode q.run.target t.stealer) with ⟨_ | (e | _), r⟩
  · rfl
  · cases e <;> rfl
  · rfl

/-- A committing worker with the lock makes its call, records the answer and releases the lock. -/
theorem step_committing_of_lock {m : Movement} {rest : List Movement} {b : Nat} {q : Pool}
    (ha : p.acquire w budget = (some b, q)) :
    step now timeout w budget (.committing m rest) p =
      (commitNext m rest b (q.commitStep (Committer.commit m now)).1,
        (q.commitStep (Committer.commit m now)).2.release.onRun
          fun s => s.afterCommit m rest (q.commitStep (Committer.commit m now)).1) := by
  simp only [step, ha]
  rcases q.commitStep (Committer.commit m now) with ⟨_ | (e | _), r⟩
  · rfl
  · cases e <;> rfl
  · rfl

end Pool

/-! ## What a step can do -/

/-- The cases of a step of worker `w` with `budget` left: the phase and pool it starts from,
what the worker does next, the pool after the step and the committer call it made. -/
inductive StepCase (now : Int) (timeout w budget : Nat) :
    Phase → Pool → Next → Pool → Option Call → Prop
  /-- An idle worker stops when the run is aborted or the queue is empty, -/
  | stop {p : Pool} : (p.run.aborted = true ∨ p.run.queue = []) →
      StepCase now timeout w budget .idle p (.pause .stopped) p none
  /-- and takes the next task otherwise. -/
  | take {p : Pool} {t : Task} {rest : List Task} : p.run.aborted = false → p.run.queue = t :: rest →
      StepCase now timeout w budget .idle p (.go (.joining t) budget)
        (p.onRun fun s => { s with queue := rest }) none
  /-- A worker that needs the lock and does not get it waits. -/
  | wait {p q : Pool} {ph : Phase} : ph.needsLock = true → p.acquire w budget = (none, q) →
      StepCase now timeout w budget ph p (.pause ph) q none
  /-- With the lock, a joining worker has its stealer added, records the answer and releases the
  lock; -/
  | join {p q r : Pool} {t : Task} {b : Nat} {a : Option (Except RunError Unit)} :
      p.acquire w budget = (some b, q) →
      q.commitStep (Committer.ensureNode q.run.target t.stealer) = (a, r) →
      StepCase now timeout w budget (.joining t) p (joinNext t b a)
        (r.release.onRun fun s => s.afterJoin t a) (some (.ensure t.stealer a))
  /-- a committing worker has its movement committed, records the answer and releases the lock. -/
  | commit {p q r : Pool} {m : Movement} {rest : List Movement} {b : Nat}
      {a : Option (Except RunError CommitRecord)} :
      p.acquire w budget = (some b, q) → q.commitStep (Committer.commit m now) = (a, r) →
      StepCase now timeout w budget (.committing m rest) p (commitNext m rest b a)
        (r.release.onRun fun s => s.afterCommit m rest a) (some (.commit m a))
  /-- A worker done with its task's movements goes back to the queue; -/
  | finish {p : Pool} : StepCase now timeout w budget (.moving []) p (.go .idle budget) p none
  /-- after an abort it skips the movements left; -/
  | skip {p : Pool} {m : Movement} {rest : List Movement} : p.run.aborted = true →
      StepCase now timeout w budget (.moving (m :: rest)) p (.go .idle budget)
        (p.onRun fun s => s.skipAll (m :: rest)) none
  /-- otherwise it goes on to commit the next one. -/
  | next {p : Pool} {m : Movement} {rest : List Movement} : p.run.aborted = false →
      StepCase now timeout w budget (.moving (m :: rest)) p (.go (.committing m rest) budget) p none
  /-- With no store left, the movement's outcome is recorded. -/
  | migrated {p : Pool} {m : Movement} {rest : List Movement} {failed : Bool} :
      StepCase now timeout w budget (.migrating m rest [] failed) p (.go (.moving rest) budget)
        (p.onRun fun s => s.record m
          (if failed then Status.migrationFailed m.storesPending else Status.completed)) none
  /-- A store whose job cannot be issued has failed; -/
  | unissued {p : Pool} {m : Movement} {rest : List Movement} {store : String}
      {stores : List String} {failed : Bool} {e : ClientError} {c : Cluster} :
      p.run.committer.cluster.startMigration store m = (.error e, c) →
      StepCase now timeout w budget (.migrating m rest (store :: stores) failed) p
        (.go (.migrating m rest stores true) budget) (p.setCluster c) none
  /-- a job that finished completes the store; -/
  | migrate {p : Pool} {m : Movement} {rest : List Movement} {store : String}
      {stores : List String} {failed : Bool} {job : Nat} {c c' : Cluster} :
      p.run.committer.cluster.startMigration store m = (.ok job, c) →
      c.awaitJob p.stalls m.stealer job = (.done, c') →
      StepCase now timeout w budget (.migrating m rest (store :: stores) failed) p
        (.go (.migrating (m.completeStore store).2 rest stores failed) budget) (p.setCluster c') none
  /-- a job that failed fails the store; -/
  | jobFailed {p : Pool} {m : Movement} {rest : List Movement} {store : String}
      {stores : List String} {failed : Bool} {job : Nat} {c c' : Cluster} {e : ClientError} :
      p.run.committer.cluster.startMigration store m = (.ok job, c) →
      c.awaitJob p.stalls m.stealer job = (.failed e, c') →
      StepCase now timeout w budget (.migrating m rest (store :: stores) failed) p
        (.go (.migrating m rest stores true) budget) (p.setCluster c') none
  /-- and a job that never finishes has the worker wait `timeout` seconds for it. -/
  | stall {p : Pool} {m : Movement} {rest : List Movement} {store : String}
      {stores : List String} {failed : Bool} {job : Nat} {c c' : Cluster} :
      p.run.committer.cluster.startMigration store m = (.ok job, c) →
      c.awaitJob p.stalls m.stealer job = (.pending, c') →
      StepCase now timeout w budget (.migrating m rest (store :: stores) failed) p
        (.go (.waiting m rest stores failed (p.clock + timeout) false) budget)
        { p.setCluster c' with stalls := p.stalls + 1 } none
  /-- A waiting worker with its budget spent yields; -/
  | yield {p : Pool} {m : Movement} {rest : List Movement} {stores : List String}
      {failed : Bool} {deadline : Nat} {armed : Bool} : budget = 0 →
      StepCase now timeout w budget (.waiting m rest stores failed deadline armed) p
        (.pause (.waiting m rest stores failed deadline armed)) (p.yieldTurn w) none
  /-- past its deadline the store has timed out; -/
  | expire {p : Pool} {m : Movement} {rest : List Movement} {stores : List String}
      {failed : Bool} {deadline : Nat} {armed : Bool} : budget ≠ 0 → deadline ≤ p.clock →
      StepCase now timeout w budget (.waiting m rest stores failed deadline armed) p
        (.go (.migrating m rest stores true) (budget - 1)) { p with stalls := p.stalls - 1 } none
  /-- before it, a worker whose timer is set sleeps on, -/
  | sleep {p : Pool} {m : Movement} {rest : List Movement} {stores : List String}
      {failed : Bool} {deadline : Nat} : budget ≠ 0 → p.clock < deadline →
      StepCase now timeout w budget (.waiting m rest stores failed deadline true) p
        (.pause (.waiting m rest stores failed deadline true)) p none
  /-- and one without sets it. -/
  | arm {p : Pool} {m : Movement} {rest : List Movement} {stores : List String}
      {failed : Bool} {deadline : Nat} : budget ≠ 0 → p.clock < deadline →
      StepCase now timeout w budget (.waiting m rest stores failed deadline false) p
        (.pause (.waiting m rest stores failed deadline true))
        { p with timers := p.timers ++ [⟨deadline, w⟩] } none
  /-- A stopped worker stays stopped. -/
  | stopped {p : Pool} : StepCase now timeout w budget .stopped p (.pause .stopped) p none

namespace Pool

variable {now : Int} {timeout : Nat} {w budget : Nat}

/-- Every step is one of the cases of `StepCase`, with the call `Pool.call` says it makes. -/
theorem stepCase (ph : Phase) (p : Pool) :
    StepCase now timeout w budget ph p (step now timeout w budget ph p).1
      (step now timeout w budget ph p).2 (p.call now w budget ph) := by
  cases ph with
  | idle =>
    by_cases ha : p.run.aborted = true
    · simp only [step, ha, if_true]
      exact .stop (.inl ha)
    · have ha : p.run.aborted = false := by simpa using ha
      cases hq : p.run.queue with
      | nil =>
        simp only [step, ha, hq, Bool.false_eq_true, if_false]
        exact .stop (.inr hq)
      | cons t rest =>
        simp only [step, ha, hq, Bool.false_eq_true, if_false]
        exact .take ha hq
  | joining t =>
    rcases ha : p.acquire w budget with ⟨_ | b, q⟩
    · simp only [step, call, ha]
      exact .wait rfl ha
    · rcases hr : q.commitStep (Committer.ensureNode q.run.target t.stealer) with ⟨a, r⟩
      simp only [step_joining_of_lock ha, call, ha, hr]
      exact .join ha hr
  | moving ms =>
    cases ms with
    | nil => exact .finish
    | cons m rest =>
      by_cases ha : p.run.aborted = true
      · simp only [step, ha, if_true]
        exact .skip ha
      · have ha : p.run.aborted = false := by simpa using ha
        simp only [step, ha, Bool.false_eq_true, if_false]
        exact .next ha
  | committing m rest =>
    rcases ha : p.acquire w budget with ⟨_ | b, q⟩
    · simp only [step, call, ha]
      exact .wait rfl ha
    · rcases hr : q.commitStep (Committer.commit m now) with ⟨a, r⟩
      simp only [step_committing_of_lock ha, call, ha, hr]
      exact .commit ha hr
  | migrating m rest stores failed =>
    cases stores with
    | nil => exact .migrated
    | cons store stores =>
      rcases hm : p.run.committer.cluster.startMigration store m with ⟨_ | job, c⟩
      · simp only [step, hm]
        exact .unissued hm
      · rcases hj : c.awaitJob p.stalls m.stealer job with ⟨_ | _ | _, c'⟩
        · simp only [step, hm, hj]
          exact .migrate hm hj
        · simp only [step, hm, hj]
          exact .stall hm hj
        · simp only [step, hm, hj]
          exact .jobFailed hm hj
  | waiting m rest stores failed deadline armed =>
    by_cases hb : budget = 0
    · simp only [step, hb, if_true]
      exact .yield rfl
    · by_cases hd : deadline ≤ p.clock
      · simp only [step, hb, hd, if_false, if_true]
        exact .expire hb hd
      · have hd : p.clock < deadline := Nat.lt_of_not_le hd
        cases armed with
        | true =>
          simp only [step, hb, Nat.not_le.2 hd, if_false, if_true]
          exact .sleep hb hd
        | false =>
          simp only [step, hb, Nat.not_le.2 hd, if_false, Bool.false_eq_true]
          exact .arm hb hd
  | stopped => exact .stopped

theorem stepCase_of_eq {ph : Phase} {p p' : Pool} {n : Next}
    (h : step now timeout w budget ph p = (n, p')) :
    StepCase now timeout w budget ph p n p' (p.call now w budget ph) := by
  have hs := @stepCase now timeout w budget ph p
  rwa [h] at hs

theorem phases_of_step {ph : Phase} {p p' : Pool} {n : Next}
    (h : step now timeout w budget ph p = (n, p')) : p'.phases = p.phases := by
  have hp : (step now timeout w budget ph p).2.phases = p.phases := step_phases ph
  rwa [h] at hp

/-- What every step that goes on keeps holds where the turn ends: at the step after which the
worker waits, or where the fuel runs out. -/
theorem turn_invariant (P : Nat → Phase → Nat → Pool → Prop)
    (hgo : ∀ fuel ph b p ph' b' p', P (fuel + 1) ph b p →
      step now timeout w b ph p = (.go ph' b', p') → P fuel ph' b' p') :
    ∀ fuel ph b p, P fuel ph b p →
      (∃ ph' b' p', P 0 ph' b' p' ∧ turn now timeout w fuel ph b p = p'.setPhase w ph') ∨
      (∃ fuel' ph' b' p' ph'' p'', P (fuel' + 1) ph' b' p' ∧
        step now timeout w b' ph' p' = (.pause ph'', p'') ∧
        turn now timeout w fuel ph b p = p''.setPhase w ph'')
  | 0, ph, b, p, hP => .inl ⟨ph, b, p, hP, rfl⟩
  | fuel + 1, ph, b, p, hP => by
    unfold turn
    rcases hst : step now timeout w b ph p with ⟨ph' | ph', p'⟩
    · exact turn_invariant P hgo fuel ph' _ p' (hgo fuel ph b p ph' _ p' hP hst)
    · exact .inr ⟨fuel, ph, b, p, ph', p', hP, hst, rfl⟩

end Pool

/-! ## The workers the thread holds on to -/

namespace Pool

variable {now : Int} {timeout : Nat} {p p' : Pool} {w v budget : Nat}

/-- The thread holds on to worker `v`: it is ready, has yielded, holds or awaits the lock, or
has set a timer. -/
def Holds (p : Pool) (v : Nat) : Prop :=
  v ∈ p.ready ∨ v ∈ p.yielded ∨ p.holder = some v ∨ v ∈ p.waiters ∨ ∃ t ∈ p.timers, t.worker = v

/-- Every worker the thread holds on to has a phase. -/
def Tracked (p : Pool) : Prop := ∀ v, p.Holds v → v < p.phases.length

theorem holds_acquire (h : (p.acquire w budget).2.Holds v) : p.Holds v ∨ v = w := by
  unfold acquire yieldTurn Holds at *
  grind

theorem holds_release (h : p.release.Holds v) : p.Holds v := by
  unfold release Holds at *
  grind

theorem holds_commitStep {α : Type} (x : CommitM α) : (p.commitStep x).2.Holds v ↔ p.Holds v := by
  unfold commitStep
  cases x p.run.committer <;> rfl

theorem holds_check (h : p.check.Holds v) : p.Holds v := by
  unfold check Holds at *
  grind

/-- A step adds no worker to those the thread holds on to but the one that steps. -/
theorem holds_of_stepCase {ph : Phase} {n : Next} {c : Option Call}
    (hs : StepCase now timeout w budget ph p n p' c) (h : p'.Holds v) : p.Holds v ∨ v = w := by
  cases hs with
  | stop _ => exact .inl h
  | take _ _ => exact .inl h
  | wait _ ha => exact holds_acquire (by rw [ha]; exact h)
  | join ha hr =>
    have hq := (holds_commitStep _).1 (by rw [hr]; exact holds_release h)
    exact holds_acquire (by rw [ha]; exact hq)
  | commit ha hr =>
    have hq := (holds_commitStep _).1 (by rw [hr]; exact holds_release h)
    exact holds_acquire (by rw [ha]; exact hq)
  | finish => exact .inl h
  | skip _ => exact .inl h
  | next _ => exact .inl h
  | migrated => exact .inl h
  | unissued _ => exact .inl h
  | migrate _ _ => exact .inl h
  | jobFailed _ _ => exact .inl h
  | stall _ _ => exact .inl h
  | yield _ =>
    unfold yieldTurn Holds at *
    grind
  | expire _ _ => exact .inl h
  | sleep _ _ => exact .inl h
  | arm _ _ =>
    unfold Holds at *
    grind
  | stopped => exact .inl h

theorem tracked_of_step {ph : Phase} {n : Next} (ht : p.Tracked) (hw : w < p.phases.length)
    (hst : step now timeout w budget ph p = (n, p')) : p'.Tracked ∧ w < p'.phases.length := by
  refine ⟨fun v hv => ?_, (phases_of_step hst).symm ▸ hw⟩
  rw [phases_of_step hst]
  rcases holds_of_stepCase (stepCase_of_eq hst) hv with h | rfl
  · exact ht v h
  · exact hw

theorem tracked_setPhase (ht : p.Tracked) : (p.setPhase v x).Tracked := by
  intro u hu
  rw [setPhase_phases, List.length_set]
  exact ht u hu

/-- A turn keeps every worker the thread holds on to tracked. -/
theorem tracked_turn (fuel : Nat) (ph : Phase) (b : Nat) (p : Pool) (ht : p.Tracked)
    (hw : w < p.phases.length) : (turn now timeout w fuel ph b p).Tracked := by
  rcases turn_invariant (fun _ _ _ q => q.Tracked ∧ w < q.phases.length)
      (fun _ _ _ _ _ _ _ h hst => tracked_of_step h.1 h.2 hst) fuel ph b p ⟨ht, hw⟩ with
    ⟨_, _, _, ⟨ht', -⟩, hturn⟩ | ⟨_, _, _, _, _, _, ⟨ht', hw'⟩, hst, hturn⟩
  · rw [hturn]
    exact tracked_setPhase ht'
  · rw [hturn]
    exact tracked_setPhase (tracked_of_step ht' hw' hst).1

/-- A step of a worker from the phase it has stored is a move to the step's pool, with the new
phase stored. -/
theorem moves_of_step {ph : Phase} {n : Next} (hw : w < p.phases.length)
    (hst : step now timeout w budget ph p = (n, p')) :
    ∃ calls, Moves now timeout (p.setPhase w ph) calls (p'.setPhase w n.phase) := by
  have hadv : (p.setPhase w ph).advance now timeout w budget = p'.setPhase w n.phase := by
    unfold advance
    rw [phase_setPhase_self hw, step_setPhase, setPhase_setPhase, hst]
  rw [← hadv]
  exact ⟨_, .advance w budget (.refl _)⟩

/-- A turn is a sequence of steps of one worker, each from the phase the one before left. -/
theorem turn_moves (fuel : Nat) (ph : Phase) (b : Nat) (p : Pool) (hw : w < p.phases.length) :
    ∃ calls, Moves now timeout (p.setPhase w ph) calls (turn now timeout w fuel ph b p) := by
  -- each step the turn goes on from is reached from where the turn began
  let P : Nat → Phase → Nat → Pool → Prop := fun _ ph' _ q =>
    w < q.phases.length ∧ ∃ calls, Moves now timeout (p.setPhase w ph) calls (q.setPhase w ph')
  have hgo : ∀ fuel ph b q ph' b' q', P (fuel + 1) ph b q →
      step now timeout w b ph q = (.go ph' b', q') → P fuel ph' b' q' := by
    rintro _ _ _ _ _ _ _ ⟨hw', calls, h⟩ hst
    obtain ⟨more, h'⟩ := moves_of_step hw' hst
    exact ⟨(phases_of_step hst).symm ▸ hw', _, h.trans h'⟩
  rcases turn_invariant P hgo fuel ph b p ⟨hw, [], .refl _⟩ with
    ⟨_, _, _, ⟨_, calls, h⟩, hturn⟩ | ⟨_, _, _, _, _, _, ⟨hw', calls, h⟩, hst, hturn⟩
  · rw [hturn]
    exact ⟨calls, h⟩
  · obtain ⟨more, h'⟩ := moves_of_step hw' hst
    rw [hturn]
    exact ⟨_, h.trans h'⟩

theorem tracked_check (ht : p.Tracked) : p.check.Tracked := fun v hv => ht v (holds_check hv)

theorem check_rescheduled (p : Pool) : p.Rescheduled p.check :=
  ⟨rfl, rfl, rfl, rfl, rfl, Nat.le_refl _⟩

/-- The thread's run, from a pool where every worker it holds on to is tracked, is a run of
the workers in some order. -/
theorem drive_moves (steps : Nat) : ∀ (fuel : Nat) (p : Pool), p.Tracked →
    ∃ calls, Moves now timeout p calls (drive now timeout steps fuel p)
  | 0, p, _ => ⟨[], .refl p⟩
  | fuel + 1, p, ht => by
    unfold drive
    split
    · obtain ⟨calls, h⟩ := drive_moves steps fuel p.check (tracked_check ht)
      exact ⟨_, (Moves.reschedule (.refl p) (check_rescheduled p)).trans h⟩
    · split
      · -- the next ready worker takes a turn, from the pool without it
        rename_i w ws hr
        let q : Pool := { p with ready := ws, turns := p.turns + 1 }
        have hq : q.Tracked := fun v hv => ht v (by unfold Holds at hv ⊢; rw [hr]; grind)
        have hw : w < q.phases.length := ht w (.inl (by rw [hr]; exact List.mem_cons_self))
        have hturn : ∃ calls, Moves now timeout (q.setPhase w (q.phase w)) calls
            (turn now timeout w steps (q.phase w) turnBudget q) := turn_moves steps _ _ _ hw
        rw [setPhase_phase] at hturn
        obtain ⟨calls, hturn⟩ := hturn
        obtain ⟨more, hrest⟩ := drive_moves steps fuel _ (tracked_turn steps _ _ q hq hw)
        have hpop : p.Rescheduled q := ⟨rfl, rfl, rfl, rfl, rfl, Nat.le_refl _⟩
        exact ⟨_, ((Moves.reschedule (.refl p) hpop).trans hturn).trans hrest⟩
      · split
        · split
          · exact ⟨[], .refl p⟩
          · -- the clock jumps to the earliest deadline
            rename_i d _
            let q : Pool := { p with clock := max p.clock d }
            have hjump : p.Rescheduled q.check := ⟨rfl, rfl, rfl, rfl, rfl, Nat.le_max_left _ _⟩
            obtain ⟨calls, h⟩ := drive_moves steps fuel q.check (tracked_check ht)
            exact ⟨_, (Moves.reschedule (.refl p) hjump).trans h⟩
        · obtain ⟨calls, h⟩ := drive_moves steps fuel p.check (tracked_check ht)
          exact ⟨_, (Moves.reschedule (.refl p) (check_rescheduled p)).trans h⟩

theorem tracked_start (s : RunState) (workers : Nat) : (Pool.start s workers).Tracked := by
  intro v hv
  simp only [Holds, start, List.mem_range, List.not_mem_nil, reduceCtorEq, false_or,
    List.length_replicate] at hv ⊢
  simpa using hv

/-- The workers' run under the thread is a run of the workers in some order. -/
theorem runWorkers_moves (now : Int) (timeout workers : Nat) (s : RunState) :
    ∃ calls, Moves now timeout (Pool.start s workers) calls (runWorkers now timeout workers s) :=
  drive_moves _ _ _ (tracked_start s workers)

end Pool

end Rebalance

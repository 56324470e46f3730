import Rebalance.Proofs.HaltedRun
/-!
# Every run of the workers ends, with every worker stopped

The thread runs the workers with fuel: a turn takes at most `stepBound` steps and the thread at
most four times as many rounds. This module shows that the fuel never runs out, and that the
run ends only when every worker has stopped, so no worker is left waiting forever.

* A worker's steps are counted down by `Phase.steps`: every step after which the worker goes on
  lowers it (`steps_of_stepCase`), and the run starts below `stepBound`. A turn therefore ends
  with the worker waiting, long before its fuel runs out.
* The thread's rounds are counted down by the wake-ups still to come (`Pool.wakes`): the ready
  and yielded workers, the timers, and two for each lock step and each store still ahead. A
  lock step releases the lock to at most one worker, and a turn yields only after it took the
  lock `turnBudget` times, so no turn adds wake-ups (`wakes_turn`); each turn takes one ready
  worker, and a check or clock jump between turns wakes one.
* `Pool.Live` says that every worker that has not stopped will be woken: it is ready, yielded,
  queued for the lock or has a timer, and the lock's holder will run. At the end no worker is
  ready or yielded and no timer is set, so every worker has stopped (`runWorkers_stopped`).
-/

namespace Rebalance

/-! ## Sums of weights -/

/-- The sum of a weight over a list. -/
def weigh {α : Type} (f : α → Nat) : List α → Nat
  | [] => 0
  | a :: as => f a + weigh f as

section Weigh

variable {α : Type} (f : α → Nat)

@[simp] theorem weigh_nil : weigh f [] = 0 := rfl

@[simp] theorem weigh_cons (a : α) (as : List α) : weigh f (a :: as) = f a + weigh f as := rfl

@[simp] theorem weigh_append (as bs : List α) : weigh f (as ++ bs) = weigh f as + weigh f bs := by
  induction as with
  | nil => simp
  | cons a as ih => simp [ih, Nat.add_assoc]

/-- Changing one entry changes the sum by the difference. -/
theorem weigh_set (d : α) : ∀ (as : List α) (i : Nat) (x : α), i < as.length →
    weigh f (as.set i x) + f (as.getD i d) = weigh f as + f x
  | _ :: _, 0, _, _ => by simp; omega
  | a :: as, i + 1, x, h => by
    have ih := weigh_set d as i x (by simpa using h)
    simp only [List.set_cons_succ, weigh_cons, List.getD_cons_succ]
    omega

theorem weigh_le_weigh {g : α → Nat} (h : ∀ a, f a ≤ g a) : ∀ as, weigh f as ≤ weigh g as
  | [] => Nat.le_refl _
  | a :: as => Nat.add_le_add (h a) (weigh_le_weigh h as)

theorem weigh_mul (c : Nat) : ∀ as, weigh (fun a => c * f a) as = c * weigh f as
  | [] => rfl
  | a :: as => by rw [weigh_cons, weigh_cons, weigh_mul c as, Nat.mul_add]

theorem weigh_replicate (a : α) : ∀ n : Nat, weigh f (List.replicate n a) = n * f a
  | 0 => by simp
  | n + 1 => by
    rw [List.replicate_succ, weigh_cons, weigh_replicate a n, Nat.succ_mul]
    omega

end Weigh

/-! ## Steps a worker has left -/

/-- At most how many steps a worker goes on through the movements `ms`: three for each movement
and for each of its stores, and two to finish. -/
def movesSteps : List Movement → Nat
  | [] => 2
  | m :: rest => 3 + 3 * m.storesPending.length + movesSteps rest

/-- At most how many more steps a worker in this phase goes on after. -/
def Phase.steps : Phase → Nat
  | .idle => 1
  | .joining t => movesSteps t.movements + 1
  | .moving ms => movesSteps ms
  | .committing m rest => 2 + 3 * m.storesPending.length + movesSteps rest
  | .migrating _ rest stores _ => 3 * stores.length + 1 + movesSteps rest
  | .waiting _ rest stores _ _ _ => 3 * stores.length + 2 + movesSteps rest
  | .stopped => 0

/-- The steps a queued task will cost the worker that takes it. -/
def Task.steps (t : Task) : Nat := movesSteps t.movements + 1

/-- Whether a worker goes on after a step. -/
def Next.progress : Next → Nat
  | .go _ _ => 1
  | .pause _ => 0

theorem two_le_movesSteps : ∀ ms : List Movement, 2 ≤ movesSteps ms
  | [] => Nat.le_refl _
  | _ :: _ => by simp only [movesSteps]; omega

theorem joinNext_steps (t : Task) (b : Nat) (a : Option (Except RunError Unit)) :
    (joinNext t b a).phase.steps + (joinNext t b a).progress ≤ (Phase.joining t).steps := by
  have := two_le_movesSteps t.movements
  rcases a with _ | (_ | _) <;>
    simp only [joinNext, Next.phase, Next.progress, Phase.steps] <;> omega

/-- A refused commit lets its worker go on with the same budget, back to idle or on to the rest
of its task. -/
theorem commitNext_error (m : Movement) (rest : List Movement) (b : Nat) (e : RunError) :
    commitNext m rest b (some (.error e)) = .go .idle b ∨
      commitNext m rest b (some (.error e)) = .go (.moving rest) b := by
  cases e <;> simp [commitNext, RunError.isRunFatal]

theorem commitNext_steps (m : Movement) (rest : List Movement) (b : Nat)
    (a : Option (Except RunError CommitRecord)) :
    (commitNext m rest b a).phase.steps + (commitNext m rest b a).progress ≤
      (Phase.committing m rest).steps := by
  rcases a with _ | (e | _)
  · simp [commitNext, Next.phase, Next.progress, Phase.steps]
  · rcases commitNext_error m rest b e with h | h <;>
      simp only [h, Next.phase, Next.progress, Phase.steps] <;> omega
  · simp [commitNext, Next.phase, Next.progress, Phase.steps]
    omega

namespace RunState

variable {s : RunState}

@[simp] theorem afterJoin_queue {t : Task} {a : Option (Except RunError Unit)} :
    (s.afterJoin t a).queue = s.queue := by
  unfold afterJoin; split <;> rfl

@[simp] theorem afterCommit_queue {m : Movement} {rest : List Movement}
    {a : Option (Except RunError CommitRecord)} : (s.afterCommit m rest a).queue = s.queue := by
  unfold afterCommit
  split
  · rfl
  · split <;> rfl
  · rfl

end RunState

/-! ## The lock -/

namespace Pool

variable {p q : Pool} {w budget b : Nat}

/-- Taking the lock: the budget drops by one, and the worker holds the lock it found free or
held already. -/
theorem acquire_eq_some (h : p.acquire w budget = (some b, q)) :
    budget = b + 1 ∧ (p.holder = none ∨ p.holder = some w) ∧ q = { p with holder := some w } := by
  unfold acquire at h
  cases hh : p.holder with
  | none =>
    by_cases hb : budget = 0
    · simp [hh, hb] at h
    · simp only [hh, hb, if_false, Prod.mk.injEq, Option.some.injEq] at h
      obtain ⟨rfl, rfl⟩ := h
      exact ⟨by omega, .inl rfl, rfl⟩
  | some v =>
    by_cases hv : v = w
    · subst hv
      by_cases hb : budget = 0
      · simp [hh, hb] at h
      · simp only [hh, hb, if_true, if_false, Prod.mk.injEq, Option.some.injEq] at h
        obtain ⟨rfl, rfl⟩ := h
        exact ⟨by omega, .inr rfl, by rw [← hh]⟩
    · by_cases hc : w ∈ p.waiters <;> simp [hh, hv, hc] at h

/-- Not getting the lock: the worker queues behind another holder (once), or yields with its
budget spent, holding the lock. -/
theorem acquire_eq_none (h : p.acquire w budget = (none, q)) :
    (∃ v, p.holder = some v ∧ v ≠ w ∧
      ((w ∈ p.waiters ∧ q = p) ∨ (w ∉ p.waiters ∧ q = { p with waiters := p.waiters ++ [w] }))) ∨
    (budget = 0 ∧ (p.holder = none ∨ p.holder = some w) ∧
      q = { p with yielded := p.yielded ++ [w], holder := some w }) := by
  unfold acquire yieldTurn at h
  cases hh : p.holder with
  | none =>
    by_cases hb : budget = 0
    · simp only [hh, hb, if_true, Prod.mk.injEq, true_and] at h
      exact .inr ⟨hb, .inl rfl, h.symm⟩
    · simp [hh, hb] at h
  | some v =>
    by_cases hv : v = w
    · subst hv
      by_cases hb : budget = 0
      · simp only [hh, hb, if_true, Prod.mk.injEq, true_and] at h
        exact .inr ⟨hb, .inr rfl, by rw [← h, ← hh]⟩
      · simp [hh, hb] at h
    · by_cases hc : w ∈ p.waiters
      · simp only [hh, hv, if_false, List.contains_iff_mem, hc, if_true, Prod.mk.injEq,
          true_and] at h
        exact .inl ⟨v, rfl, hv, .inl ⟨hc, h.symm⟩⟩
      · simp only [hh, hv, if_false, List.contains_iff_mem, hc, Prod.mk.injEq, true_and] at h
        exact .inl ⟨v, rfl, hv, .inr ⟨hc, h.symm⟩⟩

/-- Releasing the lock hands it to the first queued worker, which becomes ready. -/
theorem release_eq :
    (p.waiters = [] ∧ p.release = { p with holder := none }) ∨
    ∃ v vs, p.waiters = v :: vs ∧
      p.release = { p with holder := some v, waiters := vs, ready := p.ready ++ [v] } := by
  unfold release
  cases p.waiters with
  | nil => exact .inl ⟨rfl, rfl⟩
  | cons v vs => exact .inr ⟨v, vs, rfl, rfl⟩

theorem release_onRun (f : RunState → RunState) : (p.onRun f).release = p.release.onRun f := by
  unfold release onRun
  cases p.waiters <;> rfl

/-- A lock step is the release of the lock the worker took, with the run changed. -/
theorem lockStep_eq {α : Type} {x : CommitM α} {a : Option α} {r : Pool}
    (ha : p.acquire w budget = (some b, q)) (hr : q.commitStep x = (a, r)) (f : RunState → RunState) :
    r.release.onRun f = ({ p with holder := some w } : Pool).release.onRun
      (fun s => f { s with committer := Committer.stateOf (x p.run.committer) }) := by
  obtain ⟨-, -, rfl⟩ := acquire_eq_some ha
  rw [commitStep_eq] at hr
  cases hr
  rw [release_onRun]
  rfl

end Pool

/-! ## A worker's steps run down -/

namespace Pool

variable {now : Int} {timeout : Nat} {w budget : Nat} {ph : Phase} {p p' : Pool} {n : Next}
  {c : Option Call}

theorem run_of_acquire {q : Pool} {b : Option Nat} (ha : p.acquire w budget = (b, q)) :
    q.run = p.run := by
  simpa using (congrArg (fun r => r.2.run) ha).symm

/-- Every step after which the worker goes on lowers the steps it and the queue have left. -/
theorem steps_of_stepCase (hs : StepCase now timeout w budget ph p n p' c) :
    n.phase.steps + weigh Task.steps p'.run.queue + n.progress ≤
      ph.steps + weigh Task.steps p.run.queue := by
  cases hs with
  | stop _ => simp [Next.phase, Next.progress, Phase.steps]
  | take _ hq =>
    simp only [onRun, hq, weigh_cons, Next.phase, Next.progress, Phase.steps, Task.steps]
    omega
  | wait _ ha => simp [Next.phase, Next.progress, run_of_acquire ha]
  | @join _ _ _ t b a ha hr =>
    rw [lockStep_eq ha hr]
    have := joinNext_steps t b a
    simp only [onRun, release_run, RunState.afterJoin_queue]
    omega
  | @commit _ _ _ m rest b a ha hr =>
    rw [lockStep_eq ha hr]
    have := commitNext_steps m rest b a
    simp only [onRun, release_run, RunState.afterCommit_queue]
    omega
  | finish =>
    simp only [Next.phase, Next.progress, Phase.steps, movesSteps]
    omega
  | skip _ =>
    simp only [Next.phase, Next.progress, Phase.steps, movesSteps, onRun, RunState.skipAll]
    omega
  | next _ =>
    simp only [Next.phase, Next.progress, Phase.steps, movesSteps]
    omega
  | migrated =>
    simp only [Next.phase, Next.progress, Phase.steps, onRun, RunState.record, List.length_nil]
    omega
  | unissued _ =>
    simp only [Next.phase, Next.progress, Phase.steps, setCluster, onRun, List.length_cons]
    omega
  | migrate _ _ =>
    simp only [Next.phase, Next.progress, Phase.steps, setCluster, onRun, List.length_cons]
    omega
  | jobFailed _ _ =>
    simp only [Next.phase, Next.progress, Phase.steps, setCluster, onRun, List.length_cons]
    omega
  | stall _ _ =>
    simp only [Next.phase, Next.progress, Phase.steps, setCluster, onRun, List.length_cons]
    omega
  | yield _ => simp [Next.phase, Next.progress, yieldTurn]
  | expire _ _ =>
    simp only [Next.phase, Next.progress, Phase.steps]
    omega
  | sleep _ _ => simp [Next.phase, Next.progress]
  | arm _ _ => simp [Next.phase, Next.progress, Phase.steps]
  | stopped => simp [Next.phase, Next.progress]

end Pool

/-! ## Wake-ups to come -/

/-- The stores still to migrate in a list of movements. -/
def storeCount (ms : List Movement) : Nat := weigh (fun m => m.storesPending.length) ms

/-- The wake-ups a worker in this phase may still cause: two for each lock step ahead (its
release may make a worker ready, and it spends budget towards a yield) and two for each store
ahead (its timer, and the wait that ends at it). -/
def Phase.wakes : Phase → Nat
  | .idle => 0
  | .joining t => 2 * (1 + t.movements.length) + 2 * storeCount t.movements
  | .moving ms => 2 * ms.length + 2 * storeCount ms
  | .committing m rest => 2 * (1 + rest.length) + 2 * (m.storesPending.length + storeCount rest)
  | .migrating _ rest stores _ => 2 * rest.length + 2 * (stores.length + storeCount rest)
  | .waiting _ rest stores _ _ armed =>
    2 * rest.length + 2 * (stores.length + storeCount rest) + 1 + if armed then 0 else 1
  | .stopped => 0

/-- The wake-ups a queued task will cause. -/
def Task.wakes (t : Task) : Nat := (Phase.joining t).wakes

/-- The workers the thread has yet to run: ready, yielded, or with a timer set. -/
def Pool.scheduled (p : Pool) : Nat := p.ready.length + p.yielded.length + p.timers.length

/-- The wake-ups still to come in a run. -/
def Pool.wakes (p : Pool) : Nat :=
  p.scheduled + weigh Phase.wakes p.phases + weigh Task.wakes p.run.queue

theorem joinNext_wakes (t : Task) (b : Nat) (a : Option (Except RunError Unit)) :
    (joinNext t b a).phase.wakes + 2 ≤ (Phase.joining t).wakes := by
  rcases a with _ | (_ | _) <;> simp [joinNext, Next.phase, Phase.wakes] <;> omega

theorem commitNext_wakes (m : Movement) (rest : List Movement) (b : Nat)
    (a : Option (Except RunError CommitRecord)) :
    (commitNext m rest b a).phase.wakes + 2 ≤ (Phase.committing m rest).wakes := by
  rcases a with _ | (e | _)
  · simp [commitNext, Next.phase, Phase.wakes]
    omega
  · rcases commitNext_error m rest b e with h | h <;>
      simp only [h, Next.phase, Phase.wakes] <;> omega
  · simp [commitNext, Next.phase, Phase.wakes]
    omega

namespace Pool

variable {now : Int} {timeout : Nat} {w budget : Nat} {ph : Phase} {p p' : Pool} {n : Next}
  {c : Option Call}

theorem scheduled_release (p : Pool) : p.release.scheduled ≤ p.scheduled + 1 := by
  rcases release_eq (p := p) with ⟨-, h⟩ | ⟨v, vs, -, h⟩ <;> rw [h] <;>
    simp only [scheduled, List.length_append, List.length_cons, List.length_nil] <;> omega

/-- A lock step takes one budget and releases the lock to at most one worker. -/
theorem lockStep_wakes {α : Type} {x : CommitM α} {a : Option α} {q r : Pool} {b : Nat}
    {f : RunState → RunState} (hf : ∀ s, (f s).queue = s.queue)
    (ha : p.acquire w budget = (some b, q)) (hr : q.commitStep x = (a, r)) :
    budget = b + 1 ∧ (r.release.onRun f).scheduled ≤ p.scheduled + 1 ∧
      (r.release.onRun f).run.queue = p.run.queue := by
  obtain ⟨hb, -, -⟩ := acquire_eq_some ha
  rw [lockStep_eq ha hr]
  exact ⟨hb, scheduled_release _, by simp [onRun, hf]⟩

/-- What a step from `ph` on `p` to `n` on `p'` may do to the wake-ups to come: going on, it
spends budget only to lower them by as much; waiting, it adds one at most, and only when its
budget is spent. -/
def WakesBound (budget : Nat) (ph : Phase) (p : Pool) : Next → Pool → Prop
  | .go ph' b', p' => b' ≤ budget ∧
    p'.scheduled + ph'.wakes + weigh Task.wakes p'.run.queue + (budget - b') ≤
      p.scheduled + ph.wakes + weigh Task.wakes p.run.queue
  | .pause ph', p' => p'.scheduled + ph'.wakes + weigh Task.wakes p'.run.queue ≤
      p.scheduled + ph.wakes + weigh Task.wakes p.run.queue + if budget = 0 then 1 else 0

/-- A step that goes on with its budget whole only has to not raise the wake-ups to come. -/
theorem wakesBound_go {ph' : Phase} (h : p'.scheduled + ph'.wakes + weigh Task.wakes p'.run.queue ≤
    p.scheduled + ph.wakes + weigh Task.wakes p.run.queue) :
    WakesBound budget ph p (.go ph' budget) p' :=
  ⟨Nat.le_refl _, by rw [Nat.sub_self, Nat.add_zero]; exact h⟩

theorem wakes_of_stepCase (hs : StepCase now timeout w budget ph p n p' c) :
    WakesBound budget ph p n p' := by
  cases hs with
  | stop _ => exact Nat.le_add_right _ _
  | take _ hq =>
    apply wakesBound_go
    simp only [onRun, hq, weigh_cons, Phase.wakes, Task.wakes, scheduled]
    omega
  | wait _ ha =>
    show _ ≤ _
    rcases acquire_eq_none ha with ⟨v, -, -, ⟨-, rfl⟩ | ⟨-, rfl⟩⟩ | ⟨hb, -, rfl⟩
    · exact Nat.le_add_right _ _
    · exact Nat.le_add_right _ _
    · simp only [scheduled, List.length_append, List.length_cons, List.length_nil, hb,
        ↓reduceIte]
      omega
  | @join _ _ _ t b a ha hr =>
    obtain ⟨hb, hsch, hq⟩ :=
      lockStep_wakes (f := fun s => s.afterJoin t a) (fun _ => RunState.afterJoin_queue) ha hr
    have hw := joinNext_wakes t b a
    -- every answer but a fault lets the worker go on, with the budget the lock left
    rcases a with _ | (_ | _) <;> simp only [joinNext, Next.phase, WakesBound, hq] at hw ⊢ <;> omega
  | @commit _ _ _ m rest b a ha hr =>
    obtain ⟨hb, hsch, hq⟩ :=
      lockStep_wakes (f := fun s => s.afterCommit m rest a) (fun _ => RunState.afterCommit_queue) ha hr
    have hw := commitNext_wakes m rest b a
    rcases a with _ | (e | _)
    · simp only [commitNext, Next.phase, WakesBound, hq] at hw ⊢
      omega
    · rcases commitNext_error m rest b e with h | h <;>
        simp only [h, Next.phase, WakesBound, hq] at hw ⊢ <;> omega
    · simp only [commitNext, Next.phase, WakesBound, hq] at hw ⊢
      omega
  | finish =>
    apply wakesBound_go
    simp only [Phase.wakes, storeCount, weigh_nil, List.length_nil]
    omega
  | skip _ =>
    apply wakesBound_go
    simp only [Phase.wakes, onRun, RunState.skipAll, scheduled]
    omega
  | next _ =>
    apply wakesBound_go
    simp only [Phase.wakes, storeCount, weigh_cons, List.length_cons]
    omega
  | migrated =>
    apply wakesBound_go
    simp only [Phase.wakes, onRun, RunState.record, scheduled, List.length_nil]
    omega
  | unissued _ =>
    apply wakesBound_go
    simp only [Phase.wakes, setCluster, onRun, scheduled, List.length_cons]
    omega
  | migrate _ _ =>
    apply wakesBound_go
    simp only [Phase.wakes, setCluster, onRun, scheduled, List.length_cons]
    omega
  | jobFailed _ _ =>
    apply wakesBound_go
    simp only [Phase.wakes, setCluster, onRun, scheduled, List.length_cons]
    omega
  | stall _ _ =>
    apply wakesBound_go
    simp only [Phase.wakes, setCluster, onRun, scheduled, List.length_cons, Bool.false_eq_true,
      if_false]
    omega
  | yield hb =>
    show _ ≤ _
    simp only [yieldTurn, scheduled, List.length_append, List.length_cons, List.length_nil, hb,
      ↓reduceIte]
    omega
  | expire hb _ =>
    refine ⟨by omega, ?_⟩
    simp only [Phase.wakes, scheduled]
    split <;> omega
  | sleep _ _ => exact Nat.le_add_right _ _
  | arm _ _ =>
    show _ ≤ _
    simp only [Phase.wakes, scheduled, List.length_append, List.length_cons, List.length_nil,
      Bool.false_eq_true, if_false, if_true]
    omega
  | stopped => exact Nat.le_add_right _ _

end Pool


/-! ## Turns -/

/-- Whether the phase waits on a timer it has set. -/
def Phase.armed : Phase → Bool
  | .waiting _ _ _ _ _ armed => armed
  | _ => false

/-- The worker still running after a step: the one that stepped, unless it waits. -/
def Next.running (w : Nat) : Next → Option Nat
  | .go _ _ => some w
  | .pause _ => none


/-! ## Every worker will run again -/

namespace Pool

/-- The thread will wake the worker: it is ready, has yielded, or has a timer set. -/
def Woken (p : Pool) (v : Nat) : Prop :=
  v ∈ p.ready ∨ v ∈ p.yielded ∨ ∃ t ∈ p.timers, t.worker = v

/-- Every worker that has not stopped, `running` apart, will run again: the thread will wake it,
or it is queued for the lock, whose holder the thread will wake. The holder and the queued
workers are about to take the lock, and a worker waiting on a timer it set has it set. -/
structure Live (p : Pool) (running : Option Nat) : Prop where
  pending : ∀ v, running ≠ some v → p.phase v ≠ .stopped → p.Woken v ∨ v ∈ p.waiters
  holder : ∀ h, p.holder = some h → running ≠ some h → p.Woken h
  holderLock : ∀ h, p.holder = some h → (p.phase h).needsLock = true
  free : p.holder = none → p.waiters = []
  holderFree : ∀ h, p.holder = some h → h ∉ p.waiters
  nodup : p.waiters.Nodup
  waitersLock : ∀ v ∈ p.waiters, (p.phase v).needsLock = true
  timers : ∀ v m rest stores failed d, p.phase v = .waiting m rest stores failed d true →
    p.clock < d → ∃ t ∈ p.timers, t.worker = v ∧ t.deadline = d

end Pool


namespace Pool

variable {p q : Pool} {r : Option Nat} {v w : Nat}

theorem phase_eq_of_phases (h : q.phases = p.phases) : q.phase v = p.phase v := by
  unfold phase
  rw [h]

theorem Woken.mono (h : p.Woken v) (hr : p.ready ⊆ q.ready) (hy : p.yielded ⊆ q.yielded)
    (ht : p.timers ⊆ q.timers) : q.Woken v := by
  rcases h with h | h | ⟨t, hmem, rfl⟩
  · exact .inl (hr h)
  · exact .inr (.inl (hy h))
  · exact .inr (.inr ⟨t, ht hmem, rfl⟩)

/-- A pool stays live when the thread gains wake-ups and its clock moves on, with the phases and
the lock kept. -/
theorem Live.widen (hl : p.Live r) (hph : q.phases = p.phases) (hr : p.ready ⊆ q.ready)
    (hy : p.yielded ⊆ q.yielded) (ht : p.timers ⊆ q.timers) (hh : q.holder = p.holder)
    (hw : q.waiters = p.waiters) (hc : p.clock ≤ q.clock) : q.Live r where
  pending v hv hs := by
    rw [phase_eq_of_phases hph] at hs
    rw [hw]
    exact (hl.pending v hv hs).imp_left (·.mono hr hy ht)
  holder h hh' hv := (hl.holder h (hh ▸ hh') hv).mono hr hy ht
  holderLock h hh' := by
    rw [phase_eq_of_phases hph]
    exact hl.holderLock h (hh ▸ hh')
  free hn := hw ▸ hl.free (hh ▸ hn)
  holderFree h hh' := hw ▸ hl.holderFree h (hh ▸ hh')
  nodup := hw ▸ hl.nodup
  waitersLock v hv := by
    rw [phase_eq_of_phases hph]
    exact hl.waitersLock v (hw ▸ hv)
  timers v m rest stores failed d hv hd := by
    rw [phase_eq_of_phases hph] at hv
    obtain ⟨t, ht', htw, htd⟩ := hl.timers v m rest stores failed d hv (by omega)
    exact ⟨t, ht ht', htw, htd⟩

/-- Liveness reads neither the run nor the counts of stalls and turns. -/
theorem Live.ofSched (hl : p.Live r) (hph : q.phases = p.phases) (hr : q.ready = p.ready)
    (hy : q.yielded = p.yielded) (ht : q.timers = p.timers) (hh : q.holder = p.holder)
    (hw : q.waiters = p.waiters) (hc : q.clock = p.clock) : q.Live r :=
  hl.widen hph (hr ▸ fun _ => id) (hy ▸ fun _ => id) (ht ▸ fun _ => id) hh hw (hc ▸ Nat.le_refl _)

theorem Live.holder_ne (hl : p.Live r) (h : (p.phase v).needsLock = false) : p.holder ≠ some v :=
  fun hh => by simp [hl.holderLock v hh] at h

/-- The running worker waits: the pool stays live if the thread will wake the worker or it is
queued for the lock. -/
theorem Live.park (hl : p.Live (some w)) (hp : p.phase w ≠ .stopped → p.Woken w ∨ w ∈ p.waiters)
    (hh : p.holder = some w → p.Woken w) : p.Live none where
  pending v _ hs := by
    by_cases hv : v = w
    · subst hv
      exact hp hs
    · exact hl.pending v (by simpa using Ne.symm hv) hs
  holder h hh' _ := by
    by_cases hv : h = w
    · subst hv
      exact hh hh'
    · exact hl.holder h hh' (by simpa using Ne.symm hv)
  holderLock := hl.holderLock
  free := hl.free
  holderFree := hl.holderFree
  nodup := hl.nodup
  waitersLock := hl.waitersLock
  timers := hl.timers

/-- The running worker goes on from a phase that does not take the lock to one with no timer
set. -/
theorem Live.rephase {ph ph' : Phase} (hl : (p.setPhase w ph).Live (some w))
    (hw : w < p.phases.length) (hph : ph.needsLock = false) (harm : ph'.armed = false) :
    (p.setPhase w ph').Live (some w) where
  pending v hv hs := by
    have hvw : v ≠ w := fun h => hv (by rw [h])
    rw [phase_setPhase_of_ne hvw] at hs
    exact hl.pending v hv (by rwa [phase_setPhase_of_ne hvw])
  holder h hh hv := hl.holder h hh hv
  holderLock h hh := by
    have hhw : h ≠ w := by
      rintro rfl
      exact hl.holder_ne (by rw [phase_setPhase_self hw]; exact hph) hh
    rw [phase_setPhase_of_ne hhw]
    simpa [phase_setPhase_of_ne hhw] using hl.holderLock h hh
  free := hl.free
  holderFree := hl.holderFree
  nodup := hl.nodup
  waitersLock v hv := by
    have hlock := hl.waitersLock v hv
    have hvw : v ≠ w := by
      rintro rfl
      rw [phase_setPhase_self hw] at hlock
      simp [hlock] at hph
    rw [phase_setPhase_of_ne hvw] at hlock ⊢
    exact hlock
  timers v m rest stores failed d hv hd := by
    by_cases hvw : v = w
    · subst hvw
      rw [phase_setPhase_self hw] at hv
      simp [hv, Phase.armed] at harm
    · rw [phase_setPhase_of_ne hvw] at hv
      exact hl.timers v m rest stores failed d (by rwa [phase_setPhase_of_ne hvw]) hd


/-- The running worker takes the lock, free or its own, and releases it: the first queued worker
gets it and becomes ready. -/
theorem Live.lockStep {ph ph' : Phase} (hl : (p.setPhase w ph).Live (some w))
    (f : RunState → RunState) (hw : w < p.phases.length)
    (hfree : p.holder = none ∨ p.holder = some w) (harm : ph'.armed = false) :
    ((({ p with holder := some w } : Pool).release.onRun f).setPhase w ph').Live (some w) := by
  refine Live.ofSched (p := ({ p with holder := some w } : Pool).release.setPhase w ph') ?_
    rfl rfl rfl rfl rfl rfl rfl
  have hnw : w ∉ p.waiters := by
    rcases hfree with hn | hs
    · simp [show p.waiters = [] from hl.free hn]
    · exact hl.holderFree w hs
  have hphase : ∀ v, v ≠ w → (p.setPhase w ph).phase v = p.phase v := fun v hv =>
    phase_setPhase_of_ne hv
  rcases release_eq (p := { p with holder := some w }) with ⟨hn, hrel⟩ | ⟨u, us, hu, hrel⟩
  · -- nobody waits: the lock is free again
    rw [hrel]
    simp only at hn
    refine ⟨fun v hv hs => ?_, fun _ h => by simp [setPhase] at h, fun _ h => by simp [setPhase] at h,
      fun _ => hn, fun _ h => by simp [setPhase] at h, by simp [setPhase, hn], fun v h => by
        simp [setPhase, hn] at h, fun v m rest stores failed d hv hd => ?_⟩
    · have hvw : v ≠ w := fun h => hv (by rw [h])
      rw [phase_setPhase_of_ne hvw] at hs
      have := hl.pending v hv (by rw [hphase v hvw]; exact hs)
      simpa [setPhase, Woken, hn] using this
    · by_cases hvw : v = w
      · subst hvw
        rw [phase_setPhase_self (by simpa using hw)] at hv
        simp [hv, Phase.armed] at harm
      · rw [phase_setPhase_of_ne hvw] at hv
        exact hl.timers v m rest stores failed d (by rw [hphase v hvw]; exact hv) hd
  · -- the first queued worker takes the lock and becomes ready
    rw [hrel]
    simp only at hu
    have huw : u ≠ w := fun h => hnw (by rw [hu, h]; exact List.mem_cons_self)
    have hnd : (u :: us).Nodup := hu ▸ hl.nodup
    refine ⟨fun v hv hs => ?_, fun h hh _ => ?_, fun h hh => ?_, fun h => by simp [setPhase] at h,
      fun h hh => ?_, by simpa [setPhase] using (List.nodup_cons.mp hnd).2, fun v hv => ?_,
      fun v m rest stores failed d hv hd => ?_⟩
    · have hvw : v ≠ w := fun h => hv (by rw [h])
      rw [phase_setPhase_of_ne hvw] at hs
      have := hl.pending v hv (by rw [hphase v hvw]; exact hs)
      simp only [Woken, setPhase_ready, setPhase_yielded, setPhase_timers, setPhase_waiters,
        hu, List.mem_cons] at this
      simp only [Woken, setPhase_ready, setPhase_yielded, setPhase_timers, setPhase_waiters,
        List.mem_append, List.mem_singleton]
      grind
    · simp [setPhase] at hh
      subst hh
      simp [Woken, setPhase]
    · simp [setPhase] at hh
      subst hh
      rw [phase_setPhase_of_ne huw]
      have := hl.waitersLock u (by simp [hu])
      rwa [hphase u huw] at this
    · simp [setPhase] at hh
      subst hh
      simpa [setPhase] using (List.nodup_cons.mp hnd).1
    · simp only [setPhase_waiters] at hv
      have hvw : v ≠ w := fun h => hnw (by rw [hu, ← h]; exact List.mem_cons_of_mem _ hv)
      rw [phase_setPhase_of_ne hvw]
      have := hl.waitersLock v (by simp [hu, hv])
      rwa [hphase v hvw] at this
    · by_cases hvw : v = w
      · subst hvw
        rw [phase_setPhase_self (by simpa using hw)] at hv
        simp [hv, Phase.armed] at harm
      · rw [phase_setPhase_of_ne hvw] at hv
        exact hl.timers v m rest stores failed d (by rw [hphase v hvw]; exact hv) hd


theorem phase_setPhase_stopped : (p.setPhase w .stopped).phase w = .stopped := by
  by_cases hw : w < p.phases.length
  · exact phase_setPhase_self hw
  · simp [phase, setPhase, List.getD_eq_getElem?_getD, hw]

/-- The running worker stops. -/
theorem Live.stop (hl : (p.setPhase w .stopped).Live (some w)) :
    (p.setPhase w .stopped).Live none :=
  hl.park (fun hs => absurd phase_setPhase_stopped hs)
    (fun hh => absurd hh (hl.holder_ne (by rw [phase_setPhase_stopped]; rfl)))

/-- A worker yields its turn. -/
theorem Live.yield {ph : Phase} (hl : (p.setPhase w ph).Live (some w)) :
    ((p.yieldTurn w).setPhase w ph).Live none := by
  have hl' : ((p.yieldTurn w).setPhase w ph).Live (some w) :=
    hl.widen rfl (fun _ => id) (fun _ h => List.mem_append_left _ h) (fun _ => id) rfl rfl
      (Nat.le_refl _)
  have hyield : ((p.yieldTurn w).setPhase w ph).Woken w := .inr (.inl (by simp [yieldTurn]))
  exact hl'.park (fun _ => .inl hyield) (fun _ => hyield)

/-- A worker finds the lock held by another and queues for it. -/
theorem Live.enqueue {ph : Phase} {u : Nat} (hl : (p.setPhase w ph).Live (some w))
    (hph : ph.needsLock = true) (hw : w < p.phases.length) (hu : p.holder = some u) (huw : u ≠ w)
    (hnw : w ∉ p.waiters) :
    (({ p with waiters := p.waiters ++ [w] } : Pool).setPhase w ph).Live none where
  pending v _ hs := by
    by_cases hvw : v = w
    · subst hvw
      exact .inr (by simp [setPhase])
    · rcases hl.pending v (by simpa using Ne.symm hvw)
        (by rwa [phase_setPhase_of_ne hvw] at hs ⊢) with h | h
      · exact .inl h
      · exact .inr (List.mem_append_left _ h)
  holder h hh _ := by
    simp only [setPhase_holder] at hh
    rw [hu] at hh
    cases hh
    exact hl.holder u hu (by simpa using Ne.symm huw)
  holderLock h hh := hl.holderLock h hh
  free hn := by simp [setPhase, hu] at hn
  holderFree h hh := by
    simp only [setPhase_holder, hu, Option.some.injEq] at hh
    subst hh
    have := hl.holderFree u hu
    simp only [setPhase_waiters, List.mem_append, List.mem_singleton, not_or]
    exact ⟨this, huw⟩
  nodup := by
    simp only [setPhase_waiters]
    refine List.nodup_append.mpr ⟨hl.nodup, by simp, fun a ha b hb hab => ?_⟩
    simp only [List.mem_singleton] at hb
    exact hnw (hb ▸ hab ▸ ha)
  waitersLock v hv := by
    simp only [setPhase_waiters, List.mem_append, List.mem_singleton] at hv
    rcases hv with hv | rfl
    · exact hl.waitersLock v hv
    · show ((p.setPhase v ph).phase v).needsLock = true
      rwa [phase_setPhase_self hw]
  timers v m rest stores failed d hv hd := hl.timers v m rest stores failed d hv hd

/-- A worker whose budget is spent takes the free lock, or keeps its own, and yields. -/
theorem Live.yieldLock {ph : Phase} (hl : (p.setPhase w ph).Live (some w))
    (hph : ph.needsLock = true) (hw : w < p.phases.length)
    (hfree : p.holder = none ∨ p.holder = some w) :
    (({ p with yielded := p.yielded ++ [w], holder := some w } : Pool).setPhase w ph).Live none
    where
  pending v _ hs := by
    by_cases hvw : v = w
    · subst hvw
      exact .inl (.inr (.inl (by simp [setPhase])))
    · rcases hl.pending v (by simpa using Ne.symm hvw)
        (by rwa [phase_setPhase_of_ne hvw] at hs ⊢) with h | h
      · exact .inl (by exact h.mono (fun _ => id) (fun _ h => List.mem_append_left _ h) (fun _ => id))
      · exact .inr h
  holder h hh _ := by
    simp [setPhase] at hh
    subst hh
    exact .inr (.inl (by simp [setPhase]))
  holderLock h hh := by
    simp [setPhase] at hh
    subst hh
    show ((p.setPhase w ph).phase w).needsLock = true
    rwa [phase_setPhase_self hw]
  free hn := by simp [setPhase] at hn
  holderFree h hh := by
    simp [setPhase] at hh
    subst hh
    rcases hfree with hn | hs
    · simp [show p.waiters = [] from hl.free hn]
    · exact hl.holderFree w hs
  nodup := hl.nodup
  waitersLock v hv := hl.waitersLock v hv
  timers v m rest stores failed d hv hd := hl.timers v m rest stores failed d hv hd

/-- A worker waiting on a job sets its timer. -/
theorem Live.arm {m : Movement} {rest : List Movement} {stores : List String} {failed : Bool}
    {d : Nat} (hl : (p.setPhase w (.waiting m rest stores failed d false)).Live (some w))
    (hw : w < p.phases.length) :
    (({ p with timers := p.timers ++ [⟨d, w⟩] } : Pool).setPhase w
      (.waiting m rest stores failed d true)).Live none where
  pending v _ hs := by
    by_cases hvw : v = w
    · subst hvw
      exact .inl (.inr (.inr ⟨⟨d, v⟩, by simp [setPhase], rfl⟩))
    · rcases hl.pending v (by simpa using Ne.symm hvw)
        (by rwa [phase_setPhase_of_ne hvw] at hs ⊢) with h | h
      · exact .inl (by exact h.mono (fun _ => id) (fun _ => id) (fun _ h => List.mem_append_left _ h))
      · exact .inr h
  holder h hh _ := by
    have hhw : h ≠ w := by
      rintro rfl
      exact hl.holder_ne (by rw [phase_setPhase_self hw]; rfl) hh
    exact (hl.holder h hh (by simpa using Ne.symm hhw)).mono (fun _ => id) (fun _ => id)
      (fun _ h => by exact List.mem_append_left _ h)
  holderLock h hh := by
    have hhw : h ≠ w := by
      rintro rfl
      exact hl.holder_ne (by rw [phase_setPhase_self hw]; rfl) hh
    have := hl.holderLock h hh
    rw [phase_setPhase_of_ne hhw] at this ⊢
    exact this
  free := hl.free
  holderFree := hl.holderFree
  nodup := hl.nodup
  waitersLock v hv := by
    have := hl.waitersLock v hv
    have hvw : v ≠ w := by
      rintro rfl
      rw [phase_setPhase_self hw] at this
      cases this
    rw [phase_setPhase_of_ne hvw] at this ⊢
    exact this
  timers v m' rest' stores' failed' d' hv hd := by
    by_cases hvw : v = w
    · subst hvw
      rw [phase_setPhase_self (by simpa using hw)] at hv
      cases hv
      exact ⟨⟨d, v⟩, by simp [setPhase], rfl, rfl⟩
    · rw [phase_setPhase_of_ne hvw] at hv
      obtain ⟨t, ht, htw, htd⟩ :=
        hl.timers v m' rest' stores' failed' d' (by rwa [phase_setPhase_of_ne hvw]) hd
      exact ⟨t, List.mem_append_left _ ht, htw, htd⟩


end Pool

theorem joinNext_armed (t : Task) (b : Nat) (a : Option (Except RunError Unit)) :
    (joinNext t b a).phase.armed = false := by
  rcases a with _ | (_ | _) <;> rfl

theorem commitNext_armed (m : Movement) (rest : List Movement) (b : Nat)
    (a : Option (Except RunError CommitRecord)) : (commitNext m rest b a).phase.armed = false := by
  rcases a with _ | (e | _)
  · rfl
  · rcases commitNext_error m rest b e with h | h <;> rw [h] <;> rfl
  · rfl

theorem joinNext_running (t : Task) (b w : Nat) (a : Except RunError Unit) :
    (joinNext t b (some a)).running w = some w := by
  rcases a with _ | _ <;> rfl

theorem commitNext_running (m : Movement) (rest : List Movement) (b w : Nat)
    (a : Except RunError CommitRecord) : (commitNext m rest b (some a)).running w = some w := by
  rcases a with e | _
  · rcases commitNext_error m rest b e with h | h <;> rw [h] <;> rfl
  · rfl

namespace Pool

variable {now : Int} {timeout : Nat} {w budget : Nat} {ph : Phase} {p p' : Pool} {n : Next}
  {c : Option Call}

/-- Every step keeps the pool live: a worker that goes on is the one running, and one that waits
will be woken by the thread, or is queued for the lock. -/
theorem live_of_stepCase (hs : StepCase now timeout w budget ph p n p' c)
    (hl : (p.setPhase w ph).Live (some w)) (hw : w < p.phases.length) :
    (p'.setPhase w n.phase).Live (n.running w) := by
  cases hs with
  | stop _ => exact (hl.rephase hw rfl rfl).stop
  | take _ _ => exact (hl.rephase hw rfl rfl).ofSched rfl rfl rfl rfl rfl rfl rfl
  | wait hph ha =>
    rcases acquire_eq_none ha with ⟨u, hu, huw, ⟨hin, rfl⟩ | ⟨hnw, rfl⟩⟩ | ⟨-, hfree, rfl⟩
    · exact hl.park (fun _ => .inr hin) (fun hh => absurd (Option.some.inj (hu.symm.trans hh)) huw)
    · exact hl.enqueue hph hw hu huw hnw
    · exact hl.yieldLock hph hw hfree
  | @join _ _ _ t b a ha hr =>
    obtain ⟨-, hfree, -⟩ := acquire_eq_some ha
    rw [lockStep_eq ha hr]
    rcases a with _ | a
    · exact (hl.lockStep _ hw hfree rfl).stop
    · rw [joinNext_running]
      exact hl.lockStep _ hw hfree (joinNext_armed t b _)
  | @commit _ _ _ m rest b a ha hr =>
    obtain ⟨-, hfree, -⟩ := acquire_eq_some ha
    rw [lockStep_eq ha hr]
    rcases a with _ | a
    · exact (hl.lockStep _ hw hfree rfl).stop
    · rw [commitNext_running]
      exact hl.lockStep _ hw hfree (commitNext_armed m rest b _)
  | finish => exact hl.rephase hw rfl rfl
  | skip _ => exact (hl.rephase hw rfl rfl).ofSched rfl rfl rfl rfl rfl rfl rfl
  | next _ => exact hl.rephase hw rfl rfl
  | migrated => exact (hl.rephase hw rfl rfl).ofSched rfl rfl rfl rfl rfl rfl rfl
  | unissued _ => exact (hl.rephase hw rfl rfl).ofSched rfl rfl rfl rfl rfl rfl rfl
  | migrate _ _ => exact (hl.rephase hw rfl rfl).ofSched rfl rfl rfl rfl rfl rfl rfl
  | jobFailed _ _ => exact (hl.rephase hw rfl rfl).ofSched rfl rfl rfl rfl rfl rfl rfl
  | stall _ _ => exact (hl.rephase hw rfl rfl).ofSched rfl rfl rfl rfl rfl rfl rfl
  | yield _ => exact hl.yield
  | expire _ _ => exact (hl.rephase hw rfl rfl).ofSched rfl rfl rfl rfl rfl rfl rfl
  | sleep _ hd =>
    -- the timer it set is still to come
    obtain ⟨t, ht, htw, -⟩ := hl.timers w _ _ _ _ _ (phase_setPhase_self hw) hd
    exact hl.park (fun _ => .inl (.inr (.inr ⟨t, ht, htw⟩)))
      (fun hh => absurd hh (hl.holder_ne (by rw [phase_setPhase_self hw]; rfl)))
  | arm _ _ => exact hl.arm hw
  | stopped => exact hl.stop


end Pool

/-! ## A worker's turn -/

/-- The steps the workers and the queue have left. -/
def Pool.work (p : Pool) : Nat := weigh Phase.steps p.phases + weigh Task.steps p.run.queue

namespace Pool

variable {now : Int} {timeout : Nat} {w b budget fuel : Nat} {ph : Phase} {p p' : Pool} {n : Next}

theorem work_setPhase (hw : w < p.phases.length) (x : Phase) :
    (p.setPhase w x).work + (p.phase w).steps = p.work + x.steps := by
  have := weigh_set Phase.steps .stopped p.phases w x hw
  simp only [work, setPhase_phases, setPhase_run, phase]
  omega

theorem wakes_setPhase (hw : w < p.phases.length) (x : Phase) :
    (p.setPhase w x).wakes + (p.phase w).wakes = p.wakes + x.wakes := by
  have := weigh_set Phase.wakes .stopped p.phases w x hw
  simp only [wakes, scheduled, setPhase_phases, setPhase_run, setPhase_ready, setPhase_yielded,
    setPhase_timers, phase]
  omega

theorem turns_of_stepCase {c : Option Call} (hs : StepCase now timeout w budget ph p n p' c) :
    p'.turns = p.turns := by
  cases hs with
  | wait _ ha =>
    rcases acquire_eq_none ha with ⟨_, _, _, ⟨_, rfl⟩ | ⟨_, rfl⟩⟩ | ⟨_, _, rfl⟩ <;> rfl
  | join ha hr =>
    rw [lockStep_eq ha hr]
    rcases release_eq (p := { p with holder := some w }) with ⟨-, h⟩ | ⟨_, _, -, h⟩ <;>
      rw [onRun, h]
  | commit ha hr =>
    rw [lockStep_eq ha hr]
    rcases release_eq (p := { p with holder := some w }) with ⟨-, h⟩ | ⟨_, _, -, h⟩ <;>
      rw [onRun, h]
  | _ => rfl

/-- A turn leaves the thread's count of turns as it was. -/
theorem turns_turn : (turn now timeout w fuel ph b p).turns = p.turns := by
  rcases turn_invariant (fun _ _ _ q => q.turns = p.turns)
      (fun _ _ _ _ _ _ _ h hst => (turns_of_stepCase (stepCase_of_eq hst)).trans h) fuel ph b p rfl
    with ⟨_, _, _, h, hturn⟩ | ⟨_, _, _, _, _, _, h, hst, hturn⟩
  · rw [hturn]
    exact h
  · rw [hturn, setPhase_turns, turns_of_stepCase (stepCase_of_eq hst)]
    exact h

/-- A turn, given more fuel than the steps its worker and the queue have left, ends with the
worker waiting, and leaves the pool live with no worker running. -/
theorem live_turn (hw : w < p.phases.length) (hl : (p.setPhase w ph).Live (some w))
    (hfuel : ph.steps + weigh Task.steps p.run.queue < fuel) :
    (turn now timeout w fuel ph b p).Live none := by
  let P : Nat → Phase → Nat → Pool → Prop := fun fuel ph _ p => w < p.phases.length ∧
    (p.setPhase w ph).Live (some w) ∧ ph.steps + weigh Task.steps p.run.queue < fuel
  have hgo : ∀ fuel ph b p ph' b' p', P (fuel + 1) ph b p →
      step now timeout w b ph p = (.go ph' b', p') → P fuel ph' b' p' := by
    rintro fuel ph b p ph' b' p' ⟨hw, hl, hfuel⟩ hst
    have hs := stepCase_of_eq hst
    have hsteps := steps_of_stepCase hs
    simp only [Next.phase, Next.progress] at hsteps
    exact ⟨(phases_of_step hst).symm ▸ hw, live_of_stepCase hs hl hw, by omega⟩
  rcases turn_invariant P hgo fuel ph b p ⟨hw, hl, hfuel⟩ with
    ⟨_, _, _, ⟨_, _, hzero⟩, _⟩ | ⟨_, ph', b', p', ph'', p'', ⟨hw', hl', _⟩, hst, hturn⟩
  · -- the fuel never runs out
    omega
  · rw [hturn]
    exact live_of_stepCase (stepCase_of_eq hst) hl' hw'

/-- A step, seen on the pool with the worker's phase stored, does not add to the steps left. -/
theorem work_step (hw : w < p.phases.length) (hst : step now timeout w b ph p = (n, p')) :
    (p'.setPhase w n.phase).work ≤ (p.setPhase w ph).work := by
  have hsteps := steps_of_stepCase (stepCase_of_eq hst)
  have h₁ := work_setPhase hw ph
  have h₂ := work_setPhase (w := w) ((phases_of_step hst).symm ▸ hw) n.phase
  rw [phase_eq_of_phases (phases_of_step hst)] at h₂
  simp only [work] at h₁ h₂ ⊢
  rw [phases_of_step hst] at h₂
  omega

/-- A turn does not add to the steps left. -/
theorem work_turn (hw : w < p.phases.length) :
    (turn now timeout w fuel ph b p).work ≤ (p.setPhase w ph).work := by
  let P : Nat → Phase → Nat → Pool → Prop := fun _ ph' _ p' => w < p'.phases.length ∧
    (p'.setPhase w ph').work ≤ (p.setPhase w ph).work
  have hgo : ∀ fuel ph b p ph' b' p', P (fuel + 1) ph b p →
      step now timeout w b ph p = (.go ph' b', p') → P fuel ph' b' p' := by
    rintro _ _ _ _ _ _ _ ⟨hw', hle⟩ hst
    exact ⟨(phases_of_step hst).symm ▸ hw', Nat.le_trans (work_step hw' hst) hle⟩
  rcases turn_invariant P hgo fuel ph b p ⟨hw, Nat.le_refl _⟩ with
    ⟨_, _, _, ⟨_, hle⟩, hturn⟩ | ⟨_, _, _, _, _, _, ⟨hw', hle⟩, hst, hturn⟩
  · rw [hturn]
    exact hle
  · rw [hturn]
    exact Nat.le_trans (work_step hw' hst) hle

/-- The wake-ups of a step's pool with the worker's new phase stored, against those of the pool
it stepped from: what `WakesBound` counts, moved to whole pools. -/
theorem wakes_setPhase_of_step (hw : w < p.phases.length)
    (hst : step now timeout w b ph p = (n, p')) (x : Phase) :
    (p'.setPhase w x).wakes + (p.scheduled + ph.wakes + weigh Task.wakes p.run.queue) =
      (p.setPhase w ph).wakes + (p'.scheduled + x.wakes + weigh Task.wakes p'.run.queue) := by
  have hph := phases_of_step hst
  have h₁ := wakes_setPhase hw ph
  have h₂ := wakes_setPhase (hph.symm ▸ hw) x
  rw [phase_eq_of_phases hph] at h₂
  have e₁ : p.wakes = p.scheduled + weigh Phase.wakes p.phases + weigh Task.wakes p.run.queue :=
    rfl
  have e₂ : p'.wakes =
      p'.scheduled + weigh Phase.wakes p.phases + weigh Task.wakes p'.run.queue := by
    rw [← hph]
    rfl
  omega

/-- A step that goes on adds no wake-up, save one when it starts with its budget spent, counted
against the one it may leave for the next step. -/
theorem wakes_step_go {ph' : Phase} {b' : Nat} (hw : w < p.phases.length)
    (hst : step now timeout w b ph p = (.go ph' b', p')) :
    (p'.setPhase w ph').wakes + (if b' = 0 then 1 else 0) ≤
      (p.setPhase w ph).wakes + if b = 0 then 1 else 0 := by
  obtain ⟨hb, hle⟩ : WakesBound b ph p (.go ph' b') p' := wakes_of_stepCase (stepCase_of_eq hst)
  have h := wakes_setPhase_of_step hw hst ph'
  by_cases hb' : b' = 0 <;> by_cases hb0 : b = 0 <;> simp only [hb', hb0, ↓reduceIte] <;> omega

/-- A step after which the worker waits adds no wake-up, save one when it starts with its budget
spent. -/
theorem wakes_step_pause {ph' : Phase} (hw : w < p.phases.length)
    (hst : step now timeout w b ph p = (.pause ph', p')) :
    (p'.setPhase w ph').wakes ≤ (p.setPhase w ph).wakes + if b = 0 then 1 else 0 := by
  have hle : WakesBound b ph p (.pause ph') p' := wakes_of_stepCase (stepCase_of_eq hst)
  have h := wakes_setPhase_of_step hw hst ph'
  simp only [WakesBound] at hle
  by_cases hb0 : b = 0 <;> simp only [hb0, ↓reduceIte] at hle ⊢ <;> omega

/-- A turn adds no wake-up, save one when it starts with its budget spent. -/
theorem wakes_turn (hw : w < p.phases.length) :
    (turn now timeout w fuel ph b p).wakes ≤ (p.setPhase w ph).wakes + if b = 0 then 1 else 0 := by
  let P : Nat → Phase → Nat → Pool → Prop := fun _ ph' b' p' => w < p'.phases.length ∧
    (p'.setPhase w ph').wakes + (if b' = 0 then 1 else 0) ≤
      (p.setPhase w ph).wakes + if b = 0 then 1 else 0
  have hgo : ∀ fuel ph b p ph' b' p', P (fuel + 1) ph b p →
      step now timeout w b ph p = (.go ph' b', p') → P fuel ph' b' p' := by
    rintro _ _ _ _ _ _ _ ⟨hw', hle⟩ hst
    exact ⟨(phases_of_step hst).symm ▸ hw', Nat.le_trans (wakes_step_go hw' hst) hle⟩
  rcases turn_invariant P hgo fuel ph b p ⟨hw, Nat.le_refl _⟩ with
    ⟨_, _, _, ⟨_, hle⟩, hturn⟩ | ⟨_, _, _, _, _, _, ⟨hw', hle⟩, hst, hturn⟩
  · rw [hturn]
    exact Nat.le_trans (Nat.le_add_right _ _) hle
  · rw [hturn]
    have h := wakes_step_pause hw' hst
    omega


end Pool

/-! ## The thread -/

namespace Pool

variable {now : Int} {timeout : Nat} {p : Pool} {r : Option Nat} {v w d : Nat} {ws : List Nat}

theorem woken_check (h : p.Woken v) : p.check.Woken v := by
  rcases h with h | h | ⟨t, ht, rfl⟩
  · exact .inl (by simp [check, h])
  · exact .inl (by simp [check, h])
  · by_cases hd : t.deadline ≤ p.clock
    · exact .inl (by simp only [check, List.mem_append, List.mem_map, List.mem_filter,
        decide_eq_true_eq]; exact .inl (.inr ⟨t, ⟨ht, hd⟩, rfl⟩))
    · exact .inr (.inr ⟨t, by simp only [check, List.mem_filter, decide_eq_true_eq]; exact ⟨ht, by omega⟩,
        rfl⟩)

/-- A check turns due timers and yielded workers into ready ones, and keeps the pool live. -/
theorem Live.check (hl : p.Live r) : p.check.Live r where
  pending v hv hs := (hl.pending v hv hs).imp_left woken_check
  holder h hh hv := woken_check (hl.holder h hh hv)
  holderLock := hl.holderLock
  free := hl.free
  holderFree := hl.holderFree
  nodup := hl.nodup
  waitersLock := hl.waitersLock
  timers v m rest stores failed d hv hd := by
    change p.clock < d at hd
    obtain ⟨t, ht, htw, htd⟩ := hl.timers v m rest stores failed d hv hd
    refine ⟨t, ?_, htw, htd⟩
    simp only [Pool.check, List.mem_filter, decide_eq_true_eq]
    exact ⟨ht, by omega⟩

/-- The thread takes the next ready worker to run. -/
theorem Live.pop (hl : p.Live none) (hr : p.ready = w :: ws) :
    ({ p with ready := ws, turns := p.turns + 1 } : Pool).Live (some w) where
  pending v hv hs := by
    rcases hl.pending v (by simp) hs with (h | h | h) | h
    · rw [hr] at h
      rcases List.mem_cons.mp h with rfl | h
      · exact absurd rfl hv
      · exact .inl (.inl h)
    · exact .inl (.inr (.inl h))
    · exact .inl (.inr (.inr h))
    · exact .inr h
  holder h hh hv := by
    rcases hl.holder h hh (by simp) with h' | h' | h'
    · rw [hr] at h'
      rcases List.mem_cons.mp h' with rfl | h'
      · exact absurd rfl hv
      · exact .inl h'
    · exact .inr (.inl h')
    · exact .inr (.inr h')
  holderLock := hl.holderLock
  free := hl.free
  holderFree := hl.holderFree
  nodup := hl.nodup
  waitersLock := hl.waitersLock
  timers := hl.timers

/-- With no worker ready or yielded and no timer set, every worker of a live pool has stopped. -/
theorem Live.stopped (hl : p.Live none) (hr : p.ready = []) (hy : p.yielded = [])
    (ht : p.timers = []) (v : Nat) : p.phase v = .stopped := by
  have quiet : ∀ u, ¬ p.Woken u := by
    rintro u (h | h | ⟨t, h, -⟩) <;> simp [hr, hy, ht] at h
  by_cases hs : p.phase v = .stopped
  · exact hs
  · rcases hl.pending v (by simp) hs with h | h
    · exact absurd h (quiet v)
    · -- a worker queued for the lock means a holder, whom the thread would wake
      cases hh : p.holder with
      | none => simp [hl.free hh] at h
      | some u => exact absurd (hl.holder u hh (by simp)) (quiet u)

theorem scheduled_check (p : Pool) : p.check.scheduled = p.scheduled := by
  have h := List.length_eq_countP_add_countP (fun t : Timer => decide (t.deadline ≤ p.clock))
    (l := p.timers)
  have hlater : p.timers.filter (fun t => decide (p.clock < t.deadline)) =
      p.timers.filter (fun t => decide ¬ decide (t.deadline ≤ p.clock) = true) :=
    List.filter_congr fun t _ => decide_eq_decide.mpr
      ⟨fun h hd => by rw [decide_eq_true_eq] at hd; omega,
        fun h => by rw [decide_eq_true_eq] at h; omega⟩
  simp only [List.countP_eq_length_filter] at h
  simp only [scheduled, check, List.length_append, List.length_map, List.length_reverse,
    List.length_nil, hlater]
  omega

theorem wakes_check (p : Pool) : p.check.wakes = p.wakes := by
  simp only [wakes, scheduled_check]
  rfl

/-- A fold whose every step gives some deadline, the timer's or the one so far, ends where it
started or at the deadline of a timer it went past, and ends empty only on no timers. -/
theorem foldl_deadline (f : Option Nat → Timer → Option Nat)
    (hf : ∀ acc t, ∃ d, f acc t = some d ∧ (d = t.deadline ∨ acc = some d)) :
    ∀ (ts : List Timer) (acc : Option Nat), (ts.foldl f acc = none → acc = none ∧ ts = []) ∧
      ∀ d, ts.foldl f acc = some d → acc = some d ∨ ∃ t ∈ ts, t.deadline = d
  | [], _ => ⟨fun h => ⟨h, rfl⟩, fun _ h => .inl h⟩
  | t :: ts, acc => by
    obtain ⟨d₁, hd₁, hstep⟩ := hf acc t
    obtain ⟨hnone, hsome⟩ := foldl_deadline f hf ts (f acc t)
    rw [List.foldl_cons]
    refine ⟨fun h => absurd (hnone h).1 (by rw [hd₁]; exact Option.some_ne_none _), fun d h => ?_⟩
    rcases hsome d h with h' | ⟨t', ht', hd⟩
    · rw [hd₁, Option.some.injEq] at h'
      subst h'
      rcases hstep with hstep | hstep
      · exact .inr ⟨t, List.mem_cons_self, hstep.symm⟩
      · exact .inl hstep
    · exact .inr ⟨t', List.mem_cons_of_mem _ ht', hd⟩

/-- The earliest deadline is some timer's deadline, and there is one when a timer is set. -/
theorem nextDeadline_spec (p : Pool) :
    (p.nextDeadline = none → p.timers = []) ∧
      ∀ d, p.nextDeadline = some d → ∃ t ∈ p.timers, t.deadline = d := by
  -- the fold's step keeps the earlier of the deadline so far and the timer's
  obtain ⟨F, hF, hstep⟩ : ∃ F : Option Nat → Timer → Option Nat,
      (∀ q : Pool, q.nextDeadline = q.timers.foldl F none) ∧
        ∀ acc t, ∃ d, F acc t = some d ∧ (d = t.deadline ∨ acc = some d) := by
    refine ⟨_, fun q => rfl, fun acc t => ?_⟩
    cases acc with
    | none => exact ⟨t.deadline, rfl, .inl rfl⟩
    | some e =>
      refine ⟨min e t.deadline, rfl, ?_⟩
      rcases Nat.le_total e t.deadline with he | he
      · exact .inr (by rw [Nat.min_eq_left he])
      · exact .inl (Nat.min_eq_right he)
  obtain ⟨hnone, hsome⟩ := foldl_deadline F hstep p.timers none
  rw [hF]
  refine ⟨fun h => (hnone h).2, fun d h => ?_⟩
  rcases hsome d h with h' | h'
  · cases h'
  · exact h'

/-- The rounds the thread has left at most: three for each wake-up to come, the turns since its
last check, and one when no worker is ready. -/
def rounds (p : Pool) : Nat := 3 * p.wakes + p.turns + if p.ready = [] then 1 else 0

theorem rounds_check_le (p : Pool) :
    p.check.rounds ≤ 3 * p.wakes + if p.check.ready = [] then 1 else 0 := by
  have hturns : p.check.turns = 0 := rfl
  simp only [rounds, wakes_check, hturns]
  omega

/-- After a check that made a worker ready, fewer rounds are left. -/
theorem rounds_check_lt (h : p.check.ready ≠ [] ∨ turnsPerCheck ≤ p.turns)
    (hr : p.ready = [] ∨ turnsPerCheck ≤ p.turns) : p.check.rounds < p.rounds := by
  have hle := rounds_check_le p
  have hrounds : p.rounds = 3 * p.wakes + p.turns + if p.ready = [] then 1 else 0 := rfl
  unfold turnsPerCheck at h hr
  rcases h with h | h
  · rw [if_neg h] at hle
    rcases hr with hr | hr
    · rw [if_pos hr] at hrounds
      omega
    · omega
  · have : (if p.check.ready = [] then 1 else 0) ≤ 1 := by split <;> omega
    omega


theorem steps_le_work (hw : w < p.phases.length) :
    (p.phase w).steps + weigh Task.steps p.run.queue ≤ p.work := by
  have h := work_setPhase hw .stopped
  have : weigh Task.steps p.run.queue ≤ (p.setPhase w .stopped).work := Nat.le_add_left _ _
  have h0 : Phase.stopped.steps = 0 := rfl
  rw [h0] at h
  omega

/-- After the clock jumps to the earliest deadline, a check makes some worker ready. -/
theorem ready_jump (hd : p.nextDeadline = some d) :
    ({ p with clock := max p.clock d } : Pool).check.ready ≠ [] := by
  obtain ⟨t, ht, htd⟩ := (nextDeadline_spec p).2 d hd
  have hmem : t.worker ∈ ({ p with clock := max p.clock d } : Pool).check.ready := by
    simp only [Pool.check, List.mem_append, List.mem_map, List.mem_filter, decide_eq_true_eq]
    exact .inl (.inr ⟨t, ⟨ht, by rw [htd]; exact Nat.le_max_right _ _⟩, rfl⟩)
  exact List.ne_nil_of_mem hmem

/-- The thread's run from a live pool, with more fuel than rounds left and turns of more steps
than the workers and the queue have left, ends with every worker stopped. -/
theorem drive_stopped (steps : Nat) : ∀ (fuel : Nat) (p : Pool), p.Tracked → p.Live none →
    p.work < steps → p.rounds < fuel → ∀ v, (drive now timeout steps fuel p).phase v = .stopped
  | 0, _, _, _, _, hr, _ => absurd hr (Nat.not_lt_zero _)
  | fuel + 1, p, ht, hl, hwork, hr, v => by
    unfold drive
    split
    · -- a check is due
      rename_i hdue
      have := rounds_check_lt (.inr hdue) (.inr hdue)
      exact drive_stopped steps fuel p.check (tracked_check ht) hl.check hwork (by omega) v
    · split
      · -- the next ready worker takes a turn
        rename_i w ws hready
        let q : Pool := { p with ready := ws, turns := p.turns + 1 }
        have hq : q.Tracked := fun v hv => ht v (by unfold Holds at hv ⊢; rw [hready]; grind)
        have hw : w < q.phases.length := ht w (.inl (by rw [hready]; exact List.mem_cons_self))
        have hlq : (q.setPhase w (q.phase w)).Live (some w) := by
          rw [setPhase_phase]
          exact hl.pop hready
        have hfuel := steps_le_work hw
        have hqwork : q.work = p.work := rfl
        have hwakes : (turn now timeout w steps (q.phase w) turnBudget q).wakes ≤
            (q.setPhase w (q.phase w)).wakes + if turnBudget = 0 then 1 else 0 := wakes_turn hw
        have hwork' : (turn now timeout w steps (q.phase w) turnBudget q).work ≤
            (q.setPhase w (q.phase w)).work := work_turn hw
        have hturns : (turn now timeout w steps (q.phase w) turnBudget q).turns = q.turns :=
          turns_turn
        rw [setPhase_phase] at hwakes hwork'
        refine drive_stopped steps fuel _ (tracked_turn steps _ _ q hq hw)
          (live_turn hw hlq (by omega)) (by omega) ?_ v
        -- the turn took a ready worker and added no wake-up
        have hpw : p.wakes = q.wakes + 1 := by
          simp only [wakes, scheduled, q, hready, List.length_cons]
          omega
        have hrp : p.rounds = 3 * p.wakes + p.turns := by simp [rounds, hready]
        have hrt : (turn now timeout w steps (q.phase w) turnBudget q).rounds ≤
            3 * (turn now timeout w steps (q.phase w) turnBudget q).wakes +
              (turn now timeout w steps (q.phase w) turnBudget q).turns + 1 := by
          unfold rounds
          split <;> omega
        rw [if_neg (by decide : turnBudget ≠ 0)] at hwakes
        have hqt : q.turns = p.turns + 1 := rfl
        omega
      · split
        · split
          · -- nothing is left to wake, so every worker has stopped
            rename_i hready hy _ hnd
            exact hl.stopped hready (List.isEmpty_iff.mp hy) ((nextDeadline_spec p).1 hnd) v
          · -- the clock jumps to the earliest deadline
            rename_i hready _ _ d hnd
            let q : Pool := { p with clock := max p.clock d }
            have hlq : q.Live none := hl.widen rfl (fun _ => id) (fun _ => id) (fun _ => id) rfl rfl
              (Nat.le_max_left _ _)
            have := rounds_check_lt (p := q) (.inl (ready_jump hnd)) (.inl hready)
            have hqr : q.rounds = p.rounds := rfl
            exact drive_stopped steps fuel q.check (tracked_check ht) hlq.check hwork (by omega) v
        · -- a worker has yielded
          rename_i hready hy
          have hne : p.check.ready ≠ [] := by
            obtain ⟨u, hu⟩ := List.exists_mem_of_ne_nil _ (by simpa using hy)
            have hmem : u ∈ p.check.ready := by simp [Pool.check, hu]
            exact List.ne_nil_of_mem hmem
          have := rounds_check_lt (.inl hne) (.inl hready)
          exact drive_stopped steps fuel p.check (tracked_check ht) hl.check hwork (by omega) v


end Pool

/-! ## The fuel suffices -/

section Fuel

/-- The fold behind `stepBound` over a task's movements. -/
theorem foldl_moveBound : ∀ (ms : List Movement) (k : Nat),
    ms.foldl (fun k m => k + 4 * m.storesPending.length + 8) k =
      k + weigh (fun m => 4 * m.storesPending.length + 8) ms
  | [], _ => rfl
  | m :: ms, k => by
    rw [List.foldl_cons, foldl_moveBound ms, weigh_cons]
    omega

/-- `stepBound` as a sum over the tasks. -/
theorem stepBound_eq (tasks : List Task) (workers : Nat) :
    stepBound tasks workers = 2 * workers + 4 +
      weigh (fun t => 4 + weigh (fun m => 4 * m.storesPending.length + 8) t.movements) tasks := by
  unfold stepBound
  generalize 2 * workers + 4 = k
  induction tasks generalizing k with
  | nil => rfl
  | cons t ts ih =>
    rw [List.foldl_cons, foldl_moveBound, ih, weigh_cons]
    omega

theorem movesSteps_le : ∀ ms : List Movement,
    movesSteps ms ≤ 2 + weigh (fun m => 4 * m.storesPending.length + 8) ms
  | [] => Nat.le_refl _
  | m :: ms => by
    have := movesSteps_le ms
    simp only [movesSteps, weigh_cons]
    omega

theorem moveWakes_le : ∀ ms : List Movement,
    3 * (2 * ms.length + 2 * storeCount ms) ≤ 4 * weigh (fun m => 4 * m.storesPending.length + 8) ms
  | [] => Nat.le_refl _
  | m :: ms => by
    have := moveWakes_le ms
    simp only [storeCount, weigh_cons, List.length_cons] at this ⊢
    omega

theorem work_start_lt (s : RunState) (workers : Nat) :
    (Pool.start s workers).work < stepBound s.queue workers := by
  have hw : weigh Phase.steps (List.replicate workers Phase.idle) = workers := by
    rw [weigh_replicate, Phase.steps, Nat.mul_one]
  have hle : weigh Task.steps s.queue ≤
      weigh (fun t => 4 + weigh (fun m => 4 * m.storesPending.length + 8) t.movements) s.queue :=
    weigh_le_weigh _ (fun t => by have := movesSteps_le t.movements; simp only [Task.steps]; omega) _
  simp only [Pool.work, Pool.start, hw, stepBound_eq]
  omega

theorem rounds_start_lt (s : RunState) (workers : Nat) :
    (Pool.start s workers).rounds < 4 * stepBound s.queue workers + 8 := by
  have hle : weigh (fun t => 3 * Task.wakes t) s.queue ≤ weigh (fun t : Task =>
      4 * (4 + weigh (fun m => 4 * m.storesPending.length + 8) t.movements)) s.queue :=
    weigh_le_weigh _ (fun t => by
      have := moveWakes_le t.movements
      simp only [Task.wakes, Phase.wakes]
      omega) _
  rw [weigh_mul, weigh_mul] at hle
  have hidle : weigh Phase.wakes (List.replicate workers Phase.idle) = 0 := by
    rw [weigh_replicate]
    rfl
  have hwakes : (Pool.start s workers).wakes = workers + weigh Task.wakes s.queue := by
    simp [Pool.wakes, Pool.scheduled, Pool.start, hidle]
  have hrounds : (Pool.start s workers).rounds ≤ 3 * (Pool.start s workers).wakes + 1 := by
    unfold Pool.rounds
    split <;> simp [Pool.start]
  rw [stepBound_eq]
  omega

end Fuel

namespace Pool

theorem phase_start (s : RunState) (workers v : Nat) :
    (Pool.start s workers).phase v = if v < workers then .idle else .stopped := by
  simp only [phase, start, List.getD_eq_getElem?_getD, List.getElem?_replicate]
  split <;> rfl

theorem live_start (s : RunState) (workers : Nat) : (Pool.start s workers).Live none where
  pending v _ hs := by
    rw [phase_start] at hs
    by_cases hv : v < workers
    · exact .inl (.inl (List.mem_range.mpr hv))
    · simp [hv] at hs
  holder h hh := by simp [start] at hh
  holderLock h hh := by simp [start] at hh
  free _ := rfl
  holderFree h hh := by simp [start] at hh
  nodup := List.nodup_nil
  waitersLock v hv := by simp [start] at hv
  timers v m rest stores failed d hv := by
    rw [phase_start] at hv
    split at hv <;> cases hv

/-- Every run of the workers ends with each of them stopped: the thread's fuel never runs out,
and it ends only when no worker is left to wake. -/
theorem runWorkers_stopped (now : Int) (timeout workers : Nat) (s : RunState) (v : Nat) :
    (runWorkers now timeout workers s).phase v = .stopped :=
  drive_stopped _ _ _ (tracked_start s workers) (live_start s workers) (work_start_lt s workers)
    (rounds_start_lt s workers) v

end Pool

end Rebalance

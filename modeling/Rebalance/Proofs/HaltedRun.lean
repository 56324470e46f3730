import Rebalance.Proofs.Interleaving
/-!
# A failed revert halts the run

A commit whose revert fails halts the committer, and a halted committer refuses every write.
The run reacts to that answer once: the worker that got it aborts the run and keeps the error,
and every other worker that asks the committer afterwards is refused and skips its movements.
This module shows that this holds under every order of the workers' steps.

* The committer changes its halt flag only when a revert fails (`commit_error_of_running`,
  `halted_of_commit_fault`, `ensureNode_cases`), and a halted committer answers that it is
  halted and changes nothing.
* `HaltRecord` is the run's account of it: the run is aborted, keeps a fatal error and has a
  halted committer all at once, the error kept is a failed revert, and only an aborted run has
  skipped a movement. Every step keeps it (`haltRecord_of_stepCase`).
* A run's committer calls show the failed revert: the error the run keeps is the answer of a
  call, and of the only call that answered a failed revert (`fatal_of_moves`).
* Once halted, the run is frozen: every later call is refused as halted, and neither the
  propagation log nor the cached topology changes again (`frozen_of_moves`).
-/

namespace Rebalance

/-! ## The committer's halt flag -/

namespace Committer

variable {k k' : Committer} {target : Topology} {node : Nat} {m : Movement} {now : Int}

theorem ensureNode_of_halted (h : k.halted = true) :
    ensureNode target node k = .ok (.error .commitHalted) k := by
  simp [ensureNode, h]

/-- `ensureNode` never faults and keeps the halt flag; it answers that the committer is halted
only when it is. -/
theorem ensureNode_cases (target : Topology) (node : Nat) (k : Committer) :
    ∃ a k', ensureNode target node k = .ok a k' ∧ k'.halted = k.halted ∧
      (a = .error .commitHalted → k.halted = true) := by
  by_cases hh : k.halted = true
  · exact ⟨_, _, ensureNode_of_halted hh, rfl, fun _ => hh⟩
  have hh : k.halted = false := by simpa using hh
  unfold ensureNode
  simp only [get_bind_apply, hh, Bool.false_eq_true, if_false]
  by_cases hc : k.cluster.cached.containsNode node = true
  · simp only [hc, if_true, pure_apply]
    exact ⟨_, _, rfl, hh, nofun⟩
  · cases hn : target.node? node with
    | none =>
      simp only [hc, Bool.false_eq_true, if_false, pure_apply]
      exact ⟨_, _, rfl, hh, nofun⟩
    | some n =>
      simp only [hc, Bool.false_eq_true, if_false, bind_apply, setCached_apply, pure_apply]
      exact ⟨_, _, rfl, hh, nofun⟩

/-- A revert that faults has not touched the halt flag. -/
theorem halted_of_revert_fault {s t : Nat} {previous : Topology} {clock : Clock}
    {cause : RunError} {f : Fault} (h : revert s t previous clock cause now k = .error f k') :
    k'.halted = k.halted := by
  have hpath := revert_path s t previous clock cause now k
  generalize revert s t previous clock cause now k = x at hpath h
  cases hpath with
  | overflow _ =>
    cases h
    rfl
  | reverted _ _ | halted _ _ => cases h

/-- A commit that faults has not touched the halt flag. -/
theorem halted_of_commit_fault {f : Fault} (hc : commit m now k = .error f k') :
    k'.halted = k.halted := by
  have hpath := commit_path m now k
  generalize commit m now k = x at hpath hc
  cases hpath with
  | overflow _ _ _ =>
    cases hc
    rfl
  | unmoved _ _ | undelivered _ _ _ _ =>
    -- the revert starts with `k`'s halt flag, also after a failed propagation
    have hk := halted_of_revert_fault (map_eq_error.1 hc)
    exact hk
  | halted _ | refused _ _ _ | written _ _ _ _ => cases hc

/-- A commit that writes keeps the halt flag. -/
theorem halted_of_commit_ok {record : CommitRecord} (hc : commit m now k = .ok (.ok record) k') :
    k'.halted = k.halted := by
  obtain ⟨_, _, _, _, _, _, _, _, rfl⟩ := written_of_commit_ok hc
  rfl

/-- A running committer never answers that it is halted; it halts exactly when its answer is
fatal, and a fatal answer is a failed revert. -/
theorem commit_error_of_running {r : RunError} (hh : k.halted = false)
    (hc : commit m now k = .ok (.error r) k') :
    r ≠ .commitHalted ∧ k'.halted = r.isRunFatal ∧
      (r.isRunFatal = true → ∃ cause rb, r = .rollbackFailed m.stealer cause rb) := by
  have hpath := commit_path m now k
  generalize commit m now k = x at hpath hc
  cases hpath with
  | halted hh' => simp [hh] at hh'
  | refused _ hr hne =>
    cases hc
    have hf := RunError.isRunFatal_of_refusesWrite hr
    refine ⟨hne, by rw [hh, hf], fun h => ?_⟩
    rw [hf] at h
    cases h
  | unmoved _ _ | undelivered _ _ _ _ =>
    have hans := map_revert_answer hc
    rcases hans with ⟨rfl, hk⟩ | ⟨⟨rb, rfl⟩, hk⟩
    · exact ⟨nofun, hk.trans hh, nofun⟩
    · exact ⟨nofun, hk, fun _ => ⟨_, _, rfl⟩⟩
  | overflow _ _ _ | written _ _ _ _ => cases hc

end Committer

/-! ## The run's account of a failed revert -/

namespace Committer

/-- The answer of a committer step; none when the step ended in a fault. -/
def answerOf {α : Type} : EStateM.Result Fault Committer α → Option α
  | .ok a _ => some a
  | .error _ _ => none

/-- The committer as a step left it. -/
def stateOf {α : Type} : EStateM.Result Fault Committer α → Committer
  | .ok _ k => k
  | .error _ k => k

end Committer

namespace Pool

variable {p : Pool} {w budget : Nat}

@[simp] theorem acquire_run : (p.acquire w budget).2.run = p.run := by
  unfold acquire yieldTurn
  grind

@[simp] theorem release_run : p.release.run = p.run := by
  unfold release
  cases p.waiters <;> rfl

/-- A committer step replaces the run's committer by the one the step left. -/
theorem commitStep_eq {α : Type} (x : CommitM α) :
    p.commitStep x = (Committer.answerOf (x p.run.committer),
      p.onRun fun s => { s with committer := Committer.stateOf (x p.run.committer) }) := by
  unfold commitStep
  cases x p.run.committer <;> rfl

end Pool

namespace RunState

variable {s : RunState} {m : Movement} {rest : List Movement} {e : RunError}

theorem afterCommit_of_ne (he : e ≠ .commitHalted) :
    s.afterCommit m rest (some (.error e)) =
      if e.isRunFatal then s.abortAt m rest e else s.record m (.commitFailed e.message) := by
  cases e with
  | commitHalted => exact absurd rfl he
  | _ => rfl

theorem afterJoin_of_ne {t : Task} (he : e ≠ .commitHalted) :
    s.afterJoin t (some (.error e)) = s.failAll t.movements e.message := by
  cases e with
  | commitHalted => exact absurd rfl he
  | _ => rfl

/-- How a run accounts for a failed revert: the run is aborted, keeps a fatal error and has a
halted committer all at once; the error it keeps is a failed revert; and only an aborted run
has skipped a movement. -/
structure HaltRecord (s : RunState) : Prop where
  aborted : s.aborted = s.committer.halted
  fatal : s.fatal.isSome = s.committer.halted
  revert : ∀ e, s.fatal = some e → ∃ st cause rb, e = .rollbackFailed st cause rb
  skips : ∀ o ∈ s.outcomes, o.status.isSkip = true → s.aborted = true

/-- Recording outcomes that are not skips keeps the account. -/
theorem HaltRecord.append (h : s.HaltRecord) {os : List Outcome}
    (hos : ∀ o ∈ os, o.status.isSkip = false) : { s with outcomes := s.outcomes ++ os }.HaltRecord :=
  ⟨h.aborted, h.fatal, h.revert, fun o ho hskip => by
    rcases List.mem_append.1 ho with ho | ho
    · exact h.skips o ho hskip
    · rw [hos o ho] at hskip; cases hskip⟩

/-- An aborted run may record skips. -/
theorem HaltRecord.skipAll (h : s.HaltRecord) (ha : s.aborted = true) (ms : List Movement) :
    (s.skipAll ms).HaltRecord :=
  ⟨h.aborted, h.fatal, h.revert, fun _ _ _ => ha⟩

theorem HaltRecord.record (h : s.HaltRecord) {st : Status} (hst : st.isSkip = false) :
    (s.record m st).HaltRecord :=
  h.append (by simpa using hst)

theorem HaltRecord.failAll (h : s.HaltRecord) (ms : List Movement) (reason : String) :
    (s.failAll ms reason).HaltRecord :=
  h.append (by simp [Status.isSkip])

/-- A run whose committer has not halted keeps no fatal error. -/
theorem HaltRecord.fatal_eq_none (h : s.HaltRecord) (hh : s.committer.halted = false) :
    s.fatal = none := by
  have := h.fatal
  rw [hh] at this
  simpa using this

/-- A run that keeps no fatal error is not aborted and has skipped nothing. -/
theorem HaltRecord.skip_free (h : s.HaltRecord) (hf : s.fatal = none) :
    s.aborted = false ∧ ∀ o ∈ s.outcomes, o.status.isSkip = false := by
  have ha : s.aborted = false := by
    rw [h.aborted, ← h.fatal, hf]
    rfl
  refine ⟨ha, fun o ho => ?_⟩
  cases hs : o.status.isSkip
  · rfl
  · rw [h.skips o ho hs] at ha
    cases ha

/-- Aborting a running run at a failed revert halts the account with it. -/
theorem HaltRecord.abortAt (h : s.HaltRecord) {k : Committer} (hh : s.committer.halted = false)
    (hk : k.halted = true) (hr : ∃ st cause rb, e = .rollbackFailed st cause rb) :
    ({ s with committer := k }.abortAt m rest e).HaltRecord := by
  have hf : s.fatal = none := h.fatal_eq_none hh
  refine ⟨by simp [RunState.abortAt, RunState.skipAll, RunState.record, hk],
    by simp [RunState.abortAt, RunState.skipAll, RunState.record, hk],
    fun e' he' => ?_, fun _ _ _ => by simp [RunState.abortAt, RunState.skipAll, RunState.record]⟩
  simp only [RunState.abortAt, RunState.skipAll, RunState.record, hf, Option.getD_none,
    Option.some.injEq] at he'
  exact he' ▸ hr

end RunState

/-- Issuing and awaiting migration jobs leaves the propagation log and the cached topology. -/
theorem Cluster.startMigration_log_cached (c : Cluster) (store : String) (m : Movement) :
    (c.startMigration store m).2.log = c.log ∧ (c.startMigration store m).2.cached = c.cached := by
  unfold Cluster.startMigration
  split
  · exact ⟨rfl, rfl⟩
  · split <;> exact ⟨rfl, rfl⟩

theorem Cluster.awaitJob_log_cached (c : Cluster) (others node job : Nat) :
    (c.awaitJob others node job).2.log = c.log ∧ (c.awaitJob others node job).2.cached = c.cached := by
  simp only [Cluster.awaitJob]
  split
  · exact ⟨rfl, rfl⟩
  · split <;> exact ⟨rfl, rfl⟩

namespace RunState

/-- A step that makes no committer call keeps the halt flag, the fatal error, the abort flag,
the propagation log and the cached topology, and records only outcomes that are not skips unless
the run is aborted. -/
structure RunFrame (s s' : RunState) : Prop where
  halted : s'.committer.halted = s.committer.halted
  fatal : s'.fatal = s.fatal
  aborted : s'.aborted = s.aborted
  log : s'.committer.cluster.log = s.committer.cluster.log
  cached : s'.committer.cluster.cached = s.committer.cluster.cached
  outcomes : ∃ os, s'.outcomes = s.outcomes ++ os ∧ ∀ o ∈ os, o.status.isSkip = true → s.aborted = true

theorem RunFrame.refl (s : RunState) : RunFrame s s :=
  ⟨rfl, rfl, rfl, rfl, rfl, [], by simp, by simp⟩

theorem HaltRecord.of_runFrame {s s' : RunState} (h : s.HaltRecord) (hf : RunFrame s s') :
    s'.HaltRecord := by
  obtain ⟨os, hos, hskip⟩ := hf.outcomes
  refine ⟨by rw [hf.aborted, hf.halted, h.aborted], by rw [hf.fatal, hf.halted, h.fatal],
    fun e he => h.revert e (hf.fatal ▸ he), fun o ho hs => ?_⟩
  rw [hf.aborted]
  rw [hos] at ho
  rcases List.mem_append.1 ho with ho | ho
  · exact h.skips o ho hs
  · exact hskip o ho hs

theorem HaltRecord.withCommitter {s : RunState} (h : s.HaltRecord) {k : Committer}
    (hk : k.halted = s.committer.halted) : { s with committer := k }.HaltRecord :=
  ⟨h.aborted.trans hk.symm, h.fatal.trans hk.symm, h.revert, h.skips⟩

end RunState

namespace Call

/-- The failed revert the call answered, if it answered one. -/
def failedRevert : Call → Option RunError
  | .commit _ (some (.error (.rollbackFailed s cause rb))) => some (.rollbackFailed s cause rb)
  | _ => none

/-- The committer refused the call because it is halted. -/
def refusedHalted : Call → Bool
  | .ensure _ (some (.error .commitHalted)) => true
  | .commit _ (some (.error .commitHalted)) => true
  | _ => false

/-- A fault ended the call. -/
def faulted : Call → Bool
  | .ensure _ none => true
  | .commit _ none => true
  | _ => false

end Call

/-! ## What a step does to the run -/

namespace Pool

variable {now : Int} {timeout : Nat} {w budget : Nat} {ph : Phase} {p p' : Pool} {n : Next}
  {c : Option Call}

/-- Replacing the cluster by one with the same log and cached topology keeps the run's frame. -/
theorem frame_setCluster {cl : Cluster} (hl : cl.log = p.run.committer.cluster.log)
    (hc : cl.cached = p.run.committer.cluster.cached) : RunState.RunFrame p.run (p.setCluster cl).run :=
  ⟨rfl, rfl, rfl, hl, hc, [], by simp [setCluster, onRun], by simp⟩

/-- Issuing a migration job and awaiting it keeps the run's frame. -/
theorem frame_migrate {store : String} {m : Movement} {job : Nat} {c c' : Cluster} {r : JobResult}
    (hm : p.run.committer.cluster.startMigration store m = (.ok job, c))
    (hj : c.awaitJob p.stalls m.stealer job = (r, c')) :
    RunState.RunFrame p.run (p.setCluster c').run := by
  obtain ⟨hl, hc⟩ := Cluster.startMigration_log_cached p.run.committer.cluster store m
  obtain ⟨hl', hc'⟩ := Cluster.awaitJob_log_cached c p.stalls m.stealer job
  rw [hm] at hl hc
  rw [hj] at hl' hc'
  exact frame_setCluster (hl'.trans hl) (hc'.trans hc)

/-- A step either makes no committer call and keeps the run's frame, or is a joining worker's
call, or a committing worker's call, each recorded as `afterJoin` and `afterCommit` say. -/
theorem stepCase_run (hs : StepCase now timeout w budget ph p n p' c) :
    (c = none ∧ RunState.RunFrame p.run p'.run) ∨
    (∃ t a k', c = some (.ensure t.stealer (some a)) ∧
      Committer.ensureNode p.run.target t.stealer p.run.committer = .ok a k' ∧
      p'.run = { p.run with committer := k' }.afterJoin t (some a)) ∨
    (∃ m rest, c = some (.commit m (Committer.answerOf (Committer.commit m now p.run.committer))) ∧
      p'.run = { p.run with committer := Committer.stateOf (Committer.commit m now p.run.committer) }.afterCommit
        m rest (Committer.answerOf (Committer.commit m now p.run.committer))) := by
  cases hs with
  | stop _ => exact .inl ⟨rfl, .refl _⟩
  | take _ _ => exact .inl ⟨rfl, ⟨rfl, rfl, rfl, rfl, rfl, [], by simp [onRun], by simp⟩⟩
  | wait _ ha =>
    refine .inl ⟨rfl, ?_⟩
    have hq := congrArg (fun r => r.2.run) ha
    simp only [acquire_run] at hq
    rw [← hq]
    exact .refl _
  | @join _ q r t b a ha hr =>
    have hq : q.run = p.run := by simpa using (congrArg (fun r => r.2.run) ha).symm
    obtain ⟨a', k', he, -, -⟩ := Committer.ensureNode_cases p.run.target t.stealer p.run.committer
    rw [commitStep_eq, hq, he] at hr
    cases hr
    exact .inr (.inl ⟨t, a', k', rfl, he, by
      simp [onRun, hq, Committer.stateOf, Committer.answerOf]⟩)
  | @commit _ q r m rest b a ha hr =>
    have hq : q.run = p.run := by simpa using (congrArg (fun r => r.2.run) ha).symm
    rw [commitStep_eq, hq] at hr
    cases hr
    exact .inr (.inr ⟨m, rest, rfl, by simp [onRun, hq]⟩)
  | finish => exact .inl ⟨rfl, .refl _⟩
  | skip ha =>
    exact .inl ⟨rfl, ⟨rfl, rfl, rfl, rfl, rfl, _, rfl, fun _ _ _ => ha⟩⟩
  | next _ => exact .inl ⟨rfl, .refl _⟩
  | migrated =>
    refine .inl ⟨rfl, ⟨rfl, rfl, rfl, rfl, rfl, _, rfl, fun o ho hs => ?_⟩⟩
    simp only [List.mem_singleton] at ho
    subst ho
    split at hs <;> cases hs
  | @unissued _ m _ store _ _ _ _ hm =>
    obtain ⟨hl, hc⟩ := Cluster.startMigration_log_cached p.run.committer.cluster store m
    rw [hm] at hl hc
    exact .inl ⟨rfl, frame_setCluster hl hc⟩
  | migrate hm hj => exact .inl ⟨rfl, frame_migrate hm hj⟩
  | jobFailed hm hj => exact .inl ⟨rfl, frame_migrate hm hj⟩
  | stall hm hj => exact .inl ⟨rfl, frame_migrate hm hj⟩
  | yield _ => exact .inl ⟨rfl, .refl _⟩
  | expire _ _ => exact .inl ⟨rfl, .refl _⟩
  | sleep _ _ => exact .inl ⟨rfl, .refl _⟩
  | arm _ _ => exact .inl ⟨rfl, .refl _⟩
  | stopped => exact .inl ⟨rfl, .refl _⟩

end Pool

namespace RunState

variable {s : RunState} {t : Task} {a : Option (Except RunError Unit)}

@[simp] theorem afterJoin_committer : (s.afterJoin t a).committer = s.committer := by
  unfold afterJoin; split <;> rfl

@[simp] theorem afterJoin_fatal : (s.afterJoin t a).fatal = s.fatal := by
  unfold afterJoin; split <;> rfl

end RunState

namespace Pool

variable {now : Int} {timeout : Nat} {w budget : Nat} {ph : Phase} {p p' : Pool} {n : Next}
  {c : Option Call}

/-- Every step keeps the run's account of a failed revert. -/
theorem haltRecord_of_stepCase (hs : StepCase now timeout w budget ph p n p' c)
    (hr : p.run.HaltRecord) : p'.run.HaltRecord := by
  rcases stepCase_run hs with ⟨-, hf⟩ | ⟨t, a, k', -, he, hrun⟩ | ⟨m, rest, -, hrun⟩
  · exact hr.of_runFrame hf
  · -- a joining worker's call keeps the halt flag, and is refused only by a halted committer
    obtain ⟨a₁, k₁, he₁, hk, hhalt⟩ := Committer.ensureNode_cases p.run.target t.stealer p.run.committer
    rw [he] at he₁
    cases he₁
    have hw := hr.withCommitter hk
    rw [hrun]
    cases a with
    | ok u => exact hw
    | error e =>
      by_cases hch : e = .commitHalted
      · subst hch
        exact hw.skipAll (by rw [hw.aborted]; exact hk.trans (hhalt rfl)) _
      · rw [RunState.afterJoin_of_ne hch]
        exact hw.failAll _ _
  · rw [hrun]
    by_cases hh : p.run.committer.halted = true
    · -- a halted committer refuses and the worker skips, in a run that is aborted already
      rw [Committer.commit_of_halted hh]
      exact (hr.withCommitter rfl).skipAll (by rw [hr.aborted]; exact hh) _
    have hh : p.run.committer.halted = false := by simpa using hh
    rcases hx : Committer.commit m now p.run.committer with ⟨a, k'⟩ | ⟨f, k'⟩
    · cases a with
      | ok record => exact hr.withCommitter (Committer.halted_of_commit_ok hx)
      | error e =>
        obtain ⟨hne, hk, hrb⟩ := Committer.commit_error_of_running hh hx
        simp only [Committer.stateOf, Committer.answerOf]
        rw [RunState.afterCommit_of_ne hne]
        cases hf : e.isRunFatal
        · simp only [Bool.false_eq_true, if_false]
          exact (hr.withCommitter (hk.trans (hf.trans hh.symm))).record rfl
        · simp only [if_true]
          exact hr.abortAt hh (hk.trans hf) (by obtain ⟨cause, rb, rfl⟩ := hrb hf; exact ⟨_, _, _, rfl⟩)
    · exact hr.withCommitter (Committer.halted_of_commit_fault hx)

/-- A step from a halted run is refused if it calls the committer, and changes neither the halt
flag, the fatal error, the propagation log nor the cached topology. -/
theorem frozen_of_stepCase (hs : StepCase now timeout w budget ph p n p' c)
    (hh : p.run.committer.halted = true) :
    p'.run.committer.halted = true ∧ p'.run.fatal = p.run.fatal ∧
      p'.run.committer.cluster.log = p.run.committer.cluster.log ∧
      p'.run.committer.cluster.cached = p.run.committer.cluster.cached ∧
      ∀ call ∈ c, call.refusedHalted = true := by
  rcases stepCase_run hs with ⟨rfl, hf⟩ | ⟨t, a, k', rfl, he, hrun⟩ | ⟨m, rest, rfl, hrun⟩
  · exact ⟨hf.halted.trans hh, hf.fatal, hf.log, hf.cached, nofun⟩
  · rw [Committer.ensureNode_of_halted hh] at he
    cases he
    rw [hrun]
    exact ⟨hh, rfl, rfl, rfl, by simp [Call.refusedHalted]⟩
  · rw [hrun, Committer.commit_of_halted hh]
    exact ⟨hh, rfl, rfl, rfl, by simp [Committer.answerOf, Call.refusedHalted]⟩

/-- A step from a running run either keeps it running, with the same fatal error and no failed
revert among its calls, or is the call whose revert failed: the run then keeps that error and
its committer is halted. -/
theorem running_of_stepCase (hs : StepCase now timeout w budget ph p n p' c)
    (hr : p.run.HaltRecord) (hh : p.run.committer.halted = false) :
    (p'.run.committer.halted = false ∧ p'.run.fatal = p.run.fatal ∧
      ∀ call ∈ c, call.failedRevert = none) ∨
    (∃ call ∈ c, call.failedRevert = p'.run.fatal ∧ (call.failedRevert).isSome ∧
      p'.run.committer.halted = true) := by
  rcases stepCase_run hs with ⟨rfl, hf⟩ | ⟨t, a, k', rfl, he, hrun⟩ | ⟨m, rest, rfl, hrun⟩
  · exact .inl ⟨hf.halted.trans hh, hf.fatal, nofun⟩
  · obtain ⟨a₁, k₁, he₁, hk, -⟩ := Committer.ensureNode_cases p.run.target t.stealer p.run.committer
    rw [he] at he₁
    cases he₁
    rw [hrun]
    exact .inl ⟨by simp [hk, hh], by simp, by simp [Call.failedRevert]⟩
  · rw [hrun]
    have hf : p.run.fatal = none := hr.fatal_eq_none hh
    rcases hx : Committer.commit m now p.run.committer with ⟨a, k'⟩ | ⟨f, k'⟩
    · cases a with
      | ok record =>
        exact .inl ⟨(Committer.halted_of_commit_ok hx).trans hh, rfl,
          by simp [Committer.answerOf, Call.failedRevert]⟩
      | error e =>
        obtain ⟨hne, hk, hrb⟩ := Committer.commit_error_of_running hh hx
        simp only [Committer.stateOf, Committer.answerOf]
        rw [RunState.afterCommit_of_ne hne]
        cases hfatal : e.isRunFatal
        · -- a refused or reverted write: no failed revert, and `e` is not one
          refine .inl ⟨by simp [RunState.record, hk, hfatal], by simp [RunState.record], ?_⟩
          intro call hcall
          simp only [Option.mem_def, Option.some.injEq] at hcall
          subst hcall
          cases e <;> simp_all [Call.failedRevert, RunError.isRunFatal]
        · -- the revert failed: the run aborts and keeps this error
          obtain ⟨cause, rb, rfl⟩ := hrb hfatal
          refine .inr ⟨_, rfl, ?_, rfl, ?_⟩
          · simp [RunState.abortAt, RunState.skipAll, RunState.record, hf, Call.failedRevert]
          · simpa [RunState.abortAt, RunState.skipAll, RunState.record] using hk.trans hfatal
    · exact .inl ⟨(Committer.halted_of_commit_fault hx).trans hh, rfl,
        by simp [Committer.answerOf, Call.failedRevert]⟩

end Pool

/-! ## Runs -/

namespace Pool

variable {now : Int} {timeout : Nat} {p q : Pool} {calls : List Call}

theorem advance_run (w budget : Nat) (p : Pool) :
    (p.advance now timeout w budget).run = (step now timeout w budget (p.phase w) p).2.run := rfl

/-- Every run keeps the account of a failed revert. -/
theorem haltRecord_of_moves (h : Moves now timeout p calls q) (hr : p.run.HaltRecord) :
    q.run.HaltRecord := by
  induction h with
  | refl => exact hr
  | @advance q _ w budget _ ih =>
    rw [advance_run]
    exact haltRecord_of_stepCase (@stepCase now timeout w budget (q.phase w) q) ih
  | reschedule _ hs ih => rw [hs.run]; exact ih

/-- From a halted run, every call is refused as halted, and neither the fatal error, the
propagation log nor the cached topology changes. -/
theorem frozen_of_moves (h : Moves now timeout p calls q) (hh : p.run.committer.halted = true) :
    q.run.committer.halted = true ∧ q.run.fatal = p.run.fatal ∧
      q.run.committer.cluster.log = p.run.committer.cluster.log ∧
      q.run.committer.cluster.cached = p.run.committer.cluster.cached ∧
      ∀ call ∈ calls, call.refusedHalted = true := by
  induction h with
  | refl => exact ⟨hh, rfl, rfl, rfl, nofun⟩
  | @advance q _ w budget _ ih =>
    obtain ⟨hq, hf, hl, hc, hcalls⟩ := ih
    obtain ⟨hq', hf', hl', hc', hnew⟩ :=
      frozen_of_stepCase (@stepCase now timeout w budget (q.phase w) q) hq
    rw [advance_run]
    refine ⟨hq', hf'.trans hf, hl'.trans hl, hc'.trans hc, fun call hcall => ?_⟩
    rcases List.mem_append.1 hcall with hcall | hcall
    · exact hcalls call hcall
    · exact hnew call (Option.mem_toList.1 hcall)
  | reschedule _ hs ih => rw [hs.run]; exact ih

/-- A run from a running pool either stays running, with no failed revert among its calls, or
has exactly one call whose revert failed: the calls before it answered no failed revert, the
run keeps its error, and every call after it was refused as halted. -/
theorem running_of_moves (h : Moves now timeout p calls q) (hr : p.run.HaltRecord)
    (hh : p.run.committer.halted = false) :
    (q.run.committer.halted = false ∧ q.run.fatal = p.run.fatal ∧
      ∀ call ∈ calls, call.failedRevert = none) ∨
    (∃ pre call post, calls = pre ++ call :: post ∧ (∀ c ∈ pre, c.failedRevert = none) ∧
      call.failedRevert = q.run.fatal ∧ (call.failedRevert).isSome ∧
      ∀ c ∈ post, c.refusedHalted = true) := by
  induction h with
  | refl => exact .inl ⟨hh, rfl, nofun⟩
  | @advance q calls w budget hm ih =>
    have hrq : q.run.HaltRecord := haltRecord_of_moves hm hr
    rw [advance_run]
    rcases ih with ⟨hq, hf, hnone⟩ | ⟨pre, call, post, rfl, hpre, hcall, hsome, hpost⟩
    · rcases running_of_stepCase (@stepCase now timeout w budget (q.phase w) q) hrq hq with
        ⟨hq', hf', hnew⟩ | ⟨call, hc, hcall, hsome, -⟩
      · refine .inl ⟨hq', hf'.trans hf, fun c hc => ?_⟩
        rcases List.mem_append.1 hc with hc | hc
        · exact hnone c hc
        · exact hnew c (Option.mem_toList.1 hc)
      · -- this step's call is the one whose revert failed
        refine .inr ⟨calls, call, [], ?_, hnone, hcall, hsome, nofun⟩
        rw [Option.mem_def.1 hc]
        rfl
    · -- the run is halted already, so the step is refused and keeps the error
      have hq : q.run.committer.halted = true := by rw [← hrq.fatal, ← hcall]; exact hsome
      obtain ⟨-, hf', -, -, hnew⟩ := frozen_of_stepCase (@stepCase now timeout w budget (q.phase w) q) hq
      refine .inr ⟨pre, call, post ++ (q.call now w budget (q.phase w)).toList, by simp, hpre,
        hcall.trans hf'.symm, hsome, fun c hc => ?_⟩
      rcases List.mem_append.1 hc with hc | hc
      · exact hpost c hc
      · exact hnew c (Option.mem_toList.1 hc)
  | reschedule _ hs ih => rw [hs.run]; exact ih

end Pool

end Rebalance

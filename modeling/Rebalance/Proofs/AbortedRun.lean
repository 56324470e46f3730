import Rebalance.Proofs.Progress
/-!
# A failed revert aborts the run, and only a fault skips work otherwise

A commit whose revert fails halts the committer. This module follows the workers of a run over
every order the thread may run them in (`Pool.Moves`), from the pool `rebalance` starts:

* at most one call is answered with a failed revert, and the run's fatal error is that answer
  (`fatal_of_moves`); every call after it is refused, so the propagation log and the cached
  topology do not change again (`frozen_after_failed_revert`);
* a worker stops only when the run is aborted, the queue is empty, or one of the calls made so
  far ended in a fault (`stopped_of_moves`).

With `runWorkers_stopped`, the run `rebalance` makes ends with every worker stopped, so its
result is an abort carrying the failed revert exactly when there was one, and otherwise a report
whose skipped movements, if any, are the tasks left queued when a fault ended the last worker
(`failed_revert_aborts_run`): a fault ends its worker without aborting the run.
-/

namespace Rebalance

namespace Call

theorem failedRevert_of_refusedHalted {c : Call} (h : c.refusedHalted = true) :
    c.failedRevert = none := by
  unfold failedRevert
  split
  · simp [refusedHalted] at h
  · rfl

end Call

namespace RunState

variable {s : RunState}

/-- The run `rebalance` starts keeps the record of its halt: nothing is aborted or halted yet. -/
theorem haltRecord_start (k : Committer) (hk : k.halted = false) (target : Topology)
    (tasks : List Task) : (⟨k, target, tasks, false, none, []⟩ : RunState).HaltRecord :=
  ⟨hk.symm, hk.symm, nofun, nofun⟩

@[simp] theorem afterJoin_aborted {t : Task} {a : Option (Except RunError Unit)} :
    (s.afterJoin t a).aborted = s.aborted := by
  unfold afterJoin
  split <;> rfl

theorem afterCommit_aborted {m : Movement} {rest : List Movement}
    {a : Option (Except RunError CommitRecord)} (h : s.aborted = true) :
    (s.afterCommit m rest a).aborted = true := by
  unfold afterCommit
  split
  · exact h
  · split
    · rfl
    · exact h
  · exact h

end RunState

theorem joinNext_stopped {t : Task} {b : Nat} {a : Option (Except RunError Unit)}
    (h : (joinNext t b a).phase = .stopped) : a = none := by
  rcases a with _ | (_ | _)
  · rfl
  · cases h
  · cases h

theorem commitNext_stopped {m : Movement} {rest : List Movement} {b : Nat}
    {a : Option (Except RunError CommitRecord)} (h : (commitNext m rest b a).phase = .stopped) :
    a = none := by
  rcases a with _ | (e | _)
  · rfl
  · rcases commitNext_error m rest b e with h' | h' <;> rw [h'] at h <;> cases h
  · cases h

namespace Pool

variable {now : Int} {timeout : Nat} {w budget : Nat} {ph : Phase} {p p' q r : Pool} {n : Next}
  {c : Option Call} {calls more : List Call}

/-! ## One failed revert, then nothing -/

/-- From a run not yet halted, at most one call is answered with a failed revert, and the run's
fatal error is that answer. -/
theorem fatal_of_moves (h : Moves now timeout p calls q) (hr : p.run.HaltRecord)
    (hh : p.run.committer.halted = false) :
    (calls.filterMap Call.failedRevert).length ≤ 1 ∧
      ∀ e, q.run.fatal = some e ↔ ∃ call ∈ calls, call.failedRevert = some e := by
  have hf : p.run.fatal = none := hr.fatal_eq_none hh
  rcases running_of_moves h hr hh with
    ⟨-, hq, hnone⟩ | ⟨pre, call, post, rfl, hpre, hcall, hsome, hpost⟩
  · have hnil : calls.filterMap Call.failedRevert = [] := List.filterMap_eq_nil_iff.mpr hnone
    refine ⟨by simp [hnil], fun e => ⟨fun he => ?_, ?_⟩⟩
    · rw [hq, hf] at he
      cases he
    · rintro ⟨call, hc, he⟩
      rw [hnone call hc] at he
      cases he
  · -- the one call whose revert failed
    obtain ⟨e, he⟩ := Option.isSome_iff_exists.mp hsome
    have hpost' : ∀ c ∈ post, c.failedRevert = none := fun c hc =>
      Call.failedRevert_of_refusedHalted (hpost c hc)
    have hlist : (pre ++ call :: post).filterMap Call.failedRevert = [e] := by
      simp [List.filterMap_append, List.filterMap_eq_nil_iff.mpr hpre,
        List.filterMap_eq_nil_iff.mpr hpost', he]
    refine ⟨by simp [hlist], fun e' => ?_⟩
    rw [← hcall, he]
    constructor
    · rintro ⟨⟩
      exact ⟨call, by simp, he⟩
    · rintro ⟨c, hc, hce⟩
      simp only [List.mem_append, List.mem_cons] at hc
      rcases hc with hc | rfl | hc
      · rw [hpre c hc] at hce
        cases hce
      · rw [he] at hce
        exact hce
      · rw [hpost' c hc] at hce
        cases hce

/-- From a run not yet halted, the run keeps no fatal error exactly when no revert failed. -/
theorem fatal_eq_none_of_moves (h : Moves now timeout p calls q) (hr : p.run.HaltRecord)
    (hh : p.run.committer.halted = false) :
    q.run.fatal = none ↔ ∀ call ∈ calls, call.failedRevert = none := by
  have hfatal := (fatal_of_moves h hr hh).2
  constructor
  · intro hf call hc
    cases hce : call.failedRevert with
    | none => rfl
    | some e =>
      have := (hfatal e).mpr ⟨call, hc, hce⟩
      rw [hf] at this
      cases this
  · intro hnone
    cases hf : q.run.fatal with
    | none => rfl
    | some e =>
      obtain ⟨call, hc, hce⟩ := (hfatal e).mp hf
      rw [hnone call hc] at hce
      cases hce

/-- After a failed revert every call is refused, and the propagation log and the cached topology
stay as they were. -/
theorem frozen_after_failed_revert (h₁ : Moves now timeout p calls q)
    (h₂ : Moves now timeout q more r) (hr : p.run.HaltRecord)
    (hh : p.run.committer.halted = false) (hcall : ∃ call ∈ calls, (call.failedRevert).isSome) :
    (∀ call ∈ more, call.refusedHalted = true) ∧
      r.run.committer.cluster.log = q.run.committer.cluster.log ∧
      r.run.committer.cluster.cached = q.run.committer.cluster.cached := by
  obtain ⟨call, hc, hs⟩ := hcall
  obtain ⟨e, he⟩ := Option.isSome_iff_exists.mp hs
  have hfatal : q.run.fatal = some e := ((fatal_of_moves h₁ hr hh).2 e).mpr ⟨call, hc, he⟩
  have hq : q.run.committer.halted = true := by
    rw [← (haltRecord_of_moves h₁ hr).fatal, hfatal]
    rfl
  obtain ⟨-, -, hlog, hcached, hrefused⟩ := frozen_of_moves h₂ hq
  exact ⟨hrefused, hlog, hcached⟩

/-! ## Why a worker stops -/

theorem aborted_of_stepCase (hs : StepCase now timeout w budget ph p n p' c)
    (ha : p.run.aborted = true) : p'.run.aborted = true := by
  rcases stepCase_run hs with ⟨-, hf⟩ | ⟨t, a, k', -, -, hrun⟩ | ⟨m, rest, -, hrun⟩
  · rw [hf.aborted]
    exact ha
  · rw [hrun, RunState.afterJoin_aborted]
    exact ha
  · rw [hrun]
    exact RunState.afterCommit_aborted ha

theorem queue_of_stepCase (hs : StepCase now timeout w budget ph p n p' c)
    (hq : p.run.queue = []) : p'.run.queue = [] := by
  cases hs with
  | take _ hq' =>
    rw [hq] at hq'
    cases hq'
  | wait _ ha => rwa [run_of_acquire ha]
  | join ha hr =>
    rw [lockStep_eq ha hr]
    simpa [onRun] using hq
  | commit ha hr =>
    rw [lockStep_eq ha hr]
    simpa [onRun] using hq
  | expire _ _ => exact hq
  | arm _ _ => exact hq
  | yield _ => exact hq
  | stall _ _ => exact hq
  | _ => simpa [onRun, setCluster, RunState.skipAll, RunState.record] using hq

/-- A step stops its worker only from the stopped phase, when the run is aborted or the queue is
empty, or when its call ends in a fault. -/
theorem stopped_of_stepCase (hs : StepCase now timeout w budget ph p n p' c)
    (hn : n.phase = .stopped) :
    ph = .stopped ∨ p.run.aborted = true ∨ p.run.queue = [] ∨ ∃ call ∈ c, call.faulted = true := by
  cases hs with
  | stop h => exact .inr (h.imp_right .inl)
  | join _ _ =>
    cases joinNext_stopped hn
    exact .inr (.inr (.inr ⟨_, rfl, rfl⟩))
  | commit _ _ =>
    cases commitNext_stopped hn
    exact .inr (.inr (.inr ⟨_, rfl, rfl⟩))
  | wait _ _ => exact .inl hn
  | stopped => exact .inl rfl
  | _ => cases hn

theorem length_of_moves (h : Moves now timeout p calls q) : q.phases.length = p.phases.length := by
  induction h with
  | refl => rfl
  | @advance q _ w budget _ ih =>
    simp only [advance, setPhase_phases, List.length_set, step_phases]
    exact ih
  | reschedule _ hs ih => rw [hs.phases]; exact ih

/-- Along every run, a worker has stopped only because the run was aborted or its queue ran out,
or because one of the calls made so far ended in a fault. -/
theorem stopped_of_moves (h : Moves now timeout p calls q)
    (hp : ∀ v < p.phases.length, p.phase v = .stopped → p.run.aborted = true ∨ p.run.queue = []) :
    ∀ v < q.phases.length, q.phase v = .stopped →
      q.run.aborted = true ∨ q.run.queue = [] ∨ ∃ call ∈ calls, call.faulted = true := by
  induction h with
  | refl => exact fun v hv hs => (hp v hv hs).imp_right .inl
  | @advance q calls w budget _ ih =>
    intro v hv hs
    unfold advance at hv hs ⊢
    rcases hres : step now timeout w budget (q.phase w) q with ⟨n, p'⟩
    have hstep := stepCase_of_eq hres
    have hph := phases_of_step hres
    rw [hres] at hv hs
    simp only [setPhase_run, setPhase_phases, List.length_set] at hv hs ⊢
    -- a reason that held before the step still holds after it
    have keep : (q.run.aborted = true ∨ q.run.queue = [] ∨ ∃ call ∈ calls, call.faulted = true) →
        p'.run.aborted = true ∨ p'.run.queue = [] ∨
          ∃ call ∈ calls ++ (q.call now w budget (q.phase w)).toList, call.faulted = true := by
      rintro (ha | hq | ⟨call, hc, hf⟩)
      · exact .inl (aborted_of_stepCase hstep ha)
      · exact .inr (.inl (queue_of_stepCase hstep hq))
      · exact .inr (.inr ⟨call, List.mem_append_left _ hc, hf⟩)
    rw [hph] at hv
    by_cases hvw : v = w
    · subst hvw
      rw [phase_setPhase_self (by rwa [hph])] at hs
      rcases stopped_of_stepCase hstep hs with hq | ha | hq | ⟨call, hc, hf⟩
      · exact keep (ih v hv hq)
      · exact keep (.inl ha)
      · exact keep (.inr (.inl hq))
      · exact .inr (.inr ⟨call, List.mem_append_right _ (Option.mem_toList.mpr hc), hf⟩)
    · rw [phase_setPhase_of_ne hvw, phase_eq_of_phases hph] at hs
      exact keep (ih v hv hs)
  | reschedule _ hs ih =>
    intro v hv hsv
    rw [hs.run]
    exact ih v (hs.phases ▸ hv) (by rwa [phase_eq_of_phases hs.phases] at hsv)

/-- From the start of a run, a worker has stopped only because the run was aborted or its queue
ran out, or because one of the calls made so far ended in a fault. -/
theorem stopped_of_start {s : RunState} {workers : Nat} (h : Moves now timeout (start s workers) calls q)
    (v : Nat) (hv : v < workers) (hs : q.phase v = .stopped) :
    q.run.aborted = true ∨ q.run.queue = [] ∨ ∃ call ∈ calls, call.faulted = true := by
  refine stopped_of_moves h (fun u hu hst => ?_) v ?_ hs
  · -- no worker of the starting pool has stopped
    rw [phase_start] at hst
    simp only [start, List.length_replicate] at hu
    simp [hu] at hst
  · rw [length_of_moves h]
    simpa [start] using hv

end Pool

/-! ## The run `rebalance` makes -/

theorem Settings.maxParallel_pos {s : Settings} (h : s.validate = .ok ()) : 0 < s.maxParallel := by
  unfold Settings.validate at h
  by_cases h0 : s.maxParallel = 0
  · simp [h0] at h
  · omega

/-- A run's result carries the run's report, as itself or inside an abort. -/
theorem RunState.result_report (s : RunState) :
    s.result = .ok s.report ∨ ∃ e, s.result = .error (.aborted s.report e) := by
  unfold RunState.result
  cases s.fatal <;> simp

/-- The only report a run's result carries is the run's report. -/
theorem RunState.report_of_result {s : RunState} {r : Report}
    (h : s.result = .ok r ∨ ∃ e, s.result = .error (.aborted r e)) : r = s.report := by
  unfold RunState.result at h
  cases hf : s.fatal <;> simp only [hf, reduceCtorEq, exists_false, or_false, false_or,
    Except.ok.injEq, Except.error.injEq, RunError.aborted.injEq] at h
  · exact h.symm
  · exact h.elim fun _ he => he.1.symm

/-- With valid settings, a free token and a plan, `rebalance` answers what the run of its workers
leaves. -/
theorem rebalance_result {c : Cluster} {token : Token} {settings : Settings}
    {plan : List Movement} {current target : Topology} {stores : List String} {now : Int}
    {tasks : List Task} (hv : settings.validate = .ok ()) (ht : token.held = false)
    (hp : selectPlan plan current target stores = .ok tasks) :
    (rebalance c token settings plan current target stores now).result =
      (runWorkers now settings.timeoutSecs (min settings.maxParallel (tasks.length + turnsPerCheck))
        ⟨Committer.make { c with cached := current } settings, target, tasks, false, none, []⟩).run.result := by
  unfold rebalance
  rw [hv]
  simp only [Token.acquire, ht, Bool.not_false]
  split
  · rename_i he
    rw [hp] at he
    cases he
  · rename_i he
    rw [hp] at he
    cases he
    rfl

namespace Pool

variable {now : Int} {timeout : Nat} {calls : List Call} {q : Pool}

/-- Every interleaving of a run, from its start to a point where every worker has stopped,
answers as its calls say: with an abort carrying the failed revert exactly when a revert
failed, and otherwise with a report, in which a movement is skipped only when some call ended in
a fault. -/
theorem result_of_stopped {k : Committer} (hk : k.halted = false) {target : Topology}
    {tasks : List Task} {workers : Nat} (hw : 0 < workers)
    (h : Moves now timeout (start ⟨k, target, tasks, false, none, []⟩ workers) calls q)
    (hstop : ∀ v < workers, q.phase v = .stopped) :
    (∀ e, (∃ report, q.run.result = .error (.aborted report e)) ↔
        ∃ call ∈ calls, call.failedRevert = some e) ∧
      ((∃ report, q.run.result = .ok report) ↔ ∀ call ∈ calls, call.failedRevert = none) ∧
      ∀ report, q.run.result = .ok report → (∃ o ∈ report.outcomes, o.status.isSkip = true) →
        ∃ call ∈ calls, call.faulted = true := by
  have hs := RunState.haltRecord_start k hk target tasks
  have hfatal := (fatal_of_moves h hs hk).2
  have hrec : q.run.HaltRecord := haltRecord_of_moves h hs
  have hok : (∃ report, q.run.result = .ok report) ↔ q.run.fatal = none := by
    unfold RunState.result
    cases q.run.fatal <;> simp
  refine ⟨fun e => ?_, ?_, fun report hreport hskip => ?_⟩
  · -- aborted exactly by the failed revert
    rw [← hfatal e]
    unfold RunState.result
    cases q.run.fatal <;> simp
  · -- a report exactly when no revert failed
    rw [hok]
    exact fatal_eq_none_of_moves h hs hk
  · -- a skipped movement in a report is a task left queued after the last worker's fault
    have hf : q.run.fatal = none := hok.mp ⟨report, hreport⟩
    obtain ⟨hnotAborted, hnoSkip⟩ := hrec.skip_free hf
    simp only [RunState.result, hf, Except.ok.injEq] at hreport
    subst hreport
    obtain ⟨o, ho, hos⟩ := hskip
    rcases List.mem_append.mp ho with ho | ho
    · rw [hnoSkip o ho] at hos
      cases hos
    · rcases stopped_of_start h 0 hw (hstop 0 hw) with ha | hq | hfault
      · rw [ha] at hnotAborted
        cases hnotAborted
      · simp [hq] at ho
      · exact hfault

end Pool

/-- Every interleaving of a run's workers has at most one failed revert, which is the run's fatal
error, and after it every call is refused and nothing more is written. Every interleaving in
which every worker has stopped ends aborted by the failed revert if there was one, and with a
report otherwise, in which a movement is skipped only when some call ended in a fault; the run
`rebalance` makes is one of them. -/
theorem failed_revert_aborts_run (c : Cluster) (token : Token) (settings : Settings)
    (plan : List Movement) (current target : Topology) (stores : List String) (now : Int)
    (tasks : List Task) (hv : settings.validate = .ok ()) (ht : token.held = false)
    (hp : selectPlan plan current target stores = .ok tasks) :
    let s : RunState :=
      ⟨Committer.make { c with cached := current } settings, target, tasks, false, none, []⟩
    let workers := min settings.maxParallel (tasks.length + turnsPerCheck)
    (∀ calls q, Pool.Moves now settings.timeoutSecs (Pool.start s workers) calls q →
      (calls.filterMap Call.failedRevert).length ≤ 1 ∧
        ∀ e, q.run.fatal = some e ↔ ∃ call ∈ calls, call.failedRevert = some e) ∧
    (∀ calls q more r, Pool.Moves now settings.timeoutSecs (Pool.start s workers) calls q →
      Pool.Moves now settings.timeoutSecs q more r →
      (∃ call ∈ calls, (call.failedRevert).isSome) →
      (∀ call ∈ more, call.refusedHalted = true) ∧
        r.run.committer.cluster.log = q.run.committer.cluster.log ∧
        r.run.committer.cluster.cached = q.run.committer.cluster.cached) ∧
    (∀ calls q, Pool.Moves now settings.timeoutSecs (Pool.start s workers) calls q →
      (∀ v < workers, q.phase v = .stopped) →
      (∀ e, (∃ report, q.run.result = .error (.aborted report e)) ↔
          ∃ call ∈ calls, call.failedRevert = some e) ∧
        ((∃ report, q.run.result = .ok report) ↔ ∀ call ∈ calls, call.failedRevert = none) ∧
        ∀ report, q.run.result = .ok report → (∃ o ∈ report.outcomes, o.status.isSkip = true) →
          ∃ call ∈ calls, call.faulted = true) ∧
    ∃ calls q, Pool.Moves now settings.timeoutSecs (Pool.start s workers) calls q ∧
      (∀ v < workers, q.phase v = .stopped) ∧
      (rebalance c token settings plan current target stores now).result = q.run.result := by
  intro s workers
  have hs : s.HaltRecord := RunState.haltRecord_start _ rfl target tasks
  have hworkers : 0 < workers := by
    have := Settings.maxParallel_pos hv
    simp only [workers, turnsPerCheck]
    omega
  obtain ⟨calls, hrun⟩ := Pool.runWorkers_moves now settings.timeoutSecs workers s
  refine ⟨fun calls q h => Pool.fatal_of_moves h hs rfl,
    fun calls q more r h₁ h₂ hcall => Pool.frozen_after_failed_revert h₁ h₂ hs rfl hcall,
    fun calls q h hstop => Pool.result_of_stopped rfl hworkers h hstop,
    calls, _, hrun, fun v _ => Pool.runWorkers_stopped now settings.timeoutSecs workers s v,
    rebalance_result hv ht hp⟩

/-! ## A run whose revert fails -/

/-- Nodes 0 to 3: node 0 has partitions 0 to 2, and nodes 1, 2 and 3 one partition each. -/
def quadTopology : Topology :=
  (Topology.empty "quad").withNodes [⟨0, "a", 1, 2, 3, [0, 1, 2]⟩, ⟨1, "b", 1, 2, 3, [3]⟩,
    ⟨2, "c", 1, 2, 3, [4]⟩, ⟨3, "d", 1, 2, 3, [5]⟩]

/-- A movement of partition `p` from node 0 to the stealer `s`, over one store. -/
def quadMove (s p : Nat) : Movement :=
  ⟨s, 0, KeyMap.empty.insert 0 [p], KeyMap.empty, ["users"], 0, quadTopology⟩

/-- Nodes 1, 2 and 3 each take a partition of node 0. -/
def quadPlan : List Movement := [quadMove 1 2, quadMove 2 1, quadMove 3 0]

/-- One worker, identical clocks accepted, reverts sent to the stealer and the donor. -/
def quadSettings : Settings := ⟨1, 86400, true, .affectedNodes⟩

/-- The four nodes, where the next propagation to node 2 fails and a failed propagation makes
every later one fail too. -/
def quadCluster : Cluster := ((Cluster.make quadTopology).failPropagationTo 2).setFailRollbacks

/-- Where `quadPlan`'s run on `quadCluster` starts, with `quadTopology` both current and target. -/
def quadStart : RunState :=
  ⟨Committer.make { quadCluster with cached := quadTopology } quadSettings, quadTopology,
    groupByStealer quadPlan, false, none, []⟩

/-- The planner takes `quadPlan` as it is, one task per stealer. -/
theorem quadPlan_selected :
    selectPlan quadPlan quadTopology quadTopology ["users"] = .ok (groupByStealer quadPlan) :=
  rfl

/-- `quadPlan`'s run on `quadCluster` gives no report as its result. -/
theorem quad_run_not_ok : (rebalance quadCluster Token.free quadSettings quadPlan quadTopology
    quadTopology ["users"] 0).result.toOption = none := by
  decide +kernel

/-- On `quadCluster`, node 1's movement is written; node 2's write fails, and so does its
revert, which halts the committer; node 3's movement is left queued. So the run `rebalance`
makes on it is aborted, and the failed revert is among its calls. -/
theorem failed_rollback_aborts_quad_run :
    quadSettings.validate = .ok () ∧ Token.free.held = false ∧
      selectPlan quadPlan quadTopology quadTopology ["users"] = .ok (groupByStealer quadPlan) ∧
      ∃ calls q, Pool.Moves 0 86400 (Pool.start quadStart 1) calls q ∧
        (∀ v < 1, q.phase v = .stopped) ∧
        (rebalance quadCluster Token.free quadSettings quadPlan quadTopology quadTopology ["users"]
          0).result = q.run.result ∧
        ∃ call ∈ calls, (call.failedRevert).isSome := by
  have hv : quadSettings.validate = .ok () := rfl
  obtain ⟨-, -, hstopped, calls, q, hq, hstop, hres⟩ := failed_revert_aborts_run quadCluster
    Token.free quadSettings quadPlan quadTopology quadTopology ["users"] 0
    (groupByStealer quadPlan) hv rfl quadPlan_selected
  have habort := quad_run_not_ok
  rw [hres] at habort
  obtain ⟨call, hc, hf⟩ : ∃ call ∈ calls, (call.failedRevert).isSome := by
    rcases RunState.result_report q.run with hok | ⟨e, he⟩
    · rw [hok] at habort
      cases habort
    · obtain ⟨call, hc, hf⟩ := ((hstopped calls q hq hstop).1 e).1 ⟨_, he⟩
      exact ⟨call, hc, by rw [hf]; rfl⟩
  exact ⟨hv, rfl, quadPlan_selected, calls, q, hq, hstop, hres, call, hc, hf⟩

end Rebalance

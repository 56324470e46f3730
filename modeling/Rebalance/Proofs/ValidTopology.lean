import Rebalance.Proofs.CachedTopology
import Rebalance.Proofs.PlannedTasks
import Rebalance.Proofs.RecordRoundTrip
import Rebalance.Proofs.TopologyChanges
/-!
# The cached topology stays valid

A run starts from a current topology that passes validation, with tasks the planner admitted:
each stealer is in the current or the target topology, each donor in the current one. Whatever
the order of the workers' steps:

* no call removes a node or makes a valid topology invalid (`Call.containsNode_cachedAfter`,
  `Call.validate_cachedAfter`), so the cached topology stays valid and keeps every node it
  ever had, among them every node of the current topology; its node ids increase, as those of
  every `Topology` do;
* a joining worker's stealer is in the cached or the target topology, so `ensureNode` is refused
  only for a halted committer, never for a missing node (`ensureNode_error_of_known`);
* once joined, the stealer stays cached, so a worker about to commit holds a movement whose
  stealer and donor are both cached and differ, and moving its partitions fails only on a
  partition that a third node lists (`Topology.reassign_error_of_valid`).

The invariant is `Pool.Admitted`, the run's part (`RunState.Admitted`) and each worker's phase
(`Phase.Admitted`); `admitted_of_moves` keeps it along every run.
-/

namespace Rebalance

/-! ## One call -/

namespace Call

variable {target t : Topology}

/-- No call removes a node from the cached topology. -/
theorem containsNode_cachedAfter (call : Call) {id : Nat} (h : t.containsNode id = true) :
    (call.cachedAfter target t).containsNode id = true := by
  unfold cachedAfter
  split
  · split
    · exact h
    · split
      · exact Topology.containsNode_withNode h
      · exact h
  · split
    · exact Topology.containsNode_of_reassign ‹_› h
    · exact h
  · exact h

/-- Every call leaves a valid cached topology valid. -/
theorem validate_cachedAfter (call : Call) (h : t.validate = .ok ()) :
    (call.cachedAfter target t).validate = .ok () := by
  unfold cachedAfter
  split
  · rename_i node
    split
    · exact h
    · rename_i hc
      split
      · rename_i n hn
        -- the stealer joins as the target's node of that id, with no partitions
        have hfresh : t.containsNode ({ n with partitions := [] } : Node).id = false := by
          rw [show ({ n with partitions := [] } : Node).id = node from (Topology.mem_of_node? hn).2]
          simpa using hc
        show (t.withNode _).validate = _
        rw [Topology.validate_withNode_fresh hfresh rfl]
        exact h
      · exact h
  · split
    · exact Topology.validate_of_reassign ‹_›
    · exact h
  · exact h

/-- Replaying calls removes no node. -/
theorem containsNode_foldl_cachedAfter (calls : List Call) {id : Nat}
    (h : t.containsNode id = true) :
    (calls.foldl (fun u call => call.cachedAfter target u) t).containsNode id = true := by
  induction calls generalizing t with
  | nil => exact h
  | cons call calls ih => exact ih (call.containsNode_cachedAfter h)

/-- Replaying calls keeps a valid topology valid. -/
theorem validate_foldl_cachedAfter (calls : List Call) (h : t.validate = .ok ()) :
    (calls.foldl (fun u call => call.cachedAfter target u) t).validate = .ok () := by
  induction calls generalizing t with
  | nil => exact h
  | cons call calls ih => exact ih (call.validate_cachedAfter h)

end Call

namespace Committer

variable {target : Topology} {node : Nat} {k k' : Committer}

/-- A stealer `ensureNode` accepts is in the cached topology afterwards. -/
theorem containsNode_of_ensureNode (h : ensureNode target node k = .ok (.ok ()) k') :
    k'.cluster.cached.containsNode node = true := by
  unfold ensureNode at h
  simp only [get_bind_apply] at h
  by_cases hh : k.halted = true
  · simp [hh] at h
  by_cases hc : k.cluster.cached.containsNode node = true
  · simp only [hh, hc, Bool.false_eq_true, if_false, if_true, pure_apply,
      EStateM.Result.ok.injEq] at h
    rw [← h.2]
    exact hc
  · cases hn : target.node? node with
    | none => simp [hh, hc, hn] at h
    | some n =>
      simp only [hh, hc, hn, Bool.false_eq_true, if_false, bind_apply, setCached_apply,
        pure_apply, EStateM.Result.ok.injEq] at h
      rw [← h.2]
      have hid : ({ n with partitions := [] } : Node).id = node := (Topology.mem_of_node? hn).2
      rw [← hid]
      exact Topology.containsNode_withNode_self _

/-- `ensureNode` of a node that the cached or the target topology has is refused only for a
halted committer. -/
theorem ensureNode_error_of_known {e : RunError}
    (hk : k.cluster.cached.containsNode node = true ∨ target.containsNode node = true)
    (h : ensureNode target node k = .ok (.error e) k') : e = .commitHalted := by
  unfold ensureNode at h
  simp only [get_bind_apply] at h
  by_cases hh : k.halted = true
  · simp only [hh, if_true, pure_apply, EStateM.Result.ok.injEq, Except.error.injEq] at h
    exact h.1.symm
  by_cases hc : k.cluster.cached.containsNode node = true
  · simp [hh, hc] at h
  · -- only the target has it, and it joins from there
    obtain ⟨n, hn⟩ := Option.isSome_iff_exists.1 (hk.resolve_left hc)
    simp [hh, hc, hn, map_apply, setCached_apply] at h

end Committer

/-! ## The invariant -/

/-- Movements a worker can commit: each stealer is in the cached topology, each donor in the
current one, and no stealer is its own donor. -/
def Committable (current cached : Topology) (ms : List Movement) : Prop :=
  ∀ m ∈ ms, cached.containsNode m.stealer = true ∧ current.containsNode m.donor = true ∧
    m.stealer ≠ m.donor

namespace Committable

variable {current k k' : Topology} {m : Movement} {ms : List Movement}

theorem nil : Committable current k [] :=
  fun _ h => nomatch h

theorem mono (h : Committable current k ms)
    (hk : ∀ id, k.containsNode id = true → k'.containsNode id = true) :
    Committable current k' ms :=
  fun x hx => ⟨hk _ (h x hx).1, (h x hx).2⟩

theorem tail (h : Committable current k (m :: ms)) : Committable current k ms :=
  fun x hx => h x (List.mem_cons_of_mem m hx)

/-- Completing a store keeps a movement's stealer and donor. -/
theorem completeStore (h : Committable current k (m :: ms)) (store : String) :
    Committable current k ((m.completeStore store).2 :: ms) := by
  intro x hx
  rcases List.mem_cons.1 hx with rfl | hx
  · exact h m List.mem_cons_self
  · exact h x (List.mem_cons_of_mem m hx)

end Committable

/-- What a worker holds is admitted: the task it joins is one the planner admits, and the
movements it holds once joined are committable. -/
def Phase.Admitted (current target cached : Topology) : Phase → Prop
  | .joining t => t.Admitted current target
  | ph => Committable current cached ph.held

theorem Phase.Admitted.mono {current target k k' : Topology} {ph : Phase}
    (h : ph.Admitted current target k)
    (hk : ∀ id, k.containsNode id = true → k'.containsNode id = true) :
    ph.Admitted current target k' := by
  cases ph with
  | joining t => exact h
  | idle | stopped | moving _ | committing _ _ | migrating _ _ _ _ | waiting _ _ _ _ _ _ =>
    exact Committable.mono h hk

/-- The run's part of the invariant: the target stays, the cached topology is valid and has every
node of the current one, and every queued task is admitted. -/
structure RunState.Admitted (current target : Topology) (s : RunState) : Prop where
  target_eq : s.target = target
  valid : s.committer.cluster.cached.validate = .ok ()
  covers : ∀ id, current.containsNode id = true → s.committer.cluster.cached.containsNode id = true
  queue : ∀ t ∈ s.queue, t.Admitted current target

/-- The invariant of a run from `current` towards `target`. -/
structure Pool.Admitted (current target : Topology) (p : Pool) : Prop where
  run : p.run.Admitted current target
  phases : ∀ v, (p.phase v).Admitted current target p.run.committer.cluster.cached

/-! ## One step -/

namespace Pool

variable {now : Int} {timeout : Nat} {w budget : Nat} {ph : Phase} {p p' q : Pool} {n : Next}
  {c : Option Call} {calls : List Call} {current target : Topology}

/-- A step removes no node from the cached topology. -/
theorem containsNode_of_stepCase (hs : StepCase now timeout w budget ph p n p' c) {id : Nat}
    (h : p.run.committer.cluster.cached.containsNode id = true) :
    p'.run.committer.cluster.cached.containsNode id = true := by
  rw [cached_of_stepCase hs]
  exact Call.containsNode_foldl_cachedAfter _ h

/-- A step only takes tasks off the queue. -/
theorem queue_subset_of_stepCase (hs : StepCase now timeout w budget ph p n p' c) :
    p'.run.queue ⊆ p.run.queue := by
  cases hs with
  | take _ hq =>
    rw [hq]
    exact List.subset_cons_self _ _
  | wait _ ha =>
    rw [run_of_acquire ha]
    exact List.Subset.refl _
  | join ha hr =>
    obtain ⟨_, _, -, -, hrun⟩ := join_of_lock ha hr
    rw [hrun, RunState.afterJoin_queue]
    exact List.Subset.refl _
  | commit ha hr =>
    rw [lockStep_run ha hr, RunState.afterCommit_queue]
    exact List.Subset.refl _
  | _ => exact List.Subset.refl _

/-- A step keeps the run's part of the invariant. -/
theorem runAdmitted_of_stepCase (hs : StepCase now timeout w budget ph p n p' c)
    (hr : p.run.Admitted current target) : p'.run.Admitted current target where
  target_eq := (target_of_stepCase hs).trans hr.target_eq
  valid := by
    rw [cached_of_stepCase hs]
    exact Call.validate_foldl_cachedAfter _ hr.valid
  covers id h := containsNode_of_stepCase hs (hr.covers id h)
  queue t ht := hr.queue t (queue_subset_of_stepCase hs ht)

/-- After a commit a worker holds its movements, the rest of them, or none. -/
theorem commitNext_phase (m : Movement) (rest : List Movement) (b : Nat)
    (a : Option (Except RunError CommitRecord)) :
    (commitNext m rest b a).phase = .stopped ∨ (commitNext m rest b a).phase = .idle ∨
      (commitNext m rest b a).phase = .moving rest ∨
      (commitNext m rest b a).phase = .migrating m rest m.storesPending false := by
  rcases a with _ | e | record
  · exact .inl rfl
  · rcases commitNext_error m rest b e with h | h <;> rw [h]
    · exact .inr (.inl rfl)
    · exact .inr (.inr (.inl rfl))
  · exact .inr (.inr (.inr rfl))

/-- The phase a step leaves its worker in is admitted, against the topology it leaves cached. -/
theorem phaseAdmitted_of_stepCase (hs : StepCase now timeout w budget ph p n p' c)
    (hr : p.run.Admitted current target)
    (hph : ph.Admitted current target p.run.committer.cluster.cached) :
    n.phase.Admitted current target p'.run.committer.cluster.cached := by
  have hk : ∀ id, p.run.committer.cluster.cached.containsNode id = true →
      p'.run.committer.cluster.cached.containsNode id = true :=
    fun _ => containsNode_of_stepCase hs
  cases hs with
  | stop _ => exact Committable.nil
  | take _ hq => exact hr.queue _ (by rw [hq]; exact List.mem_cons_self)
  | wait _ _ => exact hph.mono hk
  | join ha hr' =>
    obtain ⟨a', k', he, rfl, hrun⟩ := join_of_lock ha hr'
    rcases a' with e | ⟨⟩
    · exact Committable.nil
    · -- the stealer has joined, and it is the stealer of every movement of the task
      intro m hm
      obtain ⟨hst, hd, hne⟩ := Task.Admitted.movements hph m hm
      refine ⟨?_, hd, hne⟩
      rw [hrun, RunState.afterJoin_committer, hst]
      exact Committer.containsNode_of_ensureNode he
  | @commit _ _ _ m rest b a _ _ =>
    have hm : Committable current _ (m :: rest) := Phase.Admitted.mono hph hk
    rcases commitNext_phase m rest b a with h | h | h | h <;> rw [h]
    · exact Committable.nil
    · exact Committable.nil
    · exact hm.tail
    · exact hm
  | finish => exact Committable.nil
  | skip _ => exact Committable.nil
  | next _ => exact hph
  | migrated => exact Committable.tail (Phase.Admitted.mono hph hk)
  | unissued _ => exact hph.mono hk
  | migrate _ _ => exact Committable.completeStore (Phase.Admitted.mono hph hk) _
  | jobFailed _ _ => exact hph.mono hk
  | stall _ _ => exact hph.mono hk
  | yield _ => exact hph.mono hk
  | expire _ _ => exact hph.mono hk
  | sleep _ _ => exact hph.mono hk
  | arm _ _ => exact hph.mono hk
  | stopped => exact Committable.nil

/-- A joining worker's `ensureNode` is refused only for a halted committer. -/
theorem ensure_of_stepCase (hs : StepCase now timeout w budget ph p n p' c)
    (hr : p.run.Admitted current target)
    (hph : ph.Admitted current target p.run.committer.cluster.cached) {node : Nat} {e : RunError}
    (hc : c = some (.ensure node (some (.error e)))) : e = .commitHalted := by
  cases hs with
  | @join _ _ _ t _ _ ha hr' =>
    obtain ⟨a', k', he, rfl, -⟩ := join_of_lock ha hr'
    simp only [Option.some.injEq, Call.ensure.injEq] at hc
    obtain ⟨rfl, rfl⟩ := hc
    -- the planner admitted the stealer from one of the two topologies
    have hknown : p.run.committer.cluster.cached.containsNode t.stealer = true ∨
        p.run.target.containsNode t.stealer = true := by
      rw [hr.target_eq]
      rcases Task.Admitted.stealer hph with h | h
      · exact .inl (hr.covers _ h)
      · exact .inr h
    exact Committer.ensureNode_error_of_known hknown he
  | commit _ _ => cases hc
  | _ => cases hc

/-! ## Runs -/

/-- Along every run, in any order of the workers' steps, the invariant holds, and every
`ensureNode` refused was refused for a halted committer. -/
theorem admitted_of_moves (h : Moves now timeout p calls q) (hp : p.Admitted current target) :
    q.Admitted current target ∧
      ∀ node e, Call.ensure node (some (.error e)) ∈ calls → e = .commitHalted := by
  induction h with
  | refl => exact ⟨hp, fun _ _ h => nomatch h⟩
  | @advance q calls w budget _ ih =>
    obtain ⟨hq, hcalls⟩ := ih
    have hs := @stepCase now timeout w budget (q.phase w) q
    have hph := hq.phases w
    refine ⟨⟨?_, fun v => ?_⟩, fun node e hmem => ?_⟩
    · rw [advance_run]
      exact runAdmitted_of_stepCase hs hq.run
    · rcases phase_advance q v with hv | hv <;> rw [hv, advance_run]
      · exact phaseAdmitted_of_stepCase hs hq.run hph
      · exact (hq.phases v).mono fun _ => containsNode_of_stepCase hs
    · rcases List.mem_append.1 hmem with hmem | hmem
      · exact hcalls node e hmem
      · exact ensure_of_stepCase hs hq.run hph (by simpa using hmem)
  | reschedule _ hs ih =>
    obtain ⟨hq, hcalls⟩ := ih
    refine ⟨⟨hs.run ▸ hq.run, fun v => ?_⟩, hcalls⟩
    rw [phase_eq_of_phases hs.phases, hs.run]
    exact hq.phases v

/-- Along every run the cached topology keeps every node it has. -/
theorem containsNode_of_moves (h : Moves now timeout p calls q) {id : Nat}
    (hc : p.run.committer.cluster.cached.containsNode id = true) :
    q.run.committer.cluster.cached.containsNode id = true := by
  rw [(cached_of_moves h).2]
  exact Call.containsNode_foldl_cachedAfter calls hc

/-- A run starts admitted from a valid current topology and admitted tasks. -/
theorem admitted_start {c : Cluster} {settings : Settings} {tasks : List Task} (workers : Nat)
    (hcur : current.validate = .ok ()) (hadm : ∀ t ∈ tasks, t.Admitted current target) :
    (Pool.start ⟨Committer.make { c with cached := current } settings, target, tasks, false, none, []⟩
      workers).Admitted current target where
  run := ⟨rfl, hcur, fun _ h => h, hadm⟩
  phases v := by
    rw [phase_start]
    split <;> exact Committable.nil

end Pool

/-- Take a run towards `target` from a current topology that passes validation, with the tasks
the planner gives for a plan of movements a run can hold (`Movement.Obtained`), each with a
stealer other than its donor (`Movement.WellFormed.distinct`).
At every point of every interleaving of its workers, the cached topology passes validation and
has every node of the current topology, and no later point has fewer nodes; its node ids
increase, as every topology's do. Every `ensureNode` the run made was refused, if at all, for a
halted committer and never for a missing node. A worker about to commit a movement can have the
move of its primary partitions fail only with a duplicate partition: one of the moved partitions
is listed by a node other than the stealer and the donor, never a missing node or a stealer that
is its own donor. -/
theorem cached_topology_stays_valid (c : Cluster) (settings : Settings) (plan : List Movement)
    (current target : Topology) (stores : List String) (tasks : List Task) (now : Int)
    (timeout workers : Nat) (hcur : current.validate = .ok ())
    (hplan : ∀ m ∈ plan, m.Obtained)
    (hp : selectPlan plan current target stores = .ok tasks) (calls : List Call) (q : Pool)
    (hq : Pool.Moves now timeout (Pool.start
      ⟨Committer.make { c with cached := current } settings, target, tasks, false, none, []⟩ workers)
      calls q) :
    q.run.committer.cluster.cached.validate = .ok () ∧
    (∀ id, current.containsNode id = true → q.run.committer.cluster.cached.containsNode id = true) ∧
    (∀ more q', Pool.Moves now timeout q more q' → ∀ id,
      q.run.committer.cluster.cached.containsNode id = true →
        q'.run.committer.cluster.cached.containsNode id = true) ∧
    (∀ node e, Call.ensure node (some (.error e)) ∈ calls → e = .commitHalted) ∧
    (∀ w m rest e, q.phase w = .committing m rest →
      q.run.committer.cluster.cached.reassign m.stealer m.donor m.primaryPartitions = .error e →
      ∃ p ∈ m.primaryPartitions, e = .duplicatePartition p ∧
        ∃ n ∈ q.run.committer.cluster.cached.nodes, n.id ≠ m.stealer ∧ n.id ≠ m.donor ∧
          p ∈ n.partitions) := by
  obtain ⟨hadm, hcalls⟩ := Pool.admitted_of_moves hq
    (Pool.admitted_start workers hcur
      (admitted_of_selectPlan hp fun m hm => (hplan m hm).wellFormed.distinct))
  refine ⟨hadm.run.valid, hadm.run.covers, fun _ _ h _ => Pool.containsNode_of_moves h, hcalls,
    fun w m rest e hw he => ?_⟩
  -- the worker holds its movement committable: stealer cached, donor current, both distinct
  have hm := hadm.phases w
  rw [hw] at hm
  obtain ⟨hs, hd, hsd⟩ := hm m List.mem_cons_self
  exact Topology.reassign_error_of_valid hadm.run.valid hs (hadm.run.covers _ hd) hsd he

/-- `quadPlan`'s movements are ones `Movement.make` builds, and its run on `quadCluster` keeps
the cached topology valid and every node of `quadTopology` in it. -/
theorem quad_run_keeps_cache_valid :
    quadTopology.validate = .ok () ∧ (∀ m ∈ quadPlan, m.Obtained) ∧
      selectPlan quadPlan quadTopology quadTopology ["users"] = .ok (groupByStealer quadPlan) ∧
      ∃ calls, Pool.Moves 0 86400 (Pool.start quadStart 1) calls (runWorkers 0 86400 1 quadStart) ∧
        (runWorkers 0 86400 1 quadStart).run.committer.cluster.cached.validate = .ok () ∧
        ∀ id, quadTopology.containsNode id = true →
          (runWorkers 0 86400 1 quadStart).run.committer.cluster.cached.containsNode id = true := by
  have hcur : quadTopology.validate = .ok () := by decide
  -- each movement is built by `make` from one partition of node 0
  have hplan : ∀ m ∈ quadPlan, m.Obtained := by
    have hmove : ∀ s p, s ≤ maxU32 → p ≤ maxU32 → Movement.make s 0 (KeyMap.empty.insert 0 [p])
        KeyMap.empty ["users"] quadTopology 0 = .ok (quadMove s p) → (quadMove s p).Obtained :=
      fun s p hs hp h => .make hs (by decide) (by decide)
        (Movement.tiersInRange_insert (fun _ _ h => by simp at h) (by decide) (by simpa using hp))
        (fun _ _ h => by simp at h) h
    simp only [quadPlan, List.mem_cons, List.not_mem_nil, or_false]
    rintro m (rfl | rfl | rfl) <;> exact hmove _ _ (by decide) (by decide) rfl
  obtain ⟨calls, hrun⟩ := Pool.runWorkers_moves 0 86400 1 quadStart
  have hvalid := cached_topology_stays_valid quadCluster quadSettings quadPlan quadTopology
    quadTopology ["users"] (groupByStealer quadPlan) 0 86400 1 hcur hplan quadPlan_selected calls _ hrun
  exact ⟨hcur, hplan, quadPlan_selected, calls, hrun, hvalid.1, hvalid.2.1⟩

end Rebalance

import Rebalance.Proofs.AbortedRun
/-!
# The cached topology replays the calls' answers

The cached topology is written only inside committer calls, and a call holds the commit lock
from start to end. So the topology a run leaves cached is fixed by its calls alone, in the order
in which they held the lock, and by their answers (`Call.cachedAfter`): a stealer added by
`ensureNode` joins from the target with no partitions, a written movement has its primary
partitions moved, and every other answer (a refusal, a write that was reverted, a revert that
failed, a fault) leaves the topology as it was.

* One call: a revert restores exactly the topology its commit read (`cached_of_revert`), and
  nothing else in a call writes it (`cached_of_ensureNode`, `cached_of_commit`).
* One step makes at most one call and writes nothing else (`cached_of_stepCase`).
* A run, in any order of the workers' steps, replays its calls (`cached_of_moves`); the run
  `rebalance` makes is one of them (`cached_topology_replays_calls`).
-/

namespace Rebalance

namespace Call

/-- What a call left cached, read off its answer: an added stealer joins from the target with no
partitions when it was missing, a written movement has its primary partitions moved from the
donor to the stealer, and any other answer changes nothing. -/
def cachedAfter (target : Topology) : Call → Topology → Topology
  | .ensure node (some (.ok ())), t =>
    if t.containsNode node then t
    else
      match target.node? node with
      | some n => t.withNodes [{ n with partitions := [] }]
      | none => t
  | .commit m (some (.ok _)), t =>
    match t.reassign m.stealer m.donor m.primaryPartitions with
    | .ok u => u
    | .error _ => t
  | _, t => t

end Call

/-! ## One call -/

namespace Committer

open Committer (answerOf stateOf)

variable {target : Topology} {node : Nat} {k k' : Committer}

/-- `ensureNode` writes the cached topology only to add a missing node that the target has. -/
theorem cached_of_ensureNode {a : Except RunError Unit} (h : ensureNode target node k = .ok a k') :
    k'.cluster.cached = (Call.ensure node (some a)).cachedAfter target k.cluster.cached := by
  rcases a with r | ⟨⟩
  · rw [ensureNode_error h]
    rfl
  · unfold ensureNode at h
    simp only [get_bind_apply] at h
    by_cases hh : k.halted = true
    · simp [hh] at h
    by_cases hc : k.cluster.cached.containsNode node = true
    · simp only [hh, hc, Bool.false_eq_true, if_false, if_true, pure_apply,
        EStateM.Result.ok.injEq] at h
      rw [← h.2]
      simp [Call.cachedAfter, hc]
    · cases hn : target.node? node with
      | none => simp [hh, hc, hn] at h
      | some n =>
        simp only [hh, hc, hn, Bool.false_eq_true, if_false, bind_apply, setCached_apply,
          pure_apply, EStateM.Result.ok.injEq] at h
        rw [← h.2]
        simp [Call.cachedAfter, hc, hn]

/-- A revert leaves cached the topology it restores, also when it faults before restoring it,
provided that topology is the one cached when it starts. -/
theorem cached_of_revert {s t : Nat} {previous : Topology} {clock : Clock} {cause : RunError}
    {now : Int} (h : k.cluster.cached = previous) :
    (stateOf (revert s t previous clock cause now k)).cluster.cached = previous := by
  have hpath := revert_path s t previous clock cause now k
  generalize revert s t previous clock cause now k = x at hpath ⊢
  cases hpath with
  | overflow _ => exact h
  | @reverted back cl _ hp | @halted back _ cl _ hp =>
    -- the rollback propagation leaves the restored topology cached
    have hcl := Cluster.propagate_cached { k.cluster with cached := previous } previous back
      (k.rollbackTargets.nodes s t)
    rw [hp] at hcl
    exact hcl

/-- A commit that reverts leaves cached the topology its revert restores, and answers no record. -/
theorem cached_of_map_revert (m : Movement) {s t : Nat} {previous : Topology} {clock : Clock}
    {cause : RunError} {now : Int} (h : k.cluster.cached = previous) :
    (stateOf ((Except.error <$> revert s t previous clock cause now :
      CommitM (Except RunError CommitRecord)) k)).cluster.cached =
    (Call.commit m (answerOf ((Except.error <$> revert s t previous clock cause now :
      CommitM (Except RunError CommitRecord)) k))).cachedAfter target previous := by
  have hc : (stateOf (revert s t previous clock cause now k)).cluster.cached = previous :=
    cached_of_revert h
  rw [map_apply]
  rcases hr : revert s t previous clock cause now k with ⟨e, k₁⟩ | ⟨f, k₁⟩ <;> rw [hr] at hc <;>
    exact hc

/-- A commit writes the cached topology only when it answers a record, and then it caches the
topology its movement's partitions were moved in. -/
theorem cached_of_commit (m : Movement) (now : Int) (k : Committer) :
    (stateOf (commit m now k)).cluster.cached =
      (Call.commit m (answerOf (commit m now k))).cachedAfter target k.cluster.cached := by
  have hpath := commit_path m now k
  generalize commit m now k = x at hpath ⊢
  cases hpath with
  | halted _ | refused _ _ _ | overflow _ _ _ => rfl
  | unmoved _ _ => exact cached_of_map_revert m rfl
  | written _ hu _ _ => simp [stateOf, answerOf, Call.cachedAfter, hu]
  | @undelivered _ _ _ c₁ updated cl _ _ _ _ hp =>
    -- the failed write's propagation left the cached topology alone
    have hcl : cl.cached = k.cluster.cached := by
      have := Cluster.propagate_cached k.cluster updated c₁ [m.stealer, m.donor]
      rwa [hp] at this
    exact cached_of_map_revert m hcl

end Committer

/-! ## One step -/

namespace RunState

variable {s : RunState} {m : Movement} {rest : List Movement}
  {a : Option (Except RunError CommitRecord)}

@[simp] theorem afterCommit_committer : (s.afterCommit m rest a).committer = s.committer := by
  unfold afterCommit RunState.abortAt
  split
  · rfl
  · split <;> rfl
  · rfl

@[simp] theorem afterCommit_target : (s.afterCommit m rest a).target = s.target := by
  unfold afterCommit RunState.abortAt
  split
  · rfl
  · split <;> rfl
  · rfl

@[simp] theorem afterJoin_target {t : Task} {a : Option (Except RunError Unit)} :
    (s.afterJoin t a).target = s.target := by
  unfold afterJoin
  split <;> rfl

end RunState

namespace Pool

open Committer (answerOf stateOf)

variable {now : Int} {timeout : Nat} {w budget : Nat} {ph : Phase} {p p' q : Pool} {n : Next}
  {c : Option Call} {calls : List Call}

/-- No step changes the run's target. -/
theorem target_of_stepCase (hs : StepCase now timeout w budget ph p n p' c) :
    p'.run.target = p.run.target := by
  cases hs with
  | wait _ ha => rw [run_of_acquire ha]
  | join ha hr =>
    rw [lockStep_eq ha hr]
    simp [onRun]
  | commit ha hr =>
    rw [lockStep_eq ha hr]
    simp [onRun]
  | _ => rfl

/-- A step leaves cached what its call, if it made one, left cached. -/
theorem cached_of_stepCase (hs : StepCase now timeout w budget ph p n p' c) :
    p'.run.committer.cluster.cached =
      c.toList.foldl (fun t call => call.cachedAfter p.run.target t) p.run.committer.cluster.cached := by
  rcases stepCase_run hs with ⟨rfl, hf⟩ | ⟨t, a, k', rfl, he, hrun⟩ | ⟨m, rest, rfl, hrun⟩
  · exact hf.cached
  · rw [hrun, RunState.afterJoin_committer]
    exact Committer.cached_of_ensureNode he
  · rw [hrun, RunState.afterCommit_committer]
    exact Committer.cached_of_commit m now p.run.committer

/-! ## Runs -/

/-- Along every run, in any order of the workers' steps, the target stays and the cached
topology is the replay of the calls' answers, in the order the calls held the lock. -/
theorem cached_of_moves (h : Moves now timeout p calls q) :
    q.run.target = p.run.target ∧
      q.run.committer.cluster.cached =
        calls.foldl (fun t call => call.cachedAfter p.run.target t) p.run.committer.cluster.cached := by
  induction h with
  | refl => exact ⟨rfl, rfl⟩
  | @advance q calls w budget _ ih =>
    obtain ⟨ht, hc⟩ := ih
    have hs := @stepCase now timeout w budget (q.phase w) q
    rw [advance_run]
    refine ⟨(target_of_stepCase hs).trans ht, ?_⟩
    rw [cached_of_stepCase hs, hc, ht, List.foldl_append]
  | reschedule _ hs ih =>
    rw [hs.run]
    exact ih

end Pool

/-! ## The run `rebalance` makes -/

/-- With valid settings, a free token and a plan, `rebalance` leaves the cluster of its workers'
run. -/
theorem rebalance_cluster {c : Cluster} {token : Token} {settings : Settings}
    {plan : List Movement} {current target : Topology} {stores : List String} {now : Int}
    {tasks : List Task} (hv : settings.validate = .ok ()) (ht : token.held = false)
    (hp : selectPlan plan current target stores = .ok tasks) :
    (rebalance c token settings plan current target stores now).cluster =
      (runWorkers now settings.timeoutSecs (min settings.maxParallel (tasks.length + turnsPerCheck))
        ⟨Committer.make { c with cached := current } settings, target, tasks, false, none, []⟩).run.committer.cluster := by
  unfold rebalance
  rw [hv]
  simp only [Token.acquire, ht, Bool.not_false]
  split
  · rename_i he
    rw [hp] at he
    cases he
  · rename_i he
    rw [hp] at he
    cases he
    rfl

/-- Order a run's `ensureNode` and `commit` calls by the order in which they took the commit
lock. In every interleaving of the workers, the cached topology is, at every point, the replay
from the current topology of the calls made so far: an added stealer joins from the target with
no partitions, a written movement has its primary partitions moved, and every other answer
changes nothing. The run `rebalance` makes is one of these interleavings, and it leaves cached
the replay of its calls. -/
theorem cached_topology_replays_calls (c : Cluster) (token : Token) (settings : Settings)
    (plan : List Movement) (current target : Topology) (stores : List String) (now : Int)
    (tasks : List Task) (hv : settings.validate = .ok ()) (ht : token.held = false)
    (hp : selectPlan plan current target stores = .ok tasks) :
    let s : RunState :=
      ⟨Committer.make { c with cached := current } settings, target, tasks, false, none, []⟩
    let workers := min settings.maxParallel (tasks.length + turnsPerCheck)
    (∀ calls q, Pool.Moves now settings.timeoutSecs (Pool.start s workers) calls q →
      q.run.committer.cluster.cached = calls.foldl (fun t call => call.cachedAfter target t) current) ∧
    ∃ calls, Pool.Moves now settings.timeoutSecs (Pool.start s workers) calls
        (runWorkers now settings.timeoutSecs workers s) ∧
      (rebalance c token settings plan current target stores now).cluster.cached =
        calls.foldl (fun t call => call.cachedAfter target t) current := by
  intro s workers
  have replay : ∀ calls q, Pool.Moves now settings.timeoutSecs (Pool.start s workers) calls q →
      q.run.committer.cluster.cached =
        calls.foldl (fun t call => call.cachedAfter target t) current :=
    fun _ _ h => (Pool.cached_of_moves h).2
  obtain ⟨calls, hrun⟩ := Pool.runWorkers_moves now settings.timeoutSecs workers s
  refine ⟨replay, calls, hrun, ?_⟩
  rw [rebalance_cluster hv ht hp]
  exact replay calls _ hrun

/-- `quadPlan`'s run on `quadCluster` leaves cached the replay of its calls: node 1 took
partition 2, and node 2's movement, whose write failed, moved nothing. -/
theorem quad_run_caches_replay :
    quadSettings.validate = .ok () ∧ Token.free.held = false ∧
      selectPlan quadPlan quadTopology quadTopology ["users"] = .ok (groupByStealer quadPlan) ∧
      ∃ calls, Pool.Moves 0 86400 (Pool.start quadStart 1) calls (runWorkers 0 86400 1 quadStart) ∧
        (rebalance quadCluster Token.free quadSettings quadPlan quadTopology quadTopology ["users"]
          0).cluster.cached = calls.foldl (fun t call => call.cachedAfter quadTopology t) quadTopology ∧
        (rebalance quadCluster Token.free quadSettings quadPlan quadTopology quadTopology ["users"]
          0).cluster.cached.nodes.map Node.partitions = [[0, 1], [2, 3], [4], [5]] := by
  obtain ⟨-, calls, hrun, hcached⟩ := cached_topology_replays_calls quadCluster Token.free
    quadSettings quadPlan quadTopology quadTopology ["users"] 0 _ rfl rfl quadPlan_selected
  exact ⟨rfl, rfl, quadPlan_selected, calls, hrun, hcached, by decide +kernel⟩

end Rebalance

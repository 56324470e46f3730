import Rebalance.Proofs.CommitPaths
/-!
# What a commit guarantees

Three contracts of `Committer.commit`, each assembled from the paths of
`Rebalance.Proofs.CommitPaths`.

* **Refusals write nothing** (`refused_commit_keeps_state`). A halted committer, a stealer or
  donor without a view, and clocks that do not resolve are answered before the first write, so
  the committer and its cluster are exactly as before. The same holds for every error of
  `ensureNode`.
* **A commit succeeds exactly when it can** (`commit_succeeds_iff`). When both nodes would take
  a write, a commit answers a record exactly when the clocks resolve, the partitions move and
  the stealer's counter can still be stepped. The record's clock is the counterwise maximum of
  the two views with one more step of the stealer, so it is after both, and both nodes hold the
  record afterwards.
* **A failed write is reverted** (`commit_reverts_failed_write`). The cached topology is
  restored and one more propagation carries it under the resolved clock stepped once more than
  the write was, to the nodes the settings name; whether it gets through decides the answer
  (`Reverted`). The counter is a 64-bit counter, and the revert happens exactly when its step
  fits: at the limit the commit stops with the overflow fault, and a write that failed on the
  donor may then already sit on the stealer.
-/

namespace Rebalance

namespace Committer

variable {k k' : Committer} {m : Movement} {now : Int} {sv dv : View} {c : Clock}

/-! ## Refusals -/

/-- A commit that refuses to write, and an `ensureNode` that fails, leave the committer and its
cluster as they were. -/
theorem refused_commit_keeps_state {r : RunError} :
    (∀ m now, commit m now k = .ok (.error r) k' → r.refusesWrite = true → k' = k) ∧
    (∀ target node, ensureNode target node k = .ok (.error r) k' → k' = k) := by
  refine ⟨fun m now hc hr => ?_, fun _ _ h => ensureNode_error h⟩
  -- a revert's answer is never a refusal
  rcases commit_error_cases hc with ⟨hk, -⟩ | ⟨cause, ⟨rfl, -⟩ | ⟨⟨rb, rfl⟩, -⟩⟩
  · exact hk
  · cases hr
  · cases hr

/-- On a cluster with no nodes, a commit to node 1 is refused for the stealer's missing view and
an `ensureNode` of node 1 fails; both leave the committer as it was. -/
theorem unknown_node_refusals_keep_state :
    ∃ r₁ r₂ k₁ k₂, commit ⟨1, 0, KeyMap.empty, KeyMap.empty, ["users"], 0, Topology.empty "t"⟩ 0
        (Committer.make (Cluster.make (Topology.empty "t")) .defaults) = .ok (.error r₁) k₁ ∧
      r₁.refusesWrite = true ∧
      k₁ = Committer.make (Cluster.make (Topology.empty "t")) .defaults ∧
      ensureNode (Topology.empty "t") 1 (Committer.make (Cluster.make (Topology.empty "t")) .defaults) =
        .ok (.error r₂) k₂ ∧
      k₂ = Committer.make (Cluster.make (Topology.empty "t")) .defaults := by
  obtain ⟨r₁, k₁, hc⟩ : ∃ r k', commit ⟨1, 0, KeyMap.empty, KeyMap.empty, ["users"], 0,
      Topology.empty "t"⟩ 0 (Committer.make (Cluster.make (Topology.empty "t")) .defaults) =
      .ok (.error r) k' := ⟨_, _, rfl⟩
  obtain ⟨r₂, k₂, he⟩ : ∃ r k', ensureNode (Topology.empty "t") 1
      (Committer.make (Cluster.make (Topology.empty "t")) .defaults) = .ok (.error r) k' :=
    ⟨_, _, rfl⟩
  -- the stealer's view is missing, which the commit answers as a client error
  have hr : r₁.refusesWrite = true := by
    cases hc
    rfl
  exact ⟨r₁, r₂, k₁, k₂, hc, hr, refused_commit_keeps_state.1 _ _ hc hr, he,
    refused_commit_keeps_state.2 _ _ he⟩

/-! ## Successful writes -/

/-- A node holding a view below `c` takes a write under a step of `c`, when nothing blocks it. -/
theorem accepts_of_view {n : Nat} {v : View} {c₁ : Clock} (hp : k.cluster.poisoned = false)
    (hf : k.cluster.failing.getD n 0 = 0) (hv : k.cluster.view? n = some v) (hle : v.clock ≤ c)
    (hc : c.increment m.stealer now = .ok c₁) : k.cluster.Accepts c₁ n := by
  refine ⟨hp, hf, fun w hw => ?_⟩
  rw [hv] at hw
  cases hw
  exact Clock.compare_increment_after hle hc

/-- When both nodes take the stepped clock, the commit writes: the moved topology under the
stepped clock is installed on both nodes, cached and logged. -/
theorem commit_of_accepted (h : k.Resolves m sv dv c) {updated : Topology} {c₁ : Clock}
    (hu : k.cluster.cached.reassign m.stealer m.donor m.primaryPartitions = .ok updated)
    (hc : c.increment m.stealer now = .ok c₁)
    (hs : k.cluster.Accepts c₁ m.stealer) (hd : k.cluster.Accepts c₁ m.donor) :
    commit m now k = .ok (.ok ⟨updated, c₁⟩)
      { k with cluster := { k.cluster with
          cached := updated,
          views := [m.stealer, m.donor].foldl (fun vs n => vs.insert n ⟨updated, c₁⟩) k.cluster.views,
          log := k.cluster.log ++ [⟨updated, c₁, [m.stealer, m.donor], true⟩],
          propagated := true } } := by
  have hnd : [m.stealer, m.donor].Nodup := by simp [Topology.ne_of_reassign hu]
  have hall : ∀ n ∈ [m.stealer, m.donor], k.cluster.Accepts c₁ n := by
    intro n hn
    simp only [List.mem_cons, List.not_mem_nil, or_false] at hn
    rcases hn with rfl | rfl
    · exact hs
    · exact hd
  have hp := Cluster.propagate_eq k.cluster updated c₁ [m.stealer, m.donor]
  rw [Cluster.deliver_of_accepts hnd hall] at hp
  rw [commit_of_written h hu hc hp]
  rfl

/-- When the stealer and donor hold views, no failure is pending for them and the cluster is
not poisoned, a commit from a running committer answers a record exactly when the clocks
resolve, the partitions move and the stealer's counter is below the 64-bit limit. The record
is the moved topology, now cached, under the counterwise maximum of the two clocks with the
stealer's counter stepped once, which is after both; it is logged as one propagation to the
stealer and the donor that got through, both now hold it, and no other view changed. -/
theorem commit_succeeds_iff (hh : k.halted = false) (hp : k.cluster.poisoned = false)
    (hs : k.cluster.view? m.stealer = some sv) (hd : k.cluster.view? m.donor = some dv)
    (hfs : k.cluster.failing.getD m.stealer 0 = 0) (hfd : k.cluster.failing.getD m.donor 0 = 0) :
    ((∃ record k', commit m now k = .ok (.ok record) k') ↔
      ∃ c updated,
        Clock.resolveLatest m.stealer sv.clock m.donor dv.clock k.acceptIdentical = .ok c ∧
        k.cluster.cached.reassign m.stealer m.donor m.primaryPartitions = .ok updated ∧
        c.counter m.stealer < maxU64) ∧
    ∀ record k', commit m now k = .ok (.ok record) k' →
      (∃ c, Clock.resolveLatest m.stealer sv.clock m.donor dv.clock k.acceptIdentical = .ok c ∧
        k.cluster.cached.reassign m.stealer m.donor m.primaryPartitions = .ok record.topology) ∧
      k'.cluster.cached = record.topology ∧
      (∀ n, record.clock.counter n =
        max (sv.clock.counter n) (dv.clock.counter n) + if n = m.stealer then 1 else 0) ∧
      record.clock.compare sv.clock = .after ∧ record.clock.compare dv.clock = .after ∧
      k'.cluster.log = k.cluster.log ++ [⟨record.topology, record.clock, [m.stealer, m.donor], true⟩] ∧
      ∀ n, k'.cluster.view? n =
        if n = m.stealer ∨ n = m.donor then some ⟨record.topology, record.clock⟩
        else k.cluster.view? n := by
  -- a commit that answers a record went through the write from these very views
  have hwritten : ∀ record k', commit m now k = .ok (.ok record) k' →
      ∃ c, k.Resolves m sv dv c ∧
        k.cluster.cached.reassign m.stealer m.donor m.primaryPartitions = .ok record.topology ∧
        c.increment m.stealer now = .ok record.clock := by
    intro record k' hc
    obtain ⟨sv', dv', c, _, h, hu, hinc, -⟩ := written_of_commit_ok hc
    obtain rfl : sv' = sv := Option.some_inj.1 (h.stealer.symm.trans hs)
    obtain rfl : dv' = dv := Option.some_inj.1 (h.donor.symm.trans hd)
    exact ⟨c, h, hu, hinc⟩
  -- and, knowing it went through, the commit is the write of `commit_of_accepted`
  have hwrite : ∀ c updated c₁, k.Resolves m sv dv c →
      k.cluster.cached.reassign m.stealer m.donor m.primaryPartitions = .ok updated →
      c.increment m.stealer now = .ok c₁ →
      commit m now k = .ok (.ok ⟨updated, c₁⟩)
        { k with cluster := { k.cluster with
            cached := updated,
            views := [m.stealer, m.donor].foldl (fun vs n => vs.insert n ⟨updated, c₁⟩) k.cluster.views,
            log := k.cluster.log ++ [⟨updated, c₁, [m.stealer, m.donor], true⟩],
            propagated := true } } := by
    intro c updated c₁ h hu hc
    have hle := Clock.le_resolveLatest h.resolved
    exact commit_of_accepted h hu hc (accepts_of_view hp hfs hs hle.1 hc)
      (accepts_of_view hp hfd hd hle.2 hc)
  refine ⟨⟨fun ⟨record, k', hc⟩ => ?_, fun ⟨c, updated, hr, hu, hlt⟩ => ?_⟩, ?_⟩
  · obtain ⟨c, h, hu, hinc⟩ := hwritten record k' hc
    exact ⟨c, record.topology, h.resolved, hu, Clock.increment_ok_iff.1 ⟨_, hinc⟩⟩
  · obtain ⟨c₁, hc⟩ : ∃ c₁, c.increment m.stealer now = .ok c₁ := ⟨_, Clock.increment_eq_ok now hlt⟩
    exact ⟨_, _, hwrite c updated c₁ ⟨hh, hs, hd, hr⟩ hu hc⟩
  · intro record k' hc
    obtain ⟨c, h, hu, hinc⟩ := hwritten record k' hc
    rw [hwrite c record.topology record.clock h hu hinc] at hc
    cases hc
    have hle := Clock.le_resolveLatest h.resolved
    refine ⟨⟨c, h.resolved, hu⟩, rfl, fun n => ?_, Clock.compare_increment_after hle.1 hinc,
      Clock.compare_increment_after hle.2 hinc, rfl, fun n => ?_⟩
    · rw [Clock.counter_of_increment hinc n, Clock.counter_of_resolveLatest h.resolved n]
    · unfold Cluster.view?
      rw [KeyMap.get?_foldl_insert]
      simp only [List.mem_cons, List.not_mem_nil, or_false]

/-- A cluster where the stealer 1 is behind the donor 0 on node 0 and both are on node 1. -/
def dominantClockCluster : Cluster :=
  let t : Topology :=
    ⟨"test", [⟨0, "a", 1, 2, 3, [0, 1, 2]⟩, ⟨1, "b", 1, 2, 3, [3]⟩], by
      unfold Keyed.Increasing; decide⟩
  ((Cluster.make t).setView 1 ⟨t, ⟨KeyMap.ofList [(0, 3), (1, 2)], 0⟩⟩).setView 0
    ⟨t, ⟨KeyMap.ofList [(0, 4), (1, 2)], 0⟩⟩

/-- Moving partition 2 from node 0 to node 1. -/
def movePartitionTwo : Movement :=
  ⟨1, 0, KeyMap.ofList [(0, [2])], KeyMap.empty, ["users"], 0, (dominantClockCluster).cached⟩

/-- The commit of `movePartitionTwo` on `dominantClockCluster` with the default settings
meets the conditions and writes. -/
theorem commit_succeeds_on_dominant_clock :
    ∃ record k', commit movePartitionTwo 0 (Committer.make dominantClockCluster .defaults) =
      .ok (.ok record) k' :=
  (commit_succeeds_iff rfl rfl rfl rfl rfl rfl).1.2 ⟨_, _, rfl, rfl, by decide⟩


/-! ## Failed writes -/

/-- What the revert of a failed write leaves: `previous` is cached again, and after the
propagations `log` one more carries `previous` under `back` to the nodes the settings
`targets` name. The commit has failed if that propagation got through; otherwise the revert
failed and the committer is halted. A revert that got through to the affected nodes leaves both
holding `previous` under `back`. -/
structure Reverted (targets : RollbackTargets) (k' : Committer) (s t : Nat) (previous : Topology)
    (log : List Propagation) (back : Clock) (cause r : RunError) : Prop where
  cached : k'.cluster.cached = previous
  logged : ∃ ok, k'.cluster.log = log ++ [⟨previous, back, targets.nodes s t, ok⟩] ∧
    (ok = true ∧ r = .commitFailed s cause ∨
      ok = false ∧ (∃ rb, r = .rollbackFailed s cause.message rb) ∧ k'.halted = true)
  views : targets = .affectedNodes → r = .commitFailed s cause →
    k'.cluster.view? s = some ⟨previous, back⟩ ∧ k'.cluster.view? t = some ⟨previous, back⟩

/-- A revert whose counter step fits does what `Reverted` says. -/
theorem revert_reverted {s t : Nat} (previous : Topology) (cause : RunError) {clock back : Clock}
    (hb : clock.increment s now = .ok back) (k : Committer) :
    ∃ r k', revert s t previous clock cause now k = .ok r k' ∧
      Reverted k.rollbackTargets k' s t previous k.cluster.log back cause r := by
  -- the revert's propagation starts from the cluster with `previous` cached again
  rcases hp : { k.cluster with cached := previous }.propagate previous back
      (k.rollbackTargets.nodes s t) with ⟨res, cl⟩
  have hcached := Cluster.propagate_cached { k.cluster with cached := previous } previous back
    (k.rollbackTargets.nodes s t)
  have hlog := Cluster.propagate_log { k.cluster with cached := previous } previous back
    (k.rollbackTargets.nodes s t)
  rw [hp] at hcached hlog
  cases res with
  | ok u =>
    refine ⟨_, _, revert_of_rollback_ok hb hp, ⟨hcached, ⟨true, hlog, Or.inl ⟨rfl, rfl⟩⟩, ?_⟩⟩
    intro ha _
    have hok : ({ k.cluster with cached := previous }.propagate previous back
        (k.rollbackTargets.nodes s t)).1 = .ok () := by
      rw [hp]
    have hview := fun n (hn : n ∈ k.rollbackTargets.nodes s t) => Cluster.view?_propagate_of_ok hok hn
    rw [hp] at hview
    simp only [ha, RollbackTargets.nodes, List.mem_cons, List.not_mem_nil, or_false] at hview
    exact ⟨hview s (Or.inl rfl), hview t (Or.inr rfl)⟩
  | error rb =>
    refine ⟨_, _, revert_of_rollback_error hb hp,
      ⟨hcached, ⟨false, hlog, Or.inr ⟨rfl, ⟨_, rfl⟩, rfl⟩⟩, ?_⟩⟩
    intro _ h
    cases h

/-- Moving the partitions failed: the commit reverts from the resolved clock, stepped once,
when that step fits, and stops with the overflow fault when it does not. -/
theorem revert_of_reassign_failure (h : k.Resolves m sv dv c) {e : TopologyError}
    (he : k.cluster.cached.reassign m.stealer m.donor m.primaryPartitions = .error e) :
    (c.counter m.stealer + 1 ≤ maxU64 →
      ∃ back r k', commit m now k = .ok (.error r) k' ∧
        (∀ n, back.counter n = c.counter n + if n = m.stealer then 1 else 0) ∧
        back.compare sv.clock = .after ∧ back.compare dv.clock = .after ∧
        Reverted k.rollbackTargets k' m.stealer m.donor k.cluster.cached k.cluster.log back
          (.topology e) r) ∧
    (maxU64 < c.counter m.stealer + 1 → commit m now k = .error .overflow k) := by
  have hle := Clock.le_resolveLatest h.resolved
  constructor
  · intro hfit
    obtain ⟨back, hb⟩ : ∃ back, c.increment m.stealer now = .ok back :=
      ⟨_, Clock.increment_eq_ok now (by omega)⟩
    obtain ⟨r, k', hrev, hR⟩ := revert_reverted (s := m.stealer) (t := m.donor) k.cluster.cached
      (.topology e) hb k
    refine ⟨back, r, k', ?_, Clock.counter_of_increment hb, Clock.compare_increment_after hle.1 hb,
      Clock.compare_increment_after hle.2 hb, hR⟩
    rw [commit_of_reassign_error h he, map_apply, hrev]
  · intro hover
    rw [commit_of_reassign_error h he, map_apply, revert_of_overflow (by omega)]

/-- The propagation of the write failed: the commit reverts from the write's clock, stepped
once more, when that step fits. When it does not, the commit stops with the overflow fault,
leaving the failed write logged and nothing reverted. -/
theorem revert_of_undelivered_write (h : k.Resolves m sv dv c) {updated : Topology} {c₁ : Clock}
    {e : ClientError}
    (hu : k.cluster.cached.reassign m.stealer m.donor m.primaryPartitions = .ok updated)
    (hc : c.increment m.stealer now = .ok c₁)
    (hf : (k.cluster.propagate updated c₁ [m.stealer, m.donor]).1 = .error e) :
    (c.counter m.stealer + 2 ≤ maxU64 →
      ∃ back r k', commit m now k = .ok (.error r) k' ∧
        (∀ n, back.counter n = c.counter n + if n = m.stealer then 2 else 0) ∧
        back.compare c₁ = .after ∧ back.compare sv.clock = .after ∧
        back.compare dv.clock = .after ∧
        Reverted k.rollbackTargets k' m.stealer m.donor k.cluster.cached
          (k.cluster.log ++ [⟨updated, c₁, [m.stealer, m.donor], false⟩]) back (.client e) r) ∧
    (maxU64 < c.counter m.stealer + 2 →
      ∃ k', commit m now k = .error .overflow k' ∧ k'.halted = false ∧
        k'.cluster.cached = k.cluster.cached ∧
        k'.cluster.log = k.cluster.log ++ [⟨updated, c₁, [m.stealer, m.donor], false⟩]) := by
  -- the cluster the failed write left behind; the stealer may already hold the new view
  obtain ⟨cl, hp⟩ : ∃ cl, k.cluster.propagate updated c₁ [m.stealer, m.donor] = (.error e, cl) :=
    ⟨_, Prod.ext hf rfl⟩
  have hcached := Cluster.propagate_cached k.cluster updated c₁ [m.stealer, m.donor]
  have hlog := Cluster.propagate_log k.cluster updated c₁ [m.stealer, m.donor]
  rw [hp] at hcached hlog
  simp only [Except.toBool] at hcached hlog
  have hcommit := commit_of_undelivered h hu hc hp
  have hstep := Clock.counter_of_increment hc m.stealer
  rw [if_pos rfl] at hstep
  constructor
  · intro hfit
    obtain ⟨back, hb⟩ : ∃ back, c₁.increment m.stealer now = .ok back :=
      ⟨_, Clock.increment_eq_ok now (by omega)⟩
    obtain ⟨r, k', hrev, hR⟩ := revert_reverted (s := m.stealer) (t := m.donor) k.cluster.cached
      (.client e) hb { k with cluster := cl }
    have hle := Clock.le_resolveLatest h.resolved
    have hinc := Clock.le_of_increment hc
    refine ⟨back, r, k', ?_, fun n => ?_, Clock.compare_increment_after (Clock.le_refl c₁) hb,
      Clock.compare_increment_after (Clock.le_trans hle.1 hinc) hb,
      Clock.compare_increment_after (Clock.le_trans hle.2 hinc) hb, ?_⟩
    · rw [hcommit, map_apply, hrev]
    · rw [Clock.counter_of_increment hb n, Clock.counter_of_increment hc n]
      split <;> omega
    · rw [← hlog]
      exact hR
  · intro hover
    refine ⟨{ k with cluster := cl }, ?_, h.running, hcached, hlog⟩
    rw [hcommit, map_apply, revert_of_overflow (by omega)]

/-- Once the clocks have resolved to `c`, a commit whose write fails is reverted, provided the
stealer's counter can take the revert's step. When moving the partitions failed, the revert's
clock is `c` stepped once on the stealer; when the propagation of the write failed, it is `c`
stepped twice, one more than the write's clock. Either way the revert's clock is after both
nodes' clocks (and after the write's), the cached topology is the one the commit started from,
exactly one more propagation of it is logged, to the stealer and donor or to nobody as the
settings say, and the answer is `commitFailed` when it got through and `rollbackFailed` with the
committer halted when not. When the counter cannot take the step, the commit stops with the
overflow fault instead, and after a failed propagation nothing is reverted. -/
theorem commit_reverts_failed_write (h : k.Resolves m sv dv c) :
    (∀ e, k.cluster.cached.reassign m.stealer m.donor m.primaryPartitions = .error e →
      (c.counter m.stealer + 1 ≤ maxU64 →
        ∃ back r k', commit m now k = .ok (.error r) k' ∧
          (∀ n, back.counter n = c.counter n + if n = m.stealer then 1 else 0) ∧
          back.compare sv.clock = .after ∧ back.compare dv.clock = .after ∧
          Reverted k.rollbackTargets k' m.stealer m.donor k.cluster.cached k.cluster.log back
            (.topology e) r) ∧
      (maxU64 < c.counter m.stealer + 1 → commit m now k = .error .overflow k)) ∧
    (∀ updated c₁ e,
      k.cluster.cached.reassign m.stealer m.donor m.primaryPartitions = .ok updated →
      c.increment m.stealer now = .ok c₁ →
      (k.cluster.propagate updated c₁ [m.stealer, m.donor]).1 = .error e →
      (c.counter m.stealer + 2 ≤ maxU64 →
        ∃ back r k', commit m now k = .ok (.error r) k' ∧
          (∀ n, back.counter n = c.counter n + if n = m.stealer then 2 else 0) ∧
          back.compare c₁ = .after ∧ back.compare sv.clock = .after ∧
          back.compare dv.clock = .after ∧
          Reverted k.rollbackTargets k' m.stealer m.donor k.cluster.cached
            (k.cluster.log ++ [⟨updated, c₁, [m.stealer, m.donor], false⟩]) back (.client e) r) ∧
      (maxU64 < c.counter m.stealer + 2 →
        ∃ k', commit m now k = .error .overflow k' ∧ k'.halted = false ∧
          k'.cluster.cached = k.cluster.cached ∧
          k'.cluster.log = k.cluster.log ++ [⟨updated, c₁, [m.stealer, m.donor], false⟩])) :=
  ⟨fun _ he => revert_of_reassign_failure h he,
    fun _ _ _ hu hc hf => revert_of_undelivered_write h hu hc hf⟩

/-- On `dominantClockCluster` with the donor failing its next propagation, the write of
`movePartitionTwo` reaches the stealer, fails on the donor and is reverted. -/
theorem commit_reverts_write_refused_by_donor :
    ∃ r k', commit movePartitionTwo 0
        (Committer.make (dominantClockCluster.failPropagationTo 0) .defaults) = .ok (.error r) k' ∧
      k'.cluster.cached = dominantClockCluster.cached := by
  obtain ⟨_, r, k', hc, -, -, -, -, hR⟩ :=
    ((@commit_reverts_failed_write (Committer.make (dominantClockCluster.failPropagationTo 0)
      .defaults) movePartitionTwo 0 _ _ _ ⟨rfl, rfl, rfl, rfl⟩).2 _ _ _ rfl rfl rfl).1 (by decide)
  exact ⟨r, k', hc, hR.cached⟩

end Committer

end Rebalance

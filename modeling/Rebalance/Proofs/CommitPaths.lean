import Rebalance.Proofs.Delivery
import Rebalance.Commit
/-!
# The paths of a commit

A commit is a short program in the committer's state monad. This module runs it symbolically,
once, so that the statements about commits never unfold it again: one equation per path.

* `commit_of_halted`, `commit_of_stealer_unknown`, `commit_of_donor_unknown` and
  `commit_of_unresolved` are the exits before any write; each returns its error and leaves the
  committer as it was.
* Past clock resolution (`Resolves`), the partitions are moved on the cached topology. When that
  fails the change is reverted at once (`commit_of_reassign_error`); otherwise the stealer's
  counter is stepped (`commit_of_overflow` when it cannot be) and the new topology propagated,
  which either installs it (`commit_of_written`) or is reverted (`commit_of_undelivered`).
* A revert steps the counter once more (`revert_of_overflow` when it cannot), restores the
  cached topology and propagates it; its answer depends only on whether that propagation got
  through (`revert_of_rollback_ok`, `revert_of_rollback_error`).
* `commit_path` and `revert_path` gather the equations into one inversion each (`CommitPath`,
  `RevertPath`): what a commit or a revert can do is then read off by one case split on the path
  it took.

`ensureNode` either refuses without a change or adds the node (`ensureNode_error`).
-/

namespace Rebalance

/-- The nodes a revert is propagated to, as the settings say. -/
def RollbackTargets.nodes : RollbackTargets → Nat → Nat → List Nat
  | .affectedNodes, s, t => [s, t]
  | .none, _, _ => []

/-- The errors a commit answers before it writes anything: a halted committer, a stealer or
donor without a view, and clocks that do not resolve. -/
def RunError.refusesWrite : RunError → Bool
  | .commitHalted => true
  | .client _ => true
  | .concurrentClocks .. => true
  | .invalidClockState .. => true
  | _ => false

/-- Refusals never stop a run. -/
theorem RunError.isRunFatal_of_refusesWrite {e : RunError} (h : e.refusesWrite = true) :
    e.isRunFatal = false := by
  cases e <;> first | rfl | cases h

/-- Clocks that do not resolve are concurrent, or identical where that is not accepted. -/
theorem Clock.resolveLatest_error {s d : Nat} {sc dc : Clock} {accept : Bool} {e : RunError}
    (h : Clock.resolveLatest s sc d dc accept = .error e) :
    e = .concurrentClocks s sc d dc ∨ e = .invalidClockState sc dc .equal := by
  unfold Clock.resolveLatest at h
  split at h
  · cases h
  · cases h
  · cases h; exact .inl rfl
  · split at h
    · cases h
    · cases h; exact .inr rfl

/-- Partitions never move from a node to itself. -/
theorem Topology.ne_of_reassign {t u : Topology} {s d : Nat} {ps : List Nat}
    (h : t.reassign s d ps = .ok u) : s ≠ d := by
  intro hsd
  simp [Topology.reassign, hsd] at h

namespace Committer

variable {α β : Type}

/-! ## Running committer steps -/

@[simp]
theorem get_bind_apply (f : Committer → CommitM α) (k : Committer) : (get >>= f) k = f k k := rfl

@[simp]
theorem get_apply (k : Committer) : (get : CommitM Committer) k = .ok k k := rfl

@[simp]
theorem pure_apply (a : α) (k : Committer) : (pure a : CommitM α) k = .ok a k := rfl

theorem bind_apply (x : CommitM α) (f : α → CommitM β) (k : Committer) :
    (x >>= f) k = match x k with
      | .ok a k' => f a k'
      | .error e k' => .error e k' := by
  show EStateM.bind x f k = _
  unfold EStateM.bind
  cases x k <;> rfl

theorem map_apply (f : α → β) (x : CommitM α) (k : Committer) :
    (f <$> x) k = match x k with
      | .ok a k' => .ok (f a) k'
      | .error e k' => .error e k' := by
  show EStateM.map f x k = _
  unfold EStateM.map
  cases x k <;> rfl

/-- Wrapping an answer as an error: the answer is an error exactly when the step answered. -/
theorem map_error_eq_ok {x : CommitM RunError} {k k' : Committer} {r : Except RunError α} :
    (Except.error <$> x) k = .ok r k' ↔ ∃ e, r = .error e ∧ x k = .ok e k' := by
  rw [map_apply]
  cases x k with
  | ok e k₁ =>
    simp only [EStateM.Result.ok.injEq]
    constructor
    · rintro ⟨rfl, rfl⟩
      exact ⟨e, rfl, rfl, rfl⟩
    · rintro ⟨e', rfl, rfl, rfl⟩
      exact ⟨rfl, rfl⟩
  | error f k₁ => simp

/-- Mapping the answer keeps a fault as it was. -/
theorem map_eq_error {f : α → β} {x : CommitM α} {k k' : Committer} {e : Fault} :
    (f <$> x) k = .error e k' ↔ x k = .error e k' := by
  rw [map_apply]
  cases x k <;> simp

theorem onCluster_apply (f : Cluster → α × Cluster) (k : Committer) :
    onCluster f k = .ok (f k.cluster).1 { k with cluster := (f k.cluster).2 } := rfl

theorem setCached_apply (t : Topology) (k : Committer) :
    setCached t k = .ok () { k with cluster := { k.cluster with cached := t } } := rfl

theorem stepClock_of_ok {clock c : Clock} {node : Nat} {now : Int}
    (h : clock.increment node now = .ok c) (k : Committer) : stepClock clock node now k = .ok c k := by
  simp only [stepClock, h]
  rfl

theorem stepClock_of_overflow {clock : Clock} {node : Nat} {now : Int}
    (h : maxU64 ≤ clock.counter node) (k : Committer) :
    stepClock clock node now k = .error .overflow k := by
  simp only [stepClock, Clock.increment_eq_error now h]
  rfl

/-! ## Reverting -/

/-- The ways a revert ends: a stealer counter at the 64-bit limit faults; otherwise the counter
is stepped and the restored topology propagated to the rollback targets, and the revert reports
the commit as failed when that gets through and halts the committer when it does not. -/
inductive RevertPath (s t : Nat) (previous : Topology) (clock : Clock) (cause : RunError)
    (now : Int) (k : Committer) : EStateM.Result Fault Committer RunError → Prop
  | overflow : maxU64 ≤ clock.counter s →
      RevertPath s t previous clock cause now k (.error .overflow k)
  | reverted {back : Clock} {cl : Cluster} : clock.increment s now = .ok back →
      { k.cluster with cached := previous }.propagate previous back
        (k.rollbackTargets.nodes s t) = (.ok (), cl) →
      RevertPath s t previous clock cause now k (.ok (.commitFailed s cause) { k with cluster := cl })
  | halted {back : Clock} {rb : ClientError} {cl : Cluster} : clock.increment s now = .ok back →
      { k.cluster with cached := previous }.propagate previous back
        (k.rollbackTargets.nodes s t) = (.error rb, cl) →
      RevertPath s t previous clock cause now k
        (.ok (.rollbackFailed s cause.message rb.message) { k with cluster := cl, halted := true })

section Revert

variable {s t : Nat} {previous : Topology} {clock back : Clock} {cause : RunError} {now : Int}
  {k : Committer}

theorem revert_of_overflow (h : maxU64 ≤ clock.counter s) :
    revert s t previous clock cause now k = .error .overflow k := by
  unfold revert
  rw [bind_apply, stepClock_of_overflow h]

/-- A revert whose propagation got through reports the commit as failed. -/
theorem revert_of_rollback_ok (hb : clock.increment s now = .ok back) {cl : Cluster}
    (hp : { k.cluster with cached := previous }.propagate previous back
      (k.rollbackTargets.nodes s t) = (.ok (), cl)) :
    revert s t previous clock cause now k = .ok (.commitFailed s cause) { k with cluster := cl } := by
  unfold revert
  simp only [bind_apply, stepClock_of_ok hb, setCached_apply, get_apply, onCluster_apply]
  cases hk : k.rollbackTargets <;> simp only [RollbackTargets.nodes, hk] at hp <;>
    simp only [hp] <;> rfl

/-- A revert whose propagation failed halts the committer. -/
theorem revert_of_rollback_error (hb : clock.increment s now = .ok back) {rb : ClientError}
    {cl : Cluster}
    (hp : { k.cluster with cached := previous }.propagate previous back
      (k.rollbackTargets.nodes s t) = (.error rb, cl)) :
    revert s t previous clock cause now k =
      .ok (.rollbackFailed s cause.message rb.message) { k with cluster := cl, halted := true } := by
  unfold revert
  simp only [bind_apply, stepClock_of_ok hb, setCached_apply, get_apply, onCluster_apply]
  cases hk : k.rollbackTargets <;> simp only [RollbackTargets.nodes, hk] at hp <;>
    simp only [hp] <;> rfl

/-- The three ways a revert ends, each with its result. -/
theorem revert_path (s t : Nat) (previous : Topology) (clock : Clock) (cause : RunError)
    (now : Int) (k : Committer) :
    RevertPath s t previous clock cause now k (revert s t previous clock cause now k) := by
  by_cases hlt : clock.counter s < maxU64
  · obtain ⟨back, hb⟩ : ∃ back, clock.increment s now = .ok back :=
      ⟨_, Clock.increment_eq_ok now hlt⟩
    rcases hp : { k.cluster with cached := previous }.propagate previous back
      (k.rollbackTargets.nodes s t) with ⟨res, cl⟩
    cases res with
    | ok u =>
      rw [revert_of_rollback_ok hb hp]
      exact .reverted hb hp
    | error rb =>
      rw [revert_of_rollback_error hb hp]
      exact .halted hb hp
  · have hover := Nat.not_lt.1 hlt
    rw [revert_of_overflow hover]
    exact .overflow hover

/-- A revert answers that the commit failed, keeping the halt flag, or that the revert itself
failed, halting the committer. -/
theorem revert_answer {r : RunError} {k' : Committer}
    (h : revert s t previous clock cause now k = .ok r k') :
    (r = .commitFailed s cause ∧ k'.halted = k.halted) ∨
      ((∃ rb, r = .rollbackFailed s cause.message rb) ∧ k'.halted = true) := by
  have hpath := revert_path s t previous clock cause now k
  generalize revert s t previous clock cause now k = x at hpath h
  cases hpath with
  | overflow _ => cases h
  | reverted _ _ =>
    cases h
    exact Or.inl ⟨rfl, rfl⟩
  | halted _ _ =>
    cases h
    exact Or.inr ⟨⟨_, rfl⟩, rfl⟩

/-- A commit that reverts answers what its revert answered. -/
theorem map_revert_answer {r : RunError} {k' : Committer}
    (h : (Except.error <$> revert s t previous clock cause now :
      CommitM (Except RunError CommitRecord)) k = .ok (.error r) k') :
    (r = .commitFailed s cause ∧ k'.halted = k.halted) ∨
      ((∃ rb, r = .rollbackFailed s cause.message rb) ∧ k'.halted = true) := by
  obtain ⟨_, he, hrev⟩ := map_error_eq_ok.1 h
  cases he
  exact revert_answer hrev

end Revert

/-! ## Committing -/

/-- A commit from `k` gets past clock resolution: the committer is not halted, the stealer and
the donor hold the views `sv` and `dv`, and their clocks resolve to `c`. -/
structure Resolves (k : Committer) (m : Movement) (sv dv : View) (c : Clock) : Prop where
  running : k.halted = false
  stealer : k.cluster.view? m.stealer = some sv
  donor : k.cluster.view? m.donor = some dv
  resolved : Clock.resolveLatest m.stealer sv.clock m.donor dv.clock k.acceptIdentical = .ok c

/-- The ways a commit ends, each with its result: a halted committer refuses; a running one
refuses, untouched, when a node has no view or the clocks do not resolve; past resolution a move
of the partitions that fails is reverted, a stealer counter at its limit faults, and the write is
installed when its propagation gets through and reverted from the stepped clock when it does
not. -/
inductive CommitPath (k : Committer) (m : Movement) (now : Int) :
    EStateM.Result Fault Committer (Except RunError CommitRecord) → Prop
  | halted : k.halted = true → CommitPath k m now (.ok (.error .commitHalted) k)
  | refused {e : RunError} : k.halted = false → e.refusesWrite = true → e ≠ .commitHalted →
      CommitPath k m now (.ok (.error e) k)
  | unmoved {sv dv : View} {c : Clock} {e : TopologyError} : k.Resolves m sv dv c →
      k.cluster.cached.reassign m.stealer m.donor m.primaryPartitions = .error e →
      CommitPath k m now
        ((Except.error <$> revert m.stealer m.donor k.cluster.cached c (.topology e) now) k)
  | overflow {sv dv : View} {c : Clock} {updated : Topology} : k.Resolves m sv dv c →
      k.cluster.cached.reassign m.stealer m.donor m.primaryPartitions = .ok updated →
      maxU64 ≤ c.counter m.stealer → CommitPath k m now (.error .overflow k)
  | written {sv dv : View} {c c₁ : Clock} {updated : Topology} {cl : Cluster} :
      k.Resolves m sv dv c →
      k.cluster.cached.reassign m.stealer m.donor m.primaryPartitions = .ok updated →
      c.increment m.stealer now = .ok c₁ →
      k.cluster.propagate updated c₁ [m.stealer, m.donor] = (.ok (), cl) →
      CommitPath k m now
        (.ok (.ok ⟨updated, c₁⟩) { k with cluster := { cl with cached := updated } })
  | undelivered {sv dv : View} {c c₁ : Clock} {updated : Topology} {cl : Cluster}
      {e : ClientError} : k.Resolves m sv dv c →
      k.cluster.cached.reassign m.stealer m.donor m.primaryPartitions = .ok updated →
      c.increment m.stealer now = .ok c₁ →
      k.cluster.propagate updated c₁ [m.stealer, m.donor] = (.error e, cl) →
      CommitPath k m now
        ((Except.error <$> revert m.stealer m.donor k.cluster.cached c₁ (.client e) now)
          { k with cluster := cl })

section Commit

variable {k : Committer} {m : Movement} {now : Int}

theorem commit_of_halted (h : k.halted = true) : commit m now k = .ok (.error .commitHalted) k := by
  simp [commit, h]

theorem commit_of_stealer_unknown (hh : k.halted = false) (hs : k.cluster.view? m.stealer = none) :
    commit m now k = .ok (.error (.client (.unreachable m.stealer "unknown node"))) k := by
  simp [commit, hh, Cluster.fetch, hs]

theorem commit_of_donor_unknown {sv : View} (hh : k.halted = false)
    (hs : k.cluster.view? m.stealer = some sv) (hd : k.cluster.view? m.donor = none) :
    commit m now k = .ok (.error (.client (.unreachable m.donor "unknown node"))) k := by
  simp [commit, hh, Cluster.fetch, hs, hd]

theorem commit_of_unresolved {sv dv : View} {e : RunError} (hh : k.halted = false)
    (hs : k.cluster.view? m.stealer = some sv) (hd : k.cluster.view? m.donor = some dv)
    (hr : Clock.resolveLatest m.stealer sv.clock m.donor dv.clock k.acceptIdentical = .error e) :
    commit m now k = .ok (.error e) k := by
  simp [commit, hh, Cluster.fetch, hs, hd, hr]

variable {sv dv : View} {c : Clock}

/-- When the partitions cannot be moved, the commit is the revert from the resolved clock. -/
theorem commit_of_reassign_error (h : k.Resolves m sv dv c) {e : TopologyError}
    (he : k.cluster.cached.reassign m.stealer m.donor m.primaryPartitions = .error e) :
    commit m now k =
      (Except.error <$> revert m.stealer m.donor k.cluster.cached c (.topology e) now) k := by
  simp [commit, h.running, Cluster.fetch, h.stealer, h.donor, h.resolved, he]

/-- A stealer counter at the 64-bit limit cannot be stepped for the write. -/
theorem commit_of_overflow (h : k.Resolves m sv dv c) {updated : Topology}
    (hu : k.cluster.cached.reassign m.stealer m.donor m.primaryPartitions = .ok updated)
    (hc : maxU64 ≤ c.counter m.stealer) : commit m now k = .error .overflow k := by
  simp only [commit, get_bind_apply, h.running, Cluster.fetch, h.stealer, h.donor, h.resolved, hu]
  simp [bind_apply, stepClock_of_overflow hc]

/-- A write whose propagation got through caches the new topology and is the commit's record. -/
theorem commit_of_written (h : k.Resolves m sv dv c) {updated : Topology} {c₁ : Clock}
    {cl : Cluster}
    (hu : k.cluster.cached.reassign m.stealer m.donor m.primaryPartitions = .ok updated)
    (hc : c.increment m.stealer now = .ok c₁)
    (hp : k.cluster.propagate updated c₁ [m.stealer, m.donor] = (.ok (), cl)) :
    commit m now k =
      .ok (.ok ⟨updated, c₁⟩) { k with cluster := { cl with cached := updated } } := by
  simp only [commit, get_bind_apply, h.running, Cluster.fetch, h.stealer, h.donor, h.resolved, hu]
  simp [bind_apply, stepClock_of_ok hc, onCluster_apply, hp, map_apply, setCached_apply, h.running]

/-- A write whose propagation failed is reverted from the stepped clock. -/
theorem commit_of_undelivered (h : k.Resolves m sv dv c) {updated : Topology} {c₁ : Clock}
    {cl : Cluster} {e : ClientError}
    (hu : k.cluster.cached.reassign m.stealer m.donor m.primaryPartitions = .ok updated)
    (hc : c.increment m.stealer now = .ok c₁)
    (hp : k.cluster.propagate updated c₁ [m.stealer, m.donor] = (.error e, cl)) :
    commit m now k =
      (Except.error <$> revert m.stealer m.donor k.cluster.cached c₁ (.client e) now)
        { k with cluster := cl } := by
  simp only [commit, get_bind_apply, h.running, Cluster.fetch, h.stealer, h.donor, h.resolved, hu]
  simp [bind_apply, stepClock_of_ok hc, onCluster_apply, hp, h.running]

/-- The paths of a commit cover every start: each commit ends on one of them. -/
theorem commit_path (m : Movement) (now : Int) (k : Committer) :
    CommitPath k m now (commit m now k) := by
  by_cases hh : k.halted = true
  · rw [commit_of_halted hh]
    exact .halted hh
  have hh : k.halted = false := by simpa using hh
  cases hs : k.cluster.view? m.stealer with
  | none =>
    rw [commit_of_stealer_unknown hh hs]
    exact .refused hh rfl nofun
  | some sv =>
    cases hd : k.cluster.view? m.donor with
    | none =>
      rw [commit_of_donor_unknown hh hs hd]
      exact .refused hh rfl nofun
    | some dv =>
      cases hres : Clock.resolveLatest m.stealer sv.clock m.donor dv.clock k.acceptIdentical with
      | error e =>
        rw [commit_of_unresolved hh hs hd hres]
        rcases Clock.resolveLatest_error hres with rfl | rfl <;> exact .refused hh rfl nofun
      | ok c =>
        have h : k.Resolves m sv dv c := ⟨hh, hs, hd, hres⟩
        cases hu : k.cluster.cached.reassign m.stealer m.donor m.primaryPartitions with
        | error e =>
          rw [commit_of_reassign_error h hu]
          exact .unmoved h hu
        | ok updated =>
          by_cases hlt : c.counter m.stealer < maxU64
          · obtain ⟨c₁, hc₁⟩ : ∃ c₁, c.increment m.stealer now = .ok c₁ :=
              ⟨_, Clock.increment_eq_ok now hlt⟩
            rcases hp : k.cluster.propagate updated c₁ [m.stealer, m.donor] with ⟨res, cl⟩
            cases res with
            | ok u =>
              rw [commit_of_written h hu hc₁ hp]
              exact .written h hu hc₁ hp
            | error e =>
              rw [commit_of_undelivered h hu hc₁ hp]
              exact .undelivered h hu hc₁ hp
          · have hover := Nat.not_lt.1 hlt
            rw [commit_of_overflow h hu hover]
            exact .overflow h hu hover

variable {r : RunError} {k' : Committer}

/-- Every error a commit answers is a refusal that left the committer as it was, or the
answer of a revert. -/
theorem commit_error_cases (hc : commit m now k = .ok (.error r) k') :
    (k' = k ∧ r.refusesWrite = true) ∨
      ∃ cause, (r = .commitFailed m.stealer cause ∧ k'.halted = k.halted) ∨
        ((∃ rb, r = .rollbackFailed m.stealer cause.message rb) ∧ k'.halted = true) := by
  have hpath := commit_path m now k
  generalize commit m now k = x at hpath hc
  cases hpath with
  | halted _ =>
    cases hc
    exact Or.inl ⟨rfl, rfl⟩
  | refused _ hr _ =>
    cases hc
    exact Or.inl ⟨rfl, hr⟩
  | unmoved _ _ | undelivered _ _ _ _ =>
    -- the revert starts with `k`'s halt flag, also after a failed propagation
    have hans := map_revert_answer hc
    exact Or.inr ⟨_, hans⟩
  | overflow _ _ _ | written _ _ _ _ => cases hc

/-- A commit that answers a record went through the write: the clocks resolved, the partitions
moved, the counter was stepped and the propagation got through; the record is what it wrote. -/
theorem written_of_commit_ok {record : CommitRecord} (hc : commit m now k = .ok (.ok record) k') :
    ∃ sv dv c cl, k.Resolves m sv dv c ∧
      k.cluster.cached.reassign m.stealer m.donor m.primaryPartitions = .ok record.topology ∧
      c.increment m.stealer now = .ok record.clock ∧
      k.cluster.propagate record.topology record.clock [m.stealer, m.donor] = (.ok (), cl) ∧
      k' = { k with cluster := { cl with cached := record.topology } } := by
  have hpath := commit_path m now k
  generalize commit m now k = x at hpath hc
  cases hpath with
  | written h hu hc₁ hp =>
    cases hc
    exact ⟨_, _, _, _, h, hu, hc₁, hp, rfl⟩
  | unmoved _ _ | undelivered _ _ _ _ =>
    -- a revert answers an error
    obtain ⟨_, he, _⟩ := map_error_eq_ok.1 hc
    cases he
  | halted _ | refused _ _ _ | overflow _ _ _ => cases hc

end Commit

/-- `ensureNode` refuses without touching the committer. -/
theorem ensureNode_error {target : Topology} {node : Nat} {k k' : Committer} {r : RunError}
    (h : ensureNode target node k = .ok (.error r) k') : k' = k := by
  unfold ensureNode at h
  simp only [get_bind_apply] at h
  by_cases hh : k.halted = true
  · simp only [hh] at h
    cases h
    rfl
  by_cases hc : k.cluster.cached.containsNode node = true
  · simp [hh, hc] at h
  cases hn : target.node? node with
  | none =>
    simp [hh, hc, hn] at h
    exact h.2.symm
  | some n =>
    simp [hh, hc, hn, bind_apply, setCached_apply] at h

end Committer

end Rebalance

import Rebalance.Proofs.HaltedRun
/-!
# Views only move forward

A node's view changes only through a propagation, and a propagation gives a node that already
holds a view a new one only under a clock after the clock it holds. So along every sequence of
operations on a committer and its cluster (propagations, commits with their reverts, adding
nodes, migration jobs, changes of the cached topology and injected failures), a node that holds
a view keeps it or gets one under a later clock, and never loses it (`views_only_advance`).

* Being after is transitive (`Clock.compare_eq_after_trans`), so "moved forward"
  (`Cluster.ViewsAdvance`) composes; a target that accepts moves forward
  (`ViewsAdvance.setView_of_accepts`), and so does every delivery (`viewsAdvance_deliver`).
* A delivery goes through its targets until the first one that refuses
  (`Cluster.deliver_stops`): every target before it accepted in the cluster the delivery had
  reached, those targets hold the new view, every other view is as it was, and the delivery
  fails, naming the refusing target, exactly when there is one.
* A commit writes views only through its propagations and its revert's; the other operations
  write none (`Operation.viewsAdvance_apply`), and a sequence of operations moves forward by
  induction on it (`Operation.viewsAdvance_run`).
-/

namespace Rebalance

namespace Clock

/-- Being after is transitive: counters only grow along the chain, and a counter that rose in
the first step stays above where it started. -/
theorem compare_eq_after_trans {a b c : Clock} (hab : a.compare b = .after)
    (hbc : b.compare c = .after) : a.compare c = .after := by
  rw [compare_eq_after_iff] at hab hbc ⊢
  obtain ⟨hba, -⟩ := hab
  obtain ⟨hcb, n, hn⟩ := hbc
  exact ⟨le_trans hcb hba, n, Nat.lt_of_lt_of_le hn (hba n)⟩

end Clock

/-- An error of a delivery names the target that refused it: that target was unreachable, or it
rejected the view. -/
def ClientError.RefusedBy (e : ClientError) (n : Nat) : Prop :=
  ∃ r, e = .unreachable n r ∨ e = .rejected n r

namespace Cluster

/-- From `c` to `c'` every view moved only forward: a node that holds a view in `c` holds one in
`c'`, the same one or one under a later clock. -/
def ViewsAdvance (c c' : Cluster) : Prop :=
  ∀ n v, c.view? n = some v →
    ∃ v', c'.view? n = some v' ∧ (v' = v ∨ v'.clock.compare v.clock = .after)

namespace ViewsAdvance

theorem refl (c : Cluster) : c.ViewsAdvance c := fun _ v h => ⟨v, h, .inl rfl⟩

theorem of_views_eq {c c' : Cluster} (h : c'.views = c.views) : c.ViewsAdvance c' := by
  intro n v hv
  refine ⟨v, ?_, .inl rfl⟩
  simpa only [view?, h] using hv

theorem trans {c₁ c₂ c₃ : Cluster} (h₁₂ : c₁.ViewsAdvance c₂) (h₂₃ : c₂.ViewsAdvance c₃) :
    c₁.ViewsAdvance c₃ := by
  intro n v hv
  obtain ⟨v', hv', h₁⟩ := h₁₂ n v hv
  obtain ⟨v'', hv'', h₂⟩ := h₂₃ n v' hv'
  refine ⟨v'', hv'', ?_⟩
  rcases h₁ with rfl | h₁
  · exact h₂
  · rcases h₂ with rfl | h₂
    · exact .inr h₁
    · exact .inr (Clock.compare_eq_after_trans h₂ h₁)

/-- A target that accepts takes the view under a clock after the one it held. -/
theorem setView_of_accepts {c : Cluster} {clock : Clock} {n : Nat} (t : Topology)
    (h : c.Accepts clock n) : c.ViewsAdvance (c.setView n ⟨t, clock⟩) := by
  intro j v hv
  by_cases hj : j = n
  · subst hj
    exact ⟨⟨t, clock⟩, by simp, .inr (h.2.2 v hv)⟩
  · exact ⟨v, by simp [hj, hv], .inl rfl⟩

end ViewsAdvance

variable {t : Topology} {clock : Clock}

/-- A target that does not accept ends the delivery with an error that names it, and no view
changes. -/
theorem deliver_cons_of_not_accepts {c : Cluster} {n : Nat} {rest : List Nat}
    (h : ¬ c.Accepts clock n) :
    (∃ e, (deliver t clock (n :: rest) c).1 = .error e ∧ e.RefusedBy n) ∧
      (deliver t clock (n :: rest) c).2.views = c.views := by
  rw [deliver.eq_2]
  by_cases hp : c.poisoned = true
  · rw [if_pos hp]
    exact ⟨⟨_, rfl, _, .inl rfl⟩, rfl⟩
  by_cases hf : 0 < c.failing.getD n 0
  · rw [if_neg hp, if_pos hf]
    exact ⟨⟨_, rfl, _, .inl rfl⟩, rfl⟩
  -- neither a poisoned cluster nor a pending failure: the target holds a view it keeps
  have hp' : c.poisoned = false := by simpa using hp
  have hf' : c.failing.getD n 0 = 0 := by omega
  rw [if_neg hp, if_neg hf]
  cases hv : c.view? n with
  | none => exact absurd ⟨hp', hf', fun w hw => by rw [hv] at hw; cases hw⟩ h
  | some v =>
    by_cases ha : clock.compare v.clock = .after
    · exact absurd ⟨hp', hf', fun w hw => by rw [hv] at hw; cases hw; exact ha⟩ h
    · simp only [bne_iff_ne, ne_eq, ha, not_false_eq_true, if_true]
      exact ⟨⟨_, rfl, _, .inr rfl⟩, trivial⟩

/-- Every delivery moves views only forward: each target that takes the view accepted it. -/
theorem viewsAdvance_deliver : ∀ (ns : List Nat) (c : Cluster),
    c.ViewsAdvance (deliver t clock ns c).2
  | [], c => .refl c
  | n :: rest, c => by
    by_cases ha : c.Accepts clock n
    · rw [deliver_cons_of_accepts ha]
      exact (ViewsAdvance.setView_of_accepts t ha).trans (viewsAdvance_deliver rest _)
    · exact .of_views_eq (deliver_cons_of_not_accepts ha).2

/-- A delivery goes through its targets until the first that refuses. The targets it got through
(`done`) each accepted the view in the cluster the delivery had reached, they hold the new view
and every other node the view it held; either every target got through and the delivery
succeeded, or the next target refused in the cluster reached and the delivery failed naming it. -/
theorem deliver_stops (t : Topology) (clock : Clock) : ∀ (ns : List Nat) (c : Cluster),
    ∃ done rest, ns = done ++ rest ∧
      (∀ pre n post, done = pre ++ n :: post → (deliver t clock pre c).2.Accepts clock n) ∧
      (∀ j, (deliver t clock ns c).2.view? j = if j ∈ done then some ⟨t, clock⟩ else c.view? j) ∧
      ((rest = [] ∧ (deliver t clock ns c).1 = .ok ()) ∨
        ∃ n rest', rest = n :: rest' ∧ ¬ (deliver t clock done c).2.Accepts clock n ∧
          ∃ e, (deliver t clock ns c).1 = .error e ∧ e.RefusedBy n)
  | [], c => ⟨[], [], rfl, fun pre _ _ h => by simp at h, fun _ => rfl, .inl ⟨rfl, rfl⟩⟩
  | n :: ns, c => by
    by_cases ha : c.Accepts clock n
    · -- `n` takes the view, and the rest is a delivery from the cluster it leaves
      obtain ⟨done, rest, hsplit, hacc, hview, hend⟩ :=
        deliver_stops t clock ns (c.setView n ⟨t, clock⟩)
      have hstep : ∀ l, deliver t clock (n :: l) c = deliver t clock l (c.setView n ⟨t, clock⟩) :=
        fun _ => deliver_cons_of_accepts ha
      refine ⟨n :: done, rest, by rw [hsplit, List.cons_append], ?_, ?_, ?_⟩
      · intro pre m post h
        cases pre with
        | nil =>
          obtain ⟨rfl, -⟩ := List.cons.inj h
          exact ha
        | cons p pre =>
          rw [List.cons_append, List.cons.injEq] at h
          rw [← h.1, hstep]
          exact hacc pre m post h.2
      · intro j
        rw [hstep, hview j, view?_setView]
        by_cases hj : j ∈ done
        · simp [hj]
        · by_cases hjn : j = n <;> simp [hj, hjn]
      · rw [hstep, hstep]
        exact hend
    · obtain ⟨hrefused, hviews⟩ := @deliver_cons_of_not_accepts t clock c n ns ha
      refine ⟨[], n :: ns, rfl, fun pre _ _ h => by simp at h, fun j => ?_,
        .inr ⟨n, ns, rfl, ha, hrefused⟩⟩
      simp only [view?, hviews, List.not_mem_nil, if_false]

theorem views_propagate (c : Cluster) (t : Topology) (clock : Clock) (ns : List Nat) :
    (c.propagate t clock ns).2.views = (deliver t clock ns c).2.views := by
  rw [propagate_eq]

theorem viewsAdvance_propagate (c : Cluster) (t : Topology) (clock : Clock) (ns : List Nat) :
    c.ViewsAdvance (c.propagate t clock ns).2 := by
  intro n v hv
  obtain ⟨v', hv', h⟩ := @viewsAdvance_deliver t clock ns c n v hv
  exact ⟨v', by simpa only [view?, views_propagate] using hv', h⟩

end Cluster

/-! ## Commits -/

namespace Committer

open Committer (stateOf)

/-- A revert writes views only through its rollback propagation. -/
theorem viewsAdvance_revert (s d : Nat) (previous : Topology) (clock : Clock) (cause : RunError)
    (now : Int) (k : Committer) :
    k.cluster.ViewsAdvance (stateOf (revert s d previous clock cause now k)).cluster := by
  have hpath := revert_path s d previous clock cause now k
  generalize revert s d previous clock cause now k = x at hpath ⊢
  cases hpath with
  | overflow _ => exact .refl _
  | @reverted back cl _ hp | @halted back _ cl _ hp =>
    -- the rollback is propagated from the cluster with the previous topology cached, which
    -- holds the same views
    have hadv := Cluster.viewsAdvance_propagate { k.cluster with cached := previous } previous
      back (k.rollbackTargets.nodes s d)
    rw [hp] at hadv
    exact hadv

/-- A commit that reverts moves views forward as its revert does. -/
theorem viewsAdvance_map_revert {s d : Nat} {previous : Topology} {clock : Clock}
    {cause : RunError} {now : Int} (k : Committer) :
    k.cluster.ViewsAdvance (stateOf ((Except.error <$> revert s d previous clock cause now :
      CommitM (Except RunError CommitRecord)) k)).cluster := by
  have h := viewsAdvance_revert s d previous clock cause now k
  rw [map_apply]
  rcases hr : revert s d previous clock cause now k with ⟨e, k₁⟩ | ⟨f, k₁⟩ <;> rw [hr] at h <;>
    exact h

/-- A commit writes views only through its propagation and its revert's, so it moves them only
forward, whatever it answers and also when it faults. -/
theorem viewsAdvance_commit (m : Movement) (now : Int) (k : Committer) :
    k.cluster.ViewsAdvance (stateOf (commit m now k)).cluster := by
  have hpath := commit_path m now k
  generalize commit m now k = x at hpath ⊢
  cases hpath with
  | halted _ | refused _ _ _ | overflow _ _ _ => exact .refl _
  | unmoved _ _ => exact viewsAdvance_map_revert k
  | @written _ _ _ c₁ updated cl _ _ _ hp =>
    have hadv := Cluster.viewsAdvance_propagate k.cluster updated c₁ [m.stealer, m.donor]
    rw [hp] at hadv
    exact hadv.trans (.of_views_eq rfl)
  | @undelivered _ _ _ c₁ updated cl _ _ _ _ hp =>
    -- the failed write's propagation, then the revert from where it stopped
    have hadv := Cluster.viewsAdvance_propagate k.cluster updated c₁ [m.stealer, m.donor]
    rw [hp] at hadv
    exact hadv.trans (viewsAdvance_map_revert { k with cluster := cl })

/-- Adding a node writes only the cached topology. -/
theorem views_ensureNode (target : Topology) (node : Nat) (k : Committer) :
    (stateOf (ensureNode target node k)).cluster.views = k.cluster.views := by
  unfold ensureNode
  simp only [get_bind_apply]
  split
  · rfl
  split
  · rfl
  cases target.node? node <;> rfl

end Committer

/-! ## Sequences of operations -/

/-- An operation on a committer and its cluster, other than setting a node's view or clock by
hand: a propagation, a commit, adding a node, resuming the committer, issuing or awaiting a
migration job, replacing the cached topology, or injecting a failure. -/
inductive Operation where
  | propagate (t : Topology) (clock : Clock) (targets : List Nat)
  | commit (m : Movement) (now : Int)
  | ensureNode (target : Topology) (node : Nat)
  | resume
  | startMigration (store : String) (m : Movement)
  | awaitJob (others node job : Nat)
  | setTopology (t : Topology)
  | failPropagationTo (node : Nat)
  | failRollbacks
  | failStore (store : String)
  | stallStore (store : String)
  | stop

namespace Operation

open Committer (stateOf)

/-- The committer an operation leaves; a commit that faults leaves what it had done. -/
def apply : Operation → Committer → Committer
  | propagate t clock ns, k => { k with cluster := (k.cluster.propagate t clock ns).2 }
  | commit m now, k => stateOf (Committer.commit m now k)
  | ensureNode target node, k => stateOf (Committer.ensureNode target node k)
  | resume, k => { k with halted := false }
  | startMigration store m, k => { k with cluster := (k.cluster.startMigration store m).2 }
  | awaitJob others node job, k => { k with cluster := (k.cluster.awaitJob others node job).2 }
  | setTopology t, k => { k with cluster := k.cluster.setTopology t }
  | failPropagationTo node, k => { k with cluster := k.cluster.failPropagationTo node }
  | failRollbacks, k => { k with cluster := k.cluster.setFailRollbacks }
  | failStore store, k => { k with cluster := k.cluster.failStore store }
  | stallStore store, k => { k with cluster := k.cluster.stallStore store }
  | stop, k => { k with cluster := k.cluster.stop }

/-- The committer a sequence of operations leaves, applied in order. -/
def run (ops : List Operation) (k : Committer) : Committer := ops.foldl (fun k op => op.apply k) k

theorem run_append (pre post : List Operation) (k : Committer) :
    run (pre ++ post) k = run post (run pre k) := by
  simp only [run, List.foldl_append]

/-- One operation moves views only forward. -/
theorem viewsAdvance_apply (op : Operation) (k : Committer) :
    k.cluster.ViewsAdvance (op.apply k).cluster := by
  cases op with
  | propagate t clock ns => exact Cluster.viewsAdvance_propagate k.cluster t clock ns
  | commit m now => exact Committer.viewsAdvance_commit m now k
  | ensureNode target node => exact .of_views_eq (Committer.views_ensureNode target node k)
  | startMigration store m =>
    refine .of_views_eq ?_
    simp only [apply, Cluster.startMigration]
    split
    · rfl
    split <;> rfl
  | awaitJob others node job =>
    refine .of_views_eq ?_
    simp only [apply, Cluster.awaitJob]
    split
    · rfl
    split <;> rfl
  | resume | setTopology _ | failPropagationTo _ | failRollbacks | failStore _ | stallStore _
  | stop => exact .refl _

/-- A sequence of operations moves views only forward, by induction on the sequence. -/
theorem viewsAdvance_run : ∀ (ops : List Operation) (k : Committer),
    k.cluster.ViewsAdvance (run ops k).cluster
  | [], k => .refl k.cluster
  | op :: ops, k => (viewsAdvance_apply op k).trans (viewsAdvance_run ops (op.apply k))

end Operation

/-- Along every sequence of operations other than setting views or clocks by hand, a node that
holds a view keeps it or gets one under a later clock, from any point of the sequence to any
later one. A propagation stops at its first refusing target: the targets before it accepted the
view, in turn, and hold it, every other view is as it was, and the propagation fails, naming the
target that refused, exactly when one did; either way it logs exactly one record, flagged with
its answer. -/
theorem views_only_advance :
    (∀ (pre post : List Operation) (k : Committer),
      (Operation.run pre k).cluster.ViewsAdvance (Operation.run (pre ++ post) k).cluster) ∧
    ∀ (c : Cluster) (t : Topology) (clock : Clock) (ns : List Nat),
      (∃ done rest, ns = done ++ rest ∧
        (∀ pre n post, done = pre ++ n :: post → (Cluster.deliver t clock pre c).2.Accepts clock n) ∧
        (∀ j, (c.propagate t clock ns).2.view? j =
          if j ∈ done then some ⟨t, clock⟩ else c.view? j) ∧
        ((rest = [] ∧ (c.propagate t clock ns).1 = .ok ()) ∨
          ∃ n rest', rest = n :: rest' ∧ ¬ (Cluster.deliver t clock done c).2.Accepts clock n ∧
            ∃ e, (c.propagate t clock ns).1 = .error e ∧ e.RefusedBy n)) ∧
      (c.propagate t clock ns).2.log =
        c.log ++ [⟨t, clock, ns, (c.propagate t clock ns).1.toBool⟩] := by
  refine ⟨fun pre post k => ?_, fun c t clock ns => ⟨?_, Cluster.propagate_log c t clock ns⟩⟩
  · rw [Operation.run_append]
    exact Operation.viewsAdvance_run post (Operation.run pre k)
  · -- a propagation answers as its delivery, and holds the views its delivery left
    obtain ⟨done, rest, hsplit, hacc, hview, hend⟩ := Cluster.deliver_stops t clock ns c
    have hres : (c.propagate t clock ns).1 = (Cluster.deliver t clock ns c).1 := by
      rw [Cluster.propagate_eq]
    refine ⟨done, rest, hsplit, hacc, fun j => ?_, by rwa [hres]⟩
    rw [← hview j]
    simp only [Cluster.view?, Cluster.views_propagate]

end Rebalance

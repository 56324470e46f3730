import Mathlib.Data.List.Nodup
import Rebalance.Migration
/-!
# Migrating a movement's stores, whatever each store's migration ends in

`attemptMigration` walks the pending stores as they stood when it started, while it removes
each migrated store from the movement's own list. For every admin client, whatever the
migration of each store ends in (its job refused, failed, timed out or done), and for every
movement that lists no store twice, as every movement a run holds does
(`Movement.WellFormed.stores`):

* The client is asked once per pending store, in their order, to start its job: a client that
  also notes the store of every start (`MigrationClient.noting`) notes exactly the pending
  stores, and answers as the client it wraps does (`migrateStores_noting`).
* The walk keeps the movement's list as the stores that failed, then the stores not yet walked
  (`migrateStores_pending`), because completing a store removes that store only
  (`completeStore_listed_once`); every other field of the movement stays.
* A walk over two lists is the walk over the first, then over the second from where the first
  left client and movement (`migrateStores_append`). So a store stays pending exactly when its
  own migration, made after the stores before it, did not succeed (`mem_migrateStores_iff`).
* The attempt succeeds exactly when no store failed, and otherwise reports the movement as it
  ended, with its pending stores as the failed ones (`attemptMigration_keeps_failed_stores`).
-/

namespace Rebalance

variable {σ : Type}

namespace MigrationClient

/-- The client `a`, also noting the store of every job it is asked to start. -/
def noting (a : MigrationClient σ) : MigrationClient (σ × List String) :=
  ⟨fun p store m =>
      ((a.startMigration p.1 store m).1, (a.startMigration p.1 store m).2, p.2 ++ [store]),
    fun p node job => ((a.awaitJob p.1 node job).1, (a.awaitJob p.1 node job).2, p.2)⟩

end MigrationClient

/-- What migrating `store` ends in when the stores `before` were migrated first, from client
state `s` and movement `m`: the call is made on the client state and movement they left. -/
def migrateStoreAfter (a : MigrationClient σ) (s : σ) (m : Movement) (before : List String)
    (store : String) : Except RunError Unit × σ :=
  migrateStore a (migrateStores a s before m).2.2 store (migrateStores a s before m).2.1

/-! ## One start per store -/

/-- Migrating one store asks the client to start exactly that store's job. -/
theorem migrateStore_noting (a : MigrationClient σ) (s : σ) (log : List String) (store : String)
    (m : Movement) :
    migrateStore a.noting (s, log) store m =
      ((migrateStore a s store m).1, (migrateStore a s store m).2, log ++ [store]) := by
  unfold migrateStore
  rcases hs : a.startMigration s store m with ⟨_ | job, s₁⟩
  · simp [MigrationClient.noting, hs]
  · rcases hw : a.awaitJob s₁ m.stealer job with ⟨_ | _ | e, s₂⟩ <;>
      simp [MigrationClient.noting, hs, hw]

/-- Walking the stores asks the client to start the job of each, once and in order, and the
notes change nothing else. -/
theorem migrateStores_noting (a : MigrationClient σ) (s : σ) (log xs : List String)
    (m : Movement) :
    migrateStores a.noting (s, log) xs m =
      ((migrateStores a s xs m).1, (migrateStores a s xs m).2.1, (migrateStores a s xs m).2.2,
        log ++ xs) := by
  induction xs generalizing s log m with
  | nil => simp [migrateStores]
  | cons x rest ih =>
    simp only [migrateStores, migrateStore_noting]
    rcases h : migrateStore a s x m with ⟨_ | _, s₁⟩ <;> simp [ih]

/-- An attempt is the walk over the pending stores, judged by the stores that failed. -/
theorem attemptMigration_eq (a : MigrationClient σ) (s : σ) (m : Movement) :
    attemptMigration a s m =
      (if (migrateStores a s m.storesPending m).1.isEmpty then .ok ()
        else .error (.migrationFailed (migrateStores a s m.storesPending m).2.1.render
          (migrateStores a s m.storesPending m).1),
        (migrateStores a s m.storesPending m).2) := by
  rcases hrun : migrateStores a s m.storesPending m with ⟨failed, m₁, s₁⟩
  simp only [attemptMigration, hrun]
  split <;> rfl

/-- An attempt asks the client to start the job of each pending store, once and in order, and
the notes change nothing else. -/
theorem attemptMigration_noting (a : MigrationClient σ) (s : σ) (log : List String)
    (m : Movement) :
    attemptMigration a.noting (s, log) m =
      ((attemptMigration a s m).1, (attemptMigration a s m).2.1, (attemptMigration a s m).2.2,
        log ++ m.storesPending) := by
  rw [attemptMigration_eq, attemptMigration_eq, migrateStores_noting]

/-! ## The pending list along the walk -/

/-- A store listed once is neither among the stores before it nor among those after it. -/
theorem not_mem_around {pre post : List String} {x : String} (hnd : (pre ++ x :: post).Nodup) :
    x ∉ pre ∧ x ∉ post := by
  have hx := (List.nodup_cons.1 (List.nodup_middle.1 hnd)).1
  simpa only [List.mem_append, not_or] using hx

/-- Completing a store listed once leaves the stores around it. -/
theorem completeStore_listed_once {m : Movement} {pre post : List String} {x : String}
    (hm : m.storesPending = pre ++ x :: post) (hnd : (pre ++ x :: post).Nodup) :
    (m.completeStore x).2 = { m with storesPending := pre ++ post } := by
  obtain ⟨hpre, hpost⟩ := not_mem_around hnd
  have hkeep : ∀ l : List String, x ∉ l → l.filter (fun s => s != x) = l := fun l hl =>
    List.filter_eq_self.2 fun y hy => bne_iff_ne.2 (by rintro rfl; exact hl hy)
  simp only [Movement.completeStore, hm, List.filter_append, List.filter_cons, bne_self_eq_false,
    Bool.false_eq_true, if_false, hkeep pre hpre, hkeep post hpost]

/-- The stores that failed are among the walked ones, in order. -/
theorem migrateStores_sublist (a : MigrationClient σ) (s : σ) (xs : List String) (m : Movement) :
    (migrateStores a s xs m).1.Sublist xs := by
  induction xs generalizing s m with
  | nil => exact List.Sublist.slnil
  | cons x rest ih =>
    simp only [migrateStores]
    rcases h : migrateStore a s x m with ⟨_ | _, s₁⟩
    · exact (ih s₁ m).cons_cons x
    · exact (ih s₁ _).cons x

/-- The walk keeps the movement's pending stores as the failed stores, then the stores not yet
walked, and changes no other field. -/
theorem migrateStores_pending (a : MigrationClient σ) (s : σ) {xs pre : List String}
    {m : Movement} (hm : m.storesPending = pre ++ xs) (hnd : (pre ++ xs).Nodup) :
    (migrateStores a s xs m).2.1 = { m with storesPending := pre ++ (migrateStores a s xs m).1 } := by
  induction xs generalizing s pre m with
  | nil =>
    simp only [migrateStores, List.append_nil] at hm ⊢
    rw [← hm]
  | cons x rest ih =>
    simp only [migrateStores]
    rcases h : migrateStore a s x m with ⟨_ | _, s₁⟩
    · -- a failed store stays, now among the failed ones before the rest
      have hm' : m.storesPending = (pre ++ [x]) ++ rest := by simp [hm]
      have := ih s₁ hm' (by simpa using hnd)
      simpa using this
    · -- a migrated store leaves, and no other store with it
      have hc := completeStore_listed_once hm hnd
      have := ih s₁ (m := (m.completeStore x).2) (by rw [hc])
        (hnd.sublist ((List.sublist_cons_self x rest).append_left pre))
      rw [this, hc]

/-! ## A store's own migration decides whether it stays -/

/-- Walking two lists is walking the first, then the second from where the first left. -/
theorem migrateStores_append (a : MigrationClient σ) (xs ys : List String) {s s₁ : σ}
    {m m₁ : Movement} {f₁ : List String} (h : migrateStores a s xs m = (f₁, m₁, s₁)) :
    migrateStores a s (xs ++ ys) m =
      (f₁ ++ (migrateStores a s₁ ys m₁).1, (migrateStores a s₁ ys m₁).2) := by
  induction xs generalizing s m f₁ with
  | nil =>
    simp only [migrateStores, Prod.mk.injEq] at h
    obtain ⟨rfl, rfl, rfl⟩ := h
    rfl
  | cons x rest ih =>
    simp only [List.cons_append, migrateStores] at h ⊢
    rcases hx : migrateStore a s x m with ⟨_ | _, s'⟩
    · rcases hr : migrateStores a s' rest m with ⟨f, m', s''⟩
      simp only [hx, hr, Prod.mk.injEq] at h
      obtain ⟨rfl, rfl, rfl⟩ := h
      simp [ih hr]
    · simp only [hx] at h ⊢
      exact ih h

/-- A store listed once stays among the failed ones exactly when its own migration, made after
the stores before it, did not succeed. -/
theorem mem_migrateStores_iff (a : MigrationClient σ) (s : σ) (m : Movement)
    {pre post : List String} {x : String} (hnd : (pre ++ x :: post).Nodup) :
    x ∈ (migrateStores a s (pre ++ x :: post) m).1 ↔
      (migrateStoreAfter a s m pre x).1 ≠ .ok () := by
  obtain ⟨hpre, hpost⟩ := not_mem_around hnd
  rcases hb : migrateStores a s pre m with ⟨f, m₁, s₁⟩
  -- the failed stores of the walks before and after `x` hold no `x`
  have hbefore : x ∉ f := fun hx => hpre ((migrateStores_sublist a s pre m).subset (hb ▸ hx))
  have hafter : ∀ s' m', x ∉ (migrateStores a s' post m').1 := fun s' m' hx =>
    hpost ((migrateStores_sublist a s' post m').subset hx)
  rw [migrateStores_append a pre (x :: post) hb]
  simp only [migrateStoreAfter, hb, migrateStores]
  rcases h : migrateStore a s₁ x m₁ with ⟨_ | _, s₂⟩
  · simp [hbefore, hafter]
  · simp [hbefore, hafter]

/-! ## The attempt -/

/-- Migrating every pending store of a movement that lists no store twice, with any client and
whatever each store's migration ends in: the client is asked to start one job per pending store,
in order; the movement changes only in its pending stores, which become those of its stores
whose own migration did not succeed, in order; and the attempt succeeds exactly when every store
did, else it reports the movement as it ended, with its pending stores as the failed ones. -/
theorem attemptMigration_keeps_failed_stores {a : MigrationClient σ} {s s' : σ}
    {m m' : Movement} {r : Except RunError Unit} (hnd : m.storesPending.Nodup)
    (h : attemptMigration a s m = (r, m', s')) :
    attemptMigration a.noting (s, []) m = (r, m', s', m.storesPending) ∧
      m' = { m with storesPending := m'.storesPending } ∧
      m'.storesPending.Sublist m.storesPending ∧
      (∀ pre x post, m.storesPending = pre ++ x :: post →
        (x ∈ m'.storesPending ↔ (migrateStoreAfter a s m pre x).1 ≠ .ok ())) ∧
      (r = .ok () ↔ ∀ pre x post, m.storesPending = pre ++ x :: post →
        (migrateStoreAfter a s m pre x).1 = .ok ()) ∧
      (r ≠ .ok () → r = .error (.migrationFailed m'.render m'.storesPending)) := by
  have hnoting : attemptMigration a.noting (s, []) m = (r, m', s', m.storesPending) := by
    rw [attemptMigration_noting, h]
    rfl
  -- the attempt is the walk over the pending stores, judged by the stores that failed
  have hm := @migrateStores_pending σ a s m.storesPending [] m rfl hnd
  have hsub := migrateStores_sublist a s m.storesPending m
  rcases hrun : migrateStores a s m.storesPending m with ⟨failed, m₁, s₁⟩
  simp only [hrun, List.nil_append] at hm hsub
  rw [attemptMigration_eq, hrun] at h
  simp only [Prod.mk.injEq] at h
  obtain ⟨hr, rfl, -⟩ := h
  have hpending : m₁.storesPending = failed := by rw [hm]
  have hmem : ∀ pre x post, m.storesPending = pre ++ x :: post →
      (x ∈ failed ↔ (migrateStoreAfter a s m pre x).1 ≠ .ok ()) := by
    intro pre x post hsplit
    have hiff := mem_migrateStores_iff a s m (hsplit ▸ hnd)
    rwa [← hsplit, hrun] at hiff
  -- no store failed exactly when every store's own migration succeeded
  have hnone : failed = [] ↔ ∀ pre x post, m.storesPending = pre ++ x :: post →
      (migrateStoreAfter a s m pre x).1 = .ok () := by
    constructor
    · intro hf pre x post hsplit
      have hx := (hmem pre x post hsplit).not.1 (by simp [hf])
      exact not_not.1 hx
    · intro hall
      refine List.eq_nil_iff_forall_not_mem.2 fun x hx => ?_
      obtain ⟨pre, post, hsplit⟩ := List.append_of_mem (hsub.subset hx)
      exact (hmem pre x post hsplit).1 hx (hall pre x post hsplit)
  refine ⟨hnoting, by rw [hpending, hm], hpending ▸ hsub, hpending ▸ hmem, ?_, ?_⟩
  · rw [← hnone, ← hr]
    cases failed <;> simp
  · intro hne
    rw [hpending, ← hr]
    cases failed with
    | nil => exact absurd hr.symm hne
    | cons x rest => rfl

/-- Nodes 0 and 1; node 0 owns partitions 0 and 2. -/
def pairTopology : Topology :=
  (Topology.empty "pair").withNodes [⟨0, "a", 1, 2, 3, [0, 2]⟩, ⟨1, "b", 1, 2, 3, []⟩]

/-- A movement of partition 2 from node 0 to node 1, with three stores to migrate. -/
def cartsMovement : Movement :=
  ⟨1, 0, KeyMap.empty.insert 0 [2], KeyMap.empty, ["users", "carts", "orders"], 0, pairTopology⟩

/-- The cluster of the two nodes, where the jobs of `carts` fail. -/
def cartsCluster : Cluster := (Cluster.make pairTopology).failStore "carts"

/-- Of three stores, the one whose job fails is the one left pending, after a start for each. -/
theorem failing_store_stays_pending :
    cartsMovement.storesPending.Nodup ∧
      attemptMigration Cluster.client.noting (cartsCluster, []) cartsMovement =
        ((attemptMigration Cluster.client cartsCluster cartsMovement).1,
          (attemptMigration Cluster.client cartsCluster cartsMovement).2.1,
          (attemptMigration Cluster.client cartsCluster cartsMovement).2.2,
          ["users", "carts", "orders"]) ∧
      (attemptMigration Cluster.client cartsCluster cartsMovement).2.1.storesPending =
        ["carts"] := by
  have hnd : cartsMovement.storesPending.Nodup := by decide
  obtain ⟨hnoting, -⟩ := @attemptMigration_keeps_failed_stores _ Cluster.client cartsCluster
    (attemptMigration Cluster.client cartsCluster cartsMovement).2.2 cartsMovement
    (attemptMigration Cluster.client cartsCluster cartsMovement).2.1
    (attemptMigration Cluster.client cartsCluster cartsMovement).1 hnd rfl
  exact ⟨hnd, hnoting, by decide⟩

/-- The cluster issued one job per store. -/
example : (attemptMigration Cluster.client cartsCluster cartsMovement).2.2.jobs.map Job.store =
    ["users", "carts", "orders"] := by
  decide

end Rebalance

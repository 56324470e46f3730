import Rebalance.Proofs.OutcomeLedger
import Rebalance.Proofs.ValidTopology
import Rebalance.Proofs.RecordRoundTrip
/-!
# The retry plan is a fixed point of replanning

A report lists what to retry: the movements whose outcome is not completed and that still have
pending stores, attempt raised by one, grouped by stealer. Along every run, each outcome stands
against the movement the planner kept for it (`Outcome.Settles`): only its pending stores
changed, they are some of the planned ones in planned order, and its status says which: none
for a completed movement, the failed ones for a failed migration, all of them for a commit that
failed or a skipped movement. A movement not completed therefore always has a store left, and
the movements to retry are exactly those of the outcomes not completed
(`retry_plan_replans_itself`).

The invariant (`Pool.Settled`) has the run's part (`RunState.Settled`: every outcome settles
against a planned movement, every queued movement is planned) and each worker's part
(`Phase.Fits`): a worker migrates a movement `Migrating` from a planned one, each store it went
through completed and removed, or failed and kept.

Replanning the movements to retry gives them back: each passes the planner's checks as its
planned movement did, and keeps all its stores, requested ones with one at least; and grouping
grouped movements again changes nothing (`groupByStealer_flatMap`).
-/

namespace Rebalance

/-! ## Grouping grouped movements -/

section Regroup

variable {α : Type} [BEq α] [LawfulBEq α]

/-- Elements already seen are passed over. -/
theorem firstOccurrences_go_append_of_seen {seen : List α} :
    ∀ {xs : List α}, (∀ a ∈ xs, a ∈ seen) → ∀ rest,
      firstOccurrences.go seen (xs ++ rest) = firstOccurrences.go seen rest
  | [], _, _ => rfl
  | x :: xs, h, rest => by
    rw [List.cons_append, firstOccurrences.go.eq_2,
      if_pos (List.contains_iff_mem.2 (h x List.mem_cons_self))]
    exact firstOccurrences_go_append_of_seen (fun a ha => h a (List.mem_cons_of_mem _ ha)) rest

/-- Runs of distinct elements, each run repeating its element, have those elements as their first
occurrences. -/
theorem firstOccurrences_go_flatMap {f : α → List α} :
    ∀ {l seen : List α}, l.Nodup → (∀ x ∈ l, x ∉ seen) →
      (∀ x ∈ l, f x ≠ [] ∧ ∀ y ∈ f x, y = x) → firstOccurrences.go seen (l.flatMap f) = l
  | [], _, _, _, _ => rfl
  | x :: l, seen, hnd, hseen, hf => by
    obtain ⟨hx, hl⟩ := List.nodup_cons.1 hnd
    obtain ⟨hne, hall⟩ := hf x List.mem_cons_self
    obtain ⟨y, ys, hxs⟩ := List.exists_cons_of_ne_nil hne
    have hy : y = x := hall y (by rw [hxs]; exact List.mem_cons_self)
    subst hy
    -- the run starts with its element, new; the rest of the run repeats it, now seen
    have hrun : ∀ a ∈ ys, a ∈ y :: seen := fun a ha =>
      List.mem_cons.2 (.inl (hall a (by rw [hxs]; exact List.mem_cons_of_mem _ ha)))
    have hlater : ∀ z ∈ l, z ∉ y :: seen := fun z hz hmem =>
      (List.mem_cons.1 hmem).elim (fun e => hx (e ▸ hz))
        (fun hs => hseen z (List.mem_cons_of_mem _ hz) hs)
    rw [List.flatMap_cons, hxs, List.cons_append, firstOccurrences.go.eq_2,
      if_neg (by simpa using hseen y List.mem_cons_self),
      firstOccurrences_go_append_of_seen hrun,
      firstOccurrences_go_flatMap hl hlater fun z hz => hf z (List.mem_cons_of_mem _ hz)]

end Regroup

section Group

/-- The stealers of grouped movements come first in the order they come first among the
movements. -/
theorem firstOccurrences_stealers_flatMap (ms : List Movement) :
    firstOccurrences (((groupByStealer ms).flatMap Task.movements).map Movement.stealer) =
      firstOccurrences (ms.map Movement.stealer) := by
  rw [flatMap_groupByStealer, List.map_flatMap]
  refine firstOccurrences_go_flatMap (nodup_firstOccurrences _) (fun _ _ h => nomatch h) ?_
  intro x hx
  obtain ⟨m, hm, rfl⟩ := List.mem_map.1 (mem_firstOccurrences.1 hx)
  refine ⟨by simpa using ⟨m, hm, rfl⟩, fun y hy => ?_⟩
  obtain ⟨m', hm', rfl⟩ := List.mem_map.1 hy
  simpa using (List.mem_filter.1 hm').2

/-- Lists with the same stealers first seen in the same order, and the same movements of each
stealer, group alike. -/
theorem groupByStealer_eq_of {ms ms' : List Movement}
    (hfirst : firstOccurrences (ms'.map Movement.stealer) = firstOccurrences (ms.map Movement.stealer))
    (hfilter : ∀ s ∈ ms.map Movement.stealer, ms'.filter (·.stealer == s) = ms.filter (·.stealer == s)) :
    groupByStealer ms' = groupByStealer ms := by
  rw [groupByStealer_eq, groupByStealer_eq]
  unfold stealerRuns
  rw [hfirst]
  exact List.map_congr_left fun s hs => by rw [hfilter s (mem_firstOccurrences.1 hs)]

/-- Grouping grouped movements again gives the same tasks. -/
theorem groupByStealer_flatMap (ms : List Movement) :
    groupByStealer ((groupByStealer ms).flatMap Task.movements) = groupByStealer ms := by
  refine groupByStealer_eq_of (firstOccurrences_stealers_flatMap ms) fun s hs => ?_
  rw [flatMap_groupByStealer, filter_flatMap_filter ms s (nodup_firstOccurrences _),
    if_pos (mem_firstOccurrences.2 hs)]

end Group

/-! ## How an outcome stands against its planned movement -/

/-- What a status says of the stores a movement has left (`left`) of those planned (`planned`):
none when it completed, the failed ones (one at least) when its migration failed, all of them
when its commit failed or it was skipped. -/
def Status.Leaves : Status → List String → List String → Prop
  | .completed, _, left => left = []
  | .migrationFailed failed, _, left => failed = left ∧ left ≠ []
  | .commitFailed _, planned, left => left = planned
  | .skipped _, planned, left => left = planned

/-- An outcome stands against the planned movement `p`: only the pending stores changed, they are
some of the planned ones in planned order, and the status says which. -/
structure Outcome.Settles (o : Outcome) (p : Movement) : Prop where
  same : o.movement.withoutStores = p.withoutStores
  sublist : o.movement.storesPending.Sublist p.storesPending
  leaves : o.status.Leaves p.storesPending o.movement.storesPending

/-- Planned movements as the planner keeps them: stores without repeats, one at least. -/
def PlannedStores (planned : List Movement) : Prop :=
  ∀ p ∈ planned, p.storesPending.Nodup ∧ p.storesPending ≠ []

namespace Outcome.Settles

variable {o : Outcome} {p : Movement}

theorem skipped (p : Movement) (reason : String) : Outcome.Settles ⟨p, .skipped reason⟩ p :=
  ⟨rfl, List.Sublist.refl _, rfl⟩

theorem commitFailed (p : Movement) (reason : String) :
    Outcome.Settles ⟨p, .commitFailed reason⟩ p :=
  ⟨rfl, List.Sublist.refl _, rfl⟩

/-- A movement not completed has a store left. -/
theorem ne_nil (h : o.Settles p) (hp : p.storesPending ≠ []) (hc : o.status ≠ .completed) :
    o.movement.storesPending ≠ [] := by
  have hl := h.leaves
  cases hs : o.status with
  | completed => exact absurd hs hc
  | migrationFailed failed => rw [hs] at hl; exact hl.2
  | commitFailed r => rw [hs] at hl; rw [hl]; exact hp
  | skipped r => rw [hs] at hl; rw [hl]; exact hp

end Outcome.Settles

/-- A movement (`m`) part way through the stores of the planned one (`p`): the planned stores are
those gone through, then `stores`; the movement keeps, of those gone through, the ones that
failed, then `stores`; and `failed` says whether one did. -/
structure Migrating (p m : Movement) (stores : List String) (failed : Bool) : Prop where
  same : m.withoutStores = p.withoutStores
  split : ∃ done left, p.storesPending = done ++ stores ∧ m.storesPending = left ++ stores ∧
    left.Sublist done ∧ (failed = true ↔ left ≠ [])

namespace Migrating

variable {p m : Movement} {store : String} {stores : List String} {failed : Bool}

/-- A committed movement starts with all its stores ahead. -/
theorem start (p : Movement) : Migrating p p p.storesPending false :=
  ⟨rfl, [], [], rfl, rfl, List.Sublist.refl _, by simp⟩

/-- A store that failed stays. -/
theorem fail (h : Migrating p m (store :: stores) failed) : Migrating p m stores true := by
  obtain ⟨done, left, hp, hm, hsub, -⟩ := h.split
  exact ⟨h.same, done ++ [store], left ++ [store], by simp [hp], by simp [hm],
    hsub.append (List.Sublist.refl _), by simp⟩

/-- A store that completed is removed, and it is the only one of its name. -/
theorem complete (hnd : p.storesPending.Nodup) (h : Migrating p m (store :: stores) failed) :
    Migrating p (m.completeStore store).2 stores failed := by
  obtain ⟨done, left, hp, hm, hsub, hf⟩ := h.split
  rw [hp] at hnd
  -- the store is in neither the failed ones kept nor the stores after it
  have hdone : store ∉ done := fun hs => (List.nodup_append.1 hnd).2.2 store hs store
    List.mem_cons_self rfl
  have hleft : store ∉ left := fun hs => hdone (hsub.subset hs)
  have hrest : store ∉ stores := (List.nodup_cons.1 (List.nodup_append.1 hnd).2.1).1
  refine ⟨h.same, done ++ [store], left, by simp [hp], ?_, hsub.trans (List.sublist_append_left _ _),
    hf⟩
  have hkeep : ∀ l : List String, store ∉ l → l.filter (fun s => s != store) = l := fun l hl =>
    List.filter_eq_self.2 fun a ha => bne_iff_ne.2 (by rintro rfl; exact hl ha)
  simp only [Movement.completeStore, hm, List.filter_append, List.filter_cons, bne_self_eq_false,
    Bool.false_eq_true, if_false, hkeep left hleft, hkeep stores hrest]

/-- With no store ahead, the outcome recorded settles against the planned movement. -/
theorem settles (h : Migrating p m [] failed) :
    Outcome.Settles ⟨m, if failed then .migrationFailed m.storesPending else .completed⟩ p := by
  obtain ⟨done, left, hp, hm, hsub, hf⟩ := h.split
  rw [List.append_nil] at hp hm
  refine ⟨h.same, by rw [hp, hm]; exact hsub, ?_⟩
  cases failed with
  | true => exact ⟨rfl, by rw [hm]; exact hf.1 rfl⟩
  | false =>
    show m.storesPending = []
    rw [hm]
    exact Classical.byContradiction fun hl => absurd (hf.2 hl) Bool.false_ne_true

end Migrating

/-! ## The invariant -/

/-- What a worker holds stands against the planned movements: those it has not begun are planned
ones, and the one it migrates is `Migrating` from a planned one. A waiting worker's store counts
as failed: the worker goes on from it only once it has timed out. -/
def Phase.Fits (planned : List Movement) : Phase → Prop
  | .idle => True
  | .stopped => True
  | .joining t => ∀ x ∈ t.movements, x ∈ planned
  | .moving ms => ∀ x ∈ ms, x ∈ planned
  | .committing m rest => ∀ x ∈ m :: rest, x ∈ planned
  | .migrating m rest stores failed =>
    (∃ p ∈ planned, Migrating p m stores failed) ∧ ∀ x ∈ rest, x ∈ planned
  | .waiting m rest stores _ _ _ =>
    (∃ p ∈ planned, Migrating p m stores true) ∧ ∀ x ∈ rest, x ∈ planned

/-- The run's part of the invariant: every outcome settles against a planned movement, and every
queued movement is planned. -/
structure RunState.Settled (planned : List Movement) (s : RunState) : Prop where
  outcomes : ∀ o ∈ s.outcomes, ∃ p ∈ planned, o.Settles p
  queue : ∀ t ∈ s.queue, ∀ m ∈ t.movements, m ∈ planned

/-- The invariant of a run over the planned movements. -/
structure Pool.Settled (planned : List Movement) (p : Pool) : Prop where
  run : p.run.Settled planned
  phases : ∀ v, (p.phase v).Fits planned

namespace RunState.Settled

variable {planned : List Movement} {s : RunState} {m : Movement} {rest ms : List Movement}

/-- The run's part reads only the outcomes and the queue. -/
theorem congr {s' : RunState} (h : s.Settled planned) (ho : s'.outcomes = s.outcomes)
    (hq : s'.queue = s.queue) : s'.Settled planned :=
  ⟨ho ▸ h.outcomes, hq ▸ h.queue⟩

/-- New outcomes that settle keep the run's part. -/
theorem append (h : s.Settled planned) {os : List Outcome}
    (hos : ∀ o ∈ os, ∃ p ∈ planned, o.Settles p) :
    ({ s with outcomes := s.outcomes ++ os } : RunState).Settled planned := by
  refine ⟨fun o ho => ?_, h.queue⟩
  rcases List.mem_append.1 ho with ho | ho
  · exact h.outcomes o ho
  · exact hos o ho

theorem record {status : Status} (h : s.Settled planned)
    (ho : ∃ p ∈ planned, Outcome.Settles ⟨m, status⟩ p) : (s.record m status).Settled planned :=
  h.append fun o hmem => by
    rw [List.mem_singleton.1 hmem]
    exact ho

theorem skipAll (h : s.Settled planned) (hms : ∀ x ∈ ms, x ∈ planned) :
    (s.skipAll ms).Settled planned :=
  h.append fun o hmem => by
    obtain ⟨x, hx, rfl⟩ := List.mem_map.1 hmem
    exact ⟨x, hms x hx, .skipped x _⟩

theorem failAll (h : s.Settled planned) (hms : ∀ x ∈ ms, x ∈ planned) (reason : String) :
    (s.failAll ms reason).Settled planned :=
  h.append fun o hmem => by
    obtain ⟨x, hx, rfl⟩ := List.mem_map.1 hmem
    exact ⟨x, hms x hx, .commitFailed x _⟩

theorem abortAt (h : s.Settled planned) (hms : ∀ x ∈ m :: rest, x ∈ planned) (e : RunError) :
    (s.abortAt m rest e).Settled planned := by
  have hrec : ({ s with aborted := true }.record m (.commitFailed e.message)).Settled planned :=
    record ⟨h.outcomes, h.queue⟩ ⟨m, hms m List.mem_cons_self, .commitFailed m _⟩
  exact skipAll ⟨hrec.outcomes, hrec.queue⟩ fun x hx => hms x (List.mem_cons_of_mem _ hx)

/-- Recording the committer's answer for a task's stealer keeps the run's part. -/
theorem afterJoin (h : s.Settled planned) {t : Task} (ht : ∀ x ∈ t.movements, x ∈ planned)
    (a : Option (Except RunError Unit)) : (s.afterJoin t a).Settled planned := by
  unfold RunState.afterJoin
  split
  · exact h.skipAll ht
  · exact h.failAll ht _
  · exact h

/-- Recording the committer's answer for a movement keeps the run's part. -/
theorem afterCommit (h : s.Settled planned) (hms : ∀ x ∈ m :: rest, x ∈ planned)
    (a : Option (Except RunError CommitRecord)) : (s.afterCommit m rest a).Settled planned := by
  unfold RunState.afterCommit
  split
  · exact h.skipAll hms
  · split
    · exact h.abortAt hms _
    · exact h.record ⟨m, hms m List.mem_cons_self, .commitFailed m _⟩
  · exact h

end RunState.Settled

/-! ## One step -/

namespace Pool

variable {now : Int} {timeout : Nat} {w budget : Nat} {ph : Phase} {p p' q : Pool} {n : Next}
  {c : Option Call} {calls : List Call} {planned : List Movement}

/-- One step keeps the invariant: the run's part, and the part of the worker that takes it. -/
theorem settled_of_stepCase (hs : StepCase now timeout w budget ph p n p' c)
    (hP : PlannedStores planned) (hr : p.run.Settled planned) (hph : ph.Fits planned) :
    p'.run.Settled planned ∧ n.phase.Fits planned := by
  cases hs with
  | stop _ => exact ⟨hr, trivial⟩
  | take _ hq =>
    -- the task taken was queued, and the rest stays queued
    have hmem : ∀ t', t' ∈ p.run.queue.tail → t' ∈ p.run.queue := fun t' ht' => by
      rw [hq] at ht' ⊢
      exact List.mem_cons_of_mem _ ht'
    refine ⟨⟨hr.outcomes, fun t' ht' => hr.queue t' (hmem t' (by rw [hq]; exact ht'))⟩, ?_⟩
    exact hr.queue _ (by rw [hq]; exact List.mem_cons_self)
  | wait _ ha => exact ⟨hr.congr (by rw [run_of_acquire ha]) (by rw [run_of_acquire ha]), hph⟩
  | join ha hr' =>
    obtain ⟨a', k', -, rfl, hrun⟩ := join_of_lock ha hr'
    rw [hrun]
    refine ⟨RunState.Settled.afterJoin (s := { p.run with committer := k' }) (hr.congr rfl rfl) hph _,
      ?_⟩
    rcases a' with e | ⟨⟩
    · trivial
    · exact hph
  | @commit _ _ _ m rest b a ha hr' =>
    rw [lockStep_run ha hr']
    refine ⟨RunState.Settled.afterCommit
      (s := { p.run with committer := Committer.stateOf (Committer.commit m now p.run.committer) })
      (hr.congr rfl rfl) hph a, ?_⟩
    have hrest : ∀ x ∈ rest, x ∈ planned := fun x hx => hph x (List.mem_cons_of_mem _ hx)
    rcases commitNext_phase m rest b a with h | h | h | h <;> rw [h]
    · trivial
    · trivial
    · exact hrest
    · exact And.intro ⟨m, hph m List.mem_cons_self, .start m⟩ hrest
  | finish => exact ⟨hr, trivial⟩
  | skip _ => exact ⟨hr.skipAll hph, trivial⟩
  | next _ => exact ⟨hr, hph⟩
  | migrated =>
    obtain ⟨⟨q, hq, hmig⟩, hrest⟩ := hph
    exact ⟨hr.record ⟨q, hq, hmig.settles⟩, hrest⟩
  | unissued _ =>
    obtain ⟨⟨q, hq, hmig⟩, hrest⟩ := hph
    exact ⟨hr.congr rfl rfl, And.intro ⟨q, hq, hmig.fail⟩ hrest⟩
  | migrate _ _ =>
    obtain ⟨⟨q, hq, hmig⟩, hrest⟩ := hph
    exact ⟨hr.congr rfl rfl, And.intro ⟨q, hq, hmig.complete (hP q hq).1⟩ hrest⟩
  | jobFailed _ _ =>
    obtain ⟨⟨q, hq, hmig⟩, hrest⟩ := hph
    exact ⟨hr.congr rfl rfl, And.intro ⟨q, hq, hmig.fail⟩ hrest⟩
  | stall _ _ =>
    obtain ⟨⟨q, hq, hmig⟩, hrest⟩ := hph
    exact ⟨hr.congr rfl rfl, And.intro ⟨q, hq, hmig.fail⟩ hrest⟩
  | yield _ => exact ⟨hr.congr rfl rfl, hph⟩
  | expire _ _ => exact ⟨hr.congr rfl rfl, hph⟩
  | sleep _ _ => exact ⟨hr, hph⟩
  | arm _ _ => exact ⟨hr.congr rfl rfl, hph⟩
  | stopped => exact ⟨hr, trivial⟩

/-! ## Runs -/

/-- Along every run, in any order of the workers' steps, the invariant holds. -/
theorem settled_of_moves (hP : PlannedStores planned) (h : Moves now timeout p calls q)
    (hp : p.Settled planned) : q.Settled planned := by
  induction h with
  | refl => exact hp
  | @advance q calls w budget _ ih =>
    obtain ⟨hrun, hph⟩ := settled_of_stepCase (@stepCase now timeout w budget (q.phase w) q) hP
      ih.run (ih.phases w)
    refine ⟨by rw [advance_run]; exact hrun, fun v => ?_⟩
    -- the worker that stepped has the phase its step gave, every other the one it had
    rcases phase_advance q v with hv | hv <;> rw [hv]
    · exact hph
    · exact ih.phases v
  | reschedule _ hs ih =>
    refine ⟨hs.run ▸ ih.run, fun v => ?_⟩
    rw [phase_eq_of_phases hs.phases]
    exact ih.phases v

/-- A run starts with its invariant over a queue of planned movements. -/
theorem settled_start {s : RunState} (workers : Nat) (ho : s.outcomes = [])
    (hq : ∀ t ∈ s.queue, ∀ m ∈ t.movements, m ∈ planned) : (Pool.start s workers).Settled planned where
  run := by
    refine ⟨fun o h => ?_, hq⟩
    rw [show (Pool.start s workers).run = s from rfl, ho] at h
    cases h
  phases v := by
    rw [phase_start]
    split <;> trivial

end Pool

/-! ## The planner -/

section Planner

variable {current target : Topology} {stores : List String} {d p : Movement}

/-- A movement the planner keeps has the requested stores of the planned one, one at least. -/
theorem storesPending_of_selectMovement (h : selectMovement current target stores d = .ok (some p)) :
    p.storesPending = d.storesPending.filter (fun s => stores.contains s) ∧ p.storesPending ≠ [] := by
  obtain ⟨rfl, -, -⟩ := of_selectMovement h
  refine ⟨rfl, fun hnil => ?_⟩
  -- a movement left with no store is dropped
  unfold selectMovement at h
  split at h
  · cases h
  split at h
  · cases h
  have hc : (d.retainStores fun s => stores.contains s).isComplete = true := by
    simp only [Movement.isComplete, hnil, List.isEmpty_nil]
  simp only [hc, if_true] at h
  cases h

/-- A movement with the stealer and donor of a planned one and some of the stores the planner
kept of it, one at least, passes the planner as it is. -/
theorem selectMovement_of_kept {x : Movement} (hd : selectMovement current target stores d = .ok (some p))
    (hs : x.stealer = d.stealer) (hdo : x.donor = d.donor)
    (hsub : x.storesPending.Sublist p.storesPending) (hne : x.storesPending ≠ []) :
    selectMovement current target stores x = .ok (some x) := by
  obtain ⟨rfl, hdon, hst⟩ := of_selectMovement hd
  -- every store of `x` is a requested one, so it keeps them all
  have hkeep : x.retainStores (fun s => stores.contains s) = x := by
    have hall : ∀ s ∈ x.storesPending, stores.contains s = true := fun s hmem =>
      (List.mem_filter.1 (hsub.subset hmem)).2
    unfold Movement.retainStores
    rw [List.filter_eq_self.2 hall]
  have hst' : (!current.containsNode x.stealer && !target.containsNode x.stealer) = false := by
    rcases hst with h | h <;> simp [hs, h]
  have hcomplete : x.isComplete = false := by simpa [Movement.isComplete] using hne
  unfold selectMovement
  simp only [hdo, hdon, hst', Bool.not_true, Bool.false_eq_true, if_false, hkeep, hcomplete]

/-- A successful `mapM` of steps that each succeed is the list of their values. -/
theorem mapM_eq_pure_map {m : Type → Type} [Monad m] [LawfulMonad m] {α β : Type} {f : α → m β}
    {g : α → β} : ∀ {l : List α}, (∀ a ∈ l, f a = pure (g a)) → l.mapM f = pure (l.map g)
  | [], _ => by simp
  | a :: l, h => by
    simp [List.mapM_cons, h a List.mem_cons_self,
      mapM_eq_pure_map fun b hb => h b (List.mem_cons_of_mem _ hb)]

/-- Movements that each pass the planner as they are plan, grouped and listed again, as their
grouping. -/
theorem selectPlan_regroup {ms : List Movement}
    (h : ∀ m ∈ ms, selectMovement current target stores m = .ok (some m)) :
    selectPlan ((groupByStealer ms).flatMap Task.movements) current target stores =
      .ok (groupByStealer ms) := by
  have hmem : ∀ m ∈ (groupByStealer ms).flatMap Task.movements, m ∈ ms := fun m hm => by
    obtain ⟨t, ht, hmt⟩ := List.mem_flatMap.1 hm
    exact mem_of_mem_groupByStealer ht hmt
  have hmap : ((groupByStealer ms).flatMap Task.movements).mapM
      (selectMovement current target stores) =
      pure (((groupByStealer ms).flatMap Task.movements).map some) :=
    mapM_eq_pure_map fun m hm => h m (hmem m hm)
  unfold selectPlan
  rw [hmap]
  simp [List.reduceOption, List.filterMap_map, groupByStealer_flatMap]
  rfl

end Planner

/-- With a store left and an attempt below the limit for every movement not completed, the
movements to retry are those of the outcomes not completed, attempt raised by one. -/
theorem Report.retryTasks_eq {r : Report}
    (h : ∀ o ∈ r.outcomes, o.status ≠ .completed →
      o.movement.storesPending ≠ [] ∧ o.movement.attempt < maxU32) :
    r.retryTasks = .ok (groupByStealer ((r.outcomes.filter fun o => o.status != .completed).map
      fun o => o.movement.setAttempt (o.movement.attempt + 1))) := by
  -- a movement not completed has a store left, so it is pending
  have hpending : (r.outcomes.filter fun o => !o.isSuccess && !o.movement.isComplete) =
      r.outcomes.filter fun o => o.status != .completed := by
    refine List.filter_congr fun o ho => ?_
    by_cases hc : o.status = .completed
    · simp [Outcome.isSuccess, hc]
    · have hb : (o.status == .completed) = false := beq_eq_false_iff_ne.2 hc
      have he : o.movement.storesPending.isEmpty = false := by
        simpa [List.isEmpty_iff] using (h o ho hc).1
      simp only [Outcome.isSuccess, Movement.isComplete, hb, he, bne, Bool.not_false, Bool.and_self]
  have hraise : ((r.outcomes.filter fun o => o.status != .completed).mapM
      fun o => o.movement.nextAttempt) =
      pure ((r.outcomes.filter fun o => o.status != .completed).map
        fun o => o.movement.setAttempt (o.movement.attempt + 1)) := by
    refine mapM_eq_pure_map fun o ho => ?_
    obtain ⟨ho, hc⟩ := List.mem_filter.1 ho
    simp only [Movement.nextAttempt, bump_eq_ok (h o ho (by simpa using hc)).2]
    rfl
  simp only [Report.retryTasks, hpending, hraise]
  rfl

/-! ## The report of a run -/

section Report

variable {c : Cluster} {token : Token} {settings : Settings} {plan : List Movement}
  {current target : Topology} {stores : List String} {now : Int} {r : Report}

/-- A run that gives a report, as its result or inside an abort, had valid settings, a free token
and a plan the planner took. -/
theorem ran_of_report
    (hr : (rebalance c token settings plan current target stores now).result = .ok r ∨
      ∃ e, (rebalance c token settings plan current target stores now).result =
        .error (.aborted r e)) :
    settings.validate = .ok () ∧ token.held = false ∧
      ∃ tasks, selectPlan plan current target stores = .ok tasks := by
  -- every way of stopping before the workers run answers another error
  cases hv : settings.validate with
  | error e => simp [rebalance, hv] at hr
  | ok u =>
    cases hh : token.held with
    | true =>
      cases token
      simp_all [rebalance, Token.acquire]
    | false =>
      cases hp : selectPlan plan current target stores with
      | error e => simp [rebalance, hv, Token.acquire, hh, hp] at hr
      | ok tasks => exact ⟨rfl, rfl, tasks, rfl⟩

/-- The outcomes of the report a run gives are those its workers recorded, then the movements
still queued, skipped. -/
theorem outcomes_of_report {tasks : List Task} (hv : settings.validate = .ok ())
    (ht : token.held = false) (hp : selectPlan plan current target stores = .ok tasks)
    (hr : (rebalance c token settings plan current target stores now).result = .ok r ∨
      ∃ e, (rebalance c token settings plan current target stores now).result =
        .error (.aborted r e)) :
    let s := (runWorkers now settings.timeoutSecs
      (min settings.maxParallel (tasks.length + turnsPerCheck))
      ⟨Committer.make { c with cached := current } settings, target, tasks, false, none, []⟩).run
    r.outcomes = s.outcomes ++ (s.queue.flatMap Task.movements).map fun m => ⟨m, .skipped abortReason⟩ := by
  intro s
  rw [rebalance_result hv ht hp] at hr
  rw [RunState.report_of_result hr]
  rfl

/-- A run with valid settings, a free token and a plan the planner takes gives a report, as its
result or inside an abort. -/
theorem report_of_run {tasks : List Task} (hv : settings.validate = .ok ()) (ht : token.held = false)
    (hp : selectPlan plan current target stores = .ok tasks) :
    ∃ r, (rebalance c token settings plan current target stores now).result = .ok r ∨
      ∃ e, (rebalance c token settings plan current target stores now).result =
        .error (.aborted r e) := by
  rw [rebalance_result hv ht hp]
  exact ⟨_, RunState.result_report _⟩

/-- Every outcome of the report a run gives settles against a movement the planner kept, for a
plan whose movements have no repeated store. -/
theorem settles_of_report {selected : List (Option Movement)}
    (hnd : ∀ d ∈ plan, d.storesPending.Nodup)
    (hsel : plan.mapM (selectMovement current target stores) = .ok selected)
    (hr : (rebalance c token settings plan current target stores now).result = .ok r ∨
      ∃ e, (rebalance c token settings plan current target stores now).result =
        .error (.aborted r e)) :
    ∀ o ∈ r.outcomes, ∃ p ∈ selected.reduceOption, o.Settles p := by
  obtain ⟨hv, ht, -⟩ := ran_of_report hr
  have hp : selectPlan plan current target stores = .ok (groupByStealer selected.reduceOption) := by
    unfold selectPlan
    rw [hsel]
    rfl
  -- the planner keeps of each movement its requested stores, without repeats, one at least
  have hP : PlannedStores selected.reduceOption := fun p hp' => by
    obtain ⟨d, hd, hdp⟩ := mapM_ok_mem hsel (some p) (List.reduceOption_mem_iff.1 hp')
    obtain ⟨hstores, hne⟩ := storesPending_of_selectMovement hdp
    exact ⟨hstores ▸ (hnd d hd).filter _, hne⟩
  obtain ⟨calls, hmoves⟩ := Pool.runWorkers_moves now settings.timeoutSecs
    (min settings.maxParallel ((groupByStealer selected.reduceOption).length + turnsPerCheck))
    ⟨Committer.make { c with cached := current } settings, target,
      groupByStealer selected.reduceOption, false, none, []⟩
  have hfin := Pool.settled_of_moves hP hmoves
    (Pool.settled_start _ rfl fun t ht m hm => mem_of_mem_groupByStealer ht hm)
  rw [outcomes_of_report hv ht hp hr]
  intro o ho
  rcases List.mem_append.1 ho with ho | ho
  · exact hfin.run.outcomes o ho
  · -- a movement left queued is a kept one, skipped with all its stores
    obtain ⟨m, hm, rfl⟩ := List.mem_map.1 ho
    obtain ⟨t, htq, hmt⟩ := List.mem_flatMap.1 hm
    exact ⟨m, hfin.run.queue t htq m hmt, .skipped m _⟩

end Report

/-- An outcome not completed, settled against what the planner kept of a planned movement `d`,
is `d` with only its pending stores changed: the requested stores of `d`, in its order, that were
not migrated, one at least; the failed ones for a failed migration, all of them otherwise. -/
theorem Outcome.Settles.not_completed {current target : Topology} {stores : List String}
    {o : Outcome} {d p : Movement} (hd : selectMovement current target stores d = .ok (some p))
    (h : o.Settles p) (hc : o.status ≠ .completed) :
    o.movement.withoutStores = d.withoutStores ∧ o.movement.storesPending ≠ [] ∧
      o.movement.storesPending.Sublist (d.storesPending.filter fun s => stores.contains s) ∧
      (o.status = .migrationFailed o.movement.storesPending ∨
        o.movement.storesPending = d.storesPending.filter fun s => stores.contains s) := by
  obtain ⟨hstores, hne⟩ := storesPending_of_selectMovement hd
  obtain ⟨rfl, -, -⟩ := of_selectMovement hd
  refine ⟨h.same, h.ne_nil hne hc, h.sublist, ?_⟩
  have hl := h.leaves
  cases hs : o.status with
  | completed => exact absurd hs hc
  | migrationFailed failed =>
    rw [hs] at hl
    exact .inl (by rw [hl.1])
  | commitFailed r =>
    rw [hs] at hl
    exact .inr hl
  | skipped r =>
    rw [hs] at hl
    exact .inr hl

/-- Take a plan of descriptors (movements a run can hold) none of which has the largest 32-bit
attempt, and a run of `rebalance` over it that gives a report `r`, as its result or inside an
abort. The movements to retry are exactly those of the outcomes not completed, attempt raised by
one, grouped by stealer in first-seen order. The movement of each such outcome is a descriptor of
the plan with only its pending stores changed, and those are the requested stores of the
descriptor, in its order, that were not migrated: one at least, the failed ones for a failed
migration and all of them otherwise. Planning the movements to retry again, over the same
topologies and stores, gives back the same tasks. -/
theorem retry_plan_replans_itself (c : Cluster) (token : Token) (settings : Settings)
    (plan : List Movement) (current target : Topology) (stores : List String) (now : Int)
    (hplan : ∀ d ∈ plan, d.Obtained ∧ d.attempt ≠ maxU32) (r : Report)
    (hr : (rebalance c token settings plan current target stores now).result = .ok r ∨
      ∃ e, (rebalance c token settings plan current target stores now).result =
        .error (.aborted r e)) :
    let retry := (r.outcomes.filter fun o => o.status != .completed).map fun o =>
      o.movement.setAttempt (o.movement.attempt + 1)
    r.retryTasks = .ok (groupByStealer retry) ∧
      (∀ o ∈ r.outcomes, o.status ≠ .completed → ∃ d ∈ plan,
        o.movement.withoutStores = d.withoutStores ∧ o.movement.storesPending ≠ [] ∧
        o.movement.storesPending.Sublist (d.storesPending.filter fun s => stores.contains s) ∧
        (o.status = .migrationFailed o.movement.storesPending ∨
          o.movement.storesPending = d.storesPending.filter fun s => stores.contains s)) ∧
      selectPlan ((groupByStealer retry).flatMap Task.movements) current target stores =
        .ok (groupByStealer retry) := by
  intro retry
  obtain ⟨-, -, tasks, hp⟩ := ran_of_report hr
  obtain ⟨selected, hsel⟩ :
      ∃ selected, plan.mapM (selectMovement current target stores) = .ok selected := by
    unfold selectPlan at hp
    cases hk : plan.mapM (selectMovement current target stores) with
    | error e => rw [hk] at hp; cases hp
    | ok kept => exact ⟨kept, rfl⟩
  -- each outcome settles against what the planner kept of a descriptor of the plan
  have hfrom : ∀ o ∈ r.outcomes, ∃ d ∈ plan, ∃ p,
      selectMovement current target stores d = .ok (some p) ∧ o.Settles p := by
    intro o ho
    obtain ⟨p, hp', hs⟩ :=
      settles_of_report (fun d hd => (hplan d hd).1.wellFormed.stores) hsel hr o ho
    obtain ⟨d, hd, hdp⟩ := mapM_ok_mem hsel (some p) (List.reduceOption_mem_iff.1 hp')
    exact ⟨d, hd, p, hdp, hs⟩
  have hout : ∀ o ∈ r.outcomes, o.status ≠ .completed → ∃ d ∈ plan,
      o.movement.withoutStores = d.withoutStores ∧ o.movement.storesPending ≠ [] ∧
      o.movement.storesPending.Sublist (d.storesPending.filter fun s => stores.contains s) ∧
      (o.status = .migrationFailed o.movement.storesPending ∨
        o.movement.storesPending = d.storesPending.filter fun s => stores.contains s) := by
    intro o ho hc
    obtain ⟨d, hd, p, hdp, hs⟩ := hfrom o ho
    exact ⟨d, hd, hs.not_completed hdp hc⟩
  refine ⟨Report.retryTasks_eq fun o ho hc => ?_, hout, selectPlan_regroup fun x hx => ?_⟩
  · -- the run keeps the descriptor's attempt, which is below the largest
    obtain ⟨d, hd, hsame, hne, -, -⟩ := hout o ho hc
    have hatt : o.movement.withoutStores.attempt = d.withoutStores.attempt :=
      congrArg Movement.attempt hsame
    have hle : d.attempt ≤ maxU32 := (hplan d hd).1.wellFormed.attempt
    exact ⟨hne, by have := (hplan d hd).2; simp only [Movement.withoutStores] at hatt; omega⟩
  · obtain ⟨o, hof, rfl⟩ := List.mem_map.1 hx
    obtain ⟨ho, hc⟩ := List.mem_filter.1 hof
    have hc : o.status ≠ .completed := by simpa using hc
    obtain ⟨d, -, p, hdp, hs⟩ := hfrom o ho
    obtain ⟨hsame, hne, -⟩ := hs.not_completed hdp hc
    -- the stealer and donor are the descriptor's, the stores some of those kept
    have hst : o.movement.withoutStores.stealer = d.withoutStores.stealer :=
      congrArg Movement.stealer hsame
    have hdo : o.movement.withoutStores.donor = d.withoutStores.donor :=
      congrArg Movement.donor hsame
    exact selectMovement_of_kept hdp hst hdo hs.sublist hne

/-- Nodes 0 and 1, partitions 0 to 2 on the first and 4 and 5 on the second. -/
def retryTopology : Topology :=
  ⟨"t", [⟨0, "a", 1, 2, 3, [0, 1, 2]⟩, ⟨1, "b", 1, 2, 3, [4, 5]⟩], List.pairwise_pair.2 Nat.zero_lt_one⟩

/-- Two descriptors between the nodes, over two stores and one store. -/
def retrySamplePlan : List Movement :=
  [⟨1, 0, KeyMap.empty.insert 0 [2], KeyMap.empty, ["users", "carts"], 0, retryTopology⟩,
    ⟨0, 1, KeyMap.empty.insert 0 [4], KeyMap.empty.insert 1 [5], ["carts"], 7, retryTopology⟩]

theorem sample_plan_replans_itself :
    (∀ d ∈ retrySamplePlan, d.Obtained ∧ d.attempt ≠ maxU32) ∧
      ∃ r, ((rebalance (Cluster.make retryTopology) Token.free Settings.defaults retrySamplePlan
          retryTopology retryTopology ["users", "carts"] 0).result = .ok r ∨
        ∃ e, (rebalance (Cluster.make retryTopology) Token.free Settings.defaults retrySamplePlan
          retryTopology retryTopology ["users", "carts"] 0).result = .error (.aborted r e)) ∧
      let retry := (r.outcomes.filter fun o => o.status != .completed).map fun o =>
        o.movement.setAttempt (o.movement.attempt + 1)
      r.retryTasks = .ok (groupByStealer retry) ∧
        (∀ o ∈ r.outcomes, o.status ≠ .completed → ∃ d ∈ retrySamplePlan,
          o.movement.withoutStores = d.withoutStores ∧ o.movement.storesPending ≠ [] ∧
          o.movement.storesPending.Sublist
            (d.storesPending.filter fun s => ["users", "carts"].contains s) ∧
          (o.status = .migrationFailed o.movement.storesPending ∨
            o.movement.storesPending = d.storesPending.filter fun s => ["users", "carts"].contains s)) ∧
        selectPlan ((groupByStealer retry).flatMap Task.movements) retryTopology retryTopology
          ["users", "carts"] = .ok (groupByStealer retry) := by
  have hempty : Movement.TiersInRange KeyMap.empty := fun _ _ h => by simp at h
  -- both descriptors are built by make
  have hmk₁ : Movement.make 1 0 (KeyMap.empty.insert 0 [2]) KeyMap.empty ["users", "carts"]
      retryTopology 0 =
      .ok ⟨1, 0, KeyMap.empty.insert 0 [2], KeyMap.empty, ["users", "carts"], 0, retryTopology⟩ := rfl
  have hmk₂ : Movement.make 0 1 (KeyMap.empty.insert 0 [4]) (KeyMap.empty.insert 1 [5]) ["carts"]
      retryTopology 7 =
      .ok ⟨0, 1, KeyMap.empty.insert 0 [4], KeyMap.empty.insert 1 [5], ["carts"], 7, retryTopology⟩ :=
    rfl
  have hplan : ∀ d ∈ retrySamplePlan, d.Obtained ∧ d.attempt ≠ maxU32 := by
    simp only [retrySamplePlan, List.mem_cons, List.not_mem_nil, or_false, forall_eq_or_imp,
      forall_eq]
    exact ⟨⟨.make (by decide) (by decide) (by decide)
        (Movement.tiersInRange_insert hempty (by decide) (by decide)) hempty hmk₁, by decide⟩,
      ⟨.make (by decide) (by decide) (by decide)
        (Movement.tiersInRange_insert hempty (by decide) (by decide))
        (Movement.tiersInRange_insert hempty (by decide) (by decide)) hmk₂, by decide⟩⟩
  obtain ⟨r, hr⟩ := @report_of_run (Cluster.make retryTopology) Token.free Settings.defaults
    retrySamplePlan retryTopology retryTopology ["users", "carts"] 0 _ rfl rfl rfl
  exact ⟨hplan, r, hr, retry_plan_replans_itself _ _ _ _ _ _ _ _ hplan r hr⟩

end Rebalance

import Rebalance.Proofs.RetryPlan
/-!
# Grouping and selecting a plan

Grouping a plan by stealer is a stable partition. The tasks' stealers are the plan's stealers
without repeats, each where it first appears (`List.eraseDups`). Each task lists exactly its
stealer's movements, in plan order. Together the tasks list the plan's movements once each, so
their concatenation is a rearrangement of the plan, and grouping that concatenation again gives
the same tasks (`groupByStealer_stable_partition`).

The grouping is a loop over the plan: a movement joins the first task of its stealer, or opens
a task at the end. Its invariant, that after each prefix of the plan the tasks are the prefix's
stable partition (`groupByStealer_eq`, by induction over the loop's steps
`groupByStealer_append_singleton`), is what the statements here are read from.

Selecting a plan for a run answers for the plan as a whole what the first movement that fails a
check makes it answer (`selectPlan_refuses_first_else_groups`). A movement fails when its donor
is not in the current topology, or when its stealer is in neither topology. The first such
movement decides the error, even one that the store filter would drop. When none fails, each
movement is cut down to the requested stores, a movement left with none is dropped, and the
rest are grouped. A kept movement is its planned self with fewer stores, and nothing else
changes.
-/

namespace Rebalance

/-! ## Grouping by stealer -/

section Group

variable {ms : List Movement}

/-- One run per stealer, the stealers distinct and covering every movement, together list the
movements once each. -/
theorem flatMap_filter_stealer_perm {l : List Nat} (hnd : l.Nodup)
    (hcover : ∀ m ∈ ms, m.stealer ∈ l) :
    (l.flatMap fun x => ms.filter (·.stealer == x)).Perm ms := by
  induction l generalizing ms with
  | nil =>
    have hms : ms = [] := List.eq_nil_iff_forall_not_mem.2 fun m hm => by
      simpa using hcover m hm
    simp [hms]
  | cons x l ih =>
    obtain ⟨hx, hl⟩ := List.nodup_cons.1 hnd
    -- the later runs are taken from the movements of the other stealers
    have hrest : (l.flatMap fun y => ms.filter (·.stealer == y)) =
        l.flatMap fun y => (ms.filter fun m => !(m.stealer == x)).filter (·.stealer == y) := by
      refine List.flatMap_congr fun y hy => ?_
      rw [List.filter_filter]
      refine List.filter_congr fun m _ => ?_
      have hyx : y ≠ x := fun h => hx (h ▸ hy)
      by_cases hmy : m.stealer = y
      · simp [hmy, hyx]
      · simp [hmy]
    have hcover' : ∀ m ∈ ms.filter (fun m => !(m.stealer == x)), m.stealer ∈ l := by
      intro m hm
      obtain ⟨hm, hne⟩ := List.mem_filter.1 hm
      rcases List.mem_cons.1 (hcover m hm) with h | h
      · simp [h] at hne
      · exact h
    rw [List.flatMap_cons, hrest]
    exact ((ih hl hcover').append_left _).trans (List.filter_append_perm _ ms)

/-- Grouping by stealer is a stable partition: the stealers come without repeats in the order
they first appear, each task holds exactly its stealer's movements in plan order, the tasks
together rearrange the plan, and grouping them again changes nothing. -/
theorem groupByStealer_stable_partition (ds : List Movement) :
    (groupByStealer ds).map Task.stealer = (ds.map Movement.stealer).eraseDups ∧
      ((groupByStealer ds).map Task.stealer).Nodup ∧
      (∀ t ∈ groupByStealer ds, t.movements = ds.filter (·.stealer == t.stealer)) ∧
      ((groupByStealer ds).flatMap Task.movements).Perm ds ∧
      groupByStealer ((groupByStealer ds).flatMap Task.movements) = groupByStealer ds := by
  refine ⟨by rw [stealers_groupByStealer, firstOccurrences_eq_eraseDups],
    nodup_stealers_groupByStealer ds, fun t ht => ?_, ?_, groupByStealer_flatMap ds⟩
  · obtain ⟨s, -, rfl⟩ := mem_groupByStealer.1 ht
    rfl
  · rw [flatMap_groupByStealer]
    exact flatMap_filter_stealer_perm (nodup_firstOccurrences _) fun m hm =>
      mem_firstOccurrences.2 (List.mem_map_of_mem hm)

/-- A movement of one store from `donor` to `stealer`, planned on an empty topology. -/
def plannedMove (stealer donor : Nat) : Movement :=
  ⟨stealer, donor, KeyMap.empty, KeyMap.empty, ["s"], 0, Topology.empty "t"⟩

/-- Stealers 2, 1, 2 in turn. -/
def interleavedPlan : List Movement := [plannedMove 2 0, plannedMove 1 0, plannedMove 2 1]

/-- Stealer 2 comes first and its task has both its movements in plan order. -/
theorem interleaved_plan_groups :
    (groupByStealer interleavedPlan).map Task.stealer = [2, 1] ∧
      (⟨2, [plannedMove 2 0, plannedMove 2 1]⟩ : Task) ∈ groupByStealer interleavedPlan ∧
      [plannedMove 2 0, plannedMove 2 1] = interleavedPlan.filter (·.stealer == 2) := by
  have h := groupByStealer_stable_partition interleavedPlan
  have hmem : (⟨2, [plannedMove 2 0, plannedMove 2 1]⟩ : Task) ∈
      groupByStealer interleavedPlan := List.mem_cons_self
  exact ⟨h.1.trans (by decide), hmem, h.2.2.1 _ hmem⟩

end Group

/-! ## Selecting a plan -/

namespace Movement

/-- Whether the planner refuses the movement for a run from `current` to `target`: its donor is
not in the current topology, or its stealer is in neither topology. -/
def refusedBy (current target : Topology) (m : Movement) : Bool :=
  !current.containsNode m.donor ||
    !(current.containsNode m.stealer || target.containsNode m.stealer)

/-- The error for a refused movement; a donor missing from the current topology is reported
before a stealer in neither topology. -/
def refusal (current : Topology) (m : Movement) : PlanError :=
  if current.containsNode m.donor then .stealerUnknown m.stealer m.render
  else .donorNotCurrent m.donor m.render

/-- The movement with only those of its pending stores that are among `stores`, in their order;
nothing when none is left. -/
def restrictTo (stores : List String) (m : Movement) : Option Movement :=
  let kept := m.storesPending.filter (· ∈ stores)
  if kept = [] then none else some { m with storesPending := kept }

end Movement

section Select

variable (current target : Topology) (stores : List String)

/-- The planner's answer for one movement: the refusal, or the movement restricted to the
requested stores. -/
theorem selectMovement_eq (m : Movement) :
    selectMovement current target stores m =
      if m.refusedBy current target then .error (m.refusal current)
      else .ok (m.restrictTo stores) := by
  have hkeep : (m.retainStores fun s => stores.contains s) =
      { m with storesPending := m.storesPending.filter (· ∈ stores) } := by
    simp [Movement.retainStores]
  simp only [selectMovement, hkeep, Movement.refusedBy, Movement.refusal, Movement.restrictTo]
  by_cases hd : current.containsNode m.donor = true <;>
    by_cases hs : current.containsNode m.stealer = true <;>
    by_cases ht : target.containsNode m.stealer = true <;> simp [hd, hs, ht, Movement.isComplete]

/-- Checking the movements one after the other stops at the first refused one. -/
theorem mapM_selectMovement (ds : List Movement) :
    ds.mapM (selectMovement current target stores) =
      (ds.find? (·.refusedBy current target)).elim (.ok (ds.map (·.restrictTo stores)))
        fun d => .error (d.refusal current) := by
  induction ds with
  | nil => rfl
  | cons d ds ih =>
    rw [List.mapM_cons, selectMovement_eq, List.find?_cons]
    cases hr : d.refusedBy current target with
    | true => rfl
    | false =>
      simp only [if_false, Bool.false_eq_true, ih]
      cases ds.find? (·.refusedBy current target) <;> rfl

/-- Selecting a plan refuses it for the first movement that fails a check, its donor missing
from the current topology or its stealer in neither topology, whether or not the store filter
would keep that movement. When no movement fails, the tasks group the movements that keep some
requested store, in plan order, each being its planned self with only its requested stores. -/
theorem selectPlan_refuses_first_else_groups (ds : List Movement) :
    selectPlan ds current target stores =
      (ds.find? (·.refusedBy current target)).elim
        (.ok (groupByStealer (ds.filterMap (·.restrictTo stores))))
        fun d => .error (d.refusal current) := by
  unfold selectPlan
  rw [mapM_selectMovement]
  cases ds.find? (·.refusedBy current target) with
  | none => simp [List.reduceOption, List.filterMap_map]
  | some d => rfl

end Select

end Rebalance

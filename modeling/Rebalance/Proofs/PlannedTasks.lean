import Mathlib.Data.List.Induction
import Mathlib.Data.List.ReduceOption
import Rebalance.Proofs.AbortedRun
/-!
# The tasks a plan gives a run

`selectPlan` checks each movement against the current and target topologies and groups the
movements it keeps into one task per stealer. The grouping is a loop over the movements: each
joins the first task of its stealer, or opens one at the end (`Task.add`). Its invariant is that
after each prefix of the plan the tasks are the stable partition of that prefix by stealer
(`stealerRuns`): the step is `stealerRuns_append_singleton`, the whole loop `groupByStealer_eq`.
The facts the run's invariants start from:

* the tasks' stealers are distinct (`nodup_stealers_groupByStealer`), and every movement of a
  task has the task's stealer (`stealer_of_mem_groupByStealer`), so no two workers ever hold
  movements of one stealer;
* the tasks list each stealer's movements in plan order, the stealers as they first come
  (`flatMap_groupByStealer`), so taking one stealer's movements from them gives its movements
  of the plan (`filter_flatMap_filter`);
* every task the planner gives is admitted (`admitted_of_selectPlan`): its stealer is in the
  current or the target topology, and each of its movements has a donor in the current
  topology, given that each movement of the plan, as `Movement.make` builds them all, has a
  stealer other than its donor.

`Phase.held` is what a worker holds of its task: the movements it has taken from the queue and
not yet recorded. A step that takes the lock calls the committer on the run as it was and
records its answer on the committer the call left (`answer_of_lock`, `lockStep_run`).
-/

namespace Rebalance

/-! ## First occurrences -/

section FirstOccurrences

variable {α : Type} [BEq α] [LawfulBEq α]

theorem mem_firstOccurrences_go (a : α) :
    ∀ (seen l : List α), a ∈ firstOccurrences.go seen l ↔ a ∈ l ∧ a ∉ seen
  | _, [] => by simp [firstOccurrences.go]
  | seen, b :: rest => by
    have ih := mem_firstOccurrences_go a seen rest
    have ih' := mem_firstOccurrences_go a (b :: seen) rest
    unfold firstOccurrences.go
    by_cases hb : b ∈ seen
    · -- a repeat is dropped, and it cannot be the element asked about
      simp only [List.contains_iff_mem, hb, if_true, ih, List.mem_cons]
      constructor
      · exact fun h => ⟨.inr h.1, h.2⟩
      · rintro ⟨rfl | h, hs⟩
        · exact absurd hb hs
        · exact ⟨h, hs⟩
    · simp only [List.contains_iff_mem, hb, if_false, List.mem_cons, ih',
        not_or]
      constructor
      · rintro (rfl | ⟨h, -, hs⟩)
        · exact ⟨.inl rfl, hb⟩
        · exact ⟨.inr h, hs⟩
      · rintro ⟨rfl | h, hs⟩
        · exact .inl rfl
        · by_cases hab : a = b
          · exact .inl hab
          · exact .inr ⟨h, hab, hs⟩

theorem nodup_firstOccurrences_go : ∀ (seen l : List α), (firstOccurrences.go seen l).Nodup
  | _, [] => List.nodup_nil
  | seen, b :: rest => by
    unfold firstOccurrences.go
    by_cases hb : b ∈ seen
    · simp only [List.contains_iff_mem, hb, if_true]
      exact nodup_firstOccurrences_go seen rest
    · simp only [List.contains_iff_mem, hb, if_false]
      -- what follows `b` never repeats it, since `b` is then among the seen ones
      refine List.nodup_cons.2 ⟨fun h => ?_, nodup_firstOccurrences_go (b :: seen) rest⟩
      exact ((mem_firstOccurrences_go b (b :: seen) rest).1 h).2 List.mem_cons_self

@[simp] theorem mem_firstOccurrences {l : List α} {a : α} : a ∈ firstOccurrences l ↔ a ∈ l := by
  simp [firstOccurrences, mem_firstOccurrences_go]

theorem nodup_firstOccurrences (l : List α) : (firstOccurrences l).Nodup :=
  nodup_firstOccurrences_go [] l

theorem firstOccurrences_go_of_nodup :
    ∀ {seen l : List α}, l.Nodup → (∀ a ∈ l, a ∉ seen) → firstOccurrences.go seen l = l
  | _, [], _, _ => rfl
  | seen, b :: rest, hd, hs => by
    obtain ⟨hb, hrest⟩ := List.nodup_cons.1 hd
    unfold firstOccurrences.go
    simp only [List.contains_iff_mem, hs b List.mem_cons_self, if_false]
    -- `b` joins the seen ones, and no later element is `b`
    refine congrArg _ (firstOccurrences_go_of_nodup hrest fun a ha => ?_)
    simp only [List.mem_cons, not_or]
    exact ⟨fun h => hb (h ▸ ha), hs a (List.mem_cons_of_mem _ ha)⟩

/-- A list without repeats is its own first occurrences. -/
theorem firstOccurrences_of_nodup {l : List α} (hd : l.Nodup) : firstOccurrences l = l :=
  firstOccurrences_go_of_nodup hd fun _ _ => List.not_mem_nil

omit [LawfulBEq α] in
theorem firstOccurrences_go_eq_eraseDups (seen l : List α) :
    firstOccurrences.go seen l = (l.filter fun a => !seen.contains a).eraseDups := by
  induction l generalizing seen with
  | nil => rfl
  | cons a rest ih =>
    unfold firstOccurrences.go
    by_cases ha : seen.contains a = true
    · simp only [ha, if_true, List.filter_cons, Bool.not_true, Bool.false_eq_true, if_false, ih]
    · -- `a` is kept, and the rest drops its repeats as if `a` had been seen before
      simp only [ha, Bool.false_eq_true, if_false, List.filter_cons, Bool.not_false, if_true,
        List.eraseDups_cons, ih, List.filter_filter, List.contains_cons]
      congr 2
      exact List.filter_congr fun b _ => by rw [Bool.not_or]

/-- Keeping first occurrences is the library's removal of repeats. -/
theorem firstOccurrences_eq_eraseDups (l : List α) : firstOccurrences l = l.eraseDups := by
  simp [firstOccurrences, firstOccurrences_go_eq_eraseDups]

end FirstOccurrences

/-- A value seen before adds no first occurrence; a new one is the last first occurrence. -/
theorem firstOccurrences_append_singleton (l : List Nat) (a : Nat) :
    firstOccurrences (l ++ [a]) =
      if a ∈ l then firstOccurrences l else firstOccurrences l ++ [a] := by
  simp only [firstOccurrences_eq_eraseDups, List.eraseDups_append]
  by_cases ha : a ∈ l
  · have hnil : [a].removeAll l = [] := by simp [List.removeAll, ha]
    simp [ha, hnil]
  · have hself : [a].removeAll l = [a] := by simp [List.removeAll, ha]
    simp [ha, hself, List.eraseDups_cons]

/-! ## Tasks per stealer -/

section Group

variable {ms : List Movement} {t : Task}

/-- The stable partition of movements by stealer: the stealers in the order they first come,
each with its movements in plan order. -/
def stealerRuns (ms : List Movement) : List Task :=
  (firstOccurrences (ms.map Movement.stealer)).map fun s => ⟨s, ms.filter (·.stealer == s)⟩

theorem stealers_stealerRuns (ms : List Movement) :
    (stealerRuns ms).map Task.stealer = firstOccurrences (ms.map Movement.stealer) := by
  simp [stealerRuns, Function.comp_def]

/-- Among tasks of distinct stealers, adding a movement puts it at the end of its stealer's task
and keeps every other task, or opens a task at the end when none has the stealer. -/
theorem Task.add_of_nodup (m : Movement) {ts : List Task} (hnd : (ts.map Task.stealer).Nodup) :
    Task.add m ts = if m.stealer ∈ ts.map Task.stealer then
        ts.map fun t => if t.stealer = m.stealer then ⟨t.stealer, t.movements ++ [m]⟩ else t
      else ts ++ [⟨m.stealer, [m]⟩] := by
  induction ts with
  | nil => rfl
  | cons t ts ih =>
    rw [List.map_cons, List.nodup_cons] at hnd
    obtain ⟨ht, hnd'⟩ := hnd
    by_cases hs : t.stealer = m.stealer
    · -- the first task is the stealer's, so no later one is
      have hsame : ∀ u ∈ ts, (if u.stealer = m.stealer then
          (⟨u.stealer, u.movements ++ [m]⟩ : Task) else u) = id u := by
        intro u hu
        refine if_neg fun hu' => ht ?_
        rw [hs, ← hu']
        exact List.mem_map_of_mem hu
      simp [Task.add, hs, List.map_congr_left hsame]
    · rw [Task.add, if_neg hs, ih hnd']
      by_cases hm : m.stealer ∈ ts.map Task.stealer
      · simp [hm, hs]
      · simp [hm, Ne.symm hs]

/-- One more movement in the stable partition: it joins the run of its stealer when there is
one, and opens a run at the end otherwise. -/
theorem stealerRuns_append_singleton (ds : List Movement) (d : Movement) :
    stealerRuns (ds ++ [d]) =
      if d.stealer ∈ ds.map Movement.stealer then
        (stealerRuns ds).map fun t =>
          if t.stealer = d.stealer then ⟨t.stealer, t.movements ++ [d]⟩ else t
      else stealerRuns ds ++ [⟨d.stealer, [d]⟩] := by
  unfold stealerRuns
  rw [List.map_append, List.map_singleton, firstOccurrences_append_singleton]
  by_cases hd : d.stealer ∈ ds.map Movement.stealer
  · -- the stealer's run gets the movement at its end, every other run stays
    rw [if_pos hd, if_pos hd, List.map_map]
    refine List.map_congr_left fun s _ => ?_
    by_cases hs : s = d.stealer
    · simp [hs]
    · simp [hs, Ne.symm hs]
  · -- no run has the stealer yet, so no earlier movement joins the new one
    have hnone : ds.filter (·.stealer == d.stealer) = [] :=
      List.filter_eq_nil_iff.2 fun m hm h => hd (by simpa using ⟨m, hm, by simpa using h⟩)
    rw [if_neg hd, if_neg hd, List.map_append, List.map_singleton, List.filter_append, hnone]
    refine congrArg₂ _ (List.map_congr_left fun s hs => ?_) (by simp)
    have hne : s ≠ d.stealer := fun h => hd (h ▸ mem_firstOccurrences.1 hs)
    simp [Ne.symm hne]

/-- The grouping loop's step: grouping one more movement adds it to the tasks grouped so far. -/
theorem groupByStealer_append_singleton (ds : List Movement) (d : Movement) :
    groupByStealer (ds ++ [d]) = Task.add d (groupByStealer ds) := by
  simp [groupByStealer, List.foldl_append]

/-- The grouping loop builds the stable partition: after each prefix of the movements, its tasks
are the prefix's runs per stealer. The induction follows the loop, one movement at a time. -/
theorem groupByStealer_eq (ms : List Movement) : groupByStealer ms = stealerRuns ms := by
  induction ms using List.reverseRecOn with
  | nil => rfl
  | append_singleton ds d ih =>
    have hnd : ((stealerRuns ds).map Task.stealer).Nodup := by
      rw [stealers_stealerRuns]
      exact nodup_firstOccurrences _
    rw [groupByStealer_append_singleton, ih, Task.add_of_nodup d hnd, stealers_stealerRuns,
      stealerRuns_append_singleton]
    simp only [mem_firstOccurrences]

theorem mem_groupByStealer :
    t ∈ groupByStealer ms ↔ ∃ s ∈ ms.map Movement.stealer, t = ⟨s, ms.filter (·.stealer == s)⟩ := by
  simp only [groupByStealer_eq, stealerRuns, List.mem_map, mem_firstOccurrences]
  constructor
  · rintro ⟨s, hs, rfl⟩
    exact ⟨s, hs, rfl⟩
  · rintro ⟨s, hs, rfl⟩
    exact ⟨s, hs, rfl⟩

/-- Every movement of a task has the task's stealer. -/
theorem stealer_of_mem_groupByStealer (ht : t ∈ groupByStealer ms) {m : Movement}
    (hm : m ∈ t.movements) : m.stealer = t.stealer := by
  obtain ⟨s, -, rfl⟩ := mem_groupByStealer.1 ht
  simpa using (List.mem_filter.1 hm).2

/-- A task's stealer is the stealer of one of its movements. -/
theorem exists_movement_of_mem_groupByStealer (ht : t ∈ groupByStealer ms) :
    ∃ m ∈ t.movements, m ∈ ms ∧ m.stealer = t.stealer := by
  obtain ⟨s, hs, rfl⟩ := mem_groupByStealer.1 ht
  obtain ⟨m, hm, rfl⟩ := List.mem_map.1 hs
  exact ⟨m, List.mem_filter.2 ⟨hm, by simp⟩, hm, rfl⟩

theorem mem_of_mem_groupByStealer (ht : t ∈ groupByStealer ms) {m : Movement}
    (hm : m ∈ t.movements) : m ∈ ms := by
  obtain ⟨s, -, rfl⟩ := mem_groupByStealer.1 ht
  exact (List.mem_filter.1 hm).1

/-- The tasks' stealers are the movements' stealers, each kept where it first comes. -/
theorem stealers_groupByStealer (ms : List Movement) :
    (groupByStealer ms).map Task.stealer = firstOccurrences (ms.map Movement.stealer) := by
  rw [groupByStealer_eq, stealers_stealerRuns]

/-- No two tasks have the same stealer. -/
theorem nodup_stealers_groupByStealer (ms : List Movement) :
    ((groupByStealer ms).map Task.stealer).Nodup := by
  rw [stealers_groupByStealer]
  exact nodup_firstOccurrences (ms.map Movement.stealer)

/-- Grouped movements list each stealer's movements, the stealers in first-seen order. -/
theorem flatMap_groupByStealer (ms : List Movement) :
    (groupByStealer ms).flatMap Task.movements =
      (firstOccurrences (ms.map Movement.stealer)).flatMap fun x => ms.filter (·.stealer == x) := by
  simp [groupByStealer_eq, stealerRuns, List.flatMap_map]

/-- A stealer's movements among runs of distinct stealers' movements are its own, when its run is
among them. -/
theorem filter_flatMap_filter (ms : List Movement) (s : Nat) :
    ∀ {l : List Nat}, l.Nodup →
      (l.flatMap fun x => ms.filter (·.stealer == x)).filter (·.stealer == s) =
        if s ∈ l then ms.filter (·.stealer == s) else []
  | [], _ => rfl
  | x :: l, hnd => by
    obtain ⟨hx, hl⟩ := List.nodup_cons.1 hnd
    rw [List.flatMap_cons, List.filter_append, filter_flatMap_filter ms s hl, List.filter_filter]
    by_cases hxs : x = s
    · subst hxs
      simp [hx]
    · -- another stealer's run counts for nothing
      have hnil : ms.filter (fun m => m.stealer == s && m.stealer == x) = [] :=
        List.filter_eq_nil_iff.2 fun m _ h => by
          simp only [Bool.and_eq_true, beq_iff_eq] at h
          exact hxs (h.2.symm.trans h.1)
      simp [hnil, Ne.symm hxs]

end Group

/-! ## The planner's checks -/

/-- Every value a successful `mapM` gives is the answer for some element. -/
theorem mapM_ok_mem {α β ε : Type} {f : α → Except ε β} :
    ∀ {l : List α} {r : List β}, l.mapM f = .ok r → ∀ b ∈ r, ∃ a ∈ l, f a = .ok b
  | [], r, h => by
    simp only [List.mapM_nil] at h
    cases h
    intro b hb
    cases hb
  | a :: l, r, h => by
    rw [List.mapM_cons] at h
    cases hfa : f a with
    | error e =>
      rw [hfa] at h
      cases h
    | ok b =>
      rw [hfa] at h
      cases hl : l.mapM f with
      | error e =>
        rw [hl] at h
        cases h
      | ok bs =>
        rw [hl] at h
        cases h
        intro c hc
        rcases List.mem_cons.1 hc with rfl | hc
        · exact ⟨a, List.mem_cons_self, hfa⟩
        · obtain ⟨a', ha', hfa'⟩ := mapM_ok_mem hl c hc
          exact ⟨a', List.mem_cons_of_mem _ ha', hfa'⟩

/-- A task a run can be given, from `current` towards `target`: its stealer is in one of the two
topologies, and each of its movements has the task's stealer, a donor in the current topology and
a stealer other than its donor. -/
structure Task.Admitted (current target : Topology) (t : Task) : Prop where
  stealer : current.containsNode t.stealer = true ∨ target.containsNode t.stealer = true
  movements : ∀ m ∈ t.movements,
    m.stealer = t.stealer ∧ current.containsNode m.donor = true ∧ m.stealer ≠ m.donor

/-- A movement the planner keeps is the movement with only the requested stores, and its donor
is in the current topology and its stealer in one of the two. -/
theorem of_selectMovement {current target : Topology} {stores : List String} {m m' : Movement}
    (h : selectMovement current target stores m = .ok (some m')) :
    m' = m.retainStores (fun s => stores.contains s) ∧ current.containsNode m.donor = true ∧
      (current.containsNode m.stealer = true ∨ target.containsNode m.stealer = true) := by
  unfold selectMovement at h
  by_cases hd : current.containsNode m.donor = true
  · by_cases hs : current.containsNode m.stealer = true ∨ target.containsNode m.stealer = true
    · have hs' : (!current.containsNode m.stealer && !target.containsNode m.stealer) = false := by
        rcases hs with hs | hs <;> simp [hs]
      simp only [hd, Bool.not_true, Bool.false_eq_true, if_false, hs'] at h
      split at h
      · cases h
      · cases h
        exact ⟨rfl, hd, hs⟩
    · have hs' : (!current.containsNode m.stealer && !target.containsNode m.stealer) = true := by
        simp only [not_or, Bool.not_eq_true] at hs
        simp [hs.1, hs.2]
      simp [hd, hs'] at h
  · simp [hd] at h

/-- Every task of a plan is admitted, provided every movement of the plan has a stealer other
than its donor, as `Movement.make` ensures. -/
theorem admitted_of_selectPlan {plan : List Movement} {current target : Topology}
    {stores : List String} {tasks : List Task} (hp : selectPlan plan current target stores = .ok tasks)
    (hne : ∀ m ∈ plan, m.stealer ≠ m.donor) : ∀ t ∈ tasks, t.Admitted current target := by
  unfold selectPlan at hp
  cases hk : plan.mapM (selectMovement current target stores) with
  | error e =>
    rw [hk] at hp
    cases hp
  | ok kept =>
    rw [hk] at hp
    cases hp
    -- each movement kept comes from one movement of the plan, with stealer and donor unchanged
    have hsel : ∀ m' ∈ kept.reduceOption, ∃ m ∈ plan, m'.stealer = m.stealer ∧
        m'.donor = m.donor ∧ current.containsNode m.donor = true ∧
        (current.containsNode m.stealer = true ∨ target.containsNode m.stealer = true) := by
      intro m' hm'
      have hsome : some m' ∈ kept := List.reduceOption_mem_iff.1 hm'
      obtain ⟨m, hm, hsm⟩ := mapM_ok_mem hk (some m') hsome
      obtain ⟨rfl, hd, hs⟩ := of_selectMovement hsm
      exact ⟨m, hm, rfl, rfl, hd, hs⟩
    intro t ht
    refine ⟨?_, fun m' hm' => ?_⟩
    · obtain ⟨m', hm', hk', hst⟩ := exists_movement_of_mem_groupByStealer ht
      obtain ⟨m, -, hs, -, -, hcur⟩ := hsel m' hk'
      rw [← hst, hs]
      exact hcur
    · obtain ⟨m, hm, hs, hd, hdon, -⟩ := hsel m' (mem_of_mem_groupByStealer ht hm')
      refine ⟨stealer_of_mem_groupByStealer ht hm', by rw [hd]; exact hdon, ?_⟩
      rw [hs, hd]
      exact hne m hm

/-! ## What a worker holds -/

/-- The movements a worker in this phase holds: those of its task it has taken from the queue
and not yet recorded, the one it works on first. -/
def Phase.held : Phase → List Movement
  | .joining t => t.movements
  | .moving ms => ms
  | .committing m rest => m :: rest
  | .migrating m rest _ _ => m :: rest
  | .waiting m rest _ _ _ _ => m :: rest
  | .idle => []
  | .stopped => []

namespace Pool

variable {p q r : Pool} {w budget b : Nat} {α : Type} {x : CommitM α} {a : Option α}

/-- A step with the lock gets the answer of the committer call on the run it started from. -/
theorem answer_of_lock (ha : p.acquire w budget = (some b, q)) (hr : q.commitStep x = (a, r)) :
    a = Committer.answerOf (x p.run.committer) := by
  obtain ⟨-, -, rfl⟩ := acquire_eq_some ha
  rw [commitStep_eq] at hr
  exact (Prod.mk.inj hr).1.symm

/-- A step with the lock records what it records on the committer its call left. -/
theorem lockStep_run (ha : p.acquire w budget = (some b, q)) (hr : q.commitStep x = (a, r))
    (f : RunState → RunState) :
    (r.release.onRun f).run =
      f { p.run with committer := Committer.stateOf (x p.run.committer) } := by
  rw [lockStep_eq ha hr]
  simp [onRun]

/-- A joining step with the lock: `ensureNode` answers, and the run records the answer on the
committer it left. -/
theorem join_of_lock {node : Nat} {a : Option (Except RunError Unit)}
    (ha : p.acquire w budget = (some b, q))
    (hr : q.commitStep (Committer.ensureNode q.run.target node) = (a, r)) :
    ∃ a' k', Committer.ensureNode p.run.target node p.run.committer = .ok a' k' ∧ a = some a' ∧
      ∀ f, (r.release.onRun f).run = f { p.run with committer := k' } := by
  rw [run_of_acquire ha] at hr
  obtain ⟨a', k', he, -, -⟩ := Committer.ensureNode_cases p.run.target node p.run.committer
  refine ⟨a', k', he, ?_, fun f => ?_⟩
  · rw [answer_of_lock ha hr, he]
    rfl
  · rw [lockStep_run ha hr f, he]
    rfl

/-- A worker's phase after a move of worker `w` is the one its step gives, or the one it had. -/
theorem phase_advance {now : Int} {timeout : Nat} (q : Pool) (v : Nat) :
    (q.advance now timeout w budget).phase v = (step now timeout w budget (q.phase w) q).1.phase ∨
      (q.advance now timeout w budget).phase v = q.phase v := by
  unfold advance
  by_cases hv : v = w
  · subst hv
    by_cases hl : v < (step now timeout v budget (q.phase v) q).2.phases.length
    · exact .inl (phase_setPhase_self hl)
    · -- a worker beyond the list has no phase to store, and stays stopped
      rw [step_phases] at hl
      right
      simp [phase, setPhase, List.getD_eq_getElem?_getD, step_phases, hl]
  · right
    rw [phase_setPhase_of_ne hv]
    exact phase_eq_of_phases (step_phases _)

end Pool

end Rebalance

import Rebalance.Proofs.PlannedTasks
/-!
# Every planned movement is reported once, in plan order per stealer

The report of a run lists the outcomes its workers recorded, then the movements of the tasks
still queued, as skipped. The ledger of a run (`Pool.ledger`) lists the same at every point:
the movements recorded so far, then those each worker holds (`Phase.held`), then those queued.
A step moves movements along the ledger, from the queue to a worker and from a worker to the
record, and changes nothing in them but their pending stores (`LedgerStep`). No two groups of
held or queued movements share a stealer (`OnePerStealer`), so each stealer's part of the ledger
(`Movement.accountFor`) stays what the plan gave it, in plan order.

The exception is a commit that ends in a fault (a clock counter stepped past the largest 64-bit
value): its worker stops where it is and the movements it held are lost. So along every run,
each stealer's account is a prefix of its planned movements, and all of them unless a commit of
that stealer faulted (`accounts_of_moves`); the report `rebalance` returns, whether the run ends
normally or aborted, is the ledger where its run ends (`report_accounts_for_plan`).
-/

namespace Rebalance

namespace Movement

/-- The movement with its pending stores left out: all that a run may change of it. -/
def withoutStores (m : Movement) : Movement := { m with storesPending := [] }

@[simp] theorem stealer_withoutStores (m : Movement) : m.withoutStores.stealer = m.stealer := rfl

@[simp] theorem withoutStores_completeStore (m : Movement) (store : String) :
    (m.completeStore store).2.withoutStores = m.withoutStores := rfl

/-- The movements of stealer `s`, in order, with their pending stores left out. -/
def accountFor (ms : List Movement) (s : Nat) : List Movement :=
  (ms.map withoutStores).filter (·.stealer == s)

@[simp] theorem accountFor_append (a b : List Movement) (s : Nat) :
    accountFor (a ++ b) s = accountFor a s ++ accountFor b s := by
  simp [accountFor]

theorem accountFor_eq_nil {ms : List Movement} {s : Nat} (h : ∀ m ∈ ms, m.stealer ≠ s) :
    accountFor ms s = [] := by
  simpa [accountFor] using h

/-- Movements of different stealers change places without changing any account. -/
theorem accountFor_append_comm {a b : List Movement} (s : Nat)
    (h : ∀ m ∈ a, ∀ m' ∈ b, m.stealer ≠ m'.stealer) :
    accountFor (a ++ b) s = accountFor (b ++ a) s := by
  by_cases ha : ∃ m ∈ a, m.stealer = s
  · obtain ⟨m, hm, rfl⟩ := ha
    have hb : accountFor b m.stealer = [] :=
      accountFor_eq_nil fun m' hm' he => h m hm m' hm' he.symm
    simp [hb]
  · have ha : accountFor a s = [] := accountFor_eq_nil fun m hm hs => ha ⟨m, hm, hs⟩
    simp [ha]

end Movement

open Movement (withoutStores accountFor accountFor_append accountFor_eq_nil accountFor_append_comm)

/-- A stealer's movements of the plan are all its own movements of the plan. -/
theorem accountFor_filter_stealer (ms : List Movement) (s : Nat) :
    accountFor (ms.filter (·.stealer == s)) s = accountFor ms s := by
  simp [accountFor, List.filter_map, Function.comp_def]

/-- The tasks of a grouped plan list each stealer's movements as the plan does, in its order. -/
theorem accountFor_flatMap_groupByStealer (ms : List Movement) (s : Nat) :
    accountFor ((groupByStealer ms).flatMap Task.movements) s = accountFor ms s := by
  -- a stealer's account reads only its own movements, which grouping keeps in order
  have hown := accountFor_filter_stealer ((groupByStealer ms).flatMap Task.movements) s
  rw [← hown, flatMap_groupByStealer, filter_flatMap_filter ms s (nodup_firstOccurrences _)]
  split
  · exact accountFor_filter_stealer ms s
  · -- a stealer the plan does not name has no movements in it
    rename_i hs
    refine (accountFor_eq_nil fun m hm hms => hs ?_).symm
    exact mem_firstOccurrences.2 (List.mem_map.2 ⟨m, hm, hms⟩)

/-! ## Groups with one stealer each -/

/-- Groups of movements with one stealer to a group and no stealer in two groups. -/
structure OnePerStealer (gs : List (List Movement)) : Prop where
  uniform : ∀ g ∈ gs, ∀ m ∈ g, ∀ m' ∈ g, m.stealer = m'.stealer
  apart : gs.Pairwise fun g g' => ∀ m ∈ g, ∀ m' ∈ g', m.stealer ≠ m'.stealer

namespace OnePerStealer

variable {A B C R : List (List Movement)} {x x' t : List Movement}

/-- A group's movements have no stealer of the groups before it, -/
theorem apart_left (h : OnePerStealer (A ++ x :: C)) :
    ∀ m ∈ A.flatten, ∀ m' ∈ x, m.stealer ≠ m'.stealer := by
  intro m hm m' hm'
  obtain ⟨g, hg, hmg⟩ := List.mem_flatten.1 hm
  exact (List.pairwise_append.1 h.apart).2.2 g hg x List.mem_cons_self m hmg m' hm'

/-- nor of the groups after it. -/
theorem apart_right (h : OnePerStealer (A ++ x :: C)) :
    ∀ m ∈ x, ∀ m' ∈ C.flatten, m.stealer ≠ m'.stealer := by
  intro m hm m' hm'
  obtain ⟨g, hg, hmg⟩ := List.mem_flatten.1 hm'
  exact (List.pairwise_cons.1 (List.pairwise_append.1 h.apart).2.1).1 g hg m hm m' hmg

/-- A group may lose movements, or have them changed with their stealers kept. -/
theorem replace (h : OnePerStealer (A ++ x :: C))
    (hx : ∀ m ∈ x', ∃ m₀ ∈ x, m.stealer = m₀.stealer) : OnePerStealer (A ++ x' :: C) where
  uniform g hg m hm m' hm' := by
    rcases List.mem_append.1 hg with hg | hg
    · exact h.uniform g (List.mem_append_left _ hg) m hm m' hm'
    rcases List.mem_cons.1 hg with rfl | hg
    · obtain ⟨m₀, hm₀, e⟩ := hx m hm
      obtain ⟨m₀', hm₀', e'⟩ := hx m' hm'
      rw [e, e']
      exact h.uniform x (by simp) m₀ hm₀ m₀' hm₀'
    · exact h.uniform g (by simp [hg]) m hm m' hm'
  apart := by
    obtain ⟨hA, hxC, hAxC⟩ := List.pairwise_append.1 h.apart
    obtain ⟨hx₁, hC⟩ := List.pairwise_cons.1 hxC
    refine List.pairwise_append.2 ⟨hA, List.pairwise_cons.2 ⟨?_, hC⟩, ?_⟩
    · intro b hb m hm m' hm'
      obtain ⟨m₀, hm₀, e⟩ := hx m hm
      rw [e]
      exact hx₁ b hb m₀ hm₀ m' hm'
    · intro a ha b hb
      rcases List.mem_cons.1 hb with rfl | hb
      · intro m hm m' hm'
        obtain ⟨m₀, hm₀, e⟩ := hx m' hm'
        rw [e]
        exact hAxC a ha x List.mem_cons_self m hm m₀ hm₀
      · exact hAxC a ha b (List.mem_cons_of_mem _ hb)

/-- A queued group moves to a worker that held nothing. -/
theorem take (h : OnePerStealer (A ++ [] :: (B ++ t :: R))) :
    OnePerStealer (A ++ t :: (B ++ R)) := by
  -- dropping the empty group keeps the groups apart, and so does moving `t`, apartness being
  -- symmetric
  have hsub : (A ++ (B ++ t :: R)).Sublist (A ++ [] :: (B ++ t :: R)) :=
    List.Sublist.append_left (List.sublist_cons_self _ _) A
  have hperm : (A ++ (B ++ t :: R)).Perm (A ++ t :: (B ++ R)) :=
    List.Perm.append_left A List.perm_middle
  refine ⟨fun g hg => h.uniform g (hsub.subset (hperm.symm.subset hg)), ?_⟩
  exact (h.apart.sublist hsub).perm hperm fun hne m hm m' hm' e => hne m' hm' m hm e.symm

/-- Empty groups may stand in front. -/
theorem nil_append {zs gs : List (List Movement)} (h : OnePerStealer gs) (hz : ∀ z ∈ zs, z = []) :
    OnePerStealer (zs ++ gs) where
  uniform g hg := by
    rcases List.mem_append.1 hg with hg | hg
    · rw [hz g hg]
      intro m hm
      cases hm
    · exact h.uniform g hg
  apart := by
    refine List.pairwise_append.2 ⟨List.pairwise_of_forall_mem_list fun a ha _ _ m hm => ?_,
      h.apart, fun a ha b _ m hm => ?_⟩
    · rw [hz a ha] at hm
      cases hm
    · rw [hz a ha] at hm
      cases hm

end OnePerStealer

/-- The tasks of a grouped plan hold one stealer each, each its own. -/
theorem onePerStealer_groupByStealer (ms : List Movement) :
    OnePerStealer ((groupByStealer ms).map Task.movements) where
  uniform g hg m hm m' hm' := by
    obtain ⟨t, ht, rfl⟩ := List.mem_map.1 hg
    rw [stealer_of_mem_groupByStealer ht hm, stealer_of_mem_groupByStealer ht hm']
  apart := by
    have hnd := nodup_stealers_groupByStealer ms
    rw [List.nodup_iff_pairwise_ne, List.pairwise_map] at hnd
    rw [List.pairwise_map]
    refine List.Pairwise.imp_of_mem ?_ hnd
    intro t t' ht ht' hne m hm m' hm'
    rw [stealer_of_mem_groupByStealer ht hm, stealer_of_mem_groupByStealer ht' hm']
    exact hne

/-! ## Accounts when movements change places -/

section Moves

variable {R : List Movement} {A C : List (List Movement)}

/-- A group whose movements change only in their pending stores keeps every account. -/
theorem accountFor_keep {x x' : List Movement} (hx : x'.map withoutStores = x.map withoutStores)
    (st : Nat) :
    accountFor (R ++ (A ++ x' :: C).flatten) st = accountFor (R ++ (A ++ x :: C).flatten) st := by
  have hx' : accountFor x' st = accountFor x st := by
    rw [accountFor, hx]
    rfl
  simp [hx']

/-- Recording the first movements of a group keeps every account. -/
theorem accountFor_record {ms x : List Movement} (h : OnePerStealer (A ++ (ms ++ x) :: C))
    (st : Nat) :
    accountFor (R ++ ms ++ (A ++ x :: C).flatten) st =
      accountFor (R ++ (A ++ (ms ++ x) :: C).flatten) st := by
  have hA : ∀ m ∈ A.flatten, ∀ m' ∈ ms, m.stealer ≠ m'.stealer :=
    fun m hm m' hm' => h.apart_left m hm m' (List.mem_append_left _ hm')
  calc accountFor (R ++ ms ++ (A ++ x :: C).flatten) st
      = accountFor R st ++ accountFor (ms ++ A.flatten) st ++ accountFor (x ++ C.flatten) st := by
        simp
    _ = accountFor R st ++ accountFor (A.flatten ++ ms) st ++ accountFor (x ++ C.flatten) st := by
        rw [accountFor_append_comm st hA]
    _ = accountFor (R ++ (A ++ (ms ++ x) :: C).flatten) st := by simp

/-- Moving a queued group to a worker that held nothing keeps every account. -/
theorem accountFor_take {t : List Movement} {B Q : List (List Movement)}
    (h : OnePerStealer (A ++ [] :: (B ++ t :: Q))) (st : Nat) :
    accountFor (R ++ (A ++ t :: (B ++ Q)).flatten) st =
      accountFor (R ++ (A ++ [] :: (B ++ t :: Q)).flatten) st := by
  have h' : OnePerStealer ((A ++ [] :: B) ++ t :: Q) := by simpa using h
  have hB : ∀ m ∈ B.flatten, ∀ m' ∈ t, m.stealer ≠ m'.stealer :=
    fun m hm m' hm' => h'.apart_left m (by simp [List.mem_flatten.1 hm]) m' hm'
  calc accountFor (R ++ (A ++ t :: (B ++ Q)).flatten) st
      = accountFor R st ++ accountFor A.flatten st ++ accountFor (t ++ B.flatten) st ++
          accountFor Q.flatten st := by simp
    _ = accountFor R st ++ accountFor A.flatten st ++ accountFor (B.flatten ++ t) st ++
          accountFor Q.flatten st := by rw [accountFor_append_comm st hB]
    _ = accountFor (R ++ (A ++ [] :: (B ++ t :: Q)).flatten) st := by simp

/-- Losing a group cuts its stealer's account short and keeps every other. -/
theorem accountFor_drop {m : Movement} {rest : List Movement}
    (h : OnePerStealer (A ++ (m :: rest) :: C)) (st : Nat) :
    accountFor (R ++ (A ++ [] :: C).flatten) st =
        accountFor (R ++ (A ++ (m :: rest) :: C).flatten) st ∨
      (accountFor (R ++ (A ++ [] :: C).flatten) st <+:
          accountFor (R ++ (A ++ (m :: rest) :: C).flatten) st ∧ m.stealer = st) := by
  by_cases hs : m.stealer = st
  · -- no other group has a movement of this stealer, so what is left is what was recorded
    have hA : accountFor A.flatten st = [] := accountFor_eq_nil fun m' hm' he =>
      h.apart_left m' hm' m List.mem_cons_self (he.trans hs.symm)
    have hC : accountFor C.flatten st = [] := accountFor_eq_nil fun m' hm' he =>
      h.apart_right m List.mem_cons_self m' hm' (hs.trans he.symm)
    refine .inr ⟨?_, hs⟩
    simp only [List.flatten_append, List.flatten_cons, accountFor_append, hA, hC, List.nil_append,
      List.append_nil]
    exact List.prefix_append _ _
  · -- the group lost holds another stealer's movements only
    have hx : accountFor (m :: rest) st = [] := accountFor_eq_nil fun m' hm' he =>
      hs ((h.uniform _ (by simp) m List.mem_cons_self m' hm').trans he)
    refine .inl ?_
    simp only [List.flatten_append, List.flatten_cons, accountFor_append, hx, List.nil_append]

end Moves

/-! ## What a step does to the ledger -/

namespace RunState

variable {s : RunState} {m : Movement} {rest ms : List Movement}

/-- The movements the run has recorded, in order. -/
def recorded (s : RunState) : List Movement := s.outcomes.map Outcome.movement

@[simp] theorem recorded_record (status : Status) :
    (s.record m status).recorded = s.recorded ++ [m] := by
  simp [recorded, record]

@[simp] theorem recorded_skipAll : (s.skipAll ms).recorded = s.recorded ++ ms := by
  simp [recorded, skipAll, Function.comp_def]

@[simp] theorem recorded_failAll (reason : String) :
    (s.failAll ms reason).recorded = s.recorded ++ ms := by
  simp [recorded, failAll, Function.comp_def]

@[simp] theorem recorded_abortAt (e : RunError) :
    (s.abortAt m rest e).recorded = s.recorded ++ m :: rest := by
  simp [recorded, abortAt, record, skipAll, Function.comp_def]

/-- A refused `ensureNode` records every movement of the task. -/
theorem recorded_afterJoin_error (t : Task) (e : RunError) :
    (s.afterJoin t (some (.error e))).recorded = s.recorded ++ t.movements := by
  cases e <;> simp [afterJoin]

/-- A refused commit records the movement, and the rest of the task when the worker goes back to
the queue. -/
theorem afterCommit_error (b : Nat) (e : RunError) :
    ((commitNext m rest b (some (.error e))).phase = .idle ∧
        (s.afterCommit m rest (some (.error e))).recorded = s.recorded ++ m :: rest) ∨
      ((commitNext m rest b (some (.error e))).phase = .moving rest ∧
        (s.afterCommit m rest (some (.error e))).recorded = s.recorded ++ [m]) := by
  cases e <;> simp [commitNext, afterCommit, RunError.isRunFatal, Next.phase]

end RunState

/-- What one step does to the ledger, seen from the worker that takes it: from the phase it has
and the run it finds, to the phase it is left in and the run it leaves, with the call it makes. -/
inductive LedgerStep (ph : Phase) (s : RunState) : Phase → RunState → Option Call → Prop
  /-- it holds the same movements but for their pending stores, -/
  | keep {ph' : Phase} {s' : RunState} {c : Option Call} :
      ph'.held.map withoutStores = ph.held.map withoutStores → s'.recorded = s.recorded →
      s'.queue = s.queue → LedgerStep ph s ph' s' c
  /-- records the first movements it holds, -/
  | record {ph' : Phase} {s' : RunState} {c : Option Call} (ms : List Movement) :
      ph.held = ms ++ ph'.held → s'.recorded = s.recorded ++ ms → s'.queue = s.queue →
      LedgerStep ph s ph' s' c
  /-- takes the first queued task, -/
  | take {s' : RunState} {c : Option Call} (t : Task) :
      ph = .idle → s.queue = t :: s'.queue → s'.recorded = s.recorded →
      LedgerStep ph s (.joining t) s' c
  /-- or has its commit fault, losing what it held. -/
  | drop {ph' : Phase} {s' : RunState} {m : Movement} {rest : List Movement} :
      ph.held = m :: rest → ph'.held = [] → s'.recorded = s.recorded → s'.queue = s.queue →
      LedgerStep ph s ph' s' (some (.commit m none))

namespace Pool

variable {now : Int} {timeout : Nat} {w budget : Nat} {ph : Phase} {p p' q : Pool} {n : Next}
  {c : Option Call}

/-- Every step is a `LedgerStep`. -/
theorem ledgerStep_of_stepCase (hs : StepCase now timeout w budget ph p n p' c) :
    LedgerStep ph p.run n.phase p'.run c := by
  cases hs with
  | stop _ => exact .keep rfl rfl rfl
  | take _ hq => exact .take _ rfl hq rfl
  | wait _ ha =>
    rw [run_of_acquire ha]
    exact .keep rfl rfl rfl
  | @join _ _ _ t b a ha hr =>
    -- `ensureNode` never faults, so the worker goes on or records its whole task
    obtain ⟨a', k', -, rfl, hrun⟩ := join_of_lock ha hr
    rw [hrun]
    rcases a' with e | ⟨⟩
    · exact .record t.movements (by simp [joinNext, Next.phase, Phase.held])
        (RunState.recorded_afterJoin_error t e) (by simp)
    · exact .keep rfl rfl rfl
  | @commit _ _ _ m rest b a ha hr =>
    rw [lockStep_run ha hr]
    rcases a with _ | e | record
    · exact .drop rfl rfl rfl rfl
    · rcases RunState.afterCommit_error
          (s := { p.run with committer := Committer.stateOf (Committer.commit m now p.run.committer) })
          b e with ⟨hph, hrec⟩ | ⟨hph, hrec⟩
      · exact .record (m :: rest) (by rw [hph]; simp [Phase.held]) hrec (by simp)
      · exact .record [m] (by rw [hph]; rfl) hrec (by simp)
    · exact .keep rfl rfl rfl
  | finish => exact .keep rfl rfl rfl
  | @skip _ m rest _ => exact .record (m :: rest) (List.append_nil _).symm (by simp [onRun]) rfl
  | next _ => exact .keep rfl rfl rfl
  | migrated => exact .record [_] rfl (by simp [onRun]) rfl
  | unissued _ => exact .keep rfl rfl rfl
  | migrate _ _ => exact .keep (by simp [Phase.held, Next.phase]) rfl rfl
  | jobFailed _ _ => exact .keep rfl rfl rfl
  | stall _ _ => exact .keep rfl rfl rfl
  | yield _ => exact .keep rfl rfl rfl
  | expire _ _ => exact .keep rfl rfl rfl
  | sleep _ _ => exact .keep rfl rfl rfl
  | arm _ _ => exact .keep rfl rfl rfl
  | stopped => exact .keep rfl rfl rfl

end Pool

/-- The groups of a run with `x` held by a worker, `A` by the workers before it and `B` by
those after it. -/
def RunState.around (s : RunState) (A B : List (List Movement)) (x : List Movement) :
    List (List Movement) :=
  A ++ x :: (B ++ s.queue.map Task.movements)

/-- What a step does to the groups and the accounts: the groups stay one per stealer, and every
stealer's account stays, or is cut short by a commit of that stealer that faulted. -/
theorem accounts_of_ledgerStep {ph ph' : Phase} {s s' : RunState} {c : Option Call}
    {A B : List (List Movement)} (hl : LedgerStep ph s ph' s' c)
    (h : OnePerStealer (s.around A B ph.held)) :
    OnePerStealer (s'.around A B ph'.held) ∧ ∀ st,
      accountFor (s'.recorded ++ (s'.around A B ph'.held).flatten) st =
          accountFor (s.recorded ++ (s.around A B ph.held).flatten) st ∨
        (accountFor (s'.recorded ++ (s'.around A B ph'.held).flatten) st <+:
            accountFor (s.recorded ++ (s.around A B ph.held).flatten) st ∧
          ∃ m, c = some (.commit m none) ∧ m.stealer = st) := by
  unfold RunState.around at h ⊢
  cases hl with
  | keep hx hr hq =>
    rw [hr, hq]
    refine ⟨h.replace fun m hm => ?_, fun st => .inl (accountFor_keep hx st)⟩
    -- a movement kept is a movement held before, its stores aside
    have hW : m.withoutStores ∈ ph.held.map withoutStores := hx ▸ List.mem_map_of_mem hm
    obtain ⟨m₀, hm₀, e⟩ := List.mem_map.1 hW
    exact ⟨m₀, hm₀, by simpa using (congrArg Movement.stealer e).symm⟩
  | record ms hph hr hq =>
    rw [hph] at h ⊢
    rw [hr, hq]
    exact ⟨h.replace fun m hm => ⟨m, List.mem_append_right _ hm, rfl⟩,
      fun st => .inl (accountFor_record h st)⟩
  | take t hph hq hr =>
    subst hph
    rw [hq, List.map_cons] at h ⊢
    rw [hr]
    exact ⟨h.take, fun st => .inl (accountFor_take h st)⟩
  | drop hph hph' hr hq =>
    rw [hph] at h ⊢
    rw [hph', hr, hq]
    refine ⟨h.replace (fun m hm => nomatch hm), fun st => ?_⟩
    rcases accountFor_drop h st with he | ⟨hp, hs⟩
    · exact .inl he
    · exact .inr ⟨hp, _, rfl, hs⟩

/-! ## The ledger of a run -/

namespace Pool

variable {now : Int} {timeout : Nat} {w budget : Nat} {p q : Pool} {calls : List Call}
  {planned : List Movement}

/-- What the workers and the queue hold: one group per worker, then one per queued task. -/
def groups (p : Pool) : List (List Movement) :=
  p.phases.map Phase.held ++ p.run.queue.map Task.movements

/-- Every movement of the run: those recorded, in order, then those held, group by group. -/
def ledger (p : Pool) : List Movement := p.run.recorded ++ p.groups.flatten

/-- The workers before and after a worker that has a phase. -/
theorem phases_split (hw : w < p.phases.length) :
    ∃ A B, p.phases = A ++ p.phase w :: B ∧ A.length = w := by
  refine ⟨p.phases.take w, p.phases.drop (w + 1), ?_, by simp; omega⟩
  have hph : p.phase w = p.phases[w] := by simp [phase, List.getD_eq_getElem?_getD, hw]
  rw [hph, List.getElem_cons_drop, List.take_append_drop]

/-- A worker with no phase is stopped, and its move changes nothing. -/
theorem advance_of_length_le (hw : q.phases.length ≤ w) :
    q.advance now timeout w budget = q ∧ q.call now w budget (q.phase w) = none := by
  have hph : q.phase w = .stopped := by simp [phase, List.getD_eq_getElem?_getD, hw]
  refine ⟨?_, by rw [hph]; rfl⟩
  unfold advance
  rw [hph]
  simp [step, setPhase, Next.phase, List.set_eq_of_length_le hw]

/-- The groups before a worker's move, around that worker. -/
theorem groups_around {A B : List Phase} (hsplit : q.phases = A ++ q.phase w :: B) :
    q.groups = q.run.around (A.map Phase.held) (B.map Phase.held) (q.phase w).held := by
  simp [groups, RunState.around, hsplit]

/-- The groups after a worker's move, around that worker. -/
theorem groups_advance {A B : List Phase} (hsplit : q.phases = A ++ q.phase w :: B)
    (hlen : A.length = w) :
    (q.advance now timeout w budget).groups =
      (step now timeout w budget (q.phase w) q).2.run.around (A.map Phase.held) (B.map Phase.held)
        (step now timeout w budget (q.phase w) q).1.phase.held := by
  unfold advance groups setPhase RunState.around
  rw [step_phases, hsplit, ← hlen]
  simp

/-- What a run keeps of its plan: the groups it holds have one stealer each, and each stealer's
account is a prefix of what the plan gives it, all of it while no commit of that stealer has
faulted. -/
structure Accounts (planned : List Movement) (calls : List Call) (p : Pool) : Prop where
  groups : OnePerStealer p.groups
  initial : ∀ st, accountFor p.ledger st <+: accountFor planned st
  whole : ∀ st, (∀ m, Call.commit m none ∈ calls → m.stealer ≠ st) →
    accountFor p.ledger st = accountFor planned st

/-- One move of any worker keeps the accounts. -/
theorem Accounts.advance (h : q.Accounts planned calls) (w budget : Nat) :
    (q.advance now timeout w budget).Accounts planned
      (calls ++ (q.call now w budget (q.phase w)).toList) := by
  by_cases hw : w < q.phases.length
  · obtain ⟨A, B, hsplit, hlen⟩ := phases_split hw
    have hl := ledgerStep_of_stepCase (@stepCase now timeout w budget (q.phase w) q)
    have hg := groups_around hsplit
    obtain ⟨hgroups, hacc⟩ := accounts_of_ledgerStep hl (hg ▸ h.groups)
    have hg' : (q.advance now timeout w budget).groups = _ := groups_advance hsplit hlen
    refine ⟨hg' ▸ hgroups, fun st => ?_, fun st hno => ?_⟩
    · -- the account stays or is cut short
      unfold ledger
      rw [hg', advance_run]
      rcases hacc st with he | ⟨hp, -⟩
      · rw [he, ← hg]
        exact h.initial st
      · rw [← hg] at hp
        exact hp.trans (h.initial st)
    · -- with no faulted commit of the stealer it is cut short nowhere
      unfold ledger
      rw [hg', advance_run]
      rcases hacc st with he | ⟨-, m, hc, hm⟩
      · rw [he, ← hg]
        exact h.whole st fun m' hm' => hno m' (List.mem_append_left _ hm')
      · exact absurd hm (hno m (List.mem_append_right _ (by simp [hc])))
  · obtain ⟨hq, hc⟩ : q.advance now timeout w budget = q ∧ q.call now w budget (q.phase w) = none :=
      advance_of_length_le (Nat.le_of_not_lt hw)
    rw [hq, hc, Option.toList_none, List.append_nil]
    exact h

/-- The thread's moves keep the accounts. -/
theorem Accounts.reschedule {r : Pool} (h : q.Accounts planned calls) (hs : q.Rescheduled r) :
    r.Accounts planned calls := by
  have hg : r.groups = q.groups := by
    unfold Pool.groups
    rw [hs.phases, hs.run]
  have hl : r.ledger = q.ledger := by
    unfold ledger
    rw [hg, hs.run]
  exact ⟨hg ▸ h.groups, hl ▸ h.initial, hl ▸ h.whole⟩

/-- Along every run, in any order of the workers' steps, the accounts are kept. -/
theorem accounts_of_moves (h : Moves now timeout p calls q) (hp : p.Accounts planned []) :
    q.Accounts planned calls := by
  induction h with
  | refl => exact hp
  | advance w budget _ ih => exact ih.advance w budget
  | reschedule _ hs ih => exact ih.reschedule hs

/-- At the start the ledger is the queue's movements. -/
theorem ledger_start (s : RunState) (workers : Nat) (hs : s.outcomes = []) :
    (Pool.start s workers).ledger = s.queue.flatMap Task.movements := by
  simp [ledger, groups, start, RunState.recorded, hs, Phase.held, List.flatMap]

/-- A run starts with its accounts kept, for a queue of groups one stealer each. -/
theorem accounts_start (s : RunState) (workers : Nat) (hs : s.outcomes = [])
    (hg : OnePerStealer (s.queue.map Task.movements)) :
    (Pool.start s workers).Accounts (s.queue.flatMap Task.movements) [] where
  groups := by
    -- every worker starts idle, holding nothing
    have hidle : (Pool.start s workers).phases.map Phase.held = List.replicate workers [] := by
      simp [start, Phase.held]
    unfold Pool.groups
    rw [hidle]
    exact hg.nil_append fun z hz => List.eq_of_mem_replicate hz
  initial st := ledger_start s workers hs ▸ List.prefix_refl _
  whole st _ := by rw [ledger_start s workers hs]

/-- Once every worker has stopped, the ledger is what was recorded, then what is still queued. -/
theorem ledger_of_stopped (h : ∀ v, p.phase v = .stopped) :
    p.ledger = p.run.recorded ++ p.run.queue.flatMap Task.movements := by
  have hheld : (p.phases.map Phase.held).flatten = [] := by
    rw [List.flatten_eq_nil_iff]
    intro l hl
    obtain ⟨ph, hph, rfl⟩ := List.mem_map.1 hl
    obtain ⟨v, hv, rfl⟩ := List.getElem_of_mem hph
    have hs := h v
    simp only [phase, List.getD_eq_getElem?_getD, List.getElem?_eq_getElem hv,
      Option.getD_some] at hs
    rw [hs]
    rfl
  simp [ledger, groups, hheld, List.flatMap]

end Pool

/-- Take the movements a plan keeps for a run, in plan order, and the tasks they make. Whatever
the order of the workers' steps, at every point of the run each stealer's movements, recorded,
held by a worker or queued, are its planned movements in plan order, or the first of them, and
all of them unless a commit of that stealer faulted; pending stores aside, they are the planned
ones. The report `rebalance` returns, whether the run ends normally or aborted, lists the
movements of the run it makes so: for every stealer, its outcomes are those of its planned
movements in plan order, each once, ending early only after a faulted commit of that stealer. -/
theorem report_accounts_for_plan (c : Cluster) (token : Token) (settings : Settings)
    (plan : List Movement) (current target : Topology) (stores : List String) (now : Int)
    (selected : List (Option Movement)) (hv : settings.validate = .ok ())
    (ht : token.held = false) (hsel : plan.mapM (selectMovement current target stores) = .ok selected) :
    let tasks := groupByStealer selected.reduceOption
    let s : RunState :=
      ⟨Committer.make { c with cached := current } settings, target, tasks, false, none, []⟩
    let workers := min settings.maxParallel (tasks.length + turnsPerCheck)
    (∀ calls q, Pool.Moves now settings.timeoutSecs (Pool.start s workers) calls q → ∀ st,
      accountFor q.ledger st <+: accountFor selected.reduceOption st ∧
        ((∀ m, Call.commit m none ∈ calls → m.stealer ≠ st) →
          accountFor q.ledger st = accountFor selected.reduceOption st)) ∧
    ∃ calls r, Pool.Moves now settings.timeoutSecs (Pool.start s workers) calls
        (runWorkers now settings.timeoutSecs workers s) ∧
      ((rebalance c token settings plan current target stores now).result = .ok r ∨
        ∃ e, (rebalance c token settings plan current target stores now).result =
          .error (.aborted r e)) ∧
      ∀ st, accountFor (r.outcomes.map Outcome.movement) st <+: accountFor selected.reduceOption st ∧
        ((∀ m, Call.commit m none ∈ calls → m.stealer ≠ st) →
          accountFor (r.outcomes.map Outcome.movement) st = accountFor selected.reduceOption st) := by
  intro tasks s workers
  have hp : selectPlan plan current target stores = .ok tasks := by
    unfold selectPlan
    rw [hsel]
    rfl
  -- the tasks list each stealer's movements as the plan does
  have hplan : ∀ st, accountFor (tasks.flatMap Task.movements) st =
      accountFor selected.reduceOption st :=
    accountFor_flatMap_groupByStealer _
  have hrun : ∀ calls q, Pool.Moves now settings.timeoutSecs (Pool.start s workers) calls q →
      ∀ st, accountFor q.ledger st <+: accountFor selected.reduceOption st ∧
        ((∀ m, Call.commit m none ∈ calls → m.stealer ≠ st) →
          accountFor q.ledger st = accountFor selected.reduceOption st) := by
    intro calls q hq st
    have ha := Pool.accounts_of_moves hq
      (Pool.accounts_start s workers rfl (onePerStealer_groupByStealer _))
    rw [← hplan]
    exact ⟨ha.initial st, ha.whole st⟩
  obtain ⟨calls, hmoves⟩ := Pool.runWorkers_moves now settings.timeoutSecs workers s
  -- the report lists the ledger where the run ends, every worker stopped
  have hledger := Pool.ledger_of_stopped (Pool.runWorkers_stopped now settings.timeoutSecs workers s)
  let fin := (runWorkers now settings.timeoutSecs workers s).run
  have hreport : fin.report.outcomes.map Outcome.movement =
      (runWorkers now settings.timeoutSecs workers s).ledger := by
    rw [hledger]
    simp [RunState.report, fin, RunState.recorded, Function.comp_def]
  refine ⟨hrun, calls, fin.report, hmoves, ?_, fun st => hreport ▸ hrun calls _ hmoves st⟩
  rw [rebalance_result hv ht hp]
  exact RunState.result_report _

/-- `quadPlan`'s run on `quadCluster` ends aborted by its failed revert, and its report still
lists each stealer's movement once: the one written, the one whose write failed and the one
skipped. -/
theorem quad_run_reports_plan :
    quadSettings.validate = .ok () ∧ Token.free.held = false ∧
      quadPlan.mapM (selectMovement quadTopology quadTopology ["users"]) = .ok (quadPlan.map some) ∧
      ∃ r e, (rebalance quadCluster Token.free quadSettings quadPlan quadTopology quadTopology
          ["users"] 0).result = .error (.aborted r e) ∧
        ∀ st, accountFor (r.outcomes.map Outcome.movement) st <+: accountFor quadPlan st := by
  have hsel : quadPlan.mapM (selectMovement quadTopology quadTopology ["users"]) =
      .ok (quadPlan.map some) := rfl
  obtain ⟨-, calls, r, -, hres, hacc⟩ := report_accounts_for_plan quadCluster Token.free
    quadSettings quadPlan quadTopology quadTopology ["users"] 0 _ rfl rfl hsel
  rcases hres with hok | ⟨e, he⟩
  · have habort := quad_run_not_ok
    rw [hok] at habort
    cases habort
  · exact ⟨rfl, rfl, hsel, r, e, he, fun st => (hacc st).1⟩

end Rebalance

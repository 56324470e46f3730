import Rebalance.Proofs.ClockOrder
import Rebalance.Cluster
/-!
# Delivering a propagation

A propagation visits its targets in order, and a target takes the new view unless the cluster
is poisoned, a failure is pending for it, or the new clock is not after the one it holds. This
module says what a delivery can do, one target at a time:

* a target that accepts (`Cluster.Accepts`) takes the view and the delivery goes on with the
  rest (`deliver_cons_of_accepts`), and a delivery that gets through was accepted by its first
  target (`accepts_of_deliver_ok`);
* a delivery changes nothing but the views, the failure counters and the poisoned flag
  (`deliver_frame`), and never the view of a node it does not target
  (`view?_deliver_of_not_mem`);
* after a delivery that got through, every target holds the new view (`view?_deliver_of_ok`);
* when every target accepts, on distinct targets, the delivery gets through and installs the
  view on each of them (`deliver_of_accepts`).

A logged propagation is its delivery plus exactly one record, whose flag says whether the
delivery got through (`propagate_eq`, `propagate_log`).
-/

namespace Rebalance

namespace KeyMap

variable {α : Type}

/-- Binding several keys to one value, one after the other. -/
theorem get?_foldl_insert (v : α) : ∀ (ns : List Nat) (m : KeyMap α) (j : Nat),
    (ns.foldl (fun vs n => vs.insert n v) m).get? j = if j ∈ ns then some v else m.get? j
  | [], _, _ => by simp
  | n :: rest, m, j => by
    rw [List.foldl_cons, get?_foldl_insert v rest (m.insert n v) j, get?_insert]
    by_cases hj : j ∈ rest
    · simp [hj]
    · by_cases hn : j = n <;> simp [hj, hn]

end KeyMap

namespace Cluster

variable {t : Topology} {clock : Clock}

@[simp]
theorem view?_setView (c : Cluster) (n j : Nat) (v : View) :
    (c.setView n v).view? j = if j = n then some v else c.view? j := by
  simp only [setView, view?, KeyMap.get?_insert]

/-- A target takes a new view under `clock`: the cluster is not poisoned, no failure is
pending for the target, and `clock` is after the clock the target holds, if it holds one. -/
def Accepts (c : Cluster) (clock : Clock) (n : Nat) : Prop :=
  c.poisoned = false ∧ c.failing.getD n 0 = 0 ∧
    ∀ v, c.view? n = some v → clock.compare v.clock = .after

/-- Giving another node a view does not change whether a target accepts. -/
theorem accepts_setView {c : Cluster} {n m : Nat} {v : View} (hne : n ≠ m) :
    (c.setView m v).Accepts clock n ↔ c.Accepts clock n := by
  simp only [Accepts, view?_setView, if_neg hne]
  rfl

/-- A target that accepts takes the view, and the delivery goes on with the others. -/
theorem deliver_cons_of_accepts {c : Cluster} {n : Nat} {rest : List Nat}
    (h : c.Accepts clock n) :
    deliver t clock (n :: rest) c = deliver t clock rest (c.setView n ⟨t, clock⟩) := by
  obtain ⟨hp, hf, hv⟩ := h
  rw [deliver.eq_2, if_neg (by simp [hp]), if_neg (by simp [hf])]
  cases hn : c.view? n with
  | none => rfl
  | some w => simp [hv w hn]

/-- A delivery that got through was accepted by its first target. -/
theorem accepts_of_deliver_ok {c : Cluster} {n : Nat} {rest : List Nat}
    (h : (deliver t clock (n :: rest) c).1 = .ok ()) : c.Accepts clock n := by
  unfold deliver at h
  by_cases hp : c.poisoned = true
  · simp [hp] at h
  by_cases hf : 0 < c.failing.getD n 0
  · simp [hp, hf] at h
  refine ⟨by simpa using hp, by omega, fun w hw => ?_⟩
  rw [if_neg (by simpa using hp), if_neg hf, hw] at h
  by_cases ha : clock.compare w.clock = .after
  · exact ha
  · simp [ha] at h

/-- A delivery changes only the views, the failure counters and the poisoned flag. -/
theorem deliver_frame (t : Topology) (clock : Clock) : ∀ (ns : List Nat) (c : Cluster),
    ∃ views failing poisoned,
      (deliver t clock ns c).2 = { c with views := views, failing := failing, poisoned := poisoned }
  | [], c => ⟨c.views, c.failing, c.poisoned, rfl⟩
  | n :: rest, c => by
    obtain ⟨vs, f, p, h⟩ := deliver_frame t clock rest (c.setView n ⟨t, clock⟩)
    unfold deliver
    split
    · exact ⟨c.views, c.failing, c.poisoned, rfl⟩
    split
    · exact ⟨_, _, _, rfl⟩
    split
    · split
      · exact ⟨c.views, c.failing, c.poisoned, rfl⟩
      · exact ⟨vs, f, p, h⟩
    · exact ⟨vs, f, p, h⟩

@[simp]
theorem deliver_cached (ns : List Nat) (c : Cluster) : (deliver t clock ns c).2.cached = c.cached := by
  obtain ⟨_, _, _, h⟩ := deliver_frame t clock ns c
  rw [h]

@[simp]
theorem deliver_log (ns : List Nat) (c : Cluster) : (deliver t clock ns c).2.log = c.log := by
  obtain ⟨_, _, _, h⟩ := deliver_frame t clock ns c
  rw [h]

/-- A delivery leaves the view of every node it does not target. -/
theorem view?_deliver_of_not_mem {n : Nat} : ∀ {ns : List Nat} {c : Cluster}, n ∉ ns →
    (deliver t clock ns c).2.view? n = c.view? n
  | [], _, _ => rfl
  | m :: rest, c, h => by
    have hm : n ≠ m := fun e => h (e ▸ List.mem_cons_self ..)
    have hrest : n ∉ rest := fun e => h (List.mem_cons_of_mem _ e)
    have hnext : (deliver t clock rest (c.setView m ⟨t, clock⟩)).2.view? n = c.view? n := by
      rw [view?_deliver_of_not_mem hrest, view?_setView, if_neg hm]
    unfold deliver
    split
    · rfl
    split
    · rfl
    split
    · split
      · rfl
      · exact hnext
    · exact hnext

/-- After a delivery that got through, every target holds the new view. -/
theorem view?_deliver_of_ok {n : Nat} : ∀ {ns : List Nat} {c : Cluster},
    (deliver t clock ns c).1 = .ok () → n ∈ ns → (deliver t clock ns c).2.view? n = some ⟨t, clock⟩
  | [], _, _, hn => absurd hn List.not_mem_nil
  | m :: rest, c, h, hn => by
    have hacc := accepts_of_deliver_ok h
    rw [deliver_cons_of_accepts hacc] at h ⊢
    by_cases hr : n ∈ rest
    · exact view?_deliver_of_ok h hr
    · -- the last visit to `n` is this one, so the view set here stays
      have hm : n = m := by
        rcases List.mem_cons.1 hn with hm | hm
        · exact hm
        · exact absurd hm hr
      rw [view?_deliver_of_not_mem hr, view?_setView, if_pos hm]

/-- After a delivery, got through or not, every node holds the new view or the one it held. -/
theorem view?_deliver_cases {j : Nat} {v : View} : ∀ {ns : List Nat} {c : Cluster},
    (deliver t clock ns c).2.view? j = some v → v = ⟨t, clock⟩ ∨ c.view? j = some v
  | [], _, h => .inr h
  | n :: rest, c, h => by
    -- a visit that goes on has set the view of `n` first
    have hnext : (deliver t clock rest (c.setView n ⟨t, clock⟩)).2.view? j = some v →
        v = ⟨t, clock⟩ ∨ c.view? j = some v := fun h' => by
      rcases view?_deliver_cases h' with hv | hv
      · exact .inl hv
      · rw [view?_setView] at hv
        split at hv
        · cases hv
          exact .inl rfl
        · exact .inr hv
    unfold deliver at h
    split at h
    · exact .inr h
    split at h
    · exact .inr h
    split at h
    · split at h
      · exact .inr h
      · exact hnext h
    · exact hnext h

/-- When every target accepts and none is repeated, the delivery gets through and installs the
view on each target, changing nothing else. -/
theorem deliver_of_accepts : ∀ {ns : List Nat} {c : Cluster}, ns.Nodup →
    (∀ n ∈ ns, c.Accepts clock n) →
    deliver t clock ns c = (.ok (), { c with views := ns.foldl (fun vs n => vs.insert n ⟨t, clock⟩) c.views })
  | [], _, _, _ => rfl
  | n :: rest, c, hnd, h => by
    obtain ⟨hn, hrest⟩ := List.nodup_cons.1 hnd
    rw [deliver_cons_of_accepts (h n List.mem_cons_self)]
    -- the later targets still accept: they are not `n`, and only `n`'s view changed
    have hlater : ∀ j ∈ rest, (c.setView n ⟨t, clock⟩).Accepts clock j := fun j hj =>
      (accepts_setView (by rintro rfl; exact hn hj)).2 (h j (List.mem_cons_of_mem _ hj))
    rw [deliver_of_accepts hrest hlater]
    rfl

/-- A logged propagation is its delivery with one more record, flagged with its success. -/
theorem propagate_eq (c : Cluster) (t : Topology) (clock : Clock) (ns : List Nat) :
    c.propagate t clock ns = ((deliver t clock ns c).1,
      { (deliver t clock ns c).2 with
        log := c.log ++ [⟨t, clock, ns, (deliver t clock ns c).1.toBool⟩], propagated := true }) := by
  have hlog : (deliver t clock ns c).2.log = c.log := deliver_log ns c
  unfold propagate
  rcases hd : deliver t clock ns c with ⟨r, c'⟩
  rw [hd] at hlog
  simp only at hlog
  cases r <;> simp [hlog, Except.toBool]

@[simp]
theorem propagate_cached (c : Cluster) (t : Topology) (clock : Clock) (ns : List Nat) :
    (c.propagate t clock ns).2.cached = c.cached := by
  rw [propagate_eq]
  exact deliver_cached ns c

/-- After a propagation that got through, every target holds the new view. -/
theorem view?_propagate_of_ok {c : Cluster} {ns : List Nat} {n : Nat}
    (h : (c.propagate t clock ns).1 = .ok ()) (hn : n ∈ ns) :
    (c.propagate t clock ns).2.view? n = some ⟨t, clock⟩ := by
  rw [propagate_eq] at h ⊢
  exact view?_deliver_of_ok h hn

/-- After a propagation, got through or not, every node holds the new view or the one it held. -/
theorem view?_propagate_cases {c : Cluster} {ns : List Nat} {j : Nat} {v : View}
    (h : (c.propagate t clock ns).2.view? j = some v) : v = ⟨t, clock⟩ ∨ c.view? j = some v := by
  rw [propagate_eq] at h
  exact view?_deliver_cases h

theorem propagate_log (c : Cluster) (t : Topology) (clock : Clock) (ns : List Nat) :
    (c.propagate t clock ns).2.log = c.log ++ [⟨t, clock, ns, (c.propagate t clock ns).1.toBool⟩] := by
  rw [propagate_eq]

end Cluster

end Rebalance

import Rebalance.Proofs.ClockOrder
/-!
# The laws of comparing and resolving clocks

`Clock.compare` walks the nodes of both clocks and stops early once each side was seen ahead.
Read through the counters (a node without an entry counts 0), it is the product order on
counters, and nothing else:

* the four answers are the four ways two counter vectors can stand: equal everywhere, one
  above the other and strictly somewhere (`compare_eq_after_iff`, `compare_eq_before_iff`),
  or each ahead somewhere (`compare_eq_concurrent_iff`);
* comparing the other way round swaps `after` and `before` (`compare_swap`);
* two clocks with the same counters compare alike, whatever their timestamps and whatever
  zero entries they list (`compare_congr`).

All of it comes from one equation, `compare_eq_verdict`: the walk answers the verdict on whether
each side is ahead of the other somewhere.

`Clock.resolveLatest` keeps the later of the stealer's and the donor's clocks. It answers a
clock exactly when the two are ordered, or equal with identical clocks accepted, and refuses
otherwise with the error that names the ordering (`resolveLatest_ok_iff`,
`resolveLatest_eq_concurrent_iff`, `resolveLatest_eq_invalid_iff`). The clock it answers is one
of the two (`resolveLatest_choice`), counter by counter the larger one
(`counter_of_resolveLatest`), so a step of it below the 64-bit limit lands after both
(`increment_resolveLatest_after`).
-/

namespace Rebalance

namespace CausalOrder

/-- The ordering as seen from the other clock: `after` and `before` trade places. -/
def mirror : CausalOrder → CausalOrder
  | after => before
  | before => after
  | concurrent => concurrent
  | equal => equal

end CausalOrder

namespace Clock

/-- The verdict on swapped flags is the mirrored verdict. -/
theorem verdict_swap (x y : Bool) : verdict y x = (verdict x y).mirror := by
  cases x <;> cases y <;> rfl

/-! ## Comparing -/

/-- Comparing the other way round mirrors the answer. -/
theorem compare_swap (a b : Clock) : b.compare a = (a.compare b).mirror := by
  rw [compare_eq_verdict, compare_eq_verdict, verdict_swap]

/-- Whether one clock is ahead of another depends on their counters alone. -/
theorem aheadOf_congr {a a' b b' : Clock} (ha : ∀ n, a'.counter n = a.counter n)
    (hb : ∀ n, b'.counter n = b.counter n) : a'.aheadOf b' = a.aheadOf b := by
  apply Bool.eq_iff_iff.2
  rw [aheadOf_iff, aheadOf_iff]
  constructor
  · rintro ⟨n, hn⟩
    exact ⟨n, by rw [← ha n, ← hb n]; exact hn⟩
  · rintro ⟨n, hn⟩
    exact ⟨n, by rw [ha n, hb n]; exact hn⟩

/-- Clocks with the same counters compare alike: timestamps and zero entries play no part. -/
theorem compare_congr {a a' b b' : Clock} (ha : ∀ n, a'.counter n = a.counter n)
    (hb : ∀ n, b'.counter n = b.counter n) : a'.compare b' = a.compare b := by
  rw [compare_eq_verdict, compare_eq_verdict, aheadOf_congr ha hb, aheadOf_congr hb ha]

theorem compare_eq_before_iff {a b : Clock} :
    a.compare b = .before ↔ a ≤ b ∧ ∃ n, a.counter n < b.counter n := by
  have hswap : a.compare b = .before ↔ b.compare a = .after := by
    rw [compare_swap a b]
    cases a.compare b <;> simp [CausalOrder.mirror]
  rw [hswap, compare_eq_after_iff]

/-- `compare` answers `equal` exactly when every node has the same counter in both clocks. -/
theorem compare_eq_equal_iff {a b : Clock} :
    a.compare b = .equal ↔ ∀ n, a.counter n = b.counter n := by
  rw [compare_eq_verdict]
  constructor
  · intro h n
    -- neither side is ahead, so each is below the other
    cases hab : a.aheadOf b <;> cases hba : b.aheadOf a <;> simp [verdict, hab, hba] at h
    exact Nat.le_antisymm (aheadOf_eq_false_iff.1 hab n) (aheadOf_eq_false_iff.1 hba n)
  · intro h
    have hab : a.aheadOf b = false := aheadOf_eq_false_iff.2 fun n => Nat.le_of_eq (h n)
    have hba : b.aheadOf a = false := aheadOf_eq_false_iff.2 fun n => Nat.le_of_eq (h n).symm
    rw [hab, hba]
    rfl

/-- `compare` answers `concurrent` exactly when each clock is ahead of the other somewhere. -/
theorem compare_eq_concurrent_iff {a b : Clock} :
    a.compare b = .concurrent ↔
      (∃ m, b.counter m < a.counter m) ∧ ∃ k, a.counter k < b.counter k := by
  rw [compare_eq_verdict, ← aheadOf_iff, ← aheadOf_iff]
  cases a.aheadOf b <;> cases b.aheadOf a <;> simp [verdict]

/-! ## Resolving the stealer's and the donor's clocks -/

section Resolve

variable {s t : Nat} {cs ct c : Clock} {accept : Bool}

/-- The resolved clock is one of the two it was resolved from. -/
theorem resolveLatest_choice (h : resolveLatest s cs t ct accept = .ok c) : c = cs ∨ c = ct := by
  unfold resolveLatest at h
  split at h
  · cases h
    exact .inl rfl
  · cases h
    exact .inr rfl
  · cases h
  · split at h
    · cases h
      exact .inl rfl
    · cases h

/-- Resolving answers a clock exactly when the clocks are ordered, or equal with identical clocks
accepted. -/
theorem resolveLatest_ok_iff :
    (∃ c, resolveLatest s cs t ct accept = .ok c) ↔
      cs.compare ct = .after ∨ cs.compare ct = .before ∨ (cs.compare ct = .equal ∧ accept = true) := by
  unfold resolveLatest
  cases hord : cs.compare ct <;> cases accept <;> simp

/-- Concurrent clocks, and only they, are refused as concurrent, with both nodes and clocks. -/
theorem resolveLatest_eq_concurrent_iff :
    resolveLatest s cs t ct accept = .error (.concurrentClocks s cs t ct) ↔
      cs.compare ct = .concurrent := by
  unfold resolveLatest
  cases hord : cs.compare ct <;> cases accept <;> simp

/-- Equal clocks, and only they, are refused as an invalid state when identical clocks are not
accepted. -/
theorem resolveLatest_eq_invalid_iff :
    resolveLatest s cs t ct accept = .error (.invalidClockState cs ct .equal) ↔
      cs.compare ct = .equal ∧ accept = false := by
  unfold resolveLatest
  cases hord : cs.compare ct <;> cases accept <;> simp

/-- A step of the resolved clock that stays below the 64-bit limit lands after both clocks. -/
theorem increment_resolveLatest_after (h : resolveLatest s cs t ct accept = .ok c) (ts : Int)
    (hlt : c.counter s < maxU64) :
    ∃ c', c.increment s ts = .ok c' ∧ c'.compare cs = .after ∧ c'.compare ct = .after := by
  have hle := le_resolveLatest h
  have hinc : c.increment s ts = .ok _ := increment_eq_ok ts hlt
  exact ⟨_, hinc, compare_increment_after hle.1 hinc, compare_increment_after hle.2 hinc⟩

end Resolve

/-! ## The two laws -/

/-- Comparing two clocks compares their counters, a missing entry counting 0: `equal` when every
counter agrees, `after` when the first is nowhere below and somewhere above the second, `before`
the other way round, and `concurrent` when each is above the other somewhere. Comparing the other
way round mirrors the answer, and clocks with the same counters (whatever their timestamps and
their zero entries) compare alike. -/
theorem compare_reads_counters (a b : Clock) :
    (a.compare b = .equal ↔ ∀ n, a.counter n = b.counter n) ∧
    (a.compare b = .after ↔ (∀ n, b.counter n ≤ a.counter n) ∧ ∃ m, b.counter m < a.counter m) ∧
    (a.compare b = .before ↔ (∀ n, a.counter n ≤ b.counter n) ∧ ∃ m, a.counter m < b.counter m) ∧
    (a.compare b = .concurrent ↔
      ∃ m k, b.counter m < a.counter m ∧ a.counter k < b.counter k) ∧
    b.compare a = (a.compare b).mirror ∧
    ∀ a' b' : Clock, (∀ n, a'.counter n = a.counter n) → (∀ n, b'.counter n = b.counter n) →
      a'.compare b' = a.compare b := by
  refine ⟨compare_eq_equal_iff, compare_eq_after_iff, compare_eq_before_iff, ?_, compare_swap a b,
    fun _ _ ha hb => compare_congr ha hb⟩
  rw [compare_eq_concurrent_iff]
  constructor
  · rintro ⟨⟨m, hm⟩, k, hk⟩
    exact ⟨m, k, hm, hk⟩
  · rintro ⟨m, k, hm, hk⟩
    exact ⟨⟨m, hm⟩, k, hk⟩

/-- Resolving the stealer's clock `cs` against the donor's `ct` answers a clock exactly when
`cs` is after or before `ct`, or equal to it with identical clocks accepted. The clock answered
is `cs` or `ct`, has at every node the larger of their counters, and a step of it on the
stealer's counter below the 64-bit limit lands after both. Otherwise the refusal is
`concurrentClocks` exactly when the clocks are concurrent, and `invalidClockState` with ordering
`equal` exactly when they are equal and identical clocks are not accepted. -/
theorem resolveLatest_keeps_later (s t : Nat) (cs ct : Clock) (accept : Bool) :
    ((∃ c, resolveLatest s cs t ct accept = .ok c) ↔
      cs.compare ct = .after ∨ cs.compare ct = .before ∨
        (cs.compare ct = .equal ∧ accept = true)) ∧
    (∀ c, resolveLatest s cs t ct accept = .ok c →
      (c = cs ∨ c = ct) ∧ (∀ n, c.counter n = max (cs.counter n) (ct.counter n)) ∧
      ∀ ts, c.counter s < maxU64 →
        ∃ c', c.increment s ts = .ok c' ∧ c'.compare cs = .after ∧ c'.compare ct = .after) ∧
    (resolveLatest s cs t ct accept = .error (.concurrentClocks s cs t ct) ↔
      cs.compare ct = .concurrent) ∧
    (resolveLatest s cs t ct accept = .error (.invalidClockState cs ct .equal) ↔
      cs.compare ct = .equal ∧ accept = false) :=
  ⟨resolveLatest_ok_iff, fun _ h => ⟨resolveLatest_choice h, counter_of_resolveLatest h,
    increment_resolveLatest_after h⟩, resolveLatest_eq_concurrent_iff, resolveLatest_eq_invalid_iff⟩

end Clock

end Rebalance

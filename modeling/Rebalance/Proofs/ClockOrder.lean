import Rebalance.Error
/-!
# The causal order of clocks, read through counters

`Clock.compare` walks the entries of two clocks; this module reads it through the counter view
instead, where a node without an entry counts 0. One clock is below another (`a ≤ b`) when no
node's counter is higher in `a`, and `compare` answers `after` exactly when the other clock is
below and some counter is strictly higher (`compare_eq_after_iff`). The other three answers are
read the same way (`le_of_compare_eq_before`, `le_of_compare_eq_equal`).

The commit protocol rests on two consequences. A counter step lands strictly after every clock
below the stepped one (`compare_increment_after`). The clock `resolveLatest` picks is, counter by
counter, the larger of the two it was given (`counter_of_resolveLatest`), so it is above both,
and a step of it is after both: a write under it passes the check of either node.

The walk itself is read by `walk_eq`: stopping early, once both sides were seen ahead, gives the
same answer as walking to the end, and a node where one side counts more is a node of that side,
so the walk over both key lists finds exactly the entries `aheadOf` looks for
(`compare_eq_verdict`). Reading `aheadOf` through counters needs one fact about the entry list: an
entry is found again by its key (`KeyMap.get?_eq_some_iff`), because keys increase strictly along
the list.
-/

namespace Rebalance

namespace Keyed

variable {α : Type} {key : α → Nat}

/-- In a list with strictly increasing keys, looking an element's key up finds that element. -/
theorem find?_of_mem {x : α} : ∀ {l : List α}, Increasing key l → x ∈ l →
    find? key (key x) l = some x
  | [], _, hx => absurd hx List.not_mem_nil
  | y :: rest, h, hx => by
    unfold Increasing at h
    rw [List.pairwise_cons] at h
    unfold find?
    rcases List.mem_cons.1 hx with rfl | hx
    · simp
    · -- `y` comes first with a smaller key, so the search passes it
      have hne : (key y == key x) = false := by
        have := h.1 x hx
        simp only [beq_eq_false_iff_ne]; omega
      rw [List.find?_cons, hne]
      exact find?_of_mem h.2 hx

/-- What a look-up finds is in the list and has the key looked for. -/
theorem mem_of_find? {k : Nat} {l : List α} {x : α} (h : find? key k l = some x) :
    x ∈ l ∧ key x = k := by
  unfold find? at h
  exact ⟨List.mem_of_find?_eq_some h, by simpa using List.find?_some h⟩

end Keyed

namespace KeyMap

variable {α : Type}

/-- A key is bound to a value exactly when the pair is an entry. -/
theorem get?_eq_some_iff {m : KeyMap α} {k : Nat} {v : α} :
    m.get? k = some v ↔ (k, v) ∈ m.entries := by
  unfold get?
  constructor
  · intro h
    obtain ⟨e, he, rfl⟩ := Option.map_eq_some_iff.1 h
    obtain ⟨hmem, rfl⟩ := Keyed.mem_of_find? he
    exact hmem
  · intro h
    have hfind := Keyed.find?_of_mem m.increasing h
    simp only at hfind
    rw [hfind]
    rfl

@[simp]
theorem getD_insert (m : KeyMap α) (k j : Nat) (v d : α) :
    (m.insert k v).getD j d = if j = k then v else m.getD j d := by
  unfold getD
  rw [get?_insert]
  split <;> rfl

end KeyMap

namespace Clock

/-- `a ≤ b`: no node's counter is higher in `a` than in `b`. -/
instance : LE Clock := ⟨fun a b => ∀ n, a.counter n ≤ b.counter n⟩

theorem le_iff {a b : Clock} : a ≤ b ↔ ∀ n, a.counter n ≤ b.counter n := Iff.rfl

theorem le_refl (a : Clock) : a ≤ a := fun _ => Nat.le_refl _

theorem le_trans {a b c : Clock} (hab : a ≤ b) (hbc : b ≤ c) : a ≤ c :=
  fun n => Nat.le_trans (hab n) (hbc n)

/-- An entry's value is its node's counter. -/
theorem counter_of_mem {c : Clock} {e : Nat × Nat} (h : e ∈ c.versions.entries) :
    c.counter e.1 = e.2 := by
  unfold counter KeyMap.getD
  rw [KeyMap.get?_eq_some_iff.2 h]
  rfl

/-- A positive counter comes from an entry. -/
theorem mem_of_counter_pos {c : Clock} {n : Nat} (h : 0 < c.counter n) :
    (n, c.counter n) ∈ c.versions.entries := by
  unfold counter KeyMap.getD at *
  cases hv : c.versions.get? n with
  | none => rw [hv] at h; exact absurd h (Nat.lt_irrefl 0)
  | some v => exact KeyMap.get?_eq_some_iff.1 hv

/-- Whether `a` has some entry above the same node's counter in `b`. -/
def aheadOf (a b : Clock) : Bool :=
  a.versions.entries.any (fun e => b.counter e.1 < e.2)

/-- `a` is ahead of `b` exactly when some node's counter is higher in `a`. -/
theorem aheadOf_iff {a b : Clock} : a.aheadOf b = true ↔ ∃ n, b.counter n < a.counter n := by
  unfold aheadOf
  rw [List.any_eq_true]
  constructor
  · rintro ⟨e, he, hlt⟩
    refine ⟨e.1, ?_⟩
    rw [counter_of_mem he]
    simpa using hlt
  · rintro ⟨n, hn⟩
    exact ⟨(n, a.counter n), mem_of_counter_pos (by omega), by simpa using hn⟩

/-- `a` is not ahead of `b` exactly when it is below it. -/
theorem aheadOf_eq_false_iff {a b : Clock} : a.aheadOf b = false ↔ a ≤ b := by
  rw [← Bool.not_eq_true, aheadOf_iff, le_iff]
  constructor
  · intro h n
    exact Nat.not_lt.1 fun hn => h ⟨n, hn⟩
  · rintro h ⟨n, hn⟩
    exact absurd (h n) (Nat.not_le.2 hn)

/-! ## The walk -/

/-- A walk ends on the verdict of its flags, each raised by any listed node where its side counts
more: stopping as soon as both are up gives the answer a full walk would. -/
theorem walk_eq (a b : Clock) : ∀ (ns : List Nat) (x y : Bool),
    walk a b ns x y = verdict (x || ns.any fun n => decide (b.counter n < a.counter n))
      (y || ns.any fun n => decide (a.counter n < b.counter n))
  | [], x, y => by simp [walk]
  | n :: rest, x, y => by
    simp only [walk, List.any_cons]
    split
    · -- both flags are up, and the nodes after `n` cannot lower them
      rename_i hup
      rw [Bool.and_eq_true] at hup
      rw [← Bool.or_assoc, ← Bool.or_assoc, hup.1, hup.2]
      rfl
    · rw [walk_eq a b rest, Bool.or_assoc, Bool.or_assoc]

/-- A node where `a` counts more than `b` is a node of `a`, so a walk over any list that holds
the nodes of `a` finds `a` ahead exactly when `aheadOf` does. -/
theorem any_eq_aheadOf {a b : Clock} {ns : List Nat} (hns : ∀ n ∈ a.versions.keys, n ∈ ns) :
    (ns.any fun n => decide (b.counter n < a.counter n)) = a.aheadOf b := by
  apply Bool.eq_iff_iff.2
  rw [aheadOf_iff, List.any_eq_true]
  constructor
  · rintro ⟨n, -, hn⟩
    exact ⟨n, of_decide_eq_true hn⟩
  · rintro ⟨n, hn⟩
    have hkey : n ∈ a.versions.keys :=
      List.mem_map.2 ⟨_, mem_of_counter_pos (Nat.lt_of_le_of_lt (Nat.zero_le _) hn), rfl⟩
    exact ⟨n, hns n hkey, decide_eq_true hn⟩

/-- `compare` is the verdict on which side is ahead of the other somewhere. -/
theorem compare_eq_verdict (a b : Clock) : a.compare b = verdict (a.aheadOf b) (b.aheadOf a) := by
  unfold compare
  rw [walk_eq, Bool.false_or, Bool.false_or,
    any_eq_aheadOf fun n hn => List.mem_append_left _ hn,
    any_eq_aheadOf fun n hn => List.mem_append_right _ hn]

/-- `compare` answers `after` exactly when `a` is ahead of `b` and `b` is not ahead of `a`. -/
theorem compare_eq_after_iff_aheadOf {a b : Clock} :
    a.compare b = .after ↔ a.aheadOf b = true ∧ b.aheadOf a = false := by
  rw [compare_eq_verdict]
  cases a.aheadOf b <;> cases b.aheadOf a <;> simp [verdict]

/-- `a` is after `b` exactly when `b` is below `a` and some counter is higher in `a`. -/
theorem compare_eq_after_iff {a b : Clock} :
    a.compare b = .after ↔ b ≤ a ∧ ∃ n, b.counter n < a.counter n := by
  rw [compare_eq_after_iff_aheadOf, aheadOf_iff, aheadOf_eq_false_iff]
  exact And.comm

theorem le_of_compare_eq_after {a b : Clock} (h : a.compare b = .after) : b ≤ a :=
  (compare_eq_after_iff.1 h).1

theorem le_of_compare_eq_before {a b : Clock} (h : a.compare b = .before) : a ≤ b := by
  rw [compare_eq_verdict] at h
  cases hab : a.aheadOf b
  · exact aheadOf_eq_false_iff.1 hab
  · cases hba : b.aheadOf a <;> simp [verdict, hab, hba] at h

theorem le_of_compare_eq_equal {a b : Clock} (h : a.compare b = .equal) : a ≤ b ∧ b ≤ a := by
  rw [compare_eq_verdict] at h
  cases hab : a.aheadOf b <;> cases hba : b.aheadOf a <;> simp [verdict, hab, hba] at h
  exact ⟨aheadOf_eq_false_iff.1 hab, aheadOf_eq_false_iff.1 hba⟩

/-! ## Stepping a counter -/

/-- A step below the 64-bit limit raises the node's counter by one and stamps the clock. -/
theorem increment_eq_ok {c : Clock} {n : Nat} (ts : Int) (h : c.counter n < maxU64) :
    c.increment n ts = .ok ⟨c.versions.insert n (c.counter n + 1), ts⟩ := by
  simp only [increment, bump_eq_ok h]

/-- A step at the 64-bit limit is the overflow fault. -/
theorem increment_eq_error {c : Clock} {n : Nat} (ts : Int) (h : maxU64 ≤ c.counter n) :
    c.increment n ts = .error .overflow := by
  simp only [increment, bump_eq_error h]

/-- A step succeeds exactly below the 64-bit limit. -/
theorem increment_ok_iff {c : Clock} {n : Nat} {ts : Int} :
    (∃ c', c.increment n ts = .ok c') ↔ c.counter n < maxU64 := by
  constructor
  · rintro ⟨c', h⟩
    refine Nat.not_le.1 fun hle => ?_
    rw [increment_eq_error ts hle] at h
    cases h
  · intro h
    exact ⟨_, increment_eq_ok ts h⟩

/-- After a step, the stepped node counts one more and every other node the same. -/
theorem counter_of_increment {c c' : Clock} {n : Nat} {ts : Int} (h : c.increment n ts = .ok c')
    (j : Nat) : c'.counter j = c.counter j + if j = n then 1 else 0 := by
  have hlt : c.counter n < maxU64 := increment_ok_iff.1 ⟨c', h⟩
  rw [increment_eq_ok ts hlt] at h
  cases h
  unfold counter
  rw [KeyMap.getD_insert]
  by_cases hj : j = n
  · subst hj; simp
  · simp [hj]

theorem le_of_increment {c c' : Clock} {n : Nat} {ts : Int} (h : c.increment n ts = .ok c') :
    c ≤ c' := by
  intro j
  rw [counter_of_increment h j]
  omega

/-- A step of a clock above `b` lands strictly after `b`. -/
theorem compare_increment_after {b c c' : Clock} {n : Nat} {ts : Int} (hb : b ≤ c)
    (h : c.increment n ts = .ok c') : c'.compare b = .after := by
  refine compare_eq_after_iff.2 ⟨le_trans hb (le_of_increment h), n, ?_⟩
  rw [counter_of_increment h n, if_pos rfl]
  exact Nat.lt_succ_of_le (hb n)

/-! ## Resolving the stealer's and the donor's clocks -/

/-- The resolved clock is, node by node, the larger of the two counters. -/
theorem counter_of_resolveLatest {s d : Nat} {sc dc c : Clock} {accept : Bool}
    (h : resolveLatest s sc d dc accept = .ok c) (n : Nat) :
    c.counter n = max (sc.counter n) (dc.counter n) := by
  unfold resolveLatest at h
  split at h
  · -- the stealer's clock is after the donor's
    rename_i hord
    cases h
    exact (Nat.max_eq_left (le_of_compare_eq_after hord n)).symm
  · rename_i hord
    cases h
    exact (Nat.max_eq_right (le_of_compare_eq_before hord n)).symm
  · cases h
  · rename_i hord
    split at h
    · cases h
      exact (Nat.max_eq_left ((le_of_compare_eq_equal hord).2 n)).symm
    · cases h

/-- The resolved clock is above both clocks it was resolved from. -/
theorem le_resolveLatest {s d : Nat} {sc dc c : Clock} {accept : Bool}
    (h : resolveLatest s sc d dc accept = .ok c) : sc ≤ c ∧ dc ≤ c := by
  constructor
  · intro n
    rw [counter_of_resolveLatest h n]
    exact Nat.le_max_left _ _
  · intro n
    rw [counter_of_resolveLatest h n]
    exact Nat.le_max_right _ _

end Clock

end Rebalance

/-!
# Lists ordered by a key

Topologies list their nodes by id and maps list their entries by key; both are lists whose
elements carry a `Nat` key that increases strictly along the list. This module holds the
ordered insertion used by both and its two facts: `increasing_insert` (insertion keeps the
order) and `find?_insert_self` / `find?_insert_ne` (what a look-up by key sees afterwards).
-/

namespace Rebalance.Keyed

variable {α : Type} (key : α → Nat)

/-- The keys of the list increase strictly from left to right. -/
def Increasing (l : List α) : Prop := l.Pairwise (fun a b => key a < key b)

/-- Puts `x` at the place of its key, replacing the element with the same key if there is one. -/
def insert (x : α) : List α → List α
  | [] => [x]
  | y :: rest =>
    if key x < key y then x :: y :: rest
    else if key x = key y then x :: rest
    else y :: insert x rest

/-- The element with key `k`, looked up from the left. -/
def find? (k : Nat) (l : List α) : Option α := l.find? (fun y => key y == k)

variable {key}

theorem mem_insert {x z : α} {l : List α} (h : z ∈ insert key x l) : z = x ∨ z ∈ l := by
  induction l with
  | nil => simp [insert] at h; exact Or.inl h
  | cons y rest ih =>
    simp only [insert] at h
    split at h
    · simp only [List.mem_cons] at h
      rcases h with h | h | h
      · exact Or.inl h
      · exact Or.inr (List.mem_cons.2 (Or.inl h))
      · exact Or.inr (List.mem_cons_of_mem _ h)
    · split at h
      · simp only [List.mem_cons] at h
        rcases h with h | h
        · exact Or.inl h
        · exact Or.inr (List.mem_cons_of_mem _ h)
      · simp only [List.mem_cons] at h
        rcases h with h | h
        · exact Or.inr (List.mem_cons.2 (Or.inl h))
        · rcases ih h with h' | h'
          · exact Or.inl h'
          · exact Or.inr (List.mem_cons_of_mem _ h')

theorem increasing_insert (x : α) {l : List α} (h : Increasing key l) :
    Increasing key (insert key x l) := by
  induction l with
  | nil => simp [insert, Increasing]
  | cons y rest ih =>
    unfold Increasing at h
    rw [List.pairwise_cons] at h
    simp only [insert]
    split
    · unfold Increasing
      rw [List.pairwise_cons, List.pairwise_cons]
      refine ⟨?_, h.1, h.2⟩
      intro p hp
      rcases List.mem_cons.1 hp with hp | hp
      · subst hp; assumption
      · exact Nat.lt_trans (by assumption) (h.1 p hp)
    · split
      · unfold Increasing
        rw [List.pairwise_cons]
        refine ⟨?_, h.2⟩
        intro p hp
        have := h.1 p hp
        omega
      · unfold Increasing
        rw [List.pairwise_cons]
        refine ⟨?_, ih h.2⟩
        intro p hp
        rcases mem_insert hp with hp | hp
        · subst hp; omega
        · exact h.1 p hp

theorem find?_insert_self (x : α) (l : List α) : find? key (key x) (insert key x l) = some x := by
  induction l with
  | nil => simp [insert, find?]
  | cons y rest ih =>
    unfold find? at ih ⊢
    simp only [insert]
    split
    · simp
    · split
      · simp
      · have hne : (key y == key x) = false := by
          simp only [beq_eq_false_iff_ne]; omega
        simp [hne, ih]

theorem find?_insert_ne {x : α} {j : Nat} (l : List α) (hj : j ≠ key x) :
    find? key j (insert key x l) = find? key j l := by
  induction l with
  | nil =>
    have hne : (key x == j) = false := by simp only [beq_eq_false_iff_ne]; omega
    simp [insert, find?, hne]
  | cons y rest ih =>
    unfold find? at ih ⊢
    have hxj : (key x == j) = false := by simp only [beq_eq_false_iff_ne]; omega
    simp only [insert]
    split
    · simp [hxj]
    · split
      · rename_i h2
        simp [hxj, ← h2]
      · by_cases hy : key y = j
        · simp [hy]
        · have hne : (key y == j) = false := by simp only [beq_eq_false_iff_ne]; omega
          simp [hne, ih]

end Rebalance.Keyed

import Mathlib.Logic.Relation
import Rebalance.Proofs.PartitionOwners
import Rebalance.Proofs.PlanSelection
/-!
# What a movement keeps while it progresses

`Movement.make` builds a movement exactly when stealer and donor differ (`exists_make_eq_ok_iff`).
It drops the tiers with no partitions from both maps and keeps the first occurrence of each store
(`eq_of_make`). The moved partitions and the highest tier are not stored but read off the tier
maps: the union of the moved partitions is increasing and holds exactly the partitions of the
move tiers (`increasing_allPartitions`, `mem_allPartitions`), and the highest tier is the largest
key of either map, or 0 (`maxTier_eq`).

A run changes a movement only by the calls of `Movement.Step`: completing a store, keeping the
stores that pass a test, setting the attempt, or stepping the attempt where it does not overflow.
One call keeps the two nodes, both tier maps and the initial topology, and leaves a sublist of
the pending stores (`Step.narrows`); a sequence of calls does too (`narrows_of_steps`), so the
moved partitions and the highest tier stay what `make` gave and no store is ever repeated.
Completing a store answers whether it was pending, and it is pending no more afterwards
(`completeStore_fst_iff`, `not_mem_completeStore`). Together: `progress_keeps_made_fields`.
-/

namespace Rebalance

namespace Movement

/-! ## The calls that make progress -/

/-- One call a run makes on a movement as it goes: completing a store, keeping the stores that
pass a test, setting the attempt, or stepping the attempt where it does not overflow. -/
inductive Step : Movement → Movement → Prop
  | completeStore (m : Movement) (store : String) : Step m (m.completeStore store).2
  | retainStores (m : Movement) (keep : String → Bool) : Step m (m.retainStores keep)
  | setAttempt (m : Movement) (attempt : Nat) : Step m (m.setAttempt attempt)
  | nextAttempt {m m' : Movement} : m.nextAttempt = .ok m' → Step m m'

/-- `m'` keeps what `m` was built with: the nodes, both tier maps and the initial topology, and
some of its pending stores in their order. The attempt is free. -/
structure Narrows (m m' : Movement) : Prop where
  stealer : m'.stealer = m.stealer
  donor : m'.donor = m.donor
  moves : m'.moves = m.moves
  deletes : m'.deletes = m.deletes
  initialTopology : m'.initialTopology = m.initialTopology
  stores : m'.storesPending.Sublist m.storesPending

variable {m m' m'' : Movement}

namespace Narrows

theorem refl (m : Movement) : Narrows m m := ⟨rfl, rfl, rfl, rfl, rfl, List.Sublist.refl _⟩

theorem trans (h : Narrows m m') (h' : Narrows m' m'') : Narrows m m'' :=
  ⟨h'.stealer.trans h.stealer, h'.donor.trans h.donor, h'.moves.trans h.moves,
    h'.deletes.trans h.deletes, h'.initialTopology.trans h.initialTopology,
    h'.stores.trans h.stores⟩

/-- A movement with fewer stores and any attempt. -/
theorem of_stores (hs : m'.storesPending.Sublist m.storesPending)
    (he : m' = { m with storesPending := m'.storesPending, attempt := m'.attempt }) :
    Narrows m m' := by
  rw [he]
  exact ⟨rfl, rfl, rfl, rfl, rfl, hs⟩

theorem allPartitions (h : Narrows m m') : m'.allPartitions = m.allPartitions := by
  rw [Movement.allPartitions, Movement.allPartitions, h.moves]

theorem maxTier (h : Narrows m m') : m'.maxTier = m.maxTier := by
  rw [Movement.maxTier, Movement.maxTier, h.moves, h.deletes]

theorem nodup (h : Narrows m m') (hm : m.storesPending.Nodup) : m'.storesPending.Nodup :=
  h.stores.nodup hm

end Narrows

/-- Stepping the attempt only raises it by one. -/
theorem eq_of_nextAttempt (h : m.nextAttempt = .ok m') : m' = m.setAttempt (m.attempt + 1) := by
  unfold nextAttempt at h
  cases hb : bump maxU32 m.attempt with
  | error f => simp [hb] at h
  | ok a =>
    simp only [hb, Except.ok.injEq] at h
    -- the bump of a counter that fits is the counter plus one
    have ha : a = m.attempt + 1 := by
      unfold bump at hb
      split at hb
      · cases hb
        rfl
      · cases hb
    rw [← h, ha]
    rfl

/-- One call keeps the nodes, the tier maps and the initial topology, and only drops stores. -/
theorem Step.narrows (h : Step m m') : Narrows m m' := by
  cases h with
  | completeStore store => exact .of_stores List.filter_sublist rfl
  | retainStores keep => exact .of_stores List.filter_sublist rfl
  | setAttempt attempt => exact .of_stores (List.Sublist.refl _) rfl
  | nextAttempt h =>
    rw [eq_of_nextAttempt h]
    exact .of_stores (List.Sublist.refl _) rfl

/-- Any sequence of calls keeps what one call keeps. -/
theorem narrows_of_steps (h : Relation.ReflTransGen Step m m') : Narrows m m' := by
  induction h with
  | refl => exact .refl m
  | tail _ hs ih => exact ih.trans hs.narrows

/-! ## Completing a store -/

/-- Completing a store answers whether it was pending. -/
theorem completeStore_fst_iff (m : Movement) (store : String) :
    (m.completeStore store).1 = true ↔ store ∈ m.storesPending := by
  simp [completeStore]

/-- A completed store is pending no more. -/
theorem not_mem_completeStore (m : Movement) (store : String) :
    store ∉ (m.completeStore store).2.storesPending := by
  simp [completeStore]

/-! ## What `make` builds -/

section Make

variable {stealer donor attempt : Nat} {moves deletes : Tiers} {stores : List String}
  {topology : Topology}

theorem exists_make_eq_ok_iff :
    (∃ m, make stealer donor moves deletes stores topology attempt = .ok m) ↔
      stealer ≠ donor := by
  unfold make
  by_cases h : stealer = donor
  · simp [h]
  · simp [h]

/-- `make` fails only on a stealer equal to its donor. -/
theorem make_eq_error {e : MovementError}
    (h : make stealer donor moves deletes stores topology attempt = .error e) :
    stealer = donor ∧ e = .sameNode stealer := by
  unfold make at h
  split at h
  · cases h
    exact ⟨by assumption, rfl⟩
  · cases h

/-- `make` drops the empty tiers of both maps and keeps the first occurrence of each store. -/
theorem eq_of_make (h : make stealer donor moves deletes stores topology attempt = .ok m) :
    m = ⟨stealer, donor, moves.filterValues (fun ps => !ps.isEmpty),
      deletes.filterValues (fun ps => !ps.isEmpty), stores.eraseDups, attempt, topology⟩ := by
  unfold make at h
  split at h
  · cases h
  · cases h
    rw [firstOccurrences_eq_eraseDups]

end Make

/-! ## The moved partitions and the highest tier -/

/-- The moved partitions are listed increasing. -/
theorem increasing_allPartitions (m : Movement) : m.allPartitions.Pairwise (· < ·) :=
  increasing_normalize _

/-- The moved partitions are those of the move tiers. -/
theorem mem_allPartitions {p : Nat} :
    p ∈ m.allPartitions ↔ ∃ t ps, m.moves.get? t = some ps ∧ p ∈ ps := by
  simp only [allPartitions, mem_normalize, List.mem_flatMap, KeyMap.get?_eq_some_iff]
  constructor
  · rintro ⟨⟨t, ps⟩, he, hp⟩
    exact ⟨t, ps, he, hp⟩
  · rintro ⟨t, ps, he, hp⟩
    exact ⟨(t, ps), he, hp⟩

/-- The highest tier is the largest key of either map, or 0 when both are empty. -/
theorem maxTier_eq (m : Movement) : m.maxTier = (m.moves.keys ++ m.deletes.keys).max?.getD 0 := by
  rw [maxTier, List.foldl_max, Nat.zero_max]

example : (Movement.mk 1 0 (KeyMap.ofList [(0, [1])]) (KeyMap.ofList [(3, [1])]) ["users"] 0
    (Topology.empty "t")).maxTier = 3 := by decide

/-- A partition is in a non-empty tier exactly when it is in a tier. -/
theorem exists_tier_filter_iff {ts : Tiers} {p : Nat} :
    (∃ t ps, (ts.filterValues fun ps => !ps.isEmpty).get? t = some ps ∧ p ∈ ps) ↔
      ∃ t ps, ts.get? t = some ps ∧ p ∈ ps := by
  simp only [KeyMap.get?_filterValues, Option.filter_eq_some_iff]
  constructor
  · rintro ⟨t, ps, ⟨hts, -⟩, hp⟩
    exact ⟨t, ps, hts, hp⟩
  · rintro ⟨t, ps, hts, hp⟩
    -- a tier holding `p` is not empty
    have hne : ps.isEmpty = false := List.isEmpty_eq_false_iff_exists_mem.2 ⟨p, hp⟩
    exact ⟨t, ps, ⟨hts, by simp [hne]⟩, hp⟩

/-! ## A made movement along a run -/

/-- `make` succeeds exactly when stealer and donor differ. The movement it builds has the given
nodes and topology, the tier maps without their empty tiers, and each store once, where it first
occurs. Every sequence of calls after it keeps all of that: the nodes, the tier maps and the
topology stay, the moved partitions stay the increasing union of the move tiers, the highest tier
stays the largest remaining key of either map or 0, so neither changes from call to call, and the
pending stores only lose entries and never repeat. Completing a store answers whether it was
pending and leaves it pending no more. -/
theorem progress_keeps_made_fields (stealer donor : Nat) (moves deletes : Tiers)
    (stores : List String) (topology : Topology) (attempt : Nat) :
    ((∃ m, make stealer donor moves deletes stores topology attempt = .ok m) ↔
        stealer ≠ donor) ∧
      (∀ m, make stealer donor moves deletes stores topology attempt = .ok m →
        m.storesPending = stores.eraseDups ∧
        ∀ m₁ m₂, Relation.ReflTransGen Step m m₁ →
          Relation.ReflTransGen Step m₁ m₂ →
          m₂.stealer = stealer ∧ m₂.donor = donor ∧ m₂.initialTopology = topology ∧
          (∀ t, m₂.moves.get? t = (moves.get? t).filter (!·.isEmpty)) ∧
          (∀ t, m₂.deletes.get? t = (deletes.get? t).filter (!·.isEmpty)) ∧
          m₂.allPartitions.Pairwise (· < ·) ∧
          (∀ p, p ∈ m₂.allPartitions ↔ ∃ t ps, moves.get? t = some ps ∧ p ∈ ps) ∧
          m₂.maxTier = (m₂.moves.keys ++ m₂.deletes.keys).max?.getD 0 ∧
          m₂.allPartitions = m₁.allPartitions ∧ m₂.maxTier = m₁.maxTier ∧
          m₂.storesPending.Sublist m₁.storesPending ∧ m₂.storesPending.Nodup) ∧
      ∀ (m : Movement) (store : String),
        ((m.completeStore store).1 = true ↔ store ∈ m.storesPending) ∧
          store ∉ (m.completeStore store).2.storesPending := by
  refine ⟨exists_make_eq_ok_iff, fun m hm => ?_, fun m store =>
    ⟨completeStore_fst_iff m store, not_mem_completeStore m store⟩⟩
  have hmade := eq_of_make hm
  have hnodup : m.storesPending.Nodup := by
    rw [hmade, ← firstOccurrences_eq_eraseDups]
    exact nodup_firstOccurrences stores
  refine ⟨by rw [hmade], fun m₁ m₂ h₁ h₂ => ?_⟩
  -- from the made movement on the nodes, maps and topology stay; from `m₁` on stores only go
  have hn := narrows_of_steps (h₁.trans h₂)
  have hn₂ := narrows_of_steps h₂
  have hmoves : m₂.moves = moves.filterValues (fun ps => !ps.isEmpty) := by rw [hn.moves, hmade]
  have hdeletes : m₂.deletes = deletes.filterValues (fun ps => !ps.isEmpty) := by
    rw [hn.deletes, hmade]
  refine ⟨?_, ?_, ?_, fun t => ?_, fun t => ?_, increasing_allPartitions m₂, fun p => ?_,
    maxTier_eq m₂, hn₂.allPartitions, hn₂.maxTier, hn₂.stores, hn.nodup hnodup⟩
  · rw [hn.stealer, hmade]
  · rw [hn.donor, hmade]
  · rw [hn.initialTopology, hmade]
  · rw [hmoves, KeyMap.get?_filterValues]
  · rw [hdeletes, KeyMap.get?_filterValues]
  · -- an empty tier holds no partition, so dropping it loses none
    rw [mem_allPartitions, hmoves, exists_tier_filter_iff]

/-- The tiers moved by the sample movement: tier 0 lists partitions 3 and 2, tier 2 partition 0. -/
def sampleMoves : Tiers := KeyMap.ofList [(0, [3, 2]), (2, [0])]

/-- The sample movement deletes partition 2 in tier 1. -/
def sampleDeletes : Tiers := KeyMap.ofList [(1, [2])]

/-- The movement of two stores from node 0 to node 1 over the sample tiers. -/
def sampleMovement : Movement :=
  ⟨1, 0, sampleMoves, sampleDeletes, ["users", "sessions"], 0, Topology.empty "initial"⟩

/-- The sample movement after completing `users`, stepping the attempt to 1 and setting it to 5. -/
def sampleProgressed : Movement :=
  ((sampleMovement.completeStore "users").2.setAttempt 1).setAttempt 5

/-- Completing a store, stepping the attempt and setting it leave the moved partitions and the
highest tier of the sample movement as they were, and drop only the completed store. -/
theorem sample_progress_keeps_partitions :
    make 1 0 sampleMoves sampleDeletes ["users", "sessions"] (Topology.empty "initial") 0 =
        .ok sampleMovement ∧
      Relation.ReflTransGen Step sampleMovement sampleProgressed ∧
      sampleProgressed.allPartitions = sampleMovement.allPartitions ∧
      sampleProgressed.maxTier = sampleMovement.maxTier ∧
      sampleProgressed.storesPending.Sublist sampleMovement.storesPending := by
  have hmake : make 1 0 sampleMoves sampleDeletes ["users", "sessions"]
      (Topology.empty "initial") 0 = .ok sampleMovement := rfl
  have hsteps : Relation.ReflTransGen Step sampleMovement sampleProgressed :=
    ((Relation.ReflTransGen.single (Step.completeStore _ "users")).tail
      (Step.nextAttempt rfl)).tail (Step.setAttempt _ 5)
  obtain ⟨-, -, -, -, -, -, -, -, hparts, htier, hsub, -⟩ :=
    ((progress_keeps_made_fields 1 0 sampleMoves sampleDeletes ["users", "sessions"]
      (Topology.empty "initial") 0).2.1 _ hmake).2 _ _ .refl hsteps
  exact ⟨hmake, hsteps, hparts, htier, hsub⟩

end Movement

end Rebalance

import Mathlib.Data.List.Nodup
import Mathlib.Data.List.Pairwise
import Rebalance.Proofs.TopologyChanges
import Rebalance.Proofs.RecordRoundTrip
/-!
# Who owns a partition

A node answers whether it owns a partition by a halving search of its list (`Node.owns`), and a
topology names the owner of a partition as the first node, in id order, whose search finds it
(`Topology.partitionOwner`). The search trusts the list to be ordered.

* On a list in increasing order the search finds exactly the listed elements
  (`searchSorted_iff_mem`): while more than one candidate is left, the probe keeps a part of the
  candidates that still holds the element sought (`settle_found`), and the position it settles on
  is always a candidate (`settle_bounds`), so a hit is a listed element.
* Building a topology from nodes made with `Node.make`, adding such nodes and moving partitions
  keep every partition list strictly increasing (`Topology.Built`, `partitionsIncreasing_of_built`),
  so on such a topology `owns` is list membership, and when the topology is valid the owner of a
  partition is the one node that lists it (`built_topology_owners`).

Two paths leave this law. A topology read from a document keeps its partition lists as written,
so an unsorted list hides some of its partitions from the search; and adding nodes does not
validate, so two nodes may list one partition and the first in id order is named its owner
(`unsorted_document_and_shared_partition`).
-/

namespace Rebalance

/-! ## The halving search -/

section Search

variable {a : Array Nat} {x : Nat}

/-- An array whose elements never decrease. -/
def Ascending (a : Array Nat) : Prop := a.toList.Pairwise (· ≤ ·)

theorem getD_of_lt {i : Nat} (h : i < a.size) : a.getD i 0 = a[i] := by
  simp [Array.getD, h]

theorem Ascending.le {i j : Nat} (hs : Ascending a) (hij : i ≤ j) (hj : j < a.size) :
    a.getD i 0 ≤ a.getD j 0 := by
  rw [getD_of_lt (Nat.lt_of_le_of_lt hij hj), getD_of_lt hj]
  rcases Nat.lt_or_eq_of_le hij with hlt | rfl
  · have h := List.pairwise_iff_getElem.1 hs i j (by simp; omega) (by simpa using hj) hlt
    simpa using h
  · exact Nat.le_refl _

/-- The search settles on one of its candidates. -/
theorem settle_bounds : ∀ (base size : Nat), 0 < size →
    base ≤ settle a x base size ∧ settle a x base size < base + size := by
  intro base size
  fun_induction settle a x base size with
  | case1 base size _ => intro h; omega
  | case2 base size hsize half ih =>
    intro _
    have hhalf : half = size / 2 := rfl
    simp only [dite_eq_ite] at ih
    -- the part kept starts at `base` or at the probe, and ends where the candidates end
    by_cases hc : x < a.getD (base + half) 0
    · simp only [hc, if_true] at ih ⊢
      have := ih (by omega)
      omega
    · simp only [hc, if_false] at ih ⊢
      have := ih (by omega)
      omega

/-- While some candidate holds `x`, the part the probe keeps holds it too, so the search settles on
it: an ascending array has no element above `x` before it, none below after it. -/
theorem settle_found (hs : Ascending a) : ∀ (base size : Nat), base + size ≤ a.size →
    (∃ i, base ≤ i ∧ i < base + size ∧ a.getD i 0 = x) → a.getD (settle a x base size) 0 = x := by
  intro base size
  fun_induction settle a x base size with
  | case1 base size hsize =>
    -- one candidate is left: it is the one holding `x`
    rintro - ⟨i, hbi, hi, hx⟩
    rw [show base = i by omega]
    exact hx
  | case2 base size hsize half ih =>
    rintro hfit ⟨i, hbi, hi, hx⟩
    have hhalf : half = size / 2 := rfl
    have hmid : base + half < a.size := by omega
    simp only [dite_eq_ite] at ih
    by_cases hc : x < a.getD (base + half) 0
    · -- `x` is below the probe, so its place is before it
      simp only [hc, if_true] at ih ⊢
      refine ih (by omega) ⟨i, hbi, ?_, hx⟩
      by_cases him : base + half ≤ i
      · have := hs.le him (by omega)
        omega
      · omega
    · -- the probe is at most `x`: `x` is at the probe or after it
      simp only [hc, if_false] at ih ⊢
      refine ih (by omega) ?_
      by_cases him : base + half ≤ i
      · exact ⟨i, him, by omega, hx⟩
      · have := hs.le (Nat.le_of_lt (Nat.lt_of_not_le him)) hmid
        exact ⟨base + half, Nat.le_refl _, by omega, by omega⟩

/-- On an ascending array the halving search finds exactly the elements of the array. -/
theorem searchSorted_iff_mem (hs : Ascending a) : searchSorted a x = true ↔ x ∈ a.toList := by
  unfold searchSorted
  constructor
  · intro h
    simp only [Bool.and_eq_true, bne_iff_ne, ne_eq, beq_iff_eq] at h
    obtain ⟨hne, hx⟩ := h
    have hlt := (@settle_bounds a x 0 a.size (by omega)).2
    rw [getD_of_lt (by omega)] at hx
    rw [← hx, Array.mem_toList_iff]
    exact Array.getElem_mem _
  · intro hx
    obtain ⟨i, hi, rfl⟩ := List.getElem_of_mem hx
    have hsize : a.size ≠ 0 := by simp at hi; omega
    have hfound := settle_found hs 0 a.size (by omega)
      ⟨i, Nat.zero_le _, by simpa using hi, by rw [getD_of_lt (by simpa using hi)]⟩
    simp [hsize, hfound]

end Search

/-- A node's search for a partition, on a list in increasing order, is list membership. -/
theorem Node.owns_iff {n : Node} (h : n.partitions.Pairwise (· < ·)) (p : Nat) :
    n.owns p = true ↔ p ∈ n.partitions := by
  have hs : Ascending n.partitions.toArray := by
    simpa [Ascending] using h.imp Nat.le_of_lt
  simpa [Node.owns] using @searchSorted_iff_mem _ p hs

/-! ## Topologies whose partition lists are in order -/

/-- A node as `Node.make` builds it: any fields, its partition list normalized. -/
def Node.Made (n : Node) : Prop :=
  ∃ id host httpPort socketPort adminPort ps, n = Node.make id host httpPort socketPort adminPort ps

theorem increasing_normalize (l : List Nat) : (normalize l).Pairwise (· < ·) :=
  increasing_foldl_insertSorted l [] List.Pairwise.nil

theorem Node.Made.increasing {n : Node} (h : n.Made) : n.partitions.Pairwise (· < ·) := by
  obtain ⟨_, _, _, _, _, ps, rfl⟩ := h
  exact increasing_normalize ps

namespace Topology

variable {t u : Topology}

/-- Every node's partition list is strictly increasing. -/
def PartitionsIncreasing (t : Topology) : Prop := ∀ n ∈ t.nodes, n.partitions.Pairwise (· < ·)

/-- The topologies built from nodes made with `Node.make`, by adding such nodes and by moving
partitions. -/
inductive Built : Topology → Prop
  | make {name : String} {ns : List Node} {t : Topology} :
      (∀ n ∈ ns, n.Made) → Topology.make name ns = .ok t → Built t
  | withNodes {t : Topology} {ns : List Node} : Built t → (∀ n ∈ ns, n.Made) → Built (t.withNodes ns)
  | reassign {t u : Topology} {stealer donor : Nat} {ps : List Nat} :
      Built t → t.reassign stealer donor ps = .ok u → Built u

/-- `make` lists the nodes it was given, sorted by id. -/
theorem mem_of_make {name : String} {ns : List Node} (h : make name ns = .ok t) {n : Node}
    (hn : n ∈ t.nodes) : n ∈ ns := by
  unfold make at h
  dsimp only at h
  split at h
  · cases h
  · split at h
    · cases h
      exact (List.mergeSort_perm ns _).mem_iff.1 hn
    · cases h

/-- Adding nodes keeps the listed nodes but those replaced. -/
theorem mem_withNodes {n : Node} : ∀ {t : Topology} {ns : List Node},
    n ∈ (t.withNodes ns).nodes → n ∈ t.nodes ∨ n ∈ ns
  | _, [], h => .inl h
  | t, x :: xs, h => by
    rcases @mem_withNodes n (t.withNode x) xs h with h | h
    · rcases Keyed.mem_insert h with rfl | h
      · exact .inr List.mem_cons_self
      · exact .inl h
    · exact .inr (List.mem_cons_of_mem _ h)

theorem partitionsIncreasing_make {name : String} {ns : List Node}
    (hns : ∀ n ∈ ns, n.partitions.Pairwise (· < ·)) (h : make name ns = .ok t) :
    t.PartitionsIncreasing :=
  fun n hn => hns n (mem_of_make h hn)

theorem partitionsIncreasing_withNodes {ns : List Node} (ht : t.PartitionsIncreasing)
    (hns : ∀ n ∈ ns, n.partitions.Pairwise (· < ·)) : (t.withNodes ns).PartitionsIncreasing := by
  intro n hn
  rcases mem_withNodes hn with hn | hn
  · exact ht n hn
  · exact hns n hn

/-- A move rewrites only the stealer's and the donor's lists, each as a normalized list. -/
theorem partitionsIncreasing_reassign {s d : Nat} {ps : List Nat} (ht : t.PartitionsIncreasing)
    (h : t.reassign s d ps = .ok u) : u.PartitionsIncreasing := by
  unfold reassign at h
  split at h
  · cases h
  · split at h
    · cases h
    · cases h
    · dsimp only at h
      split at h
      · cases h
        refine partitionsIncreasing_withNodes ht fun n hn => ?_
        simp only [List.mem_cons, List.not_mem_nil, or_false] at hn
        rcases hn with rfl | rfl <;> exact increasing_normalize _
      · cases h

theorem Built.partitionsIncreasing (h : t.Built) : t.PartitionsIncreasing := by
  induction h with
  | make hns hmk => exact partitionsIncreasing_make (fun n hn => (hns n hn).increasing) hmk
  | withNodes _ hns ih => exact partitionsIncreasing_withNodes ih fun n hn => (hns n hn).increasing
  | reassign _ hr ih => exact partitionsIncreasing_reassign ih hr

/-- In a valid topology no two nodes list one partition. -/
theorem eq_of_mem_partitions (hv : t.validate = .ok ()) {m n : Node} (hm : m ∈ t.nodes)
    (hn : n ∈ t.nodes) {p : Nat} (hpm : p ∈ m.partitions) (hpn : p ∈ n.partitions) : m = n := by
  have hdis := (List.nodup_flatMap.1 (validate_eq_ok_iff.1 hv)).2
  have : Std.Symm (Function.onFun List.Disjoint Node.partitions) := ⟨fun _ _ h _ ha hb => h hb ha⟩
  by_contra hne
  exact hdis.forall hm hn hne hpm hpn

/-- With increasing lists, the owner a valid topology names for a partition is the node that
lists it. -/
theorem partitionOwner_eq_some_iff (hinc : t.PartitionsIncreasing) (hv : t.validate = .ok ())
    {n : Node} (hn : n ∈ t.nodes) (p : Nat) : t.partitionOwner p = some n.id ↔ p ∈ n.partitions := by
  have hown : ∀ m ∈ t.nodes, m.owns p = true ↔ p ∈ m.partitions :=
    fun m hm => Node.owns_iff (hinc m hm) p
  unfold partitionOwner
  constructor
  · intro h
    obtain ⟨m, hfind, hid⟩ := Option.map_eq_some_iff.1 h
    have hm := List.mem_of_find?_eq_some hfind
    rw [← eq_of_id_eq hm hn hid]
    exact (hown m hm).1 (by simpa using List.find?_some hfind)
  · intro hp
    -- the search finds a first node that owns `p`, and only `n` lists it
    obtain ⟨m, hfind⟩ := Option.isSome_iff_exists.1
      (List.find?_isSome.2 ⟨n, hn, by simpa using (hown n hn).2 hp⟩ :
        (t.nodes.find? fun m => m.owns p).isSome)
    have hm := List.mem_of_find?_eq_some hfind
    have hmn := eq_of_mem_partitions hv hm hn ((hown m hm).1 (by simpa using List.find?_some hfind)) hp
    rw [hfind, hmn]
    rfl

end Topology

/-- Every topology built from nodes made with `Node.make`, by adding such nodes and by moving
partitions, lists each node's partitions in strictly increasing order. So on it a node's search
for a partition is list membership, and once it is valid, the owner it names for a partition is
the node that lists it. -/
theorem built_topology_owners {t : Topology} (ht : t.Built) :
    t.PartitionsIncreasing ∧ (∀ n ∈ t.nodes, ∀ p, n.owns p = true ↔ p ∈ n.partitions) ∧
      (t.validate = .ok () →
        ∀ n ∈ t.nodes, ∀ p, t.partitionOwner p = some n.id ↔ p ∈ n.partitions) :=
  ⟨ht.partitionsIncreasing, fun n hn p => Node.owns_iff (ht.partitionsIncreasing n hn) p,
    fun hv _ hn p => Topology.partitionOwner_eq_some_iff ht.partitionsIncreasing hv hn p⟩

/-- Nodes 0 and 1 as `make` builds them from unsorted lists with repeats. -/
def sampleTopology : Topology := ⟨"t", [⟨0, "a", 1, 2, 3, [0, 1, 2]⟩, ⟨1, "b", 1, 2, 3, [4, 5]⟩],
  by unfold Keyed.Increasing; decide⟩

/-- The sample once partition 2 has moved from node 0 to node 1. -/
def movedSampleTopology : Topology :=
  ⟨"t", [⟨0, "a", 1, 2, 3, [0, 1]⟩, ⟨1, "b", 1, 2, 3, [2, 4, 5]⟩],
    by unfold Keyed.Increasing; decide⟩

theorem moved_sample_owners :
    movedSampleTopology.Built ∧ (movedSampleTopology.PartitionsIncreasing ∧
      (∀ n ∈ movedSampleTopology.nodes, ∀ p, n.owns p = true ↔ p ∈ n.partitions) ∧
      (movedSampleTopology.validate = .ok () → ∀ n ∈ movedSampleTopology.nodes, ∀ p,
        movedSampleTopology.partitionOwner p = some n.id ↔ p ∈ n.partitions)) := by
  have hnodes : [Node.make 0 "a" 1 2 3 [2, 0, 1], Node.make 1 "b" 1 2 3 [5, 4, 5]] =
      sampleTopology.nodes := rfl
  have hmade : ∀ n ∈ sampleTopology.nodes, n.Made := by
    rw [← hnodes]
    intro n hn
    simp only [List.mem_cons, List.not_mem_nil, or_false] at hn
    rcases hn with rfl | rfl
    · exact ⟨0, "a", 1, 2, 3, [2, 0, 1], rfl⟩
    · exact ⟨1, "b", 1, 2, 3, [5, 4, 5], rfl⟩
  have hmk : Topology.make sampleTopology.name sampleTopology.nodes = .ok sampleTopology :=
    Topology.make_of_valid rfl
  have hmv : sampleTopology.reassign 1 0 [2] = .ok movedSampleTopology := rfl
  have hb : movedSampleTopology.Built := .reassign (.make hmade hmk) hmv
  exact ⟨hb, built_topology_owners hb⟩

/-- A topology document whose one node lists partition 2 before partition 1. -/
def unsortedDocument : String :=
  "\x7b\"name\":\"t\",\"nodes\":[\x7b\"id\":0,\"host\":\"a\",\"http_port\":1,\"socket_port\":2,\"admin_port\":3,\"partitions\":[2,1]\x7d]\x7d"

/-- The topology of `unsortedDocument`, its list as written. -/
def unsortedTopology : Topology := ⟨"t", [⟨0, "a", 1, 2, 3, [2, 1]⟩],
  by unfold Keyed.Increasing; decide⟩

/-- The sample with a node 2 made listing partition 1, which node 0 lists too: adding nodes does
not validate. -/
def sharedTopology : Topology := sampleTopology.withNodes [Node.make 2 "c" 1 2 3 [1]]

/-- The law fails off built topologies: a document's unsorted list hides partition 2 from the
search, so no owner is named for it; and with two nodes listing partition 1, the owner named is
the first, not the other. -/
theorem unsorted_document_and_shared_partition :
    Topology.ofJson unsortedDocument = .ok unsortedTopology ∧
      ¬ unsortedTopology.PartitionsIncreasing ∧
      (∃ n ∈ unsortedTopology.nodes, 2 ∈ n.partitions ∧ n.owns 2 = false) ∧
      unsortedTopology.partitionOwner 2 = none ∧
      (∃ n ∈ sharedTopology.nodes, 1 ∈ n.partitions ∧ sharedTopology.partitionOwner 1 ≠ some n.id) := by
  -- the document is read by evaluating the reader and comparing what it gives
  have hread : Json.readDocument Topology.shape unsortedDocument = .ok unsortedTopology.shapedValue :=
    Json.eq_ok_of_same (by decide +kernel)
  have hnode : (⟨0, "a", 1, 2, 3, [2, 1]⟩ : Node) ∈ unsortedTopology.nodes := List.mem_singleton_self _
  refine ⟨?_, fun h => ?_, ⟨_, hnode, by decide, by decide +kernel⟩, by decide +kernel,
    ⟨⟨2, "c", 1, 2, 3, [1]⟩, by decide, by decide, by decide +kernel⟩⟩
  · simp only [Topology.ofJson, hread, Topology.partsOfShaped_shapedValue]
    exact Topology.make_of_valid rfl
  · simpa using h _ hnode

end Rebalance

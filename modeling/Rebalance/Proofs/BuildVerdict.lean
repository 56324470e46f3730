import Rebalance.Proofs.TopologyChanges
import Rebalance.Topology.Json
/-!
# What building a topology answers

`Topology.make` sorts the given nodes by id, stably, and then checks two things in turn: that no
two neighbouring ids are equal, and, walking the partition lists in that order, that no
partition comes back. Both checks are stated here without the walks that make them.

* Neighbours in a list sorted by id repeat exactly when some id repeats, and the first
  neighbouring repeat is the least repeated id (`adjacentRepeat?_eq_none_iff`,
  `leastRepeat_of_adjacentRepeat?`).
* The walk over the partitions reports the first partition equal to an earlier one
  (`firstRepeat_of_firstRepeat?`, and for validation `firstRepeat_of_validate`).
* With distinct ids the sorted list is the one arrangement of the nodes in increasing id order
  (`eq_mergeSort_of_increasing`), so the order of the partitions the walk sees is fixed by the
  ids alone.

Together (`built_topology_verdict`): a topology is built exactly when ids and partitions are all
distinct; otherwise the least repeated id is reported, and with distinct ids the first repeated
partition in id order. Reading a document builds from the nodes read, so it answers the same.
-/

namespace Rebalance

/-! ## Repeats -/

/-- `m` is the least element that `l` holds twice. -/
def LeastRepeat (l : List Nat) (m : Nat) : Prop := 2 ≤ l.count m ∧ ∀ k, 2 ≤ l.count k → m ≤ k

/-- `p` is the first element of `l` equal to an earlier one: what comes before it has no repeat
and holds `p`. -/
def FirstRepeat (l : List Nat) (p : Nat) : Prop := ∃ a b, l = a ++ p :: b ∧ a.Nodup ∧ p ∈ a

theorem LeastRepeat.perm {l l' : List Nat} {m : Nat} (h : LeastRepeat l m) (hp : l.Perm l') :
    LeastRepeat l' m := by
  unfold LeastRepeat at h ⊢
  simp only [← hp.count_eq]
  exact h

section Sorted

variable {l : List Nat} {a b m : Nat}

/-- The head of a list sorted upwards is at most everything after it. -/
theorem Sorted.head_le {rest : List Nat} (hs : (a :: rest).Pairwise (· ≤ ·)) {x : Nat}
    (hx : x ∈ a :: rest) : a ≤ x := by
  rcases List.mem_cons.1 hx with rfl | hx
  · exact Nat.le_refl _
  · exact List.rel_of_pairwise_cons hs hx

/-- In a list sorted upwards the head is repeated only next to itself. -/
theorem not_mem_of_sorted {rest : List Nat} (hs : (a :: b :: rest).Pairwise (· ≤ ·)) (hab : a ≠ b) :
    a ∉ b :: rest := by
  intro ha
  have hba := Sorted.head_le (List.pairwise_cons.1 hs).2 ha
  have hab' := Sorted.head_le hs (List.mem_cons_of_mem _ List.mem_cons_self)
  omega

theorem adjacentRepeat?_eq_none_iff : ∀ {l : List Nat}, l.Pairwise (· ≤ ·) →
    (adjacentRepeat? l = none ↔ l.Nodup)
  | [], _ => by simp [adjacentRepeat?]
  | [_], _ => by simp [adjacentRepeat?]
  | a :: b :: rest, hs => by
    by_cases hab : a = b
    · subst hab
      simp [adjacentRepeat?]
    · have ha := not_mem_of_sorted hs hab
      rw [adjacentRepeat?, if_neg hab, adjacentRepeat?_eq_none_iff (List.pairwise_cons.1 hs).2]
      exact ⟨fun h => List.nodup_cons.2 ⟨ha, h⟩, fun h => (List.nodup_cons.1 h).2⟩

/-- In a list sorted upwards the first neighbouring repeat is the least repeated element. -/
theorem leastRepeat_of_adjacentRepeat? : ∀ {l : List Nat}, l.Pairwise (· ≤ ·) →
    adjacentRepeat? l = some m → LeastRepeat l m
  | [], _, h => by simp [adjacentRepeat?] at h
  | [_], _, h => by simp [adjacentRepeat?] at h
  | a :: b :: rest, hs, h => by
    by_cases hab : a = b
    · -- the head repeats, and nothing is below the head
      subst hab
      simp only [adjacentRepeat?, if_true, Option.some.injEq] at h
      subst h
      refine ⟨by simp, fun k hk => Sorted.head_le hs ?_⟩
      exact List.count_pos_iff.1 (by omega)
    · rw [adjacentRepeat?, if_neg hab] at h
      obtain ⟨hm, hleast⟩ := leastRepeat_of_adjacentRepeat? (List.pairwise_cons.1 hs).2 h
      -- the head occurs once, so every repeated element repeats in the tail
      have hcount : ∀ k, (a :: b :: rest).count k = (b :: rest).count k + if a = k then 1 else 0 := by
        intro k
        simp [List.count_cons, beq_iff_eq]
      have ha : (b :: rest).count a = 0 := List.count_eq_zero.2 (not_mem_of_sorted hs hab)
      refine ⟨by rw [hcount]; omega, fun k hk => hleast k ?_⟩
      rw [hcount] at hk
      split at hk
      · subst k
        omega
      · omega

end Sorted

theorem firstRepeat?_go_eq_some {p : Nat} (seen l : List Nat) (h : firstRepeat?.go seen l = some p) :
    ∃ a b, l = a ++ p :: b ∧ a.Nodup ∧ (∀ x ∈ a, x ∉ seen) ∧ (p ∈ a ∨ p ∈ seen) := by
  induction l generalizing seen with
  | nil => cases h
  | cons q rest ih =>
    unfold firstRepeat?.go at h
    by_cases hq : q ∈ seen
    · -- met before the walk reached this list
      simp only [List.contains_iff_mem, hq, if_true, Option.some.injEq] at h
      subst h
      exact ⟨[], rest, rfl, List.nodup_nil, fun _ hx => absurd hx List.not_mem_nil, .inr hq⟩
    · simp only [List.contains_iff_mem, hq, if_false] at h
      obtain ⟨a, b, rfl, hnd, hnot, hp⟩ := ih (q :: seen) h
      refine ⟨q :: a, b, rfl, List.nodup_cons.2 ⟨fun hqa => hnot q hqa List.mem_cons_self, hnd⟩,
        fun x hx => ?_, ?_⟩
      · rcases List.mem_cons.1 hx with rfl | hx
        · exact hq
        · exact fun hs => hnot x hx (List.mem_cons_of_mem _ hs)
      · rcases hp with hp | hp
        · exact .inl (List.mem_cons_of_mem _ hp)
        · rcases List.mem_cons.1 hp with rfl | hp
          · exact .inl List.mem_cons_self
          · exact .inr hp

/-- The walk over a list reports the first element equal to an earlier one. -/
theorem firstRepeat_of_firstRepeat? {l : List Nat} {p : Nat} (h : firstRepeat? l = some p) :
    FirstRepeat l p := by
  obtain ⟨a, b, hl, hnd, -, hp⟩ := firstRepeat?_go_eq_some [] l h
  exact ⟨a, b, hl, hnd, hp.resolve_right List.not_mem_nil⟩

/-! ## Sorting the nodes -/

section SortById

variable {ns l : List Node}

theorem perm_sortById (ns : List Node) :
    (ns.mergeSort fun a b => decide (a.id ≤ b.id)).Perm ns :=
  List.mergeSort_perm ns _

/-- The arrangement of the nodes in increasing id order, when there is one, is their sort by
id. -/
theorem eq_mergeSort_of_increasing (hl : l.Perm ns) (hinc : Keyed.Increasing Node.id l) :
    l = ns.mergeSort fun a b => decide (a.id ≤ b.id) := by
  have hsorted := (perm_sortById ns).trans hl.symm
  refine @List.Perm.eq_of_pairwise _ (fun a b : Node => a.id ≤ b.id) _ _ ?_
    (hinc.imp Nat.le_of_lt) (sortById_sorted ns) hsorted.symm
  -- two nodes of equal id are one node of `l`
  intro a b ha hb hab hba
  exact Keyed.eq_of_key_eq hinc ha (hsorted.subset hb) (Nat.le_antisymm hab hba)

theorem nodup_ids_sortById :
    ((ns.mergeSort fun a b => decide (a.id ≤ b.id)).map Node.id).Nodup ↔ (ns.map Node.id).Nodup :=
  ((perm_sortById ns).map Node.id).nodup_iff

theorem nodup_partitions_sortById :
    ((ns.mergeSort fun a b => decide (a.id ≤ b.id)).flatMap Node.partitions).Nodup ↔
      (ns.flatMap Node.partitions).Nodup :=
  ((perm_sortById ns).flatMap_right Node.partitions).nodup_iff

end SortById

/-! ## The verdict -/

namespace Topology

variable {name : String} {ns : List Node}

theorem sorted_ids (ns : List Node) :
    ((ns.mergeSort fun a b => decide (a.id ≤ b.id)).map Node.id).Pairwise (· ≤ ·) :=
  List.pairwise_map.2 (sortById_sorted ns)

/-- A topology fails validation at the first partition of its lists, in id order, equal to an
earlier one. -/
theorem firstRepeat_of_validate {t : Topology} {e : TopologyError} (h : t.validate = .error e) :
    ∃ p, e = .duplicatePartition p ∧ FirstRepeat (t.nodes.flatMap Node.partitions) p := by
  unfold validate at h
  split at h
  · rename_i p hp
    cases h
    exact ⟨p, rfl, firstRepeat_of_firstRepeat? hp⟩
  · cases h

/-- With a repeated id, building reports the least one. -/
theorem make_of_repeated_id (name : String) (h : ¬ (ns.map Node.id).Nodup) :
    ∃ m, make name ns = .error (.duplicateNode m) ∧ LeastRepeat (ns.map Node.id) m := by
  unfold make
  dsimp only
  split
  · rename_i m hm
    exact ⟨m, rfl, (leastRepeat_of_adjacentRepeat? (sorted_ids ns) hm).perm
      ((perm_sortById ns).map Node.id)⟩
  · rename_i hnone
    exact absurd (nodup_ids_sortById.1 ((adjacentRepeat?_eq_none_iff (sorted_ids ns)).1 hnone)) h

/-- With distinct ids, building validates the nodes sorted by id. -/
theorem make_of_distinct_ids (name : String) (h : (ns.map Node.id).Nodup) :
    ∃ t : Topology, t.name = name ∧ t.nodes = ns.mergeSort (fun a b => decide (a.id ≤ b.id)) ∧
      ((t.validate = .ok () ∧ make name ns = .ok t) ∨
        ∃ e, t.validate = .error e ∧ make name ns = .error e) := by
  unfold make
  dsimp only
  split
  · rename_i m hm
    have hnone := (adjacentRepeat?_eq_none_iff (sorted_ids ns)).2 (nodup_ids_sortById.2 h)
    rw [hnone] at hm
    cases hm
  · rename_i hnone
    refine ⟨⟨name, _, increasing_of_sorted _ (sortById_sorted ns) hnone⟩, rfl, rfl, ?_⟩
    split
    · rename_i hv
      exact .inl ⟨hv, rfl⟩
    · rename_i e hv
      exact .inr ⟨e, hv, rfl⟩

/-- A built topology has distinct ids, and is the validated topology of the nodes sorted by
id. -/
theorem of_make_eq_ok {t : Topology} (h : make name ns = .ok t) :
    (ns.map Node.id).Nodup ∧ t.name = name ∧
      t.nodes = ns.mergeSort (fun a b => decide (a.id ≤ b.id)) ∧ t.validate = .ok () := by
  have hid : (ns.map Node.id).Nodup := by
    refine Classical.byContradiction fun hid => ?_
    obtain ⟨m, hmk, -⟩ := make_of_repeated_id name hid
    rw [hmk] at h
    cases h
  obtain ⟨u, hname, hu, (⟨hv, hmk⟩ | ⟨e, -, hmk⟩)⟩ := make_of_distinct_ids name hid
  · rw [hmk] at h
    cases h
    exact ⟨hid, hname, hu, hv⟩
  · rw [hmk] at h
    cases h

/-- What building a topology from the nodes `ns` answers: a topology exactly when ids and
partitions are all distinct, with the nodes in the one arrangement by increasing id; else the
least repeated id; else, ids being distinct, the first partition of the lists concatenated in id
order that equals an earlier one. -/
structure BuildVerdict (name : String) (ns : List Node) (r : Except TopologyError Topology) :
    Prop where
  ok_iff : (∃ t, r = .ok t) ↔ (ns.map Node.id).Nodup ∧ (ns.flatMap Node.partitions).Nodup
  sorted : ∀ t, r = .ok t → t.name = name ∧ ∀ l, (l.Perm ns ∧ Keyed.Increasing Node.id l ↔ l = t.nodes)
  duplicateNode : ¬ (ns.map Node.id).Nodup →
    ∃ m, r = .error (.duplicateNode m) ∧ LeastRepeat (ns.map Node.id) m
  duplicatePartition : (ns.map Node.id).Nodup → ¬ (ns.flatMap Node.partitions).Nodup →
    ∃ p, r = .error (.duplicatePartition p) ∧
      ∀ l, l.Perm ns → Keyed.Increasing Node.id l → FirstRepeat (l.flatMap Node.partitions) p

theorem make_verdict (name : String) (ns : List Node) : BuildVerdict name ns (make name ns) where
  ok_iff := by
    constructor
    · rintro ⟨t, ht⟩
      obtain ⟨hid, -, hu, hv⟩ := of_make_eq_ok ht
      exact ⟨hid, nodup_partitions_sortById.1 (hu ▸ validate_eq_ok_iff.1 hv)⟩
    · rintro ⟨hid, hparts⟩
      obtain ⟨u, -, hu, (⟨-, hmk⟩ | ⟨e, hv, -⟩)⟩ := make_of_distinct_ids name hid
      · exact ⟨u, hmk⟩
      · rw [validate_eq_ok_iff.2 (hu ▸ nodup_partitions_sortById.2 hparts)] at hv
        cases hv
  sorted t ht := by
    obtain ⟨-, hname, hu, -⟩ := of_make_eq_ok ht
    refine ⟨hname, fun l => ⟨fun h => hu ▸ eq_mergeSort_of_increasing h.1 h.2, ?_⟩⟩
    rintro rfl
    exact ⟨hu ▸ perm_sortById ns, t.increasing⟩
  duplicateNode hid := make_of_repeated_id name hid
  duplicatePartition hid hparts := by
    obtain ⟨u, -, hu, (⟨hv, -⟩ | ⟨e, hv, hmk⟩)⟩ := make_of_distinct_ids name hid
    · exact absurd (nodup_partitions_sortById.1 (hu ▸ validate_eq_ok_iff.1 hv)) hparts
    · -- validation walks the partitions of the sorted nodes
      obtain ⟨p, rfl, hfirst⟩ := firstRepeat_of_validate hv
      refine ⟨p, hmk, fun l hl hinc => ?_⟩
      rwa [eq_mergeSort_of_increasing hl hinc, ← hu]

/-- Reading a document builds the topology from the name and nodes read. -/
theorem ofJson_eq_make {s : String} {v : Json.Value}
    (hread : Json.readDocument Topology.shape s = .ok v) (hparts : partsOfShaped v = some (name, ns)) :
    ofJson s = make name ns := by
  unfold ofJson
  rw [hread]
  simp only [hparts]

end Topology

/-- Building a topology from nodes succeeds exactly when their ids are distinct and no partition is
listed twice over all of them, and then lists the nodes in increasing id order; with a repeated
id it reports the least one, and with distinct ids and a repeated partition it reports the first
partition, in the lists concatenated in id order, equal to an earlier one. Reading a document
answers the same for the nodes read. -/
theorem built_topology_verdict (name : String) (ns : List Node) :
    Topology.BuildVerdict name ns (Topology.make name ns) ∧
      ∀ s v, Json.readDocument Topology.shape s = .ok v →
        Topology.partsOfShaped v = some (name, ns) →
        Topology.BuildVerdict name ns (Topology.ofJson s) :=
  ⟨Topology.make_verdict name ns, fun _ _ hread hparts =>
    Topology.ofJson_eq_make hread hparts ▸ Topology.make_verdict name ns⟩

end Rebalance

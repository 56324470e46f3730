import Rebalance.Topology.Basic
/-!
# Adding nodes and moving partitions

What the two changes of a topology keep. A valid topology lists every partition once
(`validate_eq_ok_iff`).

* Adding a node that is missing, with no partitions, keeps every node and the partition lists,
  so it keeps the topology valid (`validate_withNode_fresh`).
* Moving partitions keeps every node id (`containsNode_of_reassign`), and a result is valid by
  construction (`validate_of_reassign`). On a valid topology where stealer and donor are two
  nodes of it, the move fails only when a moved partition is still listed by a third node, and
  it reports one such partition (`reassign_error_of_valid`): the stealer's list gains exactly the
  moved partitions and the donor's loses them, so a partition listed twice afterwards must be
  a moved one that some other node lists.
-/

namespace Rebalance

/-! ## Partition sets -/

section Normalize

variable {p x : Nat} {l : List Nat}

theorem mem_insertSorted : x ∈ insertSorted p l ↔ x = p ∨ x ∈ l := by
  induction l with
  | nil => simp [insertSorted]
  | cons q rest ih =>
    simp only [insertSorted]
    split
    · simp
    · split
      · rename_i h
        subst h
        simp only [List.mem_cons]
        constructor
        · rintro (h | h)
          · exact .inl h
          · exact .inr (.inr h)
        · rintro (h | h | h) <;> simp [h]
      · simp only [List.mem_cons, ih]
        constructor
        · rintro (h | h | h) <;> simp [h]
        · rintro (h | h | h) <;> simp [h]

theorem increasing_insertSorted (h : l.Pairwise (· < ·)) : (insertSorted p l).Pairwise (· < ·) := by
  induction l with
  | nil => simp [insertSorted]
  | cons q rest ih =>
    obtain ⟨hq, hs⟩ := List.pairwise_cons.1 h
    simp only [insertSorted]
    split
    · rename_i hpq
      refine List.pairwise_cons.2 ⟨fun z hz => ?_, h⟩
      rcases List.mem_cons.1 hz with rfl | hz
      · exact hpq
      · exact Nat.lt_trans hpq (hq z hz)
    · split
      · exact h
      · refine List.pairwise_cons.2 ⟨fun z hz => ?_, ih hs⟩
        rcases mem_insertSorted.1 hz with rfl | hz
        · omega
        · exact hq z hz

theorem mem_foldl_insertSorted :
    ∀ (ps acc : List Nat), x ∈ ps.foldl (fun acc p => insertSorted p acc) acc ↔ x ∈ acc ∨ x ∈ ps
  | [], _ => by simp
  | p :: ps, acc => by
    rw [List.foldl_cons, mem_foldl_insertSorted ps, mem_insertSorted, List.mem_cons]
    constructor
    · rintro ((h | h) | h) <;> simp [h]
    · rintro (h | h | h) <;> simp [h]

theorem increasing_foldl_insertSorted : ∀ (ps acc : List Nat), acc.Pairwise (· < ·) →
    (ps.foldl (fun acc p => insertSorted p acc) acc).Pairwise (· < ·)
  | [], _, h => h
  | _ :: ps, _, h => increasing_foldl_insertSorted ps _ (increasing_insertSorted h)

@[simp] theorem mem_normalize : x ∈ normalize l ↔ x ∈ l := by
  simp [normalize, mem_foldl_insertSorted]

theorem nodup_normalize (l : List Nat) : (normalize l).Nodup :=
  (increasing_foldl_insertSorted l [] List.Pairwise.nil).imp Nat.ne_of_lt

/-- A partition is listed once in a normalized list if it is among the listed ones at all. -/
theorem count_normalize : (normalize l).count x = if x ∈ l then 1 else 0 := by
  simp only [(nodup_normalize l).count, mem_normalize]

end Normalize

/-! ## Repeated partitions -/

theorem nodup_of_firstRepeat?_go : ∀ (seen l : List Nat), firstRepeat?.go seen l = none →
    l.Nodup ∧ ∀ x ∈ l, x ∉ seen
  | _, [], _ => ⟨List.nodup_nil, nofun⟩
  | seen, p :: rest, h => by
    unfold firstRepeat?.go at h
    by_cases hp : p ∈ seen
    · simp [hp] at h
    · simp only [List.contains_iff_mem, hp, if_false] at h
      obtain ⟨hnd, hnot⟩ := nodup_of_firstRepeat?_go (p :: seen) rest h
      refine ⟨List.nodup_cons.2 ⟨fun hm => hnot p hm List.mem_cons_self, hnd⟩, fun x hx => ?_⟩
      rcases List.mem_cons.1 hx with rfl | hx
      · exact hp
      · exact fun hs => hnot x hx (List.mem_cons_of_mem _ hs)

theorem firstRepeat?_go_of_nodup : ∀ (seen l : List Nat), l.Nodup → (∀ x ∈ l, x ∉ seen) →
    firstRepeat?.go seen l = none
  | _, [], _, _ => rfl
  | seen, p :: rest, hnd, hnot => by
    obtain ⟨hp, hrest⟩ := List.nodup_cons.1 hnd
    unfold firstRepeat?.go
    simp only [List.contains_iff_mem, hnot p List.mem_cons_self, if_false]
    refine firstRepeat?_go_of_nodup (p :: seen) rest hrest (fun x hx hs => ?_)
    rcases List.mem_cons.1 hs with rfl | hs
    · exact hp hx
    · exact hnot x (List.mem_cons_of_mem _ hx) hs

/-- The partition reported as repeated occurs twice, counting what was seen before. -/
theorem count_of_firstRepeat?_go {q : Nat} :
    ∀ (seen l : List Nat), firstRepeat?.go seen l = some q →
      2 ≤ (seen ++ l).count q
  | _, [], h => by cases h
  | seen, p :: rest, h => by
    unfold firstRepeat?.go at h
    by_cases hp : p ∈ seen
    · simp only [List.contains_iff_mem, hp, if_true, Option.some.injEq] at h
      subst h
      have := List.count_pos_iff.2 hp
      simp only [List.count_append, List.count_cons_self]
      omega
    · simp only [List.contains_iff_mem, hp, if_false] at h
      have ih := count_of_firstRepeat?_go (p :: seen) rest h
      simp only [List.cons_append, List.count_append, List.count_cons] at ih ⊢
      omega

/-- In a list whose keys increase, an element is fixed by its key. -/
theorem Keyed.eq_of_key_eq {α : Type} {key : α → Nat} :
    ∀ {l : List α}, Keyed.Increasing key l → ∀ {a b : α}, a ∈ l → b ∈ l → key a = key b → a = b
  | [], _, _, _, ha, _, _ => by cases ha
  | n :: rest, hinc, a, b, ha, hb, h => by
    unfold Keyed.Increasing at hinc
    obtain ⟨hn, hrest⟩ := List.pairwise_cons.1 hinc
    rcases List.mem_cons.1 ha with ha' | ha' <;> rcases List.mem_cons.1 hb with hb' | hb'
    · rw [ha', hb']
    · subst ha'
      exact absurd h (Nat.ne_of_lt (hn b hb'))
    · subst hb'
      exact absurd h.symm (Nat.ne_of_lt (hn a ha'))
    · exact Keyed.eq_of_key_eq hrest ha' hb' h

namespace Topology

variable {t u : Topology}

/-- The partitions of all nodes, in id order. -/
theorem validate_eq_ok_iff : t.validate = .ok () ↔ (t.nodes.flatMap Node.partitions).Nodup := by
  unfold validate firstRepeat?
  constructor
  · intro h
    split at h
    · cases h
    · rename_i hr
      exact (nodup_of_firstRepeat?_go [] _ hr).1
  · intro h
    rw [firstRepeat?_go_of_nodup [] _ h nofun]

/-- A topology fails validation only at a partition listed twice. -/
theorem validate_eq_error {e : TopologyError} (h : t.validate = .error e) :
    ∃ p, e = .duplicatePartition p ∧ 2 ≤ (t.nodes.flatMap Node.partitions).count p := by
  unfold validate at h
  split at h
  · rename_i p hr
    cases h
    exact ⟨p, rfl, by simpa using count_of_firstRepeat?_go [] _ hr⟩
  · cases h

/-! ## Looking nodes up -/

theorem containsNode_iff {id : Nat} : t.containsNode id = true ↔ ∃ n ∈ t.nodes, n.id = id := by
  simp [containsNode, node?, Keyed.find?, List.find?_isSome]

theorem mem_of_node? {id : Nat} {n : Node} (h : t.node? id = some n) : n ∈ t.nodes ∧ n.id = id := by
  unfold node? Keyed.find? at h
  exact ⟨List.mem_of_find?_eq_some h, by simpa using List.find?_some h⟩

/-- Nodes of one topology with the same id are the same node. -/
theorem eq_of_id_eq {a b : Node} (ha : a ∈ t.nodes) (hb : b ∈ t.nodes) (h : a.id = b.id) : a = b :=
  Keyed.eq_of_key_eq t.increasing ha hb h

/-! ## Adding a node -/

theorem containsNode_withNode {n : Node} {id : Nat} (h : t.containsNode id = true) :
    (t.withNode n).containsNode id = true := by
  unfold containsNode node? withNode
  by_cases hid : id = n.id
  · subst hid
    simp [Keyed.find?_insert_self]
  · rw [Keyed.find?_insert_ne _ hid]
    exact h

theorem containsNode_withNode_self (n : Node) : (t.withNode n).containsNode n.id = true := by
  simp [containsNode, node?, withNode, Keyed.find?_insert_self]

/-- Inserting a node whose id is not listed puts it among the others. -/
theorem flatMap_insert_fresh {n : Node} (hp : n.partitions = []) :
    ∀ (l : List Node), (∀ y ∈ l, y.id ≠ n.id) →
      (Keyed.insert Node.id n l).flatMap Node.partitions = l.flatMap Node.partitions
  | [], _ => by simp [Keyed.insert, hp]
  | y :: rest, hfresh => by
    simp only [Keyed.insert]
    split
    · simp [hp]
    · split
      · rename_i h
        exact absurd h.symm (hfresh y List.mem_cons_self)
      · simp only [List.flatMap_cons]
        rw [flatMap_insert_fresh hp rest (fun z hz => hfresh z (List.mem_cons_of_mem _ hz))]

/-- Adding a missing node with no partitions keeps a topology's validity. -/
theorem validate_withNode_fresh {n : Node} (hc : t.containsNode n.id = false)
    (hp : n.partitions = []) : (t.withNode n).validate = t.validate := by
  have hfresh : ∀ y ∈ t.nodes, y.id ≠ n.id := by
    intro y hy hid
    have := containsNode_iff.2 ⟨y, hy, hid⟩
    rw [hc] at this
    cases this
  unfold validate
  simp only [withNode, flatMap_insert_fresh hp t.nodes hfresh]

/-! ## Moving partitions -/

/-- Inserting a node whose id is listed replaces the node of that id. -/
theorem insert_eq_map {x : Node} :
    ∀ {l : List Node}, Keyed.Increasing Node.id l → (∃ y ∈ l, y.id = x.id) →
      Keyed.insert Node.id x l = l.map (fun y => if y.id = x.id then x else y)
  | [], _, hx => by simp at hx
  | y :: rest, hinc, hx => by
    unfold Keyed.Increasing at hinc
    obtain ⟨hy, hrest⟩ := List.pairwise_cons.1 hinc
    simp only [Keyed.insert, List.map_cons]
    split
    · -- every listed id is at least `y`'s, which is above `x`'s
      rename_i hlt
      obtain ⟨z, hz, hzx⟩ := hx
      rcases List.mem_cons.1 hz with rfl | hz
      · omega
      · have := hy z hz
        omega
    · split
      · rename_i _ heq
        -- the rest lies above `y`, so no node there has `x`'s id
        have hmap : rest.map (fun z => if z.id = x.id then x else z) = rest :=
          (List.map_congr_left fun z hz => by
            have := hy z hz
            exact if_neg (by omega)).trans (List.map_id rest)
        rw [if_pos heq.symm, hmap]
      · rename_i hlt hne
        have hx' : ∃ z ∈ rest, z.id = x.id := by
          obtain ⟨z, hz, hzx⟩ := hx
          rcases List.mem_cons.1 hz with rfl | hz
          · exact absurd hzx.symm hne
          · exact ⟨z, hz, hzx⟩
        rw [if_neg (Ne.symm hne), insert_eq_map hrest hx']

/-- Adding two nodes whose ids are listed, and differ, replaces the nodes of those ids. -/
theorem withNodes_pair_nodes {s' d' sn dn : Node} (hsn : sn ∈ t.nodes) (hdn : dn ∈ t.nodes)
    (hs : s'.id = sn.id) (hd : d'.id = dn.id) (hsd : sn.id ≠ dn.id) :
    (t.withNodes [s', d']).nodes =
      t.nodes.map (fun n => if n.id = sn.id then s' else if n.id = dn.id then d' else n) := by
  have h₁ : (t.withNode s').nodes = t.nodes.map (fun n => if n.id = s'.id then s' else n) :=
    insert_eq_map t.increasing ⟨sn, hsn, hs.symm⟩
  -- the donor's node is still there after the stealer's was replaced
  have hdn' : ∃ y ∈ (t.withNode s').nodes, y.id = d'.id := by
    refine ⟨dn, ?_, hd.symm⟩
    rw [h₁, List.mem_map]
    exact ⟨dn, hdn, by rw [if_neg (by rw [hs]; exact Ne.symm hsd)]⟩
  have h₂ : ((t.withNode s').withNode d').nodes =
      (t.withNode s').nodes.map (fun n => if n.id = d'.id then d' else n) :=
    insert_eq_map (t.withNode s').increasing hdn'
  show ((t.withNode s').withNode d').nodes = _
  rw [h₂, h₁, List.map_map]
  refine List.map_congr_left fun n _ => ?_
  by_cases hn : n.id = sn.id
  · simp [hn, hs, hd, hsd]
  · simp [hn, hs, hd]

/-- A successful move gives a valid topology. -/
theorem validate_of_reassign {s d : Nat} {ps : List Nat} (h : t.reassign s d ps = .ok u) :
    u.validate = .ok () := by
  unfold reassign at h
  split at h
  · cases h
  · split at h
    · cases h
    · cases h
    · dsimp only at h
      split at h
      · rename_i hval
        cases h
        exact hval
      · cases h

/-- Moving partitions keeps every node. -/
theorem containsNode_of_reassign {s d id : Nat} {ps : List Nat} (h : t.reassign s d ps = .ok u)
    (hid : t.containsNode id = true) : u.containsNode id = true := by
  unfold reassign at h
  split at h
  · cases h
  · split at h
    · cases h
    · cases h
    · dsimp only at h
      split at h
      · cases h
        exact containsNode_withNode (containsNode_withNode hid)
      · cases h

section Count

variable {α : Type} {q : Nat}

theorem count_flatMap_le {f g : α → List Nat} :
    ∀ {l : List α}, (∀ a ∈ l, (f a).count q ≤ (g a).count q) →
      (l.flatMap f).count q ≤ (l.flatMap g).count q
  | [], _ => Nat.le_refl _
  | a :: l, h => by
    simp only [List.flatMap_cons, List.count_append]
    exact Nat.add_le_add (h a List.mem_cons_self)
      (count_flatMap_le fun b hb => h b (List.mem_cons_of_mem _ hb))

theorem count_flatMap_ite (id : Nat) :
    ∀ l : List Node,
      (l.flatMap fun n => if n.id = id then [q] else []).count q = (l.map Node.id).count id
  | [] => rfl
  | n :: l => by
    simp only [List.flatMap_cons, List.count_append, List.map_cons, List.count_cons,
      count_flatMap_ite id l]
    by_cases hn : n.id = id
    · simp only [hn, if_true, List.count_singleton_self, beq_self_eq_true, if_true]
      omega
    · simp [hn]

end Count

/-! ## A move's rewritten nodes -/

/-- A node once a move of `moving` from `dn` to `sn` has rewritten it: the stealer gains the
moved partitions, the donor loses them, any other node stays. -/
def movedNode (sn dn : Node) (moving : List Nat) (n : Node) : Node :=
  if n.id = sn.id then { sn with partitions := normalize (sn.partitions ++ moving) }
  else if n.id = dn.id then
    { dn with partitions := normalize (dn.partitions.filter fun p => !moving.contains p) }
  else n

section Moved

variable {sn dn n : Node} {moving : List Nat} {p : Nat}

/-- A partition that is not moved is listed by a rewritten node no more often than before. -/
theorem count_movedNode_le (hsn : n.id = sn.id → n = sn) (hdn : n.id = dn.id → n = dn)
    (hp : p ∉ moving) : (movedNode sn dn moving n).partitions.count p ≤ n.partitions.count p := by
  unfold movedNode
  by_cases hns : n.id = sn.id
  · rw [if_pos hns, hsn hns]
    simp only [count_normalize, List.mem_append, hp, or_false]
    split
    · exact List.count_pos_iff.2 ‹_›
    · exact Nat.zero_le _
  · by_cases hnd : n.id = dn.id
    · rw [if_neg hns, if_pos hnd, hdn hnd]
      simp only [count_normalize]
      split
      · exact List.count_pos_iff.2 (List.mem_filter.1 ‹_›).1
      · exact Nat.zero_le _
    · simp [hns, hnd]

/-- A moved partition that no third node lists is listed by the stealer alone, once. -/
theorem count_movedNode_le_stealer (hp : p ∈ moving)
    (hthird : n.id ≠ sn.id → n.id ≠ dn.id → p ∉ n.partitions) :
    (movedNode sn dn moving n).partitions.count p ≤ (if n.id = sn.id then [p] else []).count p := by
  unfold movedNode
  by_cases hns : n.id = sn.id
  · simp only [hns, if_true, List.count_singleton_self]
    exact List.nodup_iff_count.1 (nodup_normalize _) p
  · by_cases hnd : n.id = dn.id
    · rw [if_neg hns, if_pos hnd, if_neg hns]
      simp [count_normalize, hp]
    · simp [hns, hnd, List.count_eq_zero.2 (hthird hns hnd)]

@[simp] theorem movedNode_id : (movedNode sn dn moving n).id = n.id := by
  unfold movedNode
  split
  · rename_i h
    exact h.symm
  · split
    · rename_i h
      exact h.symm
    · rfl

theorem movedNode_stealer :
    movedNode sn dn moving sn = { sn with partitions := normalize (sn.partitions ++ moving) } := by
  simp [movedNode]

theorem movedNode_donor (hsd : sn.id ≠ dn.id) :
    movedNode sn dn moving dn =
      { dn with partitions := normalize (dn.partitions.filter fun p => !moving.contains p) } := by
  simp [movedNode, Ne.symm hsd]

/-- Adding the rewritten stealer and donor rewrites every node. -/
theorem withNodes_movedNode {t : Topology} (hsn : sn ∈ t.nodes) (hdn : dn ∈ t.nodes)
    (hsd : sn.id ≠ dn.id) :
    (t.withNodes [movedNode sn dn moving sn, movedNode sn dn moving dn]).nodes =
      t.nodes.map (movedNode sn dn moving) := by
  rw [withNodes_pair_nodes hsn hdn movedNode_id movedNode_id hsd]
  refine List.map_congr_left fun n hn => ?_
  -- stealer and donor are the listed nodes of their ids
  by_cases hns : n.id = sn.id
  · rw [if_pos hns, eq_of_id_eq hn hsn hns]
  · by_cases hnd : n.id = dn.id
    · rw [if_neg hns, if_pos hnd, eq_of_id_eq hn hdn hnd]
    · simp [movedNode, hns, hnd]

end Moved

/-- On a valid topology where stealer and donor are two of its nodes, a move fails only at a
moved partition that some third node lists. -/
theorem reassign_error_of_valid {s d : Nat} {ps : List Nat} {e : TopologyError}
    (hv : t.validate = .ok ()) (hs : t.containsNode s = true) (hd : t.containsNode d = true)
    (hsd : s ≠ d) (h : t.reassign s d ps = .error e) :
    ∃ p ∈ ps, e = .duplicatePartition p ∧
      ∃ n ∈ t.nodes, n.id ≠ s ∧ n.id ≠ d ∧ p ∈ n.partitions := by
  obtain ⟨sn, hsn⟩ := Option.isSome_iff_exists.1 hs
  obtain ⟨dn, hdn⟩ := Option.isSome_iff_exists.1 hd
  obtain ⟨hsm, rfl⟩ := mem_of_node? hsn
  obtain ⟨hdm, rfl⟩ := mem_of_node? hdn
  unfold reassign at h
  simp only [if_neg hsd, hsn, hdn] at h
  split at h
  · cases h
  rename_i hval
  cases h
  generalize hmoving : normalize ps = moving at hval
  rw [← movedNode_stealer, ← movedNode_donor hsd] at hval
  obtain ⟨p, rfl, hcount⟩ := validate_eq_error hval
  -- the moved topology lists the rewritten nodes
  rw [withNodes_movedNode hsm hdm hsd, List.flatMap_map] at hcount
  have hone : (t.nodes.flatMap Node.partitions).count p ≤ 1 :=
    List.nodup_iff_count.1 (validate_eq_ok_iff.1 hv) p
  have hmem : ∀ q, q ∈ moving ↔ q ∈ ps := fun q => by rw [← hmoving, mem_normalize]
  -- a partition that was not moved is listed no more often than before
  have hps : p ∈ ps := by
    refine Classical.byContradiction fun hp => ?_
    have hle : ∀ n ∈ t.nodes, (movedNode sn dn moving n).partitions.count p ≤
        n.partitions.count p := fun n hn =>
      count_movedNode_le (eq_of_id_eq hn hsm) (eq_of_id_eq hn hdm) fun h => hp ((hmem p).1 h)
    have := count_flatMap_le hle
    omega
  refine ⟨p, hps, rfl, Classical.byContradiction fun hnone => ?_⟩
  -- with no third node listing it, a moved partition is listed by the stealer alone
  have hle : ∀ n ∈ t.nodes, (movedNode sn dn moving n).partitions.count p ≤
      (if n.id = sn.id then [p] else []).count p := fun n hn =>
    count_movedNode_le_stealer ((hmem p).2 hps) fun hns hnd hp => hnone ⟨n, hn, hns, hnd, hp⟩
  have hle' := count_flatMap_le hle
  rw [count_flatMap_ite sn.id t.nodes] at hle'
  have hids : (t.nodes.map Node.id).count sn.id ≤ 1 :=
    List.nodup_iff_count.1 ((List.pairwise_map.2 t.increasing).imp Nat.ne_of_lt) sn.id
  omega

end Topology

end Rebalance

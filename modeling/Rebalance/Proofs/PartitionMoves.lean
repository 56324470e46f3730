import Mathlib.Data.List.Sort
import Rebalance.Proofs.MergedNodes
import Rebalance.Proofs.PartitionOwners
/-!
# Moving partitions between nodes

A move of partitions `ps` from a donor `d` to a stealer `s` checks, in this order, that the two
nodes differ and that each is listed; it then rewrites both and validates the result. Rewriting
is a function of a node alone (`Node.afterMove`): the stealer's list becomes the increasing set of
its partitions and the moved ones, the donor's the increasing set of its partitions less the
moved ones, and every other node stays. So a successful move is `Topology.moved`, the topology
with every node rewritten (`reassign_of_present`).

* On a valid topology the move fails at validation exactly when a node other than stealer and
  donor lists a moved partition (`validate_moved_iff`), and the result otherwise holds every moved
  partition at the stealer and every other partition where it was (`listing?_moved`). Together:
  `reassign_answers`.
* Moves of disjoint partition sets commute: rewriting a node by one move and then by the other
  gives the node the other order gives (`afterMove_comm`), and neither move changes whether the
  other one passes validation (`listedElsewhere_moved`). A move also changes nothing the second
  time (`afterMove_afterMove`). Together: `disjoint_moves_commute`.
-/

namespace Rebalance

/-! ## Rewriting one node -/

namespace Node

/-- Node `n` once partitions `moving` move from node `d` to node `s`. -/
def afterMove (s d : Nat) (moving : List Nat) (n : Node) : Node :=
  if n.id = s then { n with partitions := normalize (n.partitions ++ moving) }
  else if n.id = d then
    { n with partitions := normalize (n.partitions.filter fun p => !moving.contains p) }
  else n

variable {s d s' d' p : Nat} {moving moving' : List Nat} {n : Node}

@[simp] theorem afterMove_id : (n.afterMove s d moving).id = n.id := by
  unfold afterMove
  split_ifs <;> rfl

theorem afterMove_stealer (h : n.id = s) :
    n.afterMove s d moving = { n with partitions := normalize (n.partitions ++ moving) } := by
  simp [afterMove, h]

theorem afterMove_donor (h : n.id = d) (hs : d ≠ s) :
    n.afterMove s d moving =
      { n with partitions := normalize (n.partitions.filter fun p => !moving.contains p) } := by
  simp [afterMove, h, hs]

theorem afterMove_other (hs : n.id ≠ s) (hd : n.id ≠ d) : n.afterMove s d moving = n := by
  simp [afterMove, hs, hd]

/-- A rewrite changes the partition list only. -/
theorem afterMove_eq_with :
    n.afterMove s d moving = { n with partitions := (n.afterMove s d moving).partitions } := by
  unfold afterMove
  split_ifs <;> rfl

theorem mem_afterMove : p ∈ (n.afterMove s d moving).partitions ↔
    if n.id = s then p ∈ n.partitions ∨ p ∈ moving
    else if n.id = d then p ∈ n.partitions ∧ p ∉ moving else p ∈ n.partitions := by
  unfold afterMove
  split_ifs <;> simp

/-- A partition that does not move is listed by a rewritten node as before. -/
theorem mem_afterMove_of_not_mem (hp : p ∉ moving) :
    p ∈ (n.afterMove s d moving).partitions ↔ p ∈ n.partitions := by
  rw [mem_afterMove]
  split_ifs <;> simp [hp]

/-- A node the move touches gets an increasing list. -/
theorem increasing_afterMove_of_touched (h : n.id = s ∨ n.id = d) :
    (n.afterMove s d moving).partitions.Pairwise (· < ·) := by
  unfold afterMove
  split_ifs with hs hd
  · exact increasing_normalize _
  · exact increasing_normalize _
  · exact absurd h (by simp [hs, hd])

/-- Two nodes rewritten from `n` are equal when their lists are increasing with the same
members. -/
theorem eq_of_rewrites {a b : Node} (ha : a = { n with partitions := a.partitions })
    (hb : b = { n with partitions := b.partitions }) (hai : a.partitions.Pairwise (· < ·))
    (hbi : b.partitions.Pairwise (· < ·)) (hmem : ∀ p, p ∈ a.partitions ↔ p ∈ b.partitions) :
    a = b := by
  rw [ha, hb, List.Pairwise.eq_of_mem_iff hai hbi hmem]

theorem afterMove_afterMove_eq_with :
    (n.afterMove s d moving).afterMove s' d' moving' =
      { n with partitions := ((n.afterMove s d moving).afterMove s' d' moving').partitions } := by
  unfold afterMove
  split_ifs <;> rfl

/-- A move that does not touch a node leaves it for the other move alone. -/
theorem afterMove_comm_of_other (hs : n.id ≠ s) (hd : n.id ≠ d) :
    (n.afterMove s d moving).afterMove s' d' moving' =
      (n.afterMove s' d' moving').afterMove s d moving := by
  rw [afterMove_other hs hd, afterMove_other (n := n.afterMove s' d' moving') (by simpa using hs)
    (by simpa using hd)]

/-- Rewriting a node by two moves of disjoint partition sets gives the same node in either
order. -/
theorem afterMove_comm (hdis : ∀ p, p ∈ moving → p ∉ moving') :
    (n.afterMove s d moving).afterMove s' d' moving' =
      (n.afterMove s' d' moving').afterMove s d moving := by
  by_cases h₁ : n.id = s ∨ n.id = d
  · by_cases h₂ : n.id = s' ∨ n.id = d'
    · -- a node both moves touch: both lists are increasing, with the same members
      refine eq_of_rewrites afterMove_afterMove_eq_with afterMove_afterMove_eq_with
        (increasing_afterMove_of_touched (by simpa using h₂))
        (increasing_afterMove_of_touched (by simpa using h₁)) fun p => ?_
      have hp := hdis p
      simp only [mem_afterMove, afterMove_id]
      split_ifs <;> tauto
    · obtain ⟨hs, hd⟩ := not_or.1 h₂
      exact (afterMove_comm_of_other hs hd).symm
  · obtain ⟨hs, hd⟩ := not_or.1 h₁
    exact afterMove_comm_of_other hs hd

/-- A second rewrite by the same move changes nothing. -/
theorem afterMove_afterMove :
    (n.afterMove s d moving).afterMove s d moving = n.afterMove s d moving := by
  by_cases h : n.id = s ∨ n.id = d
  · refine eq_of_rewrites afterMove_afterMove_eq_with afterMove_eq_with
      (increasing_afterMove_of_touched (by simpa using h)) (increasing_afterMove_of_touched h)
      fun p => ?_
    simp only [mem_afterMove, afterMove_id]
    split_ifs <;> tauto
  · obtain ⟨hs, hd⟩ := not_or.1 h
    rw [afterMove_other hs hd, afterMove_other hs hd]

/-- `n'` is what a move of `ps` from node `d` to node `s` makes of node `n`: the same id, host
and ports; a stealer's list is the increasing set of its partitions and `ps`, a donor's the
increasing set of its partitions less `ps`, whether or not it listed them; any other node is
kept as it is. -/
structure Rewritten (s d : Nat) (ps : List Nat) (n n' : Node) : Prop where
  fields : { n' with partitions := n.partitions } = n
  stealer : n.id = s →
    n'.partitions.Pairwise (· < ·) ∧ ∀ p, p ∈ n'.partitions ↔ p ∈ n.partitions ∨ p ∈ ps
  donor : n.id = d →
    n'.partitions.Pairwise (· < ·) ∧ ∀ p, p ∈ n'.partitions ↔ p ∈ n.partitions ∧ p ∉ ps
  other : n.id ≠ s → n.id ≠ d → n' = n

theorem rewritten_afterMove (hsd : s ≠ d) (n : Node) {ps : List Nat} :
    Rewritten s d ps n (n.afterMove s d (normalize ps)) where
  fields := by
    unfold afterMove
    split_ifs <;> rfl
  stealer hs := ⟨increasing_afterMove_of_touched (.inl hs), fun p => by simp [mem_afterMove, hs]⟩
  donor hd := ⟨increasing_afterMove_of_touched (.inr hd), fun p => by
    simp [mem_afterMove, hd, Ne.symm hsd]⟩
  other hs hd := afterMove_other hs hd

end Node

/-! ## Rewriting every node -/

namespace Topology

variable {t u : Topology} {s d s₁ d₁ s₂ d₂ id p : Nat} {ps moving moving' : List Nat}

theorem increasing_map_afterMove {l : List Node} (h : Keyed.Increasing Node.id l) :
    Keyed.Increasing Node.id (l.map (Node.afterMove s d moving)) :=
  List.pairwise_map.2 (h.imp fun hab => by simpa using hab)

/-- The topology with every node rewritten by a move of `moving` from `d` to `s`; nothing is
validated. -/
def moved (t : Topology) (s d : Nat) (moving : List Nat) : Topology :=
  ⟨t.name, t.nodes.map (Node.afterMove s d moving), increasing_map_afterMove t.increasing⟩

@[simp] theorem moved_name : (t.moved s d moving).name = t.name := rfl

@[simp] theorem moved_nodes : (t.moved s d moving).nodes = t.nodes.map (Node.afterMove s d moving) :=
  rfl

theorem eq_of_nodes_eq (hn : t.name = u.name) (h : t.nodes = u.nodes) : t = u := by
  cases t
  cases u
  cases hn
  cases h
  rfl

theorem node?_moved : (t.moved s d moving).node? id = (t.node? id).map (Node.afterMove s d moving) := by
  unfold node? Keyed.find?
  rw [moved_nodes, List.find?_map]
  congr 2
  funext n
  simp

@[simp] theorem containsNode_moved : (t.moved s d moving).containsNode id = t.containsNode id := by
  simp [containsNode, node?_moved]

theorem moved_comm (hdis : ∀ p, p ∈ moving → p ∉ moving') :
    (t.moved s₁ d₁ moving).moved s₂ d₂ moving' = (t.moved s₂ d₂ moving').moved s₁ d₁ moving := by
  refine eq_of_nodes_eq rfl ?_
  simp only [moved_nodes, List.map_map]
  exact List.map_congr_left fun n _ => Node.afterMove_comm hdis

theorem moved_moved : (t.moved s d moving).moved s d moving = t.moved s d moving := by
  refine eq_of_nodes_eq rfl ?_
  simp only [moved_nodes, List.map_map]
  exact List.map_congr_left fun n _ => Node.afterMove_afterMove

/-- Adding the rewritten stealer and donor rewrites every node. -/
theorem withNodes_afterMove {sn dn : Node} (hsn : sn ∈ t.nodes) (hdn : dn ∈ t.nodes)
    (hs : sn.id = s) (hd : dn.id = d) (hsd : s ≠ d) :
    t.withNodes [sn.afterMove s d moving, dn.afterMove s d moving] = t.moved s d moving := by
  refine eq_of_nodes_eq (withNodes_name _) ?_
  rw [withNodes_pair_nodes hsn hdn Node.afterMove_id Node.afterMove_id (by rw [hs, hd]; exact hsd)]
  refine List.map_congr_left fun n hn => ?_
  -- stealer and donor are the listed nodes of their ids
  by_cases hns : n.id = sn.id
  · rw [if_pos hns, eq_of_id_eq hn hsn hns]
  · by_cases hnd : n.id = dn.id
    · rw [if_neg hns, if_pos hnd, eq_of_id_eq hn hdn hnd]
    · rw [if_neg hns, if_neg hnd, Node.afterMove_other (by rwa [← hs]) (by rwa [← hd])]

/-! ## What a move answers -/

theorem reassign_self (s : Nat) (ps : List Nat) : t.reassign s s ps = .error (.sameNode s) := by
  simp [reassign]

theorem reassign_of_missing_stealer (hsd : s ≠ d) (hs : t.containsNode s = false) :
    t.reassign s d ps = .error (.nodeNotFound s) := by
  have hnone : t.node? s = none := by simpa [containsNode] using hs
  simp [reassign, hsd, hnone]

theorem reassign_of_missing_donor (hsd : s ≠ d) (hs : t.containsNode s = true)
    (hd : t.containsNode d = false) : t.reassign s d ps = .error (.nodeNotFound d) := by
  obtain ⟨sn, hsn⟩ := Option.isSome_iff_exists.1 hs
  have hnone : t.node? d = none := by simpa [containsNode] using hd
  simp [reassign, hsd, hsn, hnone]

/-- With stealer and donor two listed nodes, a move rewrites every node and validates the result. -/
theorem reassign_of_present (hsd : s ≠ d) (hs : t.containsNode s = true)
    (hd : t.containsNode d = true) :
    t.reassign s d ps =
      (fun _ => t.moved s d (normalize ps)) <$> (t.moved s d (normalize ps)).validate := by
  obtain ⟨sn, hsn⟩ := Option.isSome_iff_exists.1 hs
  obtain ⟨dn, hdn⟩ := Option.isSome_iff_exists.1 hd
  obtain ⟨hsm, hsid⟩ := mem_of_node? hsn
  obtain ⟨hdm, hdid⟩ := mem_of_node? hdn
  unfold reassign
  simp only [if_neg hsd, hsn, hdn]
  rw [← Node.afterMove_stealer (d := d) hsid, ← Node.afterMove_donor hdid (Ne.symm hsd),
    withNodes_afterMove hsm hdm hsid hdid hsd]
  cases (t.moved s d (normalize ps)).validate <;> rfl

/-- A move succeeds exactly when stealer and donor are two listed nodes and the rewritten
topology is valid; it then answers the rewritten topology. -/
theorem reassign_eq_ok_iff : t.reassign s d ps = .ok u ↔
    (s ≠ d ∧ t.containsNode s = true ∧ t.containsNode d = true ∧
      (t.moved s d (normalize ps)).validate = .ok ()) ∧ t.moved s d (normalize ps) = u := by
  by_cases hsd : s = d
  · subst hsd
    simp [reassign_self]
  cases hs : t.containsNode s
  · simp [reassign_of_missing_stealer hsd hs]
  cases hd : t.containsNode d
  · simp [reassign_of_missing_donor hsd hs hd]
  rw [reassign_of_present hsd hs hd]
  cases hv : (t.moved s d (normalize ps)).validate with
  | error e => simp [hsd]
  | ok _ => simp [hsd]

/-- With stealer and donor two listed nodes, a move fails exactly as validating the rewritten
topology does. -/
theorem reassign_error_of_present {e : TopologyError} (hsd : s ≠ d) (hs : t.containsNode s = true)
    (hd : t.containsNode d = true) (h : (t.moved s d (normalize ps)).validate = .error e) :
    t.reassign s d ps = .error e := by
  rw [reassign_of_present hsd hs hd, h]
  rfl

/-- A move is idempotent: once it succeeded, doing it again answers the same topology. -/
theorem reassign_reassign (h : t.reassign s d ps = .ok u) : u.reassign s d ps = .ok u := by
  obtain ⟨⟨hsd, hs, hd, hv⟩, rfl⟩ := reassign_eq_ok_iff.1 h
  refine reassign_eq_ok_iff.2 ⟨⟨hsd, by simpa using hs, by simpa using hd, ?_⟩, moved_moved⟩
  rw [moved_moved]
  exact hv

/-! ## Validation after a move -/

/-- Some node other than `s` and `d` lists a partition of `ps`. -/
def ListedElsewhere (t : Topology) (s d : Nat) (ps : List Nat) : Prop :=
  ∃ p ∈ ps, ∃ n ∈ t.nodes, n.id ≠ s ∧ n.id ≠ d ∧ p ∈ n.partitions

/-- On a valid topology whose stealer and donor are two listed nodes, the rewritten topology is
valid exactly when no third node lists a moved partition. -/
theorem validate_moved_iff (hv : t.validate = .ok ()) (hsd : s ≠ d) (hs : t.containsNode s = true)
    (hd : t.containsNode d = true) :
    (t.moved s d (normalize ps)).validate = .ok () ↔ ¬ t.ListedElsewhere s d ps := by
  constructor
  · -- the third node keeps the partition, and the stealer gains it
    rintro hmv ⟨p, hp, n, hn, hns, hnd, hpn⟩
    obtain ⟨sn, hsn⟩ := Option.isSome_iff_exists.1 hs
    obtain ⟨hsm, hsid⟩ := mem_of_node? hsn
    have hn' : n ∈ (t.moved s d (normalize ps)).nodes := by
      rw [moved_nodes, List.mem_map]
      exact ⟨n, hn, Node.afterMove_other hns hnd⟩
    have hsn' : sn.afterMove s d (normalize ps) ∈ (t.moved s d (normalize ps)).nodes :=
      List.mem_map_of_mem hsm
    have hpsn : p ∈ (sn.afterMove s d (normalize ps)).partitions := by
      rw [Node.mem_afterMove, if_pos hsid]
      exact .inr (mem_normalize.2 hp)
    have heq := eq_of_mem_partitions hmv hn' hsn' hpn hpsn
    exact hns (by rw [heq, Node.afterMove_id, hsid])
  · intro hfree
    cases hmv : (t.moved s d (normalize ps)).validate with
    | ok _ => rfl
    | error e =>
      obtain ⟨p, hp, -, n, hn, hns, hnd, hpn⟩ :=
        reassign_error_of_valid hv hs hd hsd (reassign_error_of_present hsd hs hd hmv)
      exact absurd ⟨p, hp, n, hn, hns, hnd, hpn⟩ hfree

/-- A move of disjoint partitions changes no node's listing of `ps`. -/
theorem listedElsewhere_moved (hdis : ps.Disjoint moving) :
    (t.moved s₁ d₁ (normalize moving)).ListedElsewhere s₂ d₂ ps ↔ t.ListedElsewhere s₂ d₂ ps := by
  unfold ListedElsewhere
  simp only [moved_nodes, List.mem_map]
  constructor
  · rintro ⟨p, hp, _, ⟨n, hn, rfl⟩, hns, hnd, hpn⟩
    refine ⟨p, hp, n, hn, by simpa using hns, by simpa using hnd, ?_⟩
    exact (Node.mem_afterMove_of_not_mem fun h => hdis hp (mem_normalize.1 h)).1 hpn
  · rintro ⟨p, hp, n, hn, hns, hnd, hpn⟩
    refine ⟨p, hp, _, ⟨n, hn, rfl⟩, by simpa using hns, by simpa using hnd, ?_⟩
    exact (Node.mem_afterMove_of_not_mem fun h => hdis hp (mem_normalize.1 h)).2 hpn

/-! ## Where partitions are listed after a move -/

/-- The id of the first node, in id order, whose list holds `p`. -/
def listing? (t : Topology) (p : Nat) : Option Nat :=
  (t.nodes.find? fun n => n.partitions.contains p).map Node.id

/-- In a valid topology the node listing a partition is the only one. -/
theorem listing?_eq_some_iff (hv : t.validate = .ok ()) :
    t.listing? p = some id ↔ ∃ n ∈ t.nodes, n.id = id ∧ p ∈ n.partitions := by
  unfold listing?
  constructor
  · intro h
    obtain ⟨m, hfind, hid⟩ := Option.map_eq_some_iff.1 h
    exact ⟨m, List.mem_of_find?_eq_some hfind, hid, by simpa using List.find?_some hfind⟩
  · rintro ⟨n, hn, rfl, hp⟩
    obtain ⟨m, hfind⟩ := Option.isSome_iff_exists.1
      (List.find?_isSome.2 ⟨n, hn, by simpa using hp⟩ :
        (t.nodes.find? fun m => m.partitions.contains p).isSome)
    have hm := List.mem_of_find?_eq_some hfind
    have hmn := eq_of_mem_partitions hv hm hn (by simpa using List.find?_some hfind) hp
    rw [hfind, hmn]
    rfl

/-- After a move that passed validation, a moved partition is listed by the stealer and every
other partition by the node that listed it before. -/
theorem listing?_moved (hs : t.containsNode s = true)
    (hmv : (t.moved s d (normalize ps)).validate = .ok ()) (p : Nat) :
    (t.moved s d (normalize ps)).listing? p = if p ∈ ps then some s else t.listing? p := by
  split
  · rename_i hp
    obtain ⟨sn, hsn⟩ := Option.isSome_iff_exists.1 hs
    obtain ⟨hsm, hsid⟩ := mem_of_node? hsn
    refine (listing?_eq_some_iff hmv).2 ⟨sn.afterMove s d (normalize ps), List.mem_map_of_mem hsm,
      by rw [Node.afterMove_id, hsid], ?_⟩
    rw [Node.mem_afterMove, if_pos hsid]
    exact .inr (mem_normalize.2 hp)
  · -- a partition that does not move is listed by every rewritten node as before
    rename_i hp
    have hkeep : (fun n => n.partitions.contains p) ∘ Node.afterMove s d (normalize ps) =
        fun n => n.partitions.contains p := by
      funext n
      rw [Function.comp_apply, Bool.eq_iff_iff, List.contains_iff_mem, List.contains_iff_mem]
      exact Node.mem_afterMove_of_not_mem fun h => hp (mem_normalize.1 h)
    unfold listing?
    rw [moved_nodes, List.find?_map, hkeep, Option.map_map]
    congr 1
    funext n
    simp

/-! ## The answer of a move -/

/-- `u` is what a move of `ps` from `d` to `s` makes of `t`: the same name, the nodes in the same
order each rewritten, every moved partition listed by the stealer and every other one by the
node that listed it in `t`. -/
structure Reassigned (t : Topology) (s d : Nat) (ps : List Nat) (u : Topology) : Prop where
  name : u.name = t.name
  nodes : List.Forall₂ (Node.Rewritten s d ps) t.nodes u.nodes
  lister : ∀ p, u.listing? p = if p ∈ ps then some s else t.listing? p

theorem reassigned_moved (hsd : s ≠ d) (hs : t.containsNode s = true)
    (hmv : (t.moved s d (normalize ps)).validate = .ok ()) :
    t.Reassigned s d ps (t.moved s d (normalize ps)) where
  name := rfl
  nodes := by
    rw [moved_nodes, List.forall₂_map_right_iff]
    exact List.forall₂_same.2 fun n _ => Node.rewritten_afterMove hsd n
  lister := listing?_moved hs hmv

/-- What a move of `ps` from `d` to `s` answers on a topology, in the order the move checks:
the same node twice, a missing stealer, a missing donor, a moved partition that a third node
lists, and otherwise the rewritten topology. -/
structure MoveAnswers (t : Topology) (s d : Nat) (ps : List Nat)
    (r : Except TopologyError Topology) : Prop where
  same : s = d → r = .error (.sameNode s)
  missingStealer : s ≠ d → t.containsNode s = false → r = .error (.nodeNotFound s)
  missingDonor : s ≠ d → t.containsNode s = true → t.containsNode d = false →
    r = .error (.nodeNotFound d)
  duplicate : s ≠ d → t.containsNode s = true → t.containsNode d = true →
    ((∃ p, r = .error (.duplicatePartition p)) ↔ t.ListedElsewhere s d ps)
  moved : s ≠ d → t.containsNode s = true → t.containsNode d = true →
    ¬ t.ListedElsewhere s d ps → ∃ u, r = .ok u ∧ t.Reassigned s d ps u

/-! ## Two moves -/

/-- A move can be made: stealer and donor are two listed nodes, and no third node lists a moved
partition. -/
def CanMove (t : Topology) (s d : Nat) (ps : List Nat) : Prop :=
  s ≠ d ∧ t.containsNode s = true ∧ t.containsNode d = true ∧ ¬ t.ListedElsewhere s d ps

theorem reassign_eq_ok_iff_of_valid (hv : t.validate = .ok ()) :
    t.reassign s d ps = .ok u ↔ t.CanMove s d ps ∧ t.moved s d (normalize ps) = u := by
  rw [reassign_eq_ok_iff]
  constructor
  · rintro ⟨⟨hsd, hs, hd, hmv⟩, rfl⟩
    exact ⟨⟨hsd, hs, hd, (validate_moved_iff hv hsd hs hd).1 hmv⟩, rfl⟩
  · rintro ⟨⟨hsd, hs, hd, hfree⟩, rfl⟩
    exact ⟨⟨hsd, hs, hd, (validate_moved_iff hv hsd hs hd).2 hfree⟩, rfl⟩

/-- A move of other partitions neither adds nor removes what another move needs. -/
theorem canMove_moved (hdis : ps.Disjoint moving) :
    (t.moved s₁ d₁ (normalize moving)).CanMove s₂ d₂ ps ↔ t.CanMove s₂ d₂ ps := by
  simp only [CanMove, containsNode_moved, listedElsewhere_moved hdis]

theorem bind_eq_ok {x : Except TopologyError Topology} {f : Topology → Except TopologyError Topology} :
    (x >>= f) = .ok u ↔ ∃ v, x = .ok v ∧ f v = .ok u := by
  cases x <;> simp [bind, Except.bind]

/-- Two moves of disjoint partition sets, one after the other, succeed exactly when each could be
made on the starting topology, and then answer it with every node rewritten by both. -/
theorem reassign_then_eq_ok_iff {P₁ P₂ : List Nat} (hv : t.validate = .ok ())
    (hdis : P₂.Disjoint P₁) :
    (t.reassign s₁ d₁ P₁ >>= fun v => v.reassign s₂ d₂ P₂) = .ok u ↔
      (t.CanMove s₁ d₁ P₁ ∧ t.CanMove s₂ d₂ P₂) ∧
        (t.moved s₁ d₁ (normalize P₁)).moved s₂ d₂ (normalize P₂) = u := by
  rw [bind_eq_ok]
  constructor
  · rintro ⟨v, h₁, h₂⟩
    obtain ⟨hc₁, rfl⟩ := (reassign_eq_ok_iff_of_valid hv).1 h₁
    obtain ⟨hc₂, rfl⟩ := (reassign_eq_ok_iff_of_valid (validate_of_reassign h₁)).1 h₂
    exact ⟨⟨hc₁, (canMove_moved hdis).1 hc₂⟩, rfl⟩
  · rintro ⟨⟨hc₁, hc₂⟩, rfl⟩
    have h₁ := (reassign_eq_ok_iff_of_valid hv).2 ⟨hc₁, rfl⟩
    exact ⟨_, h₁, (reassign_eq_ok_iff_of_valid (validate_of_reassign h₁)).2
      ⟨(canMove_moved hdis).2 hc₂, rfl⟩⟩

end Topology

/-- On a valid topology a move of `ps` from `d` to `s` fails with `sameNode` when the two are one
node, with `nodeNotFound` for a missing stealer and then for a missing donor, and with
`duplicatePartition` exactly when a node other than the two lists a moved partition; otherwise it
answers the topology with the same name and nodes, the stealer's list the increasing union of its
own and `ps`, the donor's its own less `ps`, and each moved partition listed by the stealer. -/
theorem reassign_answers {t : Topology} (hv : t.validate = .ok ()) (s d : Nat) (ps : List Nat) :
    t.MoveAnswers s d ps (t.reassign s d ps) where
  same h := by
    subst h
    exact Topology.reassign_self s ps
  missingStealer hsd hs := Topology.reassign_of_missing_stealer hsd hs
  missingDonor hsd hs hd := Topology.reassign_of_missing_donor hsd hs hd
  duplicate hsd hs hd := by
    constructor
    · rintro ⟨p, h⟩
      obtain ⟨p, hp, -, n, hn, hns, hnd, hpn⟩ := Topology.reassign_error_of_valid hv hs hd hsd h
      exact ⟨p, hp, n, hn, hns, hnd, hpn⟩
    · intro hel
      cases hmv : (t.moved s d (normalize ps)).validate with
      | ok _ => exact absurd hmv ((Topology.validate_moved_iff hv hsd hs hd).not_left.2 hel)
      | error e =>
        obtain ⟨p, rfl, -⟩ := Topology.validate_eq_error hmv
        exact ⟨p, Topology.reassign_error_of_present hsd hs hd hmv⟩
  moved hsd hs hd hfree := by
    have hmv := (Topology.validate_moved_iff hv hsd hs hd).2 hfree
    exact ⟨_, Topology.reassign_eq_ok_iff.2 ⟨⟨hsd, hs, hd, hmv⟩, rfl⟩,
      Topology.reassigned_moved hsd hs hmv⟩

/-- Three nodes holding partitions 0 to 2, 3 to 5, and 6 and 7, added in the order 2, 0, 1. -/
def threeNodes : Topology :=
  (Topology.empty "test").withNodes [Node.make 2 "localhost" 8082 6666 7777 [6, 7],
    Node.make 0 "localhost" 8080 6666 7777 [0, 1, 2], Node.make 1 "localhost" 8081 6666 7777 [3, 4, 5]]

theorem three_nodes_move_answers :
    threeNodes.validate = .ok () ∧
      threeNodes.MoveAnswers 1 0 [2, 2, 5] (threeNodes.reassign 1 0 [2, 2, 5]) :=
  ⟨rfl, reassign_answers rfl 1 0 [2, 2, 5]⟩

/-- Partition 6 is node 2's, not the donor's: moving it fails validation. -/
example : threeNodes.reassign 1 0 [6] = .error (.duplicatePartition 6) := rfl

/-- On a valid topology two moves of disjoint partition sets succeed in one order exactly when
they succeed in the other, and then both orders answer the same topology; and a move that
succeeded changes nothing when made again. -/
theorem disjoint_moves_commute {t : Topology} (hv : t.validate = .ok ()) (s₁ d₁ s₂ d₂ : Nat)
    {P₁ P₂ : List Nat} (hdis : P₁.Disjoint P₂) :
    ((∃ u, (t.reassign s₁ d₁ P₁ >>= fun v => v.reassign s₂ d₂ P₂) = .ok u) ↔
        ∃ u, (t.reassign s₂ d₂ P₂ >>= fun v => v.reassign s₁ d₁ P₁) = .ok u) ∧
      (∀ u w, (t.reassign s₁ d₁ P₁ >>= fun v => v.reassign s₂ d₂ P₂) = .ok u →
        (t.reassign s₂ d₂ P₂ >>= fun v => v.reassign s₁ d₁ P₁) = .ok w → u = w) ∧
      ∀ s d P u, t.reassign s d P = .ok u → u.reassign s d P = .ok u := by
  refine ⟨⟨?_, ?_⟩, ?_, fun s d P u h => Topology.reassign_reassign h⟩
  · rintro ⟨_, hu⟩
    obtain ⟨⟨hc₁, hc₂⟩, -⟩ := (Topology.reassign_then_eq_ok_iff hv (List.disjoint_symm hdis)).1 hu
    exact ⟨_, (Topology.reassign_then_eq_ok_iff hv hdis).2 ⟨⟨hc₂, hc₁⟩, rfl⟩⟩
  · rintro ⟨_, hu⟩
    obtain ⟨⟨hc₂, hc₁⟩, -⟩ := (Topology.reassign_then_eq_ok_iff hv hdis).1 hu
    exact ⟨_, (Topology.reassign_then_eq_ok_iff hv (List.disjoint_symm hdis)).2 ⟨⟨hc₁, hc₂⟩, rfl⟩⟩
  · -- both orders rewrite every node by both moves
    intro u w hu hw
    obtain ⟨-, rfl⟩ := (Topology.reassign_then_eq_ok_iff hv (List.disjoint_symm hdis)).1 hu
    obtain ⟨-, rfl⟩ := (Topology.reassign_then_eq_ok_iff hv hdis).1 hw
    exact Topology.moved_comm fun p h₁ h₂ => hdis (mem_normalize.1 h₁) (mem_normalize.1 h₂)

theorem crossing_moves_commute :
    threeNodes.validate = .ok () ∧ List.Disjoint [2] [6] ∧
      (((∃ u, (threeNodes.reassign 1 0 [2] >>= fun v => v.reassign 0 2 [6]) = .ok u) ↔
          ∃ u, (threeNodes.reassign 0 2 [6] >>= fun v => v.reassign 1 0 [2]) = .ok u) ∧
        (∀ u w, (threeNodes.reassign 1 0 [2] >>= fun v => v.reassign 0 2 [6]) = .ok u →
          (threeNodes.reassign 0 2 [6] >>= fun v => v.reassign 1 0 [2]) = .ok w → u = w) ∧
        ∀ s d P u, threeNodes.reassign s d P = .ok u → u.reassign s d P = .ok u) :=
  ⟨rfl, by simp, disjoint_moves_commute rfl 1 0 0 2 (by simp)⟩

end Rebalance

import Rebalance.Proofs.TopologyChanges
/-!
# Adding nodes to a topology

`Topology.withNodes` adds nodes one after the other, each put in its id's place and replacing a
node of the same id. What a look-up by id sees afterwards is the whole of it: the node of an id
is the last added node with that id, or the topology's own node when none was added with it
(`node?_withNodes`). The ids listed are those of the topology and of the added nodes
(`mem_nodeIds_withNodes`), in strictly increasing order, as every topology lists them.
-/

namespace Rebalance

namespace Topology

variable {t : Topology} {id : Nat}

@[simp] theorem withNode_name (n : Node) : (t.withNode n).name = t.name := rfl

@[simp] theorem withNodes_name (ns : List Node) : (t.withNodes ns).name = t.name := by
  induction ns generalizing t with
  | nil => rfl
  | cons n ns ih => exact ih

/-- An id is listed exactly when a look-up by it finds a node. -/
theorem mem_nodeIds_iff : id ∈ t.nodeIds ↔ (t.node? id).isSome := by
  rw [show (t.node? id).isSome = t.containsNode id from rfl, containsNode_iff]
  simp [nodeIds]

/-- Adding a node makes it the node of its id and leaves every other id alone. -/
theorem node?_withNode (n : Node) (id : Nat) :
    (t.withNode n).node? id = if n.id = id then some n else t.node? id := by
  unfold node? withNode
  split
  · rename_i h
    subst h
    exact Keyed.find?_insert_self n t.nodes
  · rename_i h
    exact Keyed.find?_insert_ne t.nodes (Ne.symm h)

/-- After adding `ns`, the node of an id is the last node of `ns` with that id, and the
topology's own node when `ns` has none. -/
theorem node?_withNodes (ns : List Node) (id : Nat) :
    (t.withNodes ns).node? id = (Keyed.find? Node.id id ns.reverse).or (t.node? id) := by
  induction ns generalizing t with
  | nil => simp [withNodes, Keyed.find?]
  | cons n ns ih =>
    -- the node added first is the last one the reversed look-up reaches
    rw [show t.withNodes (n :: ns) = (t.withNode n).withNodes ns from rfl, ih, node?_withNode,
      List.reverse_cons]
    unfold Keyed.find?
    rw [List.find?_append, Option.or_assoc]
    congr 1
    by_cases h : n.id = id <;> simp [h]

/-- The ids listed after adding `ns` are the topology's and those of `ns`. -/
theorem mem_nodeIds_withNodes (ns : List Node) (id : Nat) :
    id ∈ (t.withNodes ns).nodeIds ↔ id ∈ t.nodeIds ∨ id ∈ ns.map Node.id := by
  rw [mem_nodeIds_iff, mem_nodeIds_iff, node?_withNodes, Option.isSome_or]
  simp [Keyed.find?, List.find?_isSome, or_comm]

end Topology

/-- Adding nodes keeps the name and lists the ids of the topology and of the added nodes, in
strictly increasing order; the node of each id is the last added node with that id, or the
topology's own node when none was added with it. -/
theorem withNodes_last_added_wins (t : Topology) (ns : List Node) :
    (t.withNodes ns).name = t.name ∧ (t.withNodes ns).nodeIds.Pairwise (· < ·) ∧
      (∀ id, id ∈ (t.withNodes ns).nodeIds ↔ id ∈ t.nodeIds ∨ id ∈ ns.map Node.id) ∧
      ∀ id, (t.withNodes ns).node? id = (Keyed.find? Node.id id ns.reverse).or (t.node? id) :=
  ⟨Topology.withNodes_name ns, List.pairwise_map.2 (t.withNodes ns).increasing,
    Topology.mem_nodeIds_withNodes ns, Topology.node?_withNodes ns⟩

end Rebalance

import Rebalance.Keyed
import Rebalance.Topology.Node
/-!
# Topologies

A topology names a cluster and lists its nodes in strictly increasing id order; that order is a
field of the type, so every topology has at most one node per id. A valid topology also gives
every partition at most one owner, which is checked (`validate`) rather than carried, because
adding nodes (`withNodes`) is allowed to break it.

Topologies are values: moving partitions (`reassign`) and adding nodes build new ones.
-/

namespace Rebalance

/-- Why a topology could not be built or changed. -/
inductive TopologyError where
  | nodeNotFound (node : Nat)
  | sameNode (node : Nat)
  | duplicateNode (node : Nat)
  | duplicatePartition (partition : Nat)
  | serialization (detail : String)
deriving DecidableEq, Repr

namespace TopologyError

/-- The sentence that reports the error. -/
def message : TopologyError → String
  | nodeNotFound n => s!"Node not found in topology: {n}"
  | sameNode n => s!"Stealer and donor are the same node: {n}"
  | duplicateNode n => s!"Node {n} listed more than once"
  | duplicatePartition p => s!"Partition {p} is owned by more than one node"
  | serialization d => "Serialization error: " ++ d

end TopologyError

/-- A named cluster layout; nodes are listed by strictly increasing id. -/
structure Topology where
  name : String
  nodes : List Node
  increasing : Keyed.Increasing Node.id nodes

/-- The first element of a list equal to its right neighbour. -/
def adjacentRepeat? : List Nat → Option Nat
  | a :: b :: rest => if a = b then some a else adjacentRepeat? (b :: rest)
  | _ => none

/-- The first element that already occurred earlier in the list. -/
def firstRepeat? (l : List Nat) : Option Nat := go [] l
where
  /-- Walks the list, remembering what was seen. -/
  go (seen : List Nat) : List Nat → Option Nat
    | [] => none
    | p :: rest => if seen.contains p then some p else go (p :: seen) rest

/-- A list ordered by id without two equal neighbouring ids is strictly increasing in id. -/
theorem increasing_of_sorted :
    ∀ (l : List Node), l.Pairwise (fun a b => a.id ≤ b.id) →
      adjacentRepeat? (l.map Node.id) = none → Keyed.Increasing Node.id l
  | [], _, _ => List.Pairwise.nil
  | [_], _, _ => by simp [Keyed.Increasing]
  | a :: b :: rest, hs, hr => by
    have hab : a.id ≠ b.id := by
      intro h
      simp [adjacentRepeat?, h] at hr
    have hr' : adjacentRepeat? ((b :: rest).map Node.id) = none := by
      simpa [adjacentRepeat?, hab] using hr
    have ih := increasing_of_sorted (b :: rest) (List.pairwise_cons.1 hs).2 hr'
    unfold Keyed.Increasing at ih ⊢
    refine List.pairwise_cons.2 ⟨?_, ih⟩
    intro x hx
    have hax : a.id ≤ x.id := (List.pairwise_cons.1 hs).1 x hx
    rcases List.mem_cons.1 hx with hx | hx
    · subst hx; omega
    · have hab' : a.id ≤ b.id := (List.pairwise_cons.1 hs).1 b List.mem_cons_self
      have := (List.pairwise_cons.1 ih).1 x hx
      omega

/-- Sorting by id with a stable merge sort puts the ids in order. -/
theorem sortById_sorted (l : List Node) :
    (l.mergeSort (fun a b => decide (a.id ≤ b.id))).Pairwise (fun a b => a.id ≤ b.id) := by
  have h := @List.pairwise_mergeSort Node (fun a b => decide (a.id ≤ b.id))
    (by intro a b c h1 h2; simp only [decide_eq_true_eq] at *; omega)
    (by intro a b; simp only [Bool.or_eq_true, decide_eq_true_eq]; omega) l
  exact h.imp (fun h => of_decide_eq_true h)

namespace Topology

/-- The topology with no nodes. -/
def empty (name : String) : Topology := ⟨name, [], List.Pairwise.nil⟩

/-- The node with id `id`. -/
def node? (t : Topology) (id : Nat) : Option Node := Keyed.find? Node.id id t.nodes

/-- Whether a node with id `id` is listed. -/
def containsNode (t : Topology) (id : Nat) : Bool := (t.node? id).isSome

/-- The node ids in increasing order. -/
def nodeIds (t : Topology) : List Nat := t.nodes.map Node.id

/-- The first node, in id order, whose search finds partition `p`. -/
def partitionOwner (t : Topology) (p : Nat) : Option Nat :=
  (t.nodes.find? (fun n => n.owns p)).map Node.id

/-- The number of partition entries over all nodes. -/
def partitionCount (t : Topology) : Nat := t.nodes.foldl (fun acc n => acc + n.partitions.length) 0

/-- Checks that no partition is listed twice, walking the nodes in id order; the first
partition met a second time is reported. -/
def validate (t : Topology) : Except TopologyError Unit :=
  match firstRepeat? (t.nodes.flatMap Node.partitions) with
  | some p => .error (.duplicatePartition p)
  | none => .ok ()

/-- The topology of the given nodes, sorted by id (nodes of equal id keep their order), if
no id repeats and no partition has two owners. -/
def make (name : String) (nodes : List Node) : Except TopologyError Topology :=
  let sorted := nodes.mergeSort (fun a b => decide (a.id ≤ b.id))
  match h : adjacentRepeat? (sorted.map Node.id) with
  | some n => .error (.duplicateNode n)
  | none =>
    let t : Topology := ⟨name, sorted, increasing_of_sorted sorted (sortById_sorted nodes) h⟩
    match t.validate with
    | .ok () => .ok t
    | .error e => .error e

/-- The topology with `n` put in its id's place, replacing a node with the same id. -/
def withNode (t : Topology) (n : Node) : Topology :=
  ⟨t.name, Keyed.insert Node.id n t.nodes, Keyed.increasing_insert n t.increasing⟩

/-- The topology with the nodes added one after the other; nothing is validated. -/
def withNodes (t : Topology) (ns : List Node) : Topology := ns.foldl withNode t

/-- Moves `parts` from `donor` to `stealer`: the stealer's list becomes the increasing set of
its old partitions and the moved ones, the donor's the increasing set of its old ones less the
moved ones, every other node stays, and the result is validated. -/
def reassign (t : Topology) (stealer donor : Nat) (parts : List Nat) :
    Except TopologyError Topology :=
  if stealer = donor then .error (.sameNode stealer)
  else
    match t.node? stealer, t.node? donor with
    | none, _ => .error (.nodeNotFound stealer)
    | some _, none => .error (.nodeNotFound donor)
    | some s, some d =>
      let moving := normalize parts
      let s' := { s with partitions := normalize (s.partitions ++ moving) }
      let d' := { d with partitions := normalize (d.partitions.filter (fun p => !moving.contains p)) }
      let updated := t.withNodes [s', d']
      match updated.validate with
      | .ok () => .ok updated
      | .error e => .error e

/-- The topology as text: `Topology(name, id:[partitions], ...)` in id order. -/
def render (t : Topology) : String :=
  "Topology(" ++ t.name ++
    String.join (t.nodes.map fun n => s!", {n.id}:" ++ Text.natListing n.partitions) ++ ")"

/-- Topologies are equal when names and node lists are. -/
def beq (a b : Topology) : Bool := a.name == b.name && a.nodes == b.nodes

instance : BEq Topology := ⟨beq⟩

end Topology

end Rebalance

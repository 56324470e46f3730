import Rebalance.Text.Listing
/-!
# Storage nodes

A node has an id, a host, three ports and the list of primary partitions it owns. A node made
with `Node.make` keeps that list as a set: increasing and without repeats (`normalize`). A node
read from a document keeps the list as written, so `owns` is a halving search that trusts the
list to be increasing, and answers for other lists follow from where its probes land.
-/

namespace Rebalance

/-- A storage node and the primary partitions it owns. -/
structure Node where
  id : Nat
  host : String
  httpPort : Nat
  socketPort : Nat
  adminPort : Nat
  partitions : List Nat
deriving DecidableEq, Inhabited

/-- Inserts `p` into an increasing list unless it is there already. -/
def insertSorted (p : Nat) : List Nat → List Nat
  | [] => [p]
  | q :: rest =>
    if p < q then p :: q :: rest
    else if p = q then q :: rest
    else q :: insertSorted p rest

/-- The set of the list's elements, as an increasing list. -/
def normalize (ps : List Nat) : List Nat := ps.foldl (fun acc p => insertSorted p acc) []

/-- The position a halving search for `x` settles on in an array trusted to be increasing:
while more than one candidate is left, the probe at `base + size / 2` decides whether the
lower half (probe above `x`) or the upper part from the probe on is kept. -/
def settle (a : Array Nat) (x : Nat) (base size : Nat) : Nat :=
  if size ≤ 1 then base
  else
    let half := size / 2
    settle a x (if x < a.getD (base + half) 0 then base else base + half) (size - half)
termination_by size
decreasing_by omega

/-- Whether the halving search finds `x` in the array. -/
def searchSorted (a : Array Nat) (x : Nat) : Bool :=
  a.size != 0 && a.getD (settle a x 0 a.size) 0 == x

namespace Node

/-- A node whose partition list is normalized to an increasing list without repeats. -/
def make (id : Nat) (host : String) (httpPort socketPort adminPort : Nat)
    (partitions : List Nat) : Node :=
  ⟨id, host, httpPort, socketPort, adminPort, normalize partitions⟩

/-- Whether the node owns partition `p`, by a halving search of its list. -/
def owns (n : Node) (p : Nat) : Bool := searchSorted n.partitions.toArray p

/-- The node as text: `Node(id=…, host=…, partitions=[…])`. -/
def render (n : Node) : String :=
  s!"Node(id={n.id}, host={n.host}, partitions=" ++ Text.natListing n.partitions ++ ")"

end Node

end Rebalance

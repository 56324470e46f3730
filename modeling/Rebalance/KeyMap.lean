import Rebalance.Keyed
/-!
# Maps keyed by natural numbers

Clocks (node to counter), movement tiers (tier to partitions) and cluster views (node to view)
are all finite maps from `Nat` keys listed in increasing key order. `KeyMap` is that map: a
list of entries whose keys increase strictly, so a key appears at most once and the listing
order is the key order.

The main fact is `get?_insert`: a write is read back and leaves the other keys alone. Every
operation keeps the order, because the order is a field of the type.
-/

namespace Rebalance

/-- A finite map from `Nat` keys whose entries are listed in strictly increasing key order. -/
structure KeyMap (α : Type) where
  entries : List (Nat × α)
  increasing : Keyed.Increasing Prod.fst entries

namespace KeyMap

variable {α β : Type}

/-- The map with no entries. -/
def empty : KeyMap α := ⟨[], List.Pairwise.nil⟩

instance : Inhabited (KeyMap α) := ⟨empty⟩

/-- The value stored under `k`, if any. -/
def get? (m : KeyMap α) (k : Nat) : Option α :=
  (Keyed.find? Prod.fst k m.entries).map Prod.snd

/-- The value stored under `k`, or `d` when there is none. -/
def getD (m : KeyMap α) (k : Nat) (d : α) : α := (m.get? k).getD d

/-- Whether `k` has an entry. -/
def contains (m : KeyMap α) (k : Nat) : Bool := (m.get? k).isSome

/-- The keys, in increasing order. -/
def keys (m : KeyMap α) : List Nat := m.entries.map Prod.fst

/-- The map with `k` bound to `v`; an earlier binding of `k` is replaced. -/
def insert (m : KeyMap α) (k : Nat) (v : α) : KeyMap α :=
  ⟨Keyed.insert Prod.fst (k, v) m.entries, Keyed.increasing_insert _ m.increasing⟩

/-- The map built from a list of pairs read left to right, so a later pair of a key wins. -/
def ofList (l : List (Nat × α)) : KeyMap α :=
  l.foldl (fun m e => m.insert e.1 e.2) empty

/-- Applies `f` to every value; keys and order stay. -/
def mapValues (f : α → β) (m : KeyMap α) : KeyMap β :=
  ⟨m.entries.map (fun e => (e.1, f e.2)), by
    have h := m.increasing
    unfold Keyed.Increasing at h ⊢
    rw [List.pairwise_map]
    exact h⟩

/-- Keeps the entries whose value satisfies `p`. -/
def filterValues (p : α → Bool) (m : KeyMap α) : KeyMap α :=
  ⟨m.entries.filter (fun e => p e.2), m.increasing.filter _⟩

/-- The largest key, if the map is not empty. -/
def maxKey? (m : KeyMap α) : Option Nat := m.keys.getLast?

/-- A write is read back, and other keys are untouched. -/
@[simp]
theorem get?_insert (m : KeyMap α) (k j : Nat) (v : α) :
    (m.insert k v).get? j = if j = k then some v else m.get? j := by
  unfold get? insert
  split
  · rename_i h
    rw [h]
    exact congrArg (Option.map Prod.snd) (@Keyed.find?_insert_self _ Prod.fst (k, v) m.entries)
  · rename_i h
    rw [@Keyed.find?_insert_ne _ Prod.fst (k, v) j m.entries h]

@[simp]
theorem get?_empty (k : Nat) : (empty : KeyMap α).get? k = none := rfl

end KeyMap

end Rebalance

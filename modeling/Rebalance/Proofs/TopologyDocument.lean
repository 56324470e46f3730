import Rebalance.Proofs.JsonReadBack
import Rebalance.Topology.Json
/-!
# A topology's document reads back as the topology

`Topology.toJson` writes a topology the way `Topology.ofJson` reads it: each node as an object
with its members in the order of `Node.shape`, the topology as its name and the list of its nodes.
Read in the topology's shape, the text gives back the value it was written from
(`Topology.toJson_read`), and a topology that validates is rebuilt from that value as it was
(`Topology.ofJson_toJson`).

A node's numbers are read in the widths they have in the source: 32 bits for ids and partitions,
16 for ports (`Node.InRange`). Nothing else is asked of a topology: its name and hosts are any
strings, and partition lists are kept in whatever order they have.
-/

namespace Rebalance

open Json

/-- Mapping each element to a value that `f` reads back, then reading, gives the list back. -/
theorem mapM_map_eq_pure {m : Type → Type} [Monad m] [LawfulMonad m] {α β : Type}
    {f : β → m α} {g : α → β} :
    ∀ {l : List α}, (∀ a ∈ l, f (g a) = pure a) → (l.map g).mapM f = pure l
  | [], _ => by simp
  | a :: l, h => by
    simp [List.mapM_cons, h a List.mem_cons_self,
      mapM_map_eq_pure fun b hb => h b (List.mem_cons_of_mem _ hb)]

/-! ## The value a document is read as -/

namespace Node

/-- The value a node's document is read as: its fields in order. -/
def shapedValue (n : Node) : Json.Value :=
  .array [.number (.nat n.id), .string n.host, .number (.nat n.httpPort),
    .number (.nat n.socketPort), .number (.nat n.adminPort),
    .array (n.partitions.map fun p => .number (.nat p))]

theorem ofShaped_shapedValue (n : Node) : ofShaped n.shapedValue = some n := by
  have hps : (n.partitions.map fun p => Json.Value.number (.nat p)).mapM Json.Value.asNat? =
      some n.partitions := mapM_map_eq_pure fun _ _ => rfl
  simp only [shapedValue, ofShaped, hps]
  rfl

end Node

namespace Topology

/-- The value a topology's document is read as: its name and its nodes' values. -/
def shapedValue (t : Topology) : Json.Value :=
  .array [.string t.name, .array (t.nodes.map Node.shapedValue)]

theorem partsOfShaped_shapedValue (t : Topology) :
    partsOfShaped t.shapedValue = some (t.name, t.nodes) := by
  simp only [shapedValue, partsOfShaped]
  rw [mapM_map_eq_pure fun n _ => Node.ofShaped_shapedValue n]
  rfl

theorem adjacentRepeat?_of_increasing :
    ∀ {l : List Node}, Keyed.Increasing Node.id l → adjacentRepeat? (l.map Node.id) = none
  | [], _ => rfl
  | [_], _ => rfl
  | a :: b :: rest, h => by
    have hab : a.id < b.id := (List.pairwise_cons.1 h).1 b List.mem_cons_self
    simp only [List.map_cons, adjacentRepeat?, Nat.ne_of_lt hab, if_false]
    exact adjacentRepeat?_of_increasing (List.pairwise_cons.1 h).2

/-- A topology that validates is rebuilt as it is from its name and nodes. -/
theorem make_of_valid {t : Topology} (hv : t.validate = .ok ()) : make t.name t.nodes = .ok t := by
  obtain ⟨name, nodes, inc⟩ := t
  -- the nodes are already in id order, so sorting keeps them
  have hs : nodes.mergeSort (fun a b => decide (a.id ≤ b.id)) = nodes :=
    List.mergeSort_of_pairwise (inc.imp fun h => decide_eq_true (Nat.le_of_lt h))
  unfold make
  dsimp only
  split
  · rename_i n hn
    rw [hs, adjacentRepeat?_of_increasing inc] at hn
    cases hn
  · simp only [hs]
    simp only [validate] at hv ⊢
    split <;> simp_all

/-- A topology's document is read back as the topology, given that reading the text gives the
value it was written from. -/
theorem ofJson_toJson {t : Topology} (hv : t.validate = .ok ())
    (hread : Json.readDocument shape t.toJson = .ok t.shapedValue) : ofJson t.toJson = .ok t := by
  simp only [ofJson, hread, partsOfShaped_shapedValue]
  exact make_of_valid hv

end Topology

/-! ## The document as written -/

namespace Json.Member

/-- A member holding a count. -/
def ofCount (key : String) (max : Nat) (name : String) (k : Nat) : Member :=
  ⟨key, .count max name, (toString k).toList, .number (.nat k)⟩

/-- A member holding a string. -/
def ofString (key s : String) : Member := ⟨key, .string, (quote s).toList, .string s⟩

/-- A member holding a list of counts. -/
def ofCounts (key : String) (max : Nat) (name : String) (ks : List Nat) : Member :=
  ⟨key, .list (.count max name), arrayText (ks.map fun k => (toString k).toList),
    .array (ks.map fun k => .number (.nat k))⟩

theorem written_ofCount {key name : String} {max k : Nat} (h : k ≤ max) (hmax : max ≤ maxU64)
    (d : Nat) :
    Written (ofCount key max name k).shape d (ofCount key max name k).text
      (ofCount key max name k).value :=
  written_count h (Nat.le_trans h hmax) d name

theorem written_ofString (key s : String) (d : Nat) :
    Written (ofString key s).shape d (ofString key s).text (ofString key s).value :=
  written_string d s

theorem written_ofCounts {key name : String} {max : Nat} {ks : List Nat} (h : ∀ k ∈ ks, k ≤ max)
    (hmax : max ≤ maxU64) {d : Nat} (hd : 2 ≤ d) :
    Written (ofCounts key max name ks).shape d (ofCounts key max name ks).text
      (ofCounts key max name ks).value := by
  have hw := written_list hd (ks.map fun k => ((toString k).toList, Value.number (.nat k))) (by
    simp only [List.mem_map]
    rintro _ ⟨k, hk, rfl⟩
    exact written_count (h k hk) (Nat.le_trans (h k hk) hmax) _ name)
  simpa [ofCounts, List.map_map, Function.comp_def] using hw

end Json.Member

namespace Node

/-- A node's numbers fit the widths they are read in: ids and partitions 32 bits, ports 16. -/
structure InRange (n : Node) : Prop where
  id : n.id ≤ maxU32
  httpPort : n.httpPort ≤ maxU16
  socketPort : n.socketPort ≤ maxU16
  adminPort : n.adminPort ≤ maxU16
  partitions : ∀ p ∈ n.partitions, p ≤ maxU32

instance (n : Node) : Decidable n.InRange :=
  decidable_of_iff (n.id ≤ maxU32 ∧ n.httpPort ≤ maxU16 ∧ n.socketPort ≤ maxU16 ∧
      n.adminPort ≤ maxU16 ∧ ∀ p ∈ n.partitions, p ≤ maxU32)
    ⟨fun ⟨h₁, h₂, h₃, h₄, h₅⟩ => ⟨h₁, h₂, h₃, h₄, h₅⟩, fun h => ⟨h.1, h.2, h.3, h.4, h.5⟩⟩

/-- The members of a node's object, in the order they are written. -/
def members (n : Node) : List Member :=
  [.ofCount "id" maxU32 "u32" n.id, .ofString "host" n.host,
    .ofCount "http_port" maxU16 "u16" n.httpPort,
    .ofCount "socket_port" maxU16 "u16" n.socketPort,
    .ofCount "admin_port" maxU16 "u16" n.adminPort,
    .ofCounts "partitions" maxU32 "u32" n.partitions]

theorem shape_eq (n : Node) : shape = .record "Node" (n.members.map Member.field) := rfl

theorem shapedValue_eq (n : Node) : n.shapedValue = .array (n.members.map Member.value) := rfl

theorem toJson_toList (n : Node) : n.toJson.toList = objectText n.members := by
  unfold toJson objectText
  simp only [String.toList_append, String.toList_intercalate, List.map_map, members, List.map_cons,
    List.map_nil, Member.written, Member.ofCount, Member.ofString, Member.ofCounts]
  -- the keys need no escapes
  simp (disch := decide) only [quote_toList_of_escaped]
  simp [arrayText, Function.comp_def]

/-- A node whose numbers fit is written in the node's shape, at any depth that leaves room for
its partition list. -/
theorem written {n : Node} (h : n.InRange) {d : Nat} (hd : 3 ≤ d) :
    Written shape d n.toJson.toList n.shapedValue := by
  rw [shape_eq n, shapedValue_eq, toJson_toList]
  have h32 : maxU32 ≤ maxU64 := by decide
  have h16 : maxU16 ≤ maxU64 := by decide
  have hkeys : n.members.map Member.key =
      ["id", "host", "http_port", "socket_port", "admin_port", "partitions"] := rfl
  refine written_record (by omega) "Node" n.members (by rw [hkeys]; decide) ?_
  simp only [members, List.mem_cons, List.not_mem_nil, or_false]
  rintro m (rfl | rfl | rfl | rfl | rfl | rfl)
  · exact Member.written_ofCount h.id h32 _
  · exact Member.written_ofString _ _ _
  · exact Member.written_ofCount h.httpPort h16 _
  · exact Member.written_ofCount h.socketPort h16 _
  · exact Member.written_ofCount h.adminPort h16 _
  · exact Member.written_ofCounts h.partitions h32 (by omega)

end Node

namespace Topology

/-- The members of a topology's object, in the order they are written. -/
def members (t : Topology) : List Member :=
  [.ofString "name" t.name,
    ⟨"nodes", .list Node.shape, arrayText (t.nodes.map fun n => n.toJson.toList),
      .array (t.nodes.map Node.shapedValue)⟩]

theorem shape_eq (t : Topology) : shape = .record "Topology" (t.members.map Member.field) := rfl

theorem shapedValue_eq (t : Topology) : t.shapedValue = .array (t.members.map Member.value) := rfl

theorem toJson_toList (t : Topology) : t.toJson.toList = objectText t.members := by
  unfold toJson objectText
  simp only [String.toList_append, String.toList_intercalate, List.map_map, members, List.map_cons,
    List.map_nil, Member.written, Member.ofString]
  simp (disch := decide) only [quote_toList_of_escaped]
  simp [arrayText, Function.comp_def]

/-- A topology whose nodes' numbers fit is written in the topology's shape. -/
theorem written {t : Topology} (h : ∀ n ∈ t.nodes, n.InRange) :
    Written shape 128 t.toJson.toList t.shapedValue := by
  rw [shape_eq t, shapedValue_eq, toJson_toList]
  have hkeys : t.members.map Member.key = ["name", "nodes"] := rfl
  refine written_record (by decide) "Topology" t.members (by rw [hkeys]; decide) ?_
  simp only [members, List.mem_cons, List.not_mem_nil, or_false]
  rintro m (rfl | rfl)
  · exact Member.written_ofString _ _ _
  · -- the nodes sit two levels below the document
    have hnodes : ∀ p ∈ t.nodes.map fun n => (n.toJson.toList, n.shapedValue),
        Written Node.shape 126 p.1 p.2 := by
      simp only [List.mem_map]
      rintro _ ⟨n, hn, rfl⟩
      dsimp only
      exact Node.written (h n hn) (by decide)
    have hw := written_list (show 2 ≤ 127 by decide) _ hnodes
    simpa [List.map_map, Function.comp_def] using hw

/-- The document of a topology whose nodes' numbers fit is read as the value it was written
from. -/
theorem toJson_read {t : Topology} (h : ∀ n ∈ t.nodes, n.InRange) :
    Json.readDocument shape t.toJson = .ok t.shapedValue :=
  readDocument_of_written (written h)

/-- A topology that validates, whose nodes' numbers fit their widths, is read back from its
document as it is. -/
theorem document_round_trip {t : Topology} (hv : t.validate = .ok ())
    (h : ∀ n ∈ t.nodes, n.InRange) : ofJson t.toJson = .ok t :=
  ofJson_toJson hv (toJson_read h)

/-- Two nodes at the ends of the id range, with full-range ports, unsorted partitions, and a name
and host that need escapes. -/
def edgeTopology : Topology :=
  (Topology.empty "east \"1\"\t").withNodes
    [⟨0, "h\\ö\n\x01", 65535, 0, 8080, [7, 2, 9]⟩, ⟨4294967295, "", 1, 65535, 2, []⟩]

theorem edgeTopology_round_trip :
    edgeTopology.validate = .ok () ∧ (∀ n ∈ edgeTopology.nodes, n.InRange) ∧
      ofJson edgeTopology.toJson = .ok edgeTopology :=
  have hv : edgeTopology.validate = .ok () := rfl
  have h : ∀ n ∈ edgeTopology.nodes, n.InRange := by decide
  ⟨hv, h, document_round_trip hv h⟩

end Topology

end Rebalance

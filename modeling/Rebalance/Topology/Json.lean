import Rebalance.Topology.Basic
import Rebalance.Json.Read
import Rebalance.Fault
/-!
# Topology documents

The JSON form of a topology is an object with `name` and `nodes`, each node an object with
`id`, `host`, `http_port`, `socket_port`, `admin_port` and `partitions`, written in that order
without spaces. Reading accepts each record also as an array of its fields in order, ignores
unknown members, takes ids and partitions as 32-bit and ports as 16-bit counts, keeps partition
lists as written, and then builds the topology with `Topology.make` (sorting the nodes by id and
validating). Any reading error becomes a serialization error carrying the reader's message.
-/

namespace Rebalance

/-- The largest 16-bit port number. -/
def maxU16 : Nat := 65535

namespace Node

/-- The node as a JSON object, fields in the fixed order. -/
def toJson (n : Node) : String :=
  "\x7b\"id\":" ++ toString n.id ++ ",\"host\":" ++ Json.quote n.host ++
    ",\"http_port\":" ++ toString n.httpPort ++ ",\"socket_port\":" ++ toString n.socketPort ++
    ",\"admin_port\":" ++ toString n.adminPort ++ ",\"partitions\":[" ++
    ",".intercalate (n.partitions.map toString) ++ "]\x7d"

/-- The shape in which a node is read. -/
def shape : Json.Shape :=
  .record "Node" [("id", .count maxU32 "u32"), ("host", .string),
    ("http_port", .count maxU16 "u16"), ("socket_port", .count maxU16 "u16"),
    ("admin_port", .count maxU16 "u16"), ("partitions", .list (.count maxU32 "u32"))]

/-- The node from a value read in `shape`. -/
def ofShaped : Json.Value → Option Node
  | .array [.number (.nat id), .string host, .number (.nat http), .number (.nat socket),
      .number (.nat admin), .array parts] =>
    (parts.mapM Json.Value.asNat?).map fun ps => ⟨id, host, http, socket, admin, ps⟩
  | _ => none

end Node

namespace Topology

/-- The topology as a JSON object: `name`, then `nodes` in id order. -/
def toJson (t : Topology) : String :=
  "\x7b\"name\":" ++ Json.quote t.name ++ ",\"nodes\":[" ++
    ",".intercalate (t.nodes.map Node.toJson) ++ "]\x7d"

/-- The shape in which a topology document is read. -/
def shape : Json.Shape := .record "Topology" [("name", .string), ("nodes", .list Node.shape)]

/-- The name and nodes from a value read in `shape`. -/
def partsOfShaped : Json.Value → Option (String × List Node)
  | .array [.string name, .array nodes] => (nodes.mapM Node.ofShaped).map fun ns => (name, ns)
  | _ => none

/-- Reads a topology document and builds the topology from it. -/
def ofJson (s : String) : Except TopologyError Topology :=
  match Json.readDocument shape s with
  | .error e => .error (.serialization e.message)
  | .ok v =>
    match partsOfShaped v with
    | some (name, nodes) => make name nodes
    | none => .error (.serialization "document does not have the shape of a topology")

end Topology

end Rebalance

import ReplicaRing.Topology.Build

/-! The lines in which a ring is shown to its operator. -/

namespace ReplicaRing.Report

/-- A text filled up with blanks on the right to a least number of characters. -/
def padded (width : Nat) (text : String) : String :=
  text ++ String.ofList (List.replicate (width - text.length) ' ')

/-- A replica by the endpoint that answers calls, or a dash where there is none. -/
def replica : Option Address → String
  | some address => address.sync.text
  | none => "-"

def nodeLine (node : Node) : String :=
  s!"{padded 12 node.name} primary={node.primary.sync.text} " ++
    s!"secondary={replica node.secondary} tertiary={replica node.tertiary}"

def topologyLines (topology : Topology) : List String :=
  topology.nodes.map nodeLine

/-- A key, the shard that owns it, and the endpoints tried for it in order. -/
def routeLine (topology : Topology) (partitioner : Partitioner) (key : String) : String :=
  let node := topology.owner partitioner key
  s!"{key} -> {node.name} via " ++ " > ".intercalate (node.chain.map (·.text))

def routeLines (topology : Topology) (partitioner : Partitioner) (keys : List String) :
    List String :=
  keys.map (routeLine topology partitioner)

end ReplicaRing.Report

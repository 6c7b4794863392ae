import ReplicaRing.Partition
import ReplicaRing.Text.Blank
import ReplicaRing.Topology.Config
import ReplicaRing.Error

/-! From a configuration to the shards it describes. Names are checked before references are
resolved, each in the order of the list, and the first thing wrong is reported. -/

namespace ReplicaRing

/-- The shards of a ring in the order of its configuration, at least one. -/
structure Topology where
  nodes : List Node
  populated : nodes ≠ []

namespace Topology

def ofNodes? (nodes : List Node) : Option Topology :=
  if populated : nodes ≠ [] then some { nodes, populated } else none

theorem positive (topology : Topology) : 0 < topology.nodes.length :=
  List.length_pos_iff.mpr topology.populated

def first (topology : Topology) : Node :=
  topology.nodes.head topology.populated

def count (topology : Topology) : Nat :=
  topology.nodes.length

def shardOf (topology : Topology) (partitioner : Partitioner) (key : String) :
    Fin topology.count :=
  partitioner.shard (Utf8.ofString key) topology.count topology.positive

def owner (topology : Topology) (partitioner : Partitioner) (key : String) : Node :=
  topology.nodes.get (topology.shardOf partitioner key)

/-- The shard whose owner is reached at an endpoint, by call or by mail. -/
def nodeAt (topology : Topology) (endpoint : Endpoint) : Option Node :=
  findNode topology.nodes endpoint

/-- The copy of a shard that a reference is about. -/
inductive Role where
  | secondary
  | tertiary
  deriving DecidableEq, Repr

def Role.name : Role → String
  | secondary => "secondary"
  | tertiary => "tertiary"

inductive Defect where
  | noNodes
  | blankName (position : Nat)
  | repeatedName (name : String)
  | unknownReplica (owner : String) (role : Role) (reference : String)
  deriving DecidableEq, Repr

namespace Defect

def message : Defect → String
  | noNodes => "topology has no nodes"
  | blankName position => s!"node at position {position} has an empty name"
  | repeatedName name => s!"node name '{name}' appears more than once"
  | unknownReplica owner role reference =>
    s!"node '{owner}' names unknown {role.name} node '{reference}'"

def toError (defect : Defect) : Error :=
  .configuration defect.message

end Defect

/-- Checks the names from `position` on against those already seen. -/
def checkNames : List String → Nat → List Descriptor → Except Defect Unit
  | _, _, [] => .ok ()
  | seen, position, descriptor :: rest =>
    if Text.isBlank descriptor.name then .error (.blankName position)
    else if descriptor.name ∈ seen then .error (.repeatedName descriptor.name)
    else checkNames (descriptor.name :: seen) (position + 1) rest

/-- The address behind a reference, which may be absent but not dangle. -/
def resolve (all : List Descriptor) (owner : String) (role : Role) :
    Option String → Except Defect (Option Address)
  | none => .ok none
  | some reference =>
    match all.find? (·.name = reference) with
    | none => .error (.unknownReplica owner role reference)
    | some descriptor => .ok (some descriptor.address)

def buildNode (all : List Descriptor) (descriptor : Descriptor) : Except Defect Node := do
  let secondary ← resolve all descriptor.name .secondary descriptor.secondary
  let tertiary ← resolve all descriptor.name .tertiary descriptor.tertiary
  return { name := descriptor.name, primary := descriptor.address, secondary, tertiary }

/-- The shards of some descriptors, whose references may name any of `all`. -/
def buildNodes (all : List Descriptor) : List Descriptor → Except Defect (List Node)
  | [] => .ok []
  | descriptor :: rest => do
    let node ← buildNode all descriptor
    let nodes ← buildNodes all rest
    return node :: nodes

/-- Builds the shards of a configuration, one for each descriptor. -/
def build (config : Config) : Except Defect Topology := do
  if config.nodes.isEmpty then .error .noNodes
  checkNames [] 0 config.nodes
  let nodes ← buildNodes config.nodes config.nodes
  match ofNodes? nodes with
  | some topology => .ok topology
  | none => .error .noNodes

end Topology
end ReplicaRing

import ReplicaRing.Write

/-! What travels between clients and nodes: calls with their answers, and letters that carry
copies of committed writes. -/

namespace ReplicaRing

/-- Why a write reached a node. Only a client's write is sent on to other holders; a copy
stops where it arrives. -/
inductive Origin where
  /-- A client sent the batch to the shard it takes for the owner, though not necessarily to
  that shard's primary. -/
  | client (destination : Node)
  /-- A holder sends on what it has committed. -/
  | peer
  deriving DecidableEq, Repr

def Origin.isClient : Origin → Bool
  | client _ => true
  | peer => false

inductive Call where
  | write (origin : Origin) (writes : List Write)
  | read (reads : List Read)
  | remove (origin : Origin) (removals : List Removal)
  | nodes
  | nodeAt (endpoint : Endpoint)
  deriving DecidableEq, Repr

def Call.operation : Call → String
  | write _ _ => "put"
  | read _ => "get"
  | remove _ _ => "remove"
  | nodes => "get_network_nodes"
  | nodeAt _ => "get_node_by_uri"

inductive Answer where
  | written (results : List Written)
  | values (found : List (List Value))
  | removed (flags : List Bool)
  | nodes (nodes : List Node)
  | node (node : Option Node)
  | fault (fault : Fault)
  deriving DecidableEq, Repr

def Answer.kind : Answer → String
  | written _ => "put"
  | values _ => "get"
  | removed _ => "remove"
  | nodes _ => "nodes"
  | node _ => "node"
  | fault _ => "fault"

/-- What a holder is told of: writes or removals that another holder has committed. -/
inductive Message where
  | writes (writes : List Write)
  | removals (removals : List Removal)
  deriving DecidableEq, Repr

namespace Message

def length : Message → Nat
  | writes items => items.length
  | removals items => items.length

def isEmpty (message : Message) : Bool :=
  message.length = 0

end Message

/-- A message on its way to an endpoint. -/
structure Letter where
  target : Endpoint
  message : Message
  deriving DecidableEq, Repr

end ReplicaRing

/-! Physical nodes and the shards they hold. A node is one shard: the machine that owns it
and up to two more that keep copies. Clients read it as the order in which to try holders,
servers as the list of those who need a copy. -/

namespace ReplicaRing

/-- Where one service of a machine is reached. -/
structure Endpoint where
  text : String
  deriving DecidableEq, Repr

/-- The two endpoints of one machine: `sync` answers calls, `async` takes in mail. -/
structure Address where
  sync : Endpoint
  async : Endpoint
  deriving DecidableEq, Repr

def Address.display (address : Address) : String :=
  s!"{address.sync.text} | {address.async.text}"

/-- One shard. The replicas are absent only in rings too small to have them. -/
structure Node where
  name : String
  primary : Address
  secondary : Option Address
  tertiary : Option Address
  deriving DecidableEq, Repr

namespace Node

/-- A shard that nobody else keeps a copy of. -/
def solo (name : String) (primary : Address) : Node :=
  { name, primary, secondary := none, tertiary := none }

/-- The machines with a copy, in the order in which they are tried. -/
def holders (node : Node) : List Address :=
  node.primary :: (node.secondary.toList ++ node.tertiary.toList)

/-- The endpoints of the holders that answer calls. -/
def chain (node : Node) : List Endpoint :=
  node.holders.map (·.sync)

def isPrimary (node : Node) (sync : Endpoint) : Bool :=
  node.primary.sync = sync

def holds (node : Node) (sync : Endpoint) : Bool :=
  node.chain.contains sync

def isReplica (replica : Option Address) (sync : Endpoint) : Bool :=
  replica.any (·.sync = sync)

/-- The replica that a replica shares the shard with. The primary has no such partner, and
where one machine is both replicas it is taken for the secondary. -/
def otherReplica (node : Node) (sync : Endpoint) : Option Address :=
  if isReplica node.secondary sync then node.tertiary
  else if isReplica node.tertiary sync then node.secondary
  else none

def answersAt (node : Node) (endpoint : Endpoint) : Bool :=
  node.primary.sync = endpoint || node.primary.async = endpoint

def display (node : Node) : String :=
  s!"{node.name} [{node.primary.sync.text}]"

end Node

/-- The shard whose owner is reached at an endpoint. Of several the first listed counts. -/
def findNode (nodes : List Node) (endpoint : Endpoint) : Option Node :=
  nodes.find? (·.answersAt endpoint)

end ReplicaRing

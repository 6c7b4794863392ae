import ReplicaRing.Cluster.Network
import ReplicaRing.Routing.Client
import ReplicaRing.Server.Basic

/-! A ring that runs inside one process: a server for each shard of a topology and the
network between them. All stores read one clock, whose reading is handed to every operation.
One reading serves a whole call or delivery: it stands still from the first request to the
last, as it need not for a store that reads the clock anew for each of them. What a batch
comes to while the clock moves on is dealt with in `Store.batch_as_single_calls`. -/

namespace ReplicaRing

structure Cluster where
  network : Network
  /-- The servers by seat, in the order of the topology. -/
  servers : List Server

namespace Cluster

/-- How a cluster is set up: the identities of the stores, and which nodes can be reached. -/
structure Setup where
  identity : Node → StoreId
  registers : Node → Bool

def Setup.standard : Setup where
  identity node := .ofName node.name
  registers _ := true

/-- A node's server, started at the node's own endpoint over a store that is empty. -/
def startServer (topology : Topology) (setup : Setup) (node : Node) : Except Error Server :=
  Server.start node.primary.sync topology (.fresh (setup.identity node))

/-- Starts a server for each of the nodes that are left, and registers it if it is to be. -/
def startAll (topology : Topology) (setup : Setup) :
    List Node → Cluster → Except Error Cluster
  | [], cluster => .ok cluster
  | node :: rest, cluster => do
    let server ← startServer topology setup node
    let network :=
      if setup.registers node then cluster.network.register node.primary cluster.servers.length
      else cluster.network
    startAll topology setup rest { network, servers := cluster.servers ++ [server] }

/-- The servers of a topology, in its order, and the network before any mail. -/
def start (topology : Topology) (setup : Setup) : Except Error Cluster :=
  startAll topology setup topology.nodes { network := .empty, servers := [] }

/-- The cluster after a server has done something: its new state, and its mail handed over. -/
def settle {α : Type} (cluster : Cluster) (seat : Nat) (outcome : Outcome α) : Cluster where
  network := Network.post.handAll outcome.mail cluster.network
  servers := cluster.servers.set seat outcome.server

def call (now : UInt64) : Transport Cluster := fun endpoint call cluster =>
  match cluster.network.reach endpoint with
  | .error error => (.error error, cluster)
  | .ok seat =>
    match cluster.servers[seat]? with
    | none => (.error (.unreachable endpoint), cluster)
    | some server =>
      let outcome := server.answer .never now call
      (.ok outcome.answer, cluster.settle seat outcome)

def post : Post Cluster where
  hand letter cluster :=
    let (taken, network) := Network.post.hand letter cluster.network
    (taken, { cluster with network })

/-- Hands one letter to whoever takes in mail at its target. -/
def apply (now : UInt64) (letter : Letter) (cluster : Cluster) : Option Cluster := do
  let seat ← cluster.network.addressee letter.target
  let server ← cluster.servers[seat]?
  return cluster.settle seat (server.receive .never now letter.message)

/-- Takes up so many letters, the oldest first. One for a machine that is down goes to the
end of the mailbox, any other is applied. The letters that were applied come back. -/
def deliverWithin (now : UInt64) : Nat → Cluster → List Letter × Cluster
  | 0, cluster => ([], cluster)
  | count + 1, cluster =>
    match cluster.network.mailbox with
    | [] => ([], cluster)
    | letter :: rest =>
      if cluster.network.down.contains letter.target then
        deliverWithin now count
          { cluster with network := { cluster.network with mailbox := rest ++ [letter] } }
      else
        let opened := { cluster with network := { cluster.network with mailbox := rest } }
        match apply now letter opened with
        | none => deliverWithin now count opened
        | some cluster =>
          let (applied, cluster) := deliverWithin now count cluster
          (letter :: applied, cluster)

/-- Delivers the mail that is waiting now. What is sent meanwhile is left for the next time. -/
def deliver (cluster : Cluster) (now : UInt64) : List Letter × Cluster :=
  deliverWithin now cluster.network.pending cluster

def mapNetwork (cluster : Cluster) (change : Network → Network) : Cluster :=
  { cluster with network := change cluster.network }

def inspect (now : UInt64) (server : Server) (keys : List String) :
    Except Error (List (List Value)) :=
  (server.read .never now (keys.map fun key => { key, version := none })).answer

end Cluster
end ReplicaRing

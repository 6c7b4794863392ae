import ReplicaRing.Routing.Failover
import ReplicaRing.Routing.Portion
import ReplicaRing.Topology.Build

/-! The client's side of the ring. A batch is split by owning shard, each portion goes to its
shard's holders, and the answers come back in the order of the batch. Portions run one after
another; when one fails, those before it stay applied. -/

namespace ReplicaRing

structure Client where
  topology : Topology
  partitioner : Partitioner

/-- A kind of batch: how its items are keyed, sent and answered. -/
structure Operation (ρ α : Type) where
  name : String
  key : ρ → String
  call : Node → List ρ → Call
  content : Answer → Option (List α)

namespace Operation

def write : Operation Write Written where
  name := "put"
  key := Write.key
  call node writes := .write (.client node) writes
  content
    | .written results => some results
    | _ => none

def read : Operation Read (List Value) where
  name := "get"
  key := Read.key
  call _ reads := .read reads
  content
    | .values found => some found
    | _ => none

def remove : Operation Removal Bool where
  name := "remove"
  key := Removal.key
  call node removals := .remove (.client node) removals
  content
    | .removed flags => some flags
    | _ => none

@[simp] theorem write_key (item : Write) : write.key item = item.key := rfl

@[simp] theorem read_key (item : Read) : read.key item = item.key := rfl

@[simp] theorem remove_key (item : Removal) : remove.key item = item.key := rfl

@[simp] theorem write_call (node : Node) (items : List Write) :
    write.call node items = .write (.client node) items := rfl

@[simp] theorem read_call (node : Node) (items : List Read) : read.call node items = .read items := rfl

@[simp] theorem remove_call (node : Node) (items : List Removal) :
    remove.call node items = .remove (.client node) items := rfl

@[simp] theorem write_content {answer : Answer} {results : List Written} :
    write.content answer = some results ↔ answer = .written results := by
  cases answer <;> simp [write]

@[simp] theorem read_content {answer : Answer} {found : List (List Value)} :
    read.content answer = some found ↔ answer = .values found := by
  cases answer <;> simp [read]

@[simp] theorem remove_content {answer : Answer} {flags : List Bool} :
    remove.content answer = some flags ↔ answer = .removed flags := by
  cases answer <;> simp [remove]

end Operation

namespace Client

variable {σ ρ α : Type}

def emptyRing : Error :=
  .configuration "cannot route over an empty topology"

def ofNodes (nodes : List Node) (partitioner : Partitioner) : Except Error Client :=
  match Topology.ofNodes? nodes with
  | some topology => .ok { topology, partitioner }
  | none => .error emptyRing

def listed : Answer → Option (List Node)
  | .nodes nodes => some nodes
  | _ => none

/-- A client over the ring that a seed's holders know of. -/
def connect (transport : Transport σ) (seed : Node) (partitioner : Partitioner) (state : σ) :
    Except Error Client × σ :=
  match Failover.run (Failover.expect transport "get_network_nodes" listed .nodes)
      seed state with
  | (.error error, state) => (.error error, state)
  | (.ok nodes, state) => (ofNodes nodes partitioner, state)

def owner (client : Client) (key : String) : Node :=
  client.topology.owner client.partitioner key

def portions (client : Client) (keys : List String) : List (Portion client.topology.count) :=
  client.partitioner.portions client.topology.count client.topology.positive keys

/-- The items of a portion in the order of the batch. -/
def members (items : List ρ) (positions : List Nat) : List ρ :=
  positions.filterMap (items[·]?)

/-- Puts a portion's answers where its items stood. -/
def scatter : List (Option α) → List Nat → List α → List (Option α)
  | slots, position :: positions, answer :: answers =>
    scatter (slots.set position (some answer)) positions answers
  | slots, _, _ => slots

/-- The answers in all slots, if none is left without one. -/
def filled : List (Option α) → Option (List α)
  | [] => some []
  | none :: _ => none
  | some answer :: rest => (filled rest).map (answer :: ·)

/-- What is said of a shard that answers too much or too little. -/
def miscounted (node : Node) (answers items : Nat) : Error :=
  .protocol s!"shard '{node.name}' answered {answers} results for {items} requests"

def unfilled : Error :=
  .protocol "batch result left unfilled"

def runPortion (client : Client) (transport : Transport σ) (operation : Operation ρ α)
    (items : List ρ) (portion : Portion client.topology.count) (state : σ) :
    Except Error (List α) × σ :=
  let node := client.topology.nodes.get portion.shard
  let call := operation.call node (members items portion.positions)
  match Failover.run (Failover.expect transport operation.name operation.content call)
      node state with
  | (.error error, state) => (.error error, state)
  | (.ok answers, state) =>
    if answers.length = portion.positions.length then (.ok answers, state)
    else (.error (miscounted node answers.length portion.positions.length), state)

/-- Sends some portions in order, up to the first that fails. -/
def runPortions (client : Client) (transport : Transport σ) (operation : Operation ρ α)
    (items : List ρ) :
    List (Portion client.topology.count) → List (Option α) → σ →
      Except Error (List (Option α)) × σ
  | [], slots, state => (.ok slots, state)
  | portion :: rest, slots, state =>
    match client.runPortion transport operation items portion state with
    | (.error error, state) => (.error error, state)
    | (.ok answers, state) =>
      runPortions client transport operation items rest
        (scatter slots portion.positions answers) state

def run (client : Client) (transport : Transport σ) (operation : Operation ρ α)
    (items : List ρ) (state : σ) : Except Error (List α) × σ :=
  match client.runPortions transport operation items
      (client.portions (items.map operation.key)) (List.replicate items.length none) state with
  | (.error error, state) => (.error error, state)
  | (.ok slots, state) =>
    match filled slots with
    | some answers => (.ok answers, state)
    | none => (.error unfilled, state)

def write (client : Client) (transport : Transport σ) (writes : List Write) (state : σ) :
    Except Error (List Written) × σ :=
  client.run transport .write writes state

def read (client : Client) (transport : Transport σ) (reads : List Read) (state : σ) :
    Except Error (List (List Value)) × σ :=
  client.run transport .read reads state

def remove (client : Client) (transport : Transport σ) (removals : List Removal) (state : σ) :
    Except Error (List Bool) × σ :=
  client.run transport .remove removals state

end Client
end ReplicaRing

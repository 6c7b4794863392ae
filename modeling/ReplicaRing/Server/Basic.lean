import ReplicaRing.Server.Dispatch
import ReplicaRing.Store.Outage
import ReplicaRing.Topology.Build

/-! A node at work. Writes are checked, committed to the node's own store and only then sent
on to the other holders, under the versions they were given here. Sending is of no concern
to the caller. Reads answer from what this node holds, and ask nobody else. A request is seen
to at one clock reading, which serves for all items of its batch; a clock that moves on from
one item to the next is the concern of the store, in `Store.batch_as_single_calls`. -/

namespace ReplicaRing

/-- A node's name, its own address, the ring it knows of, and its store. -/
structure Server where
  name : String
  here : Address
  topology : Topology
  store : Store

/-- What a request to a server brings about: an answer, the server afterwards, and letters
for other holders. -/
structure Outcome (α : Type) where
  answer : α
  server : Server
  mail : List Letter

namespace Server

def start (endpoint : Endpoint) (topology : Topology) (store : Store) : Except Error Server :=
  match topology.nodeAt endpoint with
  | none => .error (.configuration s!"{endpoint.text} is not a primary in the topology")
  | some node => .ok { name := node.name, here := node.primary, topology, store }

/-- Whether a write may be taken from its origin. Versions are for holders to assign. -/
def checkWrite (origin : Origin) (write : Write) : Except Refusal Unit := do
  checkKey write.key
  let _ ← checkParents write.key write.parents
  if origin.isClient && write.assigned.isSome then .error (.versionAssigned write.key)

def checkRemoval (removal : Removal) : Except Refusal Unit := do
  checkKey removal.key
  let _ ← checkParents removal.key removal.parents

def checkAll {ρ : Type} (check : ρ → Except Refusal Unit) : List ρ → Except Refusal Unit
  | [] => .ok ()
  | item :: rest => do
    check item
    checkAll check rest

/-- The writes that were accepted, as they are sent on: under the versions they got. -/
def copies : List Write → List Written → List Write
  | write :: writes, result :: results =>
    match result.version with
    | some version => { write with assigned := some version } :: copies writes results
    | none => copies writes results
  | _, _ => []

/-- One letter to each target, unless there is nothing to tell. -/
def letters (dispatch : Dispatch) (message : Message) : List Letter :=
  if message.isEmpty then [] else dispatch.targets.map fun target => { target, message }

/-- Ends a request that was refused before it reached the store. -/
def refuse {α : Type} (server : Server) (refusal : Refusal) : Outcome (Except Error α) where
  answer := .error refusal.toError
  server := server
  mail := []

/-- Commits a batch, all of it or nothing, and sends what there is to tell about it. -/
def commit {ρ α : Type} (server : Server) (outage : Outage) (items : List ρ)
    (step : Nat → ρ → Batch → Except StoreFault α × Batch)
    (mail : List α → List Letter) : Outcome (Except Error (List α)) :=
  match server.store.transact outage (Batch.each step 0 items) with
  | (.error fault, store) =>
    { answer := .error fault.toError, server := { server with store }, mail := [] }
  | (.ok answers, store) =>
    { answer := .ok answers, server := { server with store }, mail := mail answers }

def write (server : Server) (outage : Outage) (now : UInt64) (origin : Origin)
    (writes : List Write) : Outcome (Except Error (List Written)) :=
  match checkAll (checkWrite origin) writes with
  | .error refusal => server.refuse refusal
  | .ok () =>
    server.commit outage writes
      (fun index write => Outage.guard (outage.write index) (·.write write now))
      fun results => letters (.of origin server.here) (.writes (copies writes results))

/-- Removes versions. The removal is sent on as it came. -/
def remove (server : Server) (outage : Outage) (origin : Origin) (removals : List Removal) :
    Outcome (Except Error (List Bool)) :=
  match checkAll checkRemoval removals with
  | .error refusal => server.refuse refusal
  | .ok () =>
    server.commit outage removals
      (fun index removal => Outage.guard (outage.remove index) (·.remove removal))
      fun _ => letters (.of origin server.here) (.removals removals)

def read (server : Server) (outage : Outage) (now : UInt64) (reads : List Read) :
    Outcome (Except Error (List (List Value))) :=
  let step index read :=
    Outage.guard (outage.read index) fun batch => (.ok (batch.read read now), batch)
  let (answer, store) := server.store.consult outage (Batch.each step 0 reads)
  { answer := answer.mapError StoreFault.toError, server := { server with store }, mail := [] }

/-- An answer in the form in which it is sent back. -/
def respond {α : Type} (outcome : Outcome (Except Error α)) (make : α → Answer) :
    Outcome Answer where
  answer :=
    match outcome.answer with
    | .ok answer => make answer
    | .error error => .fault error.toFault
  server := outcome.server
  mail := outcome.mail

def answer (server : Server) (outage : Outage) (now : UInt64) : Call → Outcome Answer
  | .write origin writes => respond (server.write outage now origin writes) .written
  | .read reads => respond (server.read outage now reads) .values
  | .remove origin removals => respond (server.remove outage origin removals) .removed
  | .nodes => { answer := .nodes server.topology.nodes, server, mail := [] }
  | .nodeAt endpoint => { answer := .node (server.topology.nodeAt endpoint), server, mail := [] }

/-- An outcome whose answer nobody waits for. -/
def unheard {α : Type} (outcome : Outcome α) : Outcome Unit where
  answer := ()
  server := outcome.server
  mail := outcome.mail

/-- Takes in mail. What cannot be applied is let go. -/
def receive (server : Server) (outage : Outage) (now : UInt64) : Message → Outcome Unit
  | .writes writes => unheard (server.write outage now .peer writes)
  | .removals removals => unheard (server.remove outage .peer removals)

end Server
end ReplicaRing

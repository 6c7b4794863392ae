import ReplicaRing.Call

/-! Who else needs a copy of a write that a node has committed. A copy is never sent on, so
mail cannot go round in circles. A client's write goes to every other holder of the shard it
was meant for: from the primary to the replicas, and from a replica that stood in for the
primary to the primary and the other replica. -/

namespace ReplicaRing

/-- The part a node played in a write. -/
inductive Part where
  /-- It took in a copy. -/
  | replica
  /-- It owns the shard. -/
  | primary
  /-- It stood in for the shard's owner. -/
  | failover
  deriving DecidableEq, Repr

/-- Where the copies of a write go, in the order in which they are sent. -/
structure Dispatch where
  part : Part
  targets : List Endpoint
  deriving DecidableEq, Repr

namespace Dispatch

def isEmpty (dispatch : Dispatch) : Bool :=
  dispatch.targets.isEmpty

/-- The mailboxes of some holders, each once and never the sender's own. A small ring can
name one machine twice. -/
def mailboxes (own : Endpoint) : List Endpoint → List Address → List Endpoint
  | found, [] => found
  | found, address :: rest =>
    if address.async ≠ own && !found.contains address.async then
      mailboxes own (found ++ [address.async]) rest
    else mailboxes own found rest

/-- The holders that a write may have to be copied to, by where it was committed. -/
def candidates (destination : Node) (here : Address) : List Address :=
  if destination.isPrimary here.sync then
    destination.secondary.toList ++ destination.tertiary.toList
  else destination.primary :: (destination.otherReplica here.sync).toList

/-- What the node at `here` sends out once it has committed a write. -/
def of (origin : Origin) (here : Address) : Dispatch :=
  match origin with
  | .peer => { part := .replica, targets := [] }
  | .client destination =>
    { part := if destination.isPrimary here.sync then .primary else .failover
      targets := mailboxes here.async [] (candidates destination here) }

end Dispatch
end ReplicaRing

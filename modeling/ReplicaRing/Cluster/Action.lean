import ReplicaRing.Cluster.Basic

/-! The steps in which a cluster moves: batches of clients, delivery of mail, and machines
that fail and come back. Each step is taken at one clock reading, which serves for all calls
of a batch and all letters of a delivery. -/

namespace ReplicaRing

inductive Action where
  | write (writes : List Write)
  | read (reads : List Read)
  | remove (removals : List Removal)
  | deliver
  | down (address : Address)
  | up (address : Address)
  | hang (address : Address)
  deriving DecidableEq, Repr

inductive Reply where
  | written (results : Except Error (List Written))
  | values (found : Except Error (List (List Value)))
  | removed (flags : Except Error (List Bool))
  | delivered (letters : List Letter)
  | done

namespace Cluster

/-- One step; batches are those of the given client. -/
def step (client : Client) (now : UInt64) (action : Action) (cluster : Cluster) :
    Reply × Cluster :=
  match action with
  | .write writes =>
    let (results, cluster) := client.write (call now) writes cluster
    (.written results, cluster)
  | .read reads =>
    let (found, cluster) := client.read (call now) reads cluster
    (.values found, cluster)
  | .remove removals =>
    let (flags, cluster) := client.remove (call now) removals cluster
    (.removed flags, cluster)
  | .deliver =>
    let (letters, cluster) := cluster.deliver now
    (.delivered letters, cluster)
  | .down address => (.done, cluster.mapNetwork (·.takeDown address))
  | .up address => (.done, cluster.mapNetwork (·.bringUp address))
  | .hang address => (.done, cluster.mapNetwork (·.hang address))

end Cluster
end ReplicaRing

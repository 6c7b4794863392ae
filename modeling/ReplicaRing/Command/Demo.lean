import ReplicaRing.Cluster.Basic

/-! A trial of a topology: the whole ring runs inside one process, one key is written
through a client, and mail is delivered until every holder of the key has the bytes. -/

namespace ReplicaRing.Demo

/-- Why a trial fails. -/
inductive Failure where
  | error (cause : Error)
  | oddAnswer (endpoint : Endpoint)
  | ownerLacks (owner key : String)
  | unconverged (endpoint : Endpoint) (key : String)
  deriving DecidableEq, Repr

def Failure.message : Failure → String
  | error cause => cause.message
  | oddAnswer endpoint => s!"unexpected answer from {endpoint.text}"
  | ownerLacks owner key => s!"owner {owner} does not hold {key} right after the write"
  | unconverged endpoint key => s!"{endpoint.text} did not converge on {key}"

/-- How many times mail is delivered in the hope that a holder catches up. -/
def patience : Nat := 10

def readAt (now : UInt64) (endpoint : Endpoint) (key : String) (cluster : Cluster) :
    Except Failure (List Value) × Cluster :=
  match Cluster.call now endpoint (.read [{ key, version := none }]) cluster with
  | (.error error, cluster) => (.error (.error (.network error)), cluster)
  | (.ok (.values [values]), cluster) => (.ok values, cluster)
  | (.ok _, cluster) => (.error (.oddAnswer endpoint), cluster)

def holdsData (values : List Value) (data : Bytes) : Bool :=
  values.any (·.data = data)

/-- Delivers mail and looks again, so many times, until a holder has the bytes. -/
def converge (now : UInt64) (endpoint : Endpoint) (key : String) (data : Bytes) :
    Nat → Cluster → Except Failure Cluster
  | 0, _ => .error (.unconverged endpoint key)
  | attempts + 1, cluster =>
    let (_, cluster) := cluster.deliver now
    match readAt now endpoint key cluster with
    | (.error failure, _) => .error failure
    | (.ok values, cluster) =>
      if holdsData values data then .ok cluster
      else converge now endpoint key data attempts cluster

def convergeAll (now : UInt64) (key : String) (data : Bytes) (attempts : Nat) :
    List Address → Cluster → Except Failure Cluster
  | [], cluster => .ok cluster
  | holder :: rest, cluster => do
    let cluster ← converge now holder.sync key data attempts cluster
    convergeAll now key data attempts rest cluster

/-- An error of the ring itself ends the trial as it stands. -/
def lift {α : Type} : Except Error α → Except Failure α :=
  Except.mapError Failure.error

/-- Runs the trial with so many deliveries to a holder, and reports how many holders got the
bytes. -/
def runWithin (attempts : Nat) (topology : Topology) (key : String) (data : Bytes)
    (now : UInt64) : Except Failure String := do
  let cluster ← lift (Cluster.start topology .standard)
  let (client, cluster) := Client.connect (Cluster.call now) topology.first .xxh3 cluster
  let client ← lift client
  let owner := client.owner key
  let write : Write :=
    { key, data, parents := some [], expiresAt := none, optimistic := false, assigned := none }
  let (written, cluster) := client.write (Cluster.call now) [write] cluster
  let _ ← lift written
  let (immediate, cluster) := readAt now owner.primary.sync key cluster
  let immediate ← immediate
  if !holdsData immediate data then .error (.ownerLacks owner.name key)
  let _ ← convergeAll now key data attempts owner.holders cluster
  return s!"{key} replicated to {owner.holders.length} holder(s)"

def run (topology : Topology) (key : String) (data : Bytes) (now : UInt64) :
    Except Failure String :=
  runWithin patience topology key data now

end ReplicaRing.Demo

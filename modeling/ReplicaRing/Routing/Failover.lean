import ReplicaRing.Call

/-! Trying the holders of a shard in order. There is no waiting and no memory of earlier
failures: each attempt begins again at the primary, and any failure, of the network or of the
node, moves on to the next holder. -/

namespace ReplicaRing

/-- How a call to an endpoint is answered, in whatever state the network is in. -/
abbrev Transport (σ : Type) := Endpoint → Call → σ → Except NetworkError Answer × σ

namespace Failover

variable {σ α : Type}

/-- Tries some endpoints until one attempt succeeds. If none does, the last failure is
returned, or the one given if there was nobody to try. -/
def attempt (action : Endpoint → σ → Except Error α × σ) :
    Error → List Endpoint → σ → Except Error α × σ
  | last, [], state => (.error last, state)
  | _, endpoint :: rest, state =>
    match action endpoint state with
    | (.ok answer, state) => (.ok answer, state)
    | (.error error, state) => attempt action error rest state

def nobody (node : Node) : Error :=
  .configuration s!"shard '{node.name}' has no endpoints"

/-- Tries the holders of a shard. -/
def run (action : Endpoint → σ → Except Error α × σ) (node : Node) (state : σ) :
    Except Error α × σ :=
  attempt action (nobody node) node.chain state

def ask (transport : Transport σ) (call : Call) (endpoint : Endpoint) (state : σ) :
    Except Error Answer × σ :=
  match transport endpoint call state with
  | (.error error, state) => (.error (.network error), state)
  | (.ok (.fault fault), state) => (.error (.ofFault fault), state)
  | (.ok answer, state) => (.ok answer, state)

/-- What is said of an answer of the wrong kind. -/
def unexpected (operation : String) (answer : Answer) : Error :=
  .protocol s!"{operation} answered with a {answer.kind} response"

def expect (transport : Transport σ) (operation : String) (content : Answer → Option α)
    (call : Call) (endpoint : Endpoint) (state : σ) : Except Error α × σ :=
  match ask transport call endpoint state with
  | (.error error, state) => (.error error, state)
  | (.ok answer, state) =>
    match content answer with
    | some found => (.ok found, state)
    | none => (.error (unexpected operation answer), state)

end Failover
end ReplicaRing

import ReplicaRing.Node

/-! What can go wrong between a client and the shards, and the form in which a server sends
its failures back. The wire form knows the four kinds that a server itself can raise; a
network failure travels as a protocol fault that keeps its cause in the text. -/

namespace ReplicaRing

/-- Failures to reach an endpoint or to make sense of the bytes it sent. -/
inductive NetworkError where
  | unreachable (endpoint : Endpoint)
  | timeout (endpoint : Endpoint)
  | garbled (cause : String)
  deriving DecidableEq, Repr

def NetworkError.message : NetworkError → String
  | unreachable endpoint => s!"endpoint {endpoint.text} is unreachable"
  | timeout endpoint => s!"call to {endpoint.text} timed out"
  | garbled cause => s!"codec failure: {cause}"

/-- Which of its own failures a server reports. -/
inductive Fault.Kind where
  | configuration
  | invalidArgument
  | storage
  | protocol
  deriving DecidableEq, Repr

/-- A server's failure as the caller receives it. -/
structure Fault where
  kind : Fault.Kind
  message : String
  deriving DecidableEq, Repr

inductive Error where
  | configuration (cause : String)
  | invalidArgument (cause : String)
  | network (cause : NetworkError)
  | storage (cause : String)
  | protocol (cause : String)
  deriving DecidableEq, Repr

namespace Error

def message : Error → String
  | configuration cause => s!"configuration error: {cause}"
  | invalidArgument cause => s!"invalid argument: {cause}"
  | network cause => cause.message
  | storage cause => s!"storage error: {cause}"
  | protocol cause => s!"protocol error: {cause}"

def isNetwork : Error → Bool
  | network _ => true
  | _ => false

def toFault : Error → Fault
  | configuration cause => ⟨.configuration, cause⟩
  | invalidArgument cause => ⟨.invalidArgument, cause⟩
  | storage cause => ⟨.storage, cause⟩
  | protocol cause => ⟨.protocol, cause⟩
  | network cause => ⟨.protocol, s!"server-side transport failure: {cause.message}"⟩

def ofFault (fault : Fault) : Error :=
  match fault.kind with
  | .configuration => configuration fault.message
  | .invalidArgument => invalidArgument fault.message
  | .storage => storage fault.message
  | .protocol => protocol fault.message

/-- A fault tells all there is to tell of a server's own error. -/
theorem ofFault_toFault (error : Error) (own : error.isNetwork = false) :
    ofFault error.toFault = error := by
  cases error <;> simp_all [isNetwork, toFault, ofFault]

end Error
end ReplicaRing

import ReplicaRing.Mail

/-! A network inside one process. Calls are answered at once; mail waits until it is
delivered, and mail for a machine that is down waits until the machine is back. -/

namespace ReplicaRing

/-- A service that answers at both endpoints of an address, by its seat. -/
structure Registration where
  address : Address
  seat : Nat
  deriving DecidableEq, Repr

structure Network where
  /-- Who answers where. The latest entry for an endpoint counts and stands first. -/
  roster : List Registration
  down : List Endpoint
  hung : List Endpoint
  /-- Undelivered mail, the oldest first. -/
  mailbox : List Letter
  deriving DecidableEq, Repr

namespace Network

def empty : Network where
  roster := []
  down := []
  hung := []
  mailbox := []

def register (network : Network) (address : Address) (seat : Nat) : Network :=
  { network with roster := { address, seat } :: network.roster }

def callee (network : Network) (endpoint : Endpoint) : Option Nat :=
  (network.roster.find? (·.address.sync = endpoint)).map (·.seat)

def addressee (network : Network) (endpoint : Endpoint) : Option Nat :=
  (network.roster.find? (·.address.async = endpoint)).map (·.seat)

def takeDown (network : Network) (address : Address) : Network :=
  { network with down := address.sync :: address.async :: network.down }

/-- Brings a machine back, also one that hung. -/
def bringUp (network : Network) (address : Address) : Network :=
  { network with
    down := network.down.filter fun endpoint =>
      endpoint ≠ address.sync && endpoint ≠ address.async
    hung := network.hung.filter (· ≠ address.sync) }

def hang (network : Network) (address : Address) : Network :=
  { network with hung := address.sync :: network.hung }

def pending (network : Network) : Nat :=
  network.mailbox.length

/-- Who answers a call, or why nobody does. A machine that is down is out of reach, a hung
one lets the caller wait until the call is given up. -/
def reach (network : Network) (endpoint : Endpoint) : Except NetworkError Nat :=
  if network.down.contains endpoint then .error (.unreachable endpoint)
  else match network.callee endpoint with
    | none => .error (.unreachable endpoint)
    | some seat =>
      if network.hung.contains endpoint then .error (.timeout endpoint) else .ok seat

/-- Puts a letter behind the others, if somebody takes in mail at its target. -/
def post : Post Network where
  hand letter network :=
    if (network.addressee letter.target).isSome then
      (.ok (), { network with mailbox := network.mailbox ++ [letter] })
    else (.error (.unreachable letter.target), network)

end Network
end ReplicaRing

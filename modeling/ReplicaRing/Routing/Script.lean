import ReplicaRing.Routing.Failover

/-! Transports that follow a script. Each endpoint uses up a list of outcomes and is out of
reach once the list is empty, and every call is kept, so that what a client asked for can be
read off afterwards. -/

namespace ReplicaRing

structure Recorded where
  target : Endpoint
  call : Call
  deriving DecidableEq, Repr

abbrev Outcomes := List (Endpoint × List (Except NetworkError Answer))

/-- What each endpoint will answer, and the calls made so far. -/
structure Script where
  outcomes : Outcomes
  calls : List Recorded

namespace Script

def next (endpoint : Endpoint) : Outcomes → Except NetworkError Answer × Outcomes
  | [] => (.error (.unreachable endpoint), [])
  | (owner, left) :: rest =>
    if owner = endpoint then
      match left with
      | [] => (.error (.unreachable endpoint), (owner, left) :: rest)
      | outcome :: left => (outcome, (owner, left) :: rest)
    else
      let (outcome, rest) := next endpoint rest
      (outcome, (owner, left) :: rest)

def transport : Transport Script := fun target call script =>
  let (outcome, outcomes) := next target script.outcomes
  (outcome, { outcomes, calls := script.calls ++ [{ target, call }] })

end Script

/-- Attempts that follow a script: the outcomes still to come and the endpoints tried. -/
structure Rehearsal (α : Type) where
  outcomes : List (Except Error α)
  tried : List Endpoint

namespace Rehearsal

/-- What an attempt fails with when the script has ended. -/
def ended : Error :=
  .protocol "script ended"

def action {α : Type} (endpoint : Endpoint) (rehearsal : Rehearsal α) :
    Except Error α × Rehearsal α :=
  let tried := rehearsal.tried ++ [endpoint]
  match rehearsal.outcomes with
  | [] => (.error ended, { outcomes := [], tried })
  | outcome :: outcomes => (outcome, { outcomes, tried })

end Rehearsal
end ReplicaRing

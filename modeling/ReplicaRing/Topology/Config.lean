import ReplicaRing.Node

/-! What an operator writes down about a ring: the machines, and by name where each one's
copies are kept. -/

namespace ReplicaRing

/-- One machine and the names of the machines with its second and third copy. -/
structure Descriptor where
  name : String
  address : Address
  secondary : Option String
  tertiary : Option String
  deriving DecidableEq, Repr

structure Config where
  nodes : List Descriptor
  deriving DecidableEq, Repr

/-- The usual ring: each machine's copies are on the next two, around the end, as far as
there are others to keep them. -/
def Config.ring (machines : List (String × Address)) : Config where
  nodes :=
    let count := machines.length
    let nameAfter (least steps index : Nat) : Option String :=
      if least ≤ count then machines[(index + steps) % count]?.map (·.1) else none
    machines.mapIdx fun index machine =>
      { name := machine.1
        address := machine.2
        secondary := nameAfter 2 1 index
        tertiary := nameAfter 3 2 index }

end ReplicaRing

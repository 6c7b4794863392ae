import ReplicaRing.Partition

/-! The split of a batch of keys into the portions that go to each shard. Portions stand in
the order in which their shards first appear, and a portion keeps the order of the batch. -/

namespace ReplicaRing

/-- The part of a batch that one shard owns, by positions in the batch. -/
structure Portion (count : Nat) where
  shard : Fin count
  positions : List Nat
  deriving DecidableEq, Repr

namespace Portion

variable {count : Nat}

/-- Adds a position to its shard's portion, which is opened behind the others if need be. -/
def place (shard : Fin count) (position : Nat) : List (Portion count) → List (Portion count)
  | [] => [{ shard, positions := [position] }]
  | portion :: rest =>
    if portion.shard = shard then
      { portion with positions := portion.positions ++ [position] } :: rest
    else portion :: place shard position rest

/-- Places the shards of the keys from `position` on. -/
def placeAll : List (Portion count) → Nat → List (Fin count) → List (Portion count)
  | portions, _, [] => portions
  | portions, position, shard :: rest =>
    placeAll (place shard position portions) (position + 1) rest

end Portion

namespace Partitioner

def portions (partitioner : Partitioner) (count : Nat) (positive : 0 < count)
    (keys : List String) : List (Portion count) :=
  Portion.placeAll [] 0
    (keys.map fun key => partitioner.shard (Utf8.ofString key) count positive)

/-- The same over any number of shards. Without shards only the empty batch can be split. -/
def portions? (partitioner : Partitioner) (count : Nat) (keys : List String) :
    Option (List (Portion count)) :=
  if positive : 0 < count then some (partitioner.portions count positive keys)
  else if keys.isEmpty then some []
  else none

end Partitioner
end ReplicaRing

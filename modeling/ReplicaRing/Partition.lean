import ReplicaRing.Hash.SipHash
import ReplicaRing.Hash.Xxh3.Digest64
import ReplicaRing.Text.Utf8

/-! Which shard owns a key. A partitioner is a fixed function of the key's bytes, so that all
clients and servers agree. -/

namespace ReplicaRing

/-- A versioned hash of keys. -/
structure Partitioner where
  name : String
  hash : Bytes → UInt64

namespace Partitioner

def xxh3 : Partitioner where
  name := "xxh3-64/v1"
  hash := Hash.Xxh3.Digest64.digest

def sip13 : Partitioner where
  name := "sip13-64/v1"
  hash := Hash.SipHash.digest

/-- What a partitioner answers when it is asked to spread keys over no shards. -/
def noShards : String := "shard count must be positive"

/-- The shard of some key bytes among a positive number of shards. -/
def shard (partitioner : Partitioner) (key : Bytes) (count : Nat) (positive : 0 < count) :
    Fin count :=
  ⟨(partitioner.hash key).toNat % count, Nat.mod_lt _ positive⟩

def shard? (partitioner : Partitioner) (key : Bytes) (count : Nat) : Option (Fin count) :=
  if positive : 0 < count then some (partitioner.shard key count positive) else none

end Partitioner
end ReplicaRing

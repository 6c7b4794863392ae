import ReplicaRing.Error
import ReplicaRing.Hash.Blake3
import ReplicaRing.Version

/-! Writes, reads and removals of single keys, and the values that a store keeps. A write
names the versions it supersedes; the store compares versions for equality and nothing else,
so what to do about siblings is left to the writer. -/

namespace ReplicaRing

structure Write where
  key : String
  data : Bytes
  /-- The versions this write supersedes. Absent parents are refused; none at all means that
  the writer knows of no earlier version. -/
  parents : Option (List Version)
  /-- The first millisecond at which the value is no longer returned. -/
  expiresAt : Option UInt64
  /-- Rather refuse the write than let it become a sibling. -/
  optimistic : Bool
  /-- The version a holder gave this write, on the copies it sends on. -/
  assigned : Option Version
  deriving DecidableEq, Repr

/-- A read of one key, of all its versions or of one. -/
structure Read where
  key : String
  version : Option Version
  deriving DecidableEq, Repr

/-- A removal of the named versions of one key. -/
structure Removal where
  key : String
  parents : Option (List Version)
  deriving DecidableEq, Repr

/-- What became of a write. Only a refused optimistic write has no version. -/
structure Written where
  version : Option Version
  conflict : Bool
  deriving DecidableEq, Repr

structure Value where
  key : String
  version : Version
  data : Bytes
  parents : List Version
  /-- When this holder stored the value, in milliseconds. -/
  timestamp : UInt64
  expiresAt : Option UInt64
  hash : Hash.Blake3.Digest
  deriving DecidableEq, Repr

/-- A value is gone from the very millisecond it expires at. -/
def Value.isExpired (value : Value) (now : UInt64) : Bool :=
  value.expiresAt.any (· ≤ now)

/-- Keys that begin with this are the ring's own. -/
def reservedKeys : String := "__ringkv:"

/-- Why a write is turned away before it reaches a store. -/
inductive Refusal where
  | reservedKey (key : String)
  | parentsMissing (key : String)
  | versionAssigned (key : String)
  deriving DecidableEq, Repr

namespace Refusal

def message : Refusal → String
  | reservedKey key => s!"key '{key}' uses the reserved prefix '{reservedKeys}'"
  | parentsMissing key => s!"parent versions missing for key '{key}'"
  | versionAssigned key => s!"key '{key}': replication version is assigned by the shard's holders"

def toError (refusal : Refusal) : Error :=
  .invalidArgument refusal.message

end Refusal

def isReserved (key : String) : Bool :=
  reservedKeys.toList.isPrefixOf key.toList

def checkKey (key : String) : Except Refusal Unit :=
  if isReserved key then .error (.reservedKey key) else .ok ()

def checkParents (key : String) (parents : Option (List Version)) :
    Except Refusal (List Version) :=
  match parents with
  | none => .error (.parentsMissing key)
  | some parents => .ok parents

end ReplicaRing

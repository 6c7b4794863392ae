import Std.Data.ExtTreeMap
import ReplicaRing.Store.Entry

/-! A node's store and its batches. A batch works on copies of the entries it touches, so
that dropping it leaves the table as it was; only the running number of minted versions
moves on in either case. -/

namespace ReplicaRing

/-- Everything a store knows, by key. Keys it knows nothing about are left out. -/
abbrev Table := Std.ExtTreeMap String Entry

namespace Table

def entry (table : Table) (key : String) : Entry :=
  table[key]?.getD .vacant

/-- Writes an entry back, or takes the key out when nothing is left to know about it. -/
def set (table : Table) (key : String) (entry : Entry) : Table :=
  if entry.isVacant then table.erase key else table.insert key entry

end Table

inductive StoreFault where
  /-- A write without parents should never have come this far. -/
  | unvalidated (key : String)
  | failing (cause : String)
  deriving DecidableEq, Repr

namespace StoreFault

def message : StoreFault → String
  | unvalidated key => s!"unvalidated request for key '{key}'"
  | failing cause => cause

def toError (fault : StoreFault) : Error :=
  .storage fault.message

end StoreFault

structure Store where
  id : StoreId
  table : Table
  /-- The number of the next version minted here. -/
  next : UInt64

/-- An open batch: the store it was opened on, the entries touched so far, and the next
number to mint. -/
structure Batch where
  store : Store
  touched : Table
  next : UInt64

namespace Store

/-- A store that has seen nothing. Its versions are numbered from one. -/
def fresh (id : StoreId) : Store where
  id := id
  table := ∅
  next := 1

def size (store : Store) : Nat :=
  (store.table.filter fun _ entry => !entry.values.isEmpty).size

def isEmpty (store : Store) : Bool :=
  store.size = 0

def openBatch (store : Store) : Batch where
  store := store
  touched := ∅
  next := store.next

end Store

namespace Batch

def entry (batch : Batch) (key : String) : Entry :=
  batch.touched[key]?.getD (batch.store.table.entry key)

def set (batch : Batch) (key : String) (entry : Entry) : Batch :=
  { batch with touched := batch.touched.insert key entry }

/-- The version of a write: the one it brings along, or a new one. -/
def stamp (batch : Batch) (write : Write) : Version × Batch :=
  match write.assigned with
  | some version => (version, batch)
  | none => ({ store := batch.store.id, number := batch.next },
      { batch with next := batch.next + 1 })

def write (batch : Batch) (write : Write) (now : UInt64) : Except StoreFault Written × Batch :=
  match write.parents with
  | none => (.error (.unvalidated write.key), batch)
  | some parents =>
    let (version, batch) := batch.stamp write
    let (result, entry) := (batch.entry write.key).write write parents version now
    (.ok result, batch.set write.key entry)

def read (batch : Batch) (read : Read) (now : UInt64) : List Value :=
  (batch.entry read.key).read read.version now

def remove (batch : Batch) (removal : Removal) : Except StoreFault Bool × Batch :=
  match removal.parents with
  | none => (.error (.unvalidated removal.key), batch)
  | some parents =>
    let (removed, entry) := (batch.entry removal.key).remove parents
    (.ok removed, batch.set removal.key entry)

/-- Writes every touched entry back. -/
def commit (batch : Batch) : Store :=
  { batch.store with
    table := batch.touched.foldl Table.set batch.store.table
    next := batch.next }

/-- Gives up the batch. Numbers it has minted are not used again. -/
def drop (batch : Batch) : Store :=
  { batch.store with next := batch.next }

end Batch

inductive StoreCall where
  | write (write : Write)
  | read (read : Read)
  | remove (removal : Removal)
  deriving DecidableEq, Repr

inductive StoreAnswer where
  | written (result : Written)
  | values (found : List Value)
  | removed (flag : Bool)
  deriving DecidableEq, Repr

def Batch.call (batch : Batch) (call : StoreCall) (now : UInt64) :
    Except StoreFault StoreAnswer × Batch :=
  match call with
  | .write write =>
    let (result, batch) := batch.write write now
    (result.map .written, batch)
  | .read read => (.ok (.values (batch.read read now)), batch)
  | .remove removal =>
    let (flag, batch) := batch.remove removal
    (flag.map .removed, batch)

end ReplicaRing

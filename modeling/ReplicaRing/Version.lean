import ReplicaRing.Hash.Xxh3.Digest128
import ReplicaRing.Text.Hex
import ReplicaRing.Text.Utf8

/-! Version stamps. A store stamps what it writes with its own identity and a running
number, so that two stores with different identities never stamp alike. -/

namespace ReplicaRing

/-- The identity of a store. -/
structure StoreId where
  word : BitVec 128
  deriving DecidableEq, Repr

namespace StoreId

/-- A node's store draws its identity from the node's name, and so keeps it over restarts. -/
def ofName (name : String) : StoreId :=
  ⟨Hash.Xxh3.Digest128.digest (Utf8.ofString name)⟩

def display (id : StoreId) : String :=
  Text.hex 32 id.word.toNat

end StoreId

/-- The store that minted a version, and the version's number among those of that store. -/
structure Version where
  store : StoreId
  number : UInt64
  deriving DecidableEq, Repr

namespace Version

def display (version : Version) : String :=
  s!"{version.store.display}/{version.number.toNat}"

instance : Ord Version where
  compare left right :=
    (compare left.store.word right.store.word).then (compare left.number right.number)

instance : Std.TransCmp (compare : Version → Version → Ordering) :=
  inferInstanceAs (Std.TransCmp (compareLex
    (compareOn fun version : Version => version.store.word)
    (compareOn fun version : Version => version.number)))

instance : Std.LawfulEqCmp (compare : Version → Version → Ordering) where
  eq_of_compare {left right} same := by
    obtain ⟨⟨leftWord⟩, leftNumber⟩ := left
    obtain ⟨⟨rightWord⟩, rightNumber⟩ := right
    have parts := Ordering.then_eq_eq.mp same
    have words := Std.LawfulEqCmp.eq_of_compare parts.1
    have numbers := Std.LawfulEqCmp.eq_of_compare parts.2
    simp only at words numbers
    rw [words, numbers]

end Version
end ReplicaRing

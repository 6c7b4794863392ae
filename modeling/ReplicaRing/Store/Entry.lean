import Std.Data.ExtTreeSet
import ReplicaRing.Write

/-! What one holder knows about one key: the sibling versions that are live, and the versions
superseded or removed here. A late or repeated copy of one of the latter is dropped instead
of coming back as a sibling, whatever order copies and removals arrive in. -/

namespace ReplicaRing

structure Entry where
  /-- Siblings in the order in which they were stored. -/
  values : List Value
  retired : Std.ExtTreeSet Version

namespace Entry

/-- Nothing is known about a key that was never written. -/
def vacant : Entry where
  values := []
  retired := ∅

def isVacant (entry : Entry) : Bool :=
  entry.values.isEmpty && entry.retired.isEmpty

def unexpired (entry : Entry) (now : UInt64) : List Value :=
  entry.values.filter fun value => !value.isExpired now

def stored (write : Write) (parents : List Version) (version : Version) (now : UInt64) :
    Value where
  key := write.key
  version := version
  data := write.data
  parents := parents
  timestamp := now
  expiresAt := write.expiresAt
  hash := Hash.Blake3.digest write.data

/-- Whether a write under a version leaves some of the present values beside it. One that is
present already is stored again, which is no conflict. -/
def conflicts (present : List Value) (parents : List Version) (version : Version) : Bool :=
  !present.any (·.version = version) && present.any fun value => !parents.contains value.version

/-- Writes a value under a version. A retired version changes nothing. Otherwise expired
values go first; then an optimistic write that would conflict is refused, and any other
takes the place of its parents. -/
def write (entry : Entry) (write : Write) (parents : List Version) (version : Version)
    (now : UInt64) : Written × Entry :=
  if entry.retired.contains version then
    ({ version := some version, conflict := false }, entry)
  else
    let present := entry.unexpired now
    let conflict := conflicts present parents version
    if conflict && write.optimistic then
      ({ version := none, conflict := true }, { entry with values := present })
    else
      let kept := present.filter fun value =>
        value.version ≠ version && !parents.contains value.version
      ({ version := some version, conflict },
        { values := kept ++ [stored write parents version now]
          retired := entry.retired.insertMany parents })

/-- The values a read sees, all of them or those of one version. -/
def read (entry : Entry) (version : Option Version) (now : UInt64) : List Value :=
  (entry.unexpired now).filter fun value => version.all (· = value.version)

/-- Drops the named versions, and retires them even when they are not here yet, so that a
write that arrives after its removal stays removed. -/
def remove (entry : Entry) (parents : List Version) : Bool × Entry :=
  let kept := entry.values.filter fun value => !parents.contains value.version
  (decide (kept.length < entry.values.length),
    { values := kept, retired := entry.retired.insertMany parents })

end Entry
end ReplicaRing

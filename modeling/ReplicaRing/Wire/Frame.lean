import ReplicaRing.Wire.Layout

/-! Frames: a version byte in front of a value. A frame of another version is refused, not
guessed at, and bytes behind the value are passed over. -/

namespace ReplicaRing.Wire

/-- The layout that this library writes and reads. -/
def wireVersion : UInt8 := 1

def encode {α : Type} (format : Format α) (value : α) : Bytes :=
  wireVersion :: format.write value

def decode {α : Type} (format : Format α) : Bytes → Except Malformed α
  | [] => .error .emptyFrame
  | version :: body =>
    if version = wireVersion then (format.read body).map (·.1)
    else .error (.unsupportedVersion version)

def Malformed.toError (malformed : Malformed) : NetworkError :=
  .garbled malformed.message

end ReplicaRing.Wire

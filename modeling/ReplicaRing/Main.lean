import ReplicaRing.Command.Run

/-! The command line program. -/

namespace ReplicaRing.Command

/-- The system's number for a fault, whichever sign it comes with. -/
def faultNumber (code : UInt32) : Nat :=
  if code.toNat < 0x80000000 then code.toNat else 0x100000000 - code.toNat

/-- What the system says when it does not hand out a file. -/
def faultOf : IO.Error → FileFault
  | .noFileOrDirectory .. => .missing
  | .permissionDenied .. => .denied
  | .inappropriateType _ code _ =>
    if faultNumber code = 21 then .directory else .notDirectory
  | .invalidArgument _ code details =>
    if faultNumber code = 36 then .nameTooLong else .other details
  | error => .other error.toString

def readText (path : String) : IO (Except FileFault String) := do
  try
    let content ← IO.FS.readBinFile path
    return match Utf8.decode content.toList with
      | .ok text => .ok (String.ofList text)
      | .error _ => .error .notText
  catch error => return .error (faultOf error)

def finish (ending : Ending) : IO UInt32 := do
  IO.print ending.stdout
  IO.eprint ending.stderr
  return UInt32.ofNat ending.code

end ReplicaRing.Command

open ReplicaRing.Command in
def main (words : List String) : IO UInt32 := do
  finish (← run readText words)

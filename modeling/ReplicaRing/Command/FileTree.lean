/-! Files as a value, so that a run of the program can be told from the files that it may
see. A path is followed name by name: what is wrong with a name matters only once the folder
that it stands in has been reached. -/

namespace ReplicaRing.Command

/-- Why a file could not be read as text. -/
inductive FileFault where
  | missing
  | denied
  | notDirectory
  | directory
  | nameTooLong
  | nulInName
  | notText
  | other (cause : String)
  deriving DecidableEq, Repr

def FileFault.message : FileFault → String
  | missing => "No such file or directory (os error 2)"
  | denied => "Permission denied (os error 13)"
  | notDirectory => "Not a directory (os error 20)"
  | directory => "Is a directory (os error 21)"
  | nameTooLong => "File name too long (os error 36)"
  | nulInName => "file name contained an unexpected NUL byte"
  | notText => "stream did not contain valid UTF-8"
  | other cause => cause

inductive FileTree where
  | file (content : String)
  | folder (entries : List (String × FileTree))

/-- A folder to look from: what is in it, and what is in each folder around it, the nearest
first and the root last. -/
structure Place where
  entries : List (String × FileTree)
  around : List (List (String × FileTree))

/-- The bytes that one name may have. -/
def nameLimit : Nat := 255

/-- The bytes that a whole path may have. -/
def pathLimit : Nat := 4095

namespace Place

/-- The folder around this one. The root is its own. -/
def outer (place : Place) : Place :=
  match place.around with
  | [] => place
  | entries :: around => { entries, around }

def root (place : Place) : Place :=
  { entries := place.around.getLast?.getD place.entries, around := [] }

def inner (place : Place) (entries : List (String × FileTree)) : Place :=
  { entries, around := place.entries :: place.around }

/-- Follows names from folder to folder and reads the file at their end. Behind a file no name
may follow, not even the empty one that a slash at the end leaves. -/
def follow (place : Place) : List String → Except FileFault String
  | [] => .error .directory
  | name :: rest =>
    if name = "" ∨ name = "." then place.follow rest
    else if name = ".." then place.outer.follow rest
    else if nameLimit < name.utf8ByteSize then .error .nameTooLong
    else match place.entries.lookup name with
      | none => .error .missing
      | some (.folder entries) => (place.inner entries).follow rest
      | some (.file content) => if rest.isEmpty then .ok content else .error .notDirectory

/-- Reads the file that a path leads to. A path that begins with a slash leads from the root. -/
def read (place : Place) (path : String) : Except FileFault String :=
  if path.toList.contains '\x00' then .error .nulInName
  else if path.isEmpty then .error .missing
  else if pathLimit < path.utf8ByteSize then .error .nameTooLong
  else match path.splitOn "/" with
    | "" :: names => place.root.follow names
    | names => place.follow names

end Place

end ReplicaRing.Command

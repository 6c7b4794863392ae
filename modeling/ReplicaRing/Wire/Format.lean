import ReplicaRing.Text.Utf8

/-! Binary formats: how values of a type are laid out in bytes, and how they are read from
the front of a byte string. Formats are put together from smaller ones, so that what holds
of the parts holds of the whole. Numbers are little-endian and of fixed width; texts and
lists carry their length in front. -/

namespace ReplicaRing.Wire

/-- Why bytes do not hold what is asked of them. -/
inductive Malformed where
  | emptyFrame
  | unsupportedVersion (found : UInt8)
  /-- The bytes end inside an item. -/
  | cutShort
  /-- A text claims more bytes than there are. -/
  | textTooLong
  | unknownVariant (found count : Nat)
  | badOption (found : UInt8)
  | badBool (found : UInt8)
  | badText (fault : Utf8.Fault)
  deriving DecidableEq, Repr

def Malformed.message : Malformed → String
  | emptyFrame => "empty frame"
  | unsupportedVersion found => s!"unsupported wire version {found.toNat}"
  | cutShort => "io error: unexpected end of file"
  | textTooLong => "io error: "
  | unknownVariant found count =>
    s!"invalid value: integer `{found}`, expected variant index 0 <= i < {count}"
  | badOption found => s!"tag for enum is not valid, found {found.toNat}"
  | badBool found => s!"invalid u8 while decoding bool, expected 0 or 1, found {found.toNat}"
  | badText fault => s!"string is not valid utf8: {fault.message}"

/-- A layout of values in bytes. Reading gives the value at the front and what is behind it. -/
structure Format (α : Type) where
  write : α → Bytes
  read : Bytes → Except Malformed (α × Bytes)

namespace Format

variable {α β : Type}

/-- The front of a byte string, which must be long enough. -/
def split (width : Nat) (bytes : Bytes) : Except Malformed (Bytes × Bytes) :=
  if bytes.length < width then .error .cutShort
  else .ok (bytes.take width, bytes.drop width)

/-- A type whose values correspond to those of a type with a format. -/
def map (format : Format α) (make : α → β) (parts : β → α) : Format β where
  write value := format.write (parts value)
  read bytes := (format.read bytes).map fun (value, rest) => (make value, rest)

def empty : Format Unit where
  write _ := []
  read bytes := .ok ((), bytes)

def both (first : Format α) (second : Format β) : Format (α × β) where
  write value := first.write value.1 ++ second.write value.2
  read bytes := do
    let (left, rest) ← first.read bytes
    let (right, rest) ← second.read rest
    return ((left, right), rest)

def byte : Format UInt8 where
  write value := [value]
  read
    | [] => .error .cutShort
    | value :: rest => .ok (value, rest)

def word32 : Format UInt32 where
  write value := Bytes.littleEndian 4 value.toNat
  read bytes := (split 4 bytes).map fun (word, rest) => (UInt32.ofNat (Bytes.number word), rest)

def word64 : Format UInt64 where
  write value := Bytes.littleEndian 8 value.toNat
  read bytes := (split 8 bytes).map fun (word, rest) => (UInt64.ofNat (Bytes.number word), rest)

def word128 : Format (BitVec 128) where
  write value := Bytes.littleEndian 16 value.toNat
  read bytes :=
    (split 16 bytes).map fun (word, rest) => (BitVec.ofNat 128 (Bytes.number word), rest)

def bool : Format Bool where
  write value := [if value then 1 else 0]
  read
    | [] => .error .cutShort
    | tag :: rest =>
      if tag = 0 then .ok (false, rest)
      else if tag = 1 then .ok (true, rest)
      else .error (.badBool tag)

def option (format : Format α) : Format (Option α) where
  write
    | none => [0]
    | some value => 1 :: format.write value
  read
    | [] => .error .cutShort
    | tag :: rest =>
      if tag = 0 then .ok (none, rest)
      else if tag = 1 then (format.read rest).map fun (value, rest) => (some value, rest)
      else .error (.badOption tag)

/-- So many values in a row. -/
def readMany (format : Format α) : Nat → Bytes → Except Malformed (List α × Bytes)
  | 0, bytes => .ok ([], bytes)
  | count + 1, bytes => do
    let (value, rest) ← format.read bytes
    let (values, rest) ← readMany format count rest
    return (value :: values, rest)

/-- The length of a list or text, as it is written in front. -/
def size (length : Nat) : Bytes :=
  Bytes.littleEndian 8 length

def list (format : Format α) : Format (List α) where
  write values := size values.length ++ values.flatMap format.write
  read bytes := do
    let (count, rest) ← word64.read bytes
    readMany format count.toNat rest

/-- The length of a text counts its bytes. -/
def text : Format String where
  write value :=
    let bytes := Utf8.ofString value
    size bytes.length ++ bytes
  read bytes := do
    let (count, rest) ← word64.read bytes
    if rest.length < count.toNat then .error .textTooLong
    else match Utf8.decode (rest.take count.toNat) with
      | .ok chars => .ok (String.ofList chars, rest.drop count.toNat)
      | .error fault => .error (.badText fault)

/-- Exactly `width` bytes, without a length. -/
def block (width : Nat) : Format (Vector UInt8 width) where
  write value := value.toList
  read bytes :=
    if short : bytes.length < width then .error .cutShort
    else .ok (⟨(bytes.take width).toArray, by simp; omega⟩, bytes.drop width)

/-- One case of a type: how its values are written, if they are of this case, and read. -/
structure Variant (α : Type) where
  write : α → Option Bytes
  read : Bytes → Except Malformed (α × Bytes)

def variant (format : Format β) (make : β → α) (content : α → Option β) : Variant α where
  write value := (content value).map format.write
  read bytes := (format.read bytes).map fun (value, rest) => (make value, rest)

/-- A value under the number of the first case it belongs to. -/
def writeVariant (value : α) : Nat → List (Variant α) → Bytes
  | _, [] => []
  | index, variant :: rest =>
    match variant.write value with
    | some bytes => Bytes.littleEndian 4 index ++ bytes
    | none => writeVariant value (index + 1) rest

/-- A type of several cases: the number of the case in front of its content. -/
def variants (cases : List (Variant α)) : Format α where
  write value := writeVariant value 0 cases
  read bytes := do
    let (tag, rest) ← word32.read bytes
    match cases[tag.toNat]? with
    | some variant => variant.read rest
    | none => .error (.unknownVariant tag.toNat cases.length)

end Format
end ReplicaRing.Wire

import ReplicaRing.Bytes

/-! UTF-8 in both directions. Reading accepts only the shortest spelling of a character and
no surrogate; where it stops it says at which byte and whether more bytes could have helped. -/

namespace ReplicaRing.Utf8

/-- Why a byte string is no text. An invalid sequence can be continued by nothing, an
incomplete one ends with the input. -/
inductive Fault where
  | invalid (length index : Nat)
  | incomplete (index : Nat)
  deriving DecidableEq, Repr

def Fault.message : Fault → String
  | .invalid length index => s!"invalid utf-8 sequence of {length} bytes from index {index}"
  | .incomplete index => s!"incomplete utf-8 byte sequence from index {index}"

def encode (text : List Char) : Bytes :=
  text.flatMap String.utf8EncodeChar

def within (low high byte : UInt8) : Bool :=
  low ≤ byte && byte ≤ high

/-- Bytes that continue a character but cannot start one. -/
def isTail (byte : UInt8) : Bool :=
  within 0x80 0xBF byte

/-- The six payload bits of a tail byte. -/
def tailBits (byte : UInt8) : Nat :=
  byte.toNat - 0x80

/-- The least and greatest second byte after a three-byte lead: nothing that two bytes
could spell, and no surrogate. -/
def secondOfThree (lead : UInt8) : UInt8 × UInt8 :=
  (if lead = 0xE0 then 0xA0 else 0x80, if lead = 0xED then 0x9F else 0xBF)

/-- The same after a four-byte lead: nothing that three bytes could spell, and nothing past
the last code point. -/
def secondOfFour (lead : UInt8) : UInt8 × UInt8 :=
  (if lead = 0xF0 then 0x90 else 0x80, if lead = 0xF4 then 0x8F else 0xBF)

/-- The characters of `bytes`, the first of which stands at `index` of the whole input. -/
def decodeFrom : Nat → Bytes → Except Fault (List Char)
  | _, [] => .ok []
  | index, lead :: rest =>
    if lead < 0x80 then
      (decodeFrom (index + 1) rest).map (Char.ofNat lead.toNat :: ·)
    else if within 0xC2 0xDF lead then
      match rest with
      | [] => .error (.incomplete index)
      | second :: rest =>
        if isTail second then
          (decodeFrom (index + 2) rest).map
            (Char.ofNat ((lead.toNat - 0xC0) * 64 + tailBits second) :: ·)
        else .error (.invalid 1 index)
    else if within 0xE0 0xEF lead then
      match rest with
      | [] => .error (.incomplete index)
      | second :: rest =>
        if within (secondOfThree lead).1 (secondOfThree lead).2 second then
          match rest with
          | [] => .error (.incomplete index)
          | third :: rest =>
            if isTail third then
              (decodeFrom (index + 3) rest).map
                (Char.ofNat ((lead.toNat - 0xE0) * 4096 + tailBits second * 64 +
                  tailBits third) :: ·)
            else .error (.invalid 2 index)
        else .error (.invalid 1 index)
    else if within 0xF0 0xF4 lead then
      match rest with
      | [] => .error (.incomplete index)
      | second :: rest =>
        if within (secondOfFour lead).1 (secondOfFour lead).2 second then
          match rest with
          | [] => .error (.incomplete index)
          | third :: rest =>
            if isTail third then
              match rest with
              | [] => .error (.incomplete index)
              | fourth :: rest =>
                if isTail fourth then
                  (decodeFrom (index + 4) rest).map
                    (Char.ofNat ((lead.toNat - 0xF0) * 262144 + tailBits second * 4096 +
                      tailBits third * 64 + tailBits fourth) :: ·)
                else .error (.invalid 3 index)
            else .error (.invalid 2 index)
        else .error (.invalid 1 index)
    else .error (.invalid 1 index)

def decode (bytes : Bytes) : Except Fault (List Char) :=
  decodeFrom 0 bytes

/-- The bytes of a string, as they are hashed and sent. -/
def ofString (text : String) : Bytes :=
  encode text.toList

end ReplicaRing.Utf8

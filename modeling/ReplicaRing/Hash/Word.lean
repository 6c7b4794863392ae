import ReplicaRing.Bytes

/-! Machine words inside a byte array, and the word operations that the hash functions
share. A read past the end sees zeros; the hash functions never make one. -/

namespace ReplicaRing.Hash

/-- The byte at a position, zero past the end. -/
def byteAt (data : Array UInt8) (position : Nat) : UInt8 :=
  data.getD position 0

/-- The little-endian number in the `width` bytes from a position. -/
def numberAt (data : Array UInt8) (position : Nat) : Nat → Nat
  | 0 => 0
  | width + 1 =>
    (byteAt data position).toNat + 256 * numberAt data (position + 1) width

def word32At (data : Array UInt8) (position : Nat) : UInt32 :=
  UInt32.ofNat (numberAt data position 4)

def word64At (data : Array UInt8) (position : Nat) : UInt64 :=
  UInt64.ofNat (numberAt data position 8)

/-- The bits of a word moved up by `amount`, those leaving at the top coming back in below. -/
def rotateLeft64 (word : UInt64) (amount : UInt64) : UInt64 :=
  (word <<< amount) ||| (word >>> (64 - amount))

def rotateLeft32 (word : UInt32) (amount : UInt32) : UInt32 :=
  (word <<< amount) ||| (word >>> (32 - amount))

def rotateRight32 (word : UInt32) (amount : UInt32) : UInt32 :=
  (word >>> amount) ||| (word <<< (32 - amount))

def reverseBytes64 (word : UInt64) : UInt64 :=
  UInt64.ofNat (Bytes.number (Bytes.littleEndian 8 word.toNat).reverse)

def reverseBytes32 (word : UInt32) : UInt32 :=
  UInt32.ofNat (Bytes.number (Bytes.littleEndian 4 word.toNat).reverse)

/-- The full product of two words as its low and high halves. -/
def wideProduct (left right : UInt64) : UInt64 × UInt64 :=
  let product := left.toNat * right.toNat
  (UInt64.ofNat product, UInt64.ofNat (product >>> 64))

end ReplicaRing.Hash

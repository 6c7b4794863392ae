import ReplicaRing.Hash.Word

/-! What the 64-bit and the 128-bit form of XXH3 share: the constants, the avalanches, the
sixteen-byte mix and the eight-lane accumulator for inputs longer than 240 bytes. The seed
is zero throughout. -/

namespace ReplicaRing.Hash.Xxh3

/-- The 192 bytes of entropy that input words are combined with. -/
def secret : Array UInt8 := #[
  0xb8, 0xfe, 0x6c, 0x39, 0x23, 0xa4, 0x4b, 0xbe, 0x7c, 0x01, 0x81, 0x2c, 0xf7, 0x21, 0xad, 0x1c,
  0xde, 0xd4, 0x6d, 0xe9, 0x83, 0x90, 0x97, 0xdb, 0x72, 0x40, 0xa4, 0xa4, 0xb7, 0xb3, 0x67, 0x1f,
  0xcb, 0x79, 0xe6, 0x4e, 0xcc, 0xc0, 0xe5, 0x78, 0x82, 0x5a, 0xd0, 0x7d, 0xcc, 0xff, 0x72, 0x21,
  0xb8, 0x08, 0x46, 0x74, 0xf7, 0x43, 0x24, 0x8e, 0xe0, 0x35, 0x90, 0xe6, 0x81, 0x3a, 0x26, 0x4c,
  0x3c, 0x28, 0x52, 0xbb, 0x91, 0xc3, 0x00, 0xcb, 0x88, 0xd0, 0x65, 0x8b, 0x1b, 0x53, 0x2e, 0xa3,
  0x71, 0x64, 0x48, 0x97, 0xa2, 0x0d, 0xf9, 0x4e, 0x38, 0x19, 0xef, 0x46, 0xa9, 0xde, 0xac, 0xd8,
  0xa8, 0xfa, 0x76, 0x3f, 0xe3, 0x9c, 0x34, 0x3f, 0xf9, 0xdc, 0xbb, 0xc7, 0xc7, 0x0b, 0x4f, 0x1d,
  0x8a, 0x51, 0xe0, 0x4b, 0xcd, 0xb4, 0x59, 0x31, 0xc8, 0x9f, 0x7e, 0xc9, 0xd9, 0x78, 0x73, 0x64,
  0xea, 0xc5, 0xac, 0x83, 0x34, 0xd3, 0xeb, 0xc3, 0xc5, 0x81, 0xa0, 0xff, 0xfa, 0x13, 0x63, 0xeb,
  0x17, 0x0d, 0xdd, 0x51, 0xb7, 0xf0, 0xda, 0x49, 0xd3, 0x16, 0x55, 0x26, 0x29, 0xd4, 0x68, 0x9e,
  0x2b, 0x16, 0xbe, 0x58, 0x7d, 0x47, 0xa1, 0xfc, 0x8f, 0xf8, 0xb8, 0xd1, 0x7a, 0xd0, 0x31, 0xce,
  0x45, 0xcb, 0x3a, 0x8f, 0x95, 0x16, 0x04, 0x28, 0xaf, 0xd7, 0xfb, 0xca, 0xbb, 0x4b, 0x40, 0x7e]

def prime32a : UInt64 := 0x9E3779B1
def prime32b : UInt64 := 0x85EBCA77
def prime32c : UInt64 := 0xC2B2AE3D
def prime64a : UInt64 := 0x9E3779B185EBCA87
def prime64b : UInt64 := 0xC2B2AE3D27D4EB4F
def prime64c : UInt64 := 0x165667B19E3779F9
def prime64d : UInt64 := 0x85EBCA77C2B2AE63
def prime64e : UInt64 := 0x27D4EB2F165667C5

/-- The multiplier of the inputs of four to eight bytes. -/
def shortMultiplier : UInt64 := 0x9FB21C651E98DF25

def secretPair (position : Nat) : UInt64 :=
  word64At secret position ^^^ word64At secret (position + 8)

def secretPair32 (position : Nat) : UInt64 :=
  (word32At secret position ^^^ word32At secret (position + 4)).toUInt64

def avalanche (word : UInt64) : UInt64 :=
  let word := (word ^^^ (word >>> 37)) * 0x165667919E3779F9
  word ^^^ (word >>> 32)

/-- The stronger finish that the shortest inputs get. -/
def fullAvalanche (word : UInt64) : UInt64 :=
  let word := (word ^^^ (word >>> 33)) * prime64b
  let word := (word ^^^ (word >>> 29)) * prime64c
  word ^^^ (word >>> 32)

/-- The halves of the full product against each other. -/
def foldedProduct (left right : UInt64) : UInt64 :=
  let product := wideProduct left right
  product.1 ^^^ product.2

/-- Sixteen bytes of input under sixteen bytes of the secret. -/
def mix16 (data : Array UInt8) (position key : Nat) : UInt64 :=
  foldedProduct (word64At data position ^^^ word64At secret key)
    (word64At data (position + 8) ^^^ word64At secret (key + 8))

/-- One to three bytes and their count packed into a word. -/
def packedShort (data : Array UInt8) : UInt32 :=
  let size := data.size
  ((byteAt data 0).toUInt32 <<< 16) ||| ((byteAt data (size / 2)).toUInt32 <<< 24) |||
    (byteAt data (size - 1)).toUInt32 ||| (UInt32.ofNat size <<< 8)

def halfProduct (word : UInt64) : UInt64 :=
  (word &&& (0xFFFFFFFF : UInt64)) * (word >>> 32)

abbrev Lanes := Vector UInt64 8

def initialLanes : Lanes :=
  #v[prime32c, prime64a, prime64b, prime64c, prime64d, prime32b, prime64e, prime32a]

/-- The neighbour that a lane's raw input is added to. -/
def partner (lane : Fin 8) : Fin 8 :=
  if lane.val % 2 = 0 then lane + 1 else lane - 1

/-- One stripe of 64 bytes: each lane takes its partner's raw word and the product of the
halves of its own keyed word. -/
def accumulate (data : Array UInt8) (lanes : Lanes) (position key : Nat) : Lanes :=
  Vector.ofFn fun lane =>
    let keyed : UInt64 := word64At data (position + 8 * lane.val) ^^^
      word64At secret (key + 8 * lane.val)
    lanes[lane] + word64At data (position + 8 * (partner lane).val) +
      halfProduct keyed

/-- Closes a block of sixteen stripes with the last 64 bytes of the secret. -/
def scramble (lanes : Lanes) : Lanes :=
  Vector.ofFn fun lane =>
    let word := lanes[lane]
    ((word ^^^ (word >>> 47)) ^^^ word64At secret (128 + 8 * lane.val)) * prime32a

/-- `count` stripes from a position, each under the secret eight bytes further on. -/
def accumulateStripes (data : Array UInt8) (position count : Nat) (lanes : Lanes) : Lanes :=
  (List.range count).foldl
    (fun lanes stripe => accumulate data lanes (position + 64 * stripe) (8 * stripe)) lanes

/-- The lanes after a whole input of more than 240 bytes: full blocks of 1024 bytes, the
stripes of the last block, and the last 64 bytes once more. -/
def absorb (data : Array UInt8) : Lanes :=
  let size := data.size
  let blocks := (size - 1) / 1024
  let closed := (List.range blocks).foldl
    (fun lanes block => scramble (accumulateStripes data (1024 * block) 16 lanes)) initialLanes
  let rest := accumulateStripes data (1024 * blocks) ((size - 1 - 1024 * blocks) / 64) closed
  accumulate data rest (size - 64) 121

/-- The eight lanes folded into one word under the secret from `key` on. -/
def merge (lanes : Lanes) (key : Nat) (start : UInt64) : UInt64 :=
  let product (low high : UInt64) (offset : Nat) : UInt64 :=
    foldedProduct (low ^^^ word64At secret (key + offset))
      (high ^^^ word64At secret (key + offset + 8))
  avalanche (start + product (lanes.get 0) (lanes.get 1) 0 + product (lanes.get 2) (lanes.get 3) 16 +
    product (lanes.get 4) (lanes.get 5) 32 + product (lanes.get 6) (lanes.get 7) 48)

end ReplicaRing.Hash.Xxh3

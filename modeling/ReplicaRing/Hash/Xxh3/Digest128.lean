import ReplicaRing.Hash.Xxh3.Mixing

/-! The 128-bit digest of XXH3 under seed zero, as a low and a high word. -/

namespace ReplicaRing.Hash.Xxh3.Digest128

structure Halves where
  low : UInt64
  high : UInt64

def ofEmpty : Halves where
  low := fullAvalanche (secretPair 64)
  high := fullAvalanche (secretPair 80)

/-- One to three bytes, and the same bytes turned round for the high half. -/
def ofShort (data : Array UInt8) : Halves :=
  let packed := packedShort data
  let turned := rotateLeft32 (reverseBytes32 packed) 13
  { low := fullAvalanche (packed.toUInt64 ^^^ secretPair32 0)
    high := fullAvalanche (turned.toUInt64 ^^^ secretPair32 8) }

def ofWord (data : Array UInt8) : Halves :=
  let size := data.size
  let joined := (word32At data 0).toUInt64 + ((word32At data (size - 4)).toUInt64 <<< 32)
  let product := wideProduct (joined ^^^ secretPair 16)
    (prime64a + (UInt64.ofNat size <<< 2))
  let high := product.2 + (product.1 <<< 1)
  let low := product.1 ^^^ (high >>> 3)
  let low := (low ^^^ (low >>> 35)) * shortMultiplier
  { low := low ^^^ (low >>> 28), high := avalanche high }

def ofPair (data : Array UInt8) : Halves :=
  let size := data.size
  let first := word64At data 0
  let last := word64At data (size - 8)
  let product := wideProduct (first ^^^ last ^^^ secretPair 32) prime64a
  let low := product.1 + (UInt64.ofNat (size - 1) <<< 54)
  let keyed := last ^^^ secretPair 48
  let high := product.2 + keyed + (keyed &&& (0xFFFFFFFF : UInt64)) * (prime32b - 1)
  let closing := wideProduct (low ^^^ reverseBytes64 high) prime64b
  { low := avalanche closing.1, high := avalanche (closing.2 + high * prime64b) }

/-- Thirty-two bytes, sixteen from each of two positions. -/
def mix32 (data : Array UInt8) (total : Halves) (left right key : Nat) : Halves where
  low := (total.low + mix16 data left key) ^^^
    (word64At data right + word64At data (right + 8))
  high := (total.high + mix16 data right (key + 16)) ^^^
    (word64At data left + word64At data (left + 8))

def finish (size : Nat) (total : Halves) : Halves where
  low := avalanche (total.low + total.high)
  high := 0 - avalanche (total.low * prime64a + total.high * prime64d +
    UInt64.ofNat size * prime64b)

def start (size : Nat) : Halves where
  low := UInt64.ofNat size * prime64a
  high := 0

/-- Seventeen to 128 bytes: pairs of sixteen bytes, one from each end, inner pairs first. -/
def ofMiddle (data : Array UInt8) : Halves :=
  let size := data.size
  let pairs := (size - 1) / 32 + 1
  finish size ((List.range pairs).reverse.foldl
    (fun total pair => mix32 data total (16 * pair) (size - 16 * (pair + 1)) (32 * pair))
    (start size))

/-- From 129 to 240 bytes: thirty-two bytes a round, the first four rounds closed apart. -/
def ofLarge (data : Array UInt8) : Halves :=
  let size := data.size
  let first := (List.range 4).foldl
    (fun total round => mix32 data total (32 * round) (32 * round + 16) (32 * round))
    (start size)
  let closed : Halves := { low := avalanche first.low, high := avalanche first.high }
  let rest := (List.range (size / 32 - 4)).foldl
    (fun total round =>
      mix32 data total (32 * (round + 4)) (32 * (round + 4) + 16) (32 * round + 3))
    closed
  finish size (mix32 data rest (size - 16) (size - 32) 103)

def ofLong (data : Array UInt8) : Halves :=
  let lanes := absorb data
  let size := UInt64.ofNat data.size
  { low := merge lanes 11 (size * prime64a)
    high := merge lanes 117 (~~~(size * prime64b)) }

def halves (key : Bytes) : Halves :=
  let data := key.toArray
  let size := data.size
  if size = 0 then ofEmpty
  else if size ≤ 3 then ofShort data
  else if size ≤ 8 then ofWord data
  else if size ≤ 16 then ofPair data
  else if size ≤ 128 then ofMiddle data
  else if size ≤ 240 then ofLarge data
  else ofLong data

/-- The digest of any input as one 128-bit word. -/
def digest (key : Bytes) : BitVec 128 :=
  let both := halves key
  both.high.toBitVec ++ both.low.toBitVec

end ReplicaRing.Hash.Xxh3.Digest128

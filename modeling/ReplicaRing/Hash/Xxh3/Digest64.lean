import ReplicaRing.Hash.Xxh3.Mixing

/-! The 64-bit digest of XXH3 under seed zero. Each range of lengths has a rule of its own,
and every rule reads the input from both ends, so that no byte is left out. -/

namespace ReplicaRing.Hash.Xxh3.Digest64

def ofEmpty : UInt64 :=
  fullAvalanche (secretPair 56)

def ofShort (data : Array UInt8) : UInt64 :=
  fullAvalanche ((packedShort data).toUInt64 ^^^ secretPair32 0)

/-- Four to eight bytes: the last four and the first four make one word. -/
def ofWord (data : Array UInt8) : UInt64 :=
  let size := data.size
  let joined := (word32At data (size - 4)).toUInt64 + ((word32At data 0).toUInt64 <<< 32)
  let keyed := joined ^^^ secretPair 8
  let spread := (keyed ^^^ rotateLeft64 keyed 49 ^^^ rotateLeft64 keyed 24) * shortMultiplier
  let final := (spread ^^^ ((spread >>> 35) + UInt64.ofNat size)) * shortMultiplier
  final ^^^ (final >>> 28)

def ofPair (data : Array UInt8) : UInt64 :=
  let size := data.size
  let low := word64At data 0 ^^^ secretPair 24
  let high := word64At data (size - 8) ^^^ secretPair 40
  avalanche (UInt64.ofNat size + reverseBytes64 low + high + foldedProduct low high)

/-- Seventeen to 128 bytes: pairs of sixteen bytes, one from each end. -/
def ofMiddle (data : Array UInt8) : UInt64 :=
  let size := data.size
  let pairs := (size - 1) / 32 + 1
  avalanche ((List.range pairs).foldl
    (fun total pair => total + mix16 data (16 * pair) (32 * pair) +
      mix16 data (size - 16 * (pair + 1)) (32 * pair + 16))
    (UInt64.ofNat size * prime64a))

/-- From 129 to 240 bytes: sixteen bytes a round, the first eight rounds closed apart. -/
def ofLarge (data : Array UInt8) : UInt64 :=
  let size := data.size
  let first := (List.range 8).foldl
    (fun total round => total + mix16 data (16 * round) (16 * round))
    (UInt64.ofNat size * prime64a)
  let rest := (List.range (size / 16 - 8)).foldl
    (fun total round => total + mix16 data (16 * (round + 8)) (16 * round + 3))
    (avalanche first)
  avalanche (rest + mix16 data (size - 16) 119)

def ofLong (data : Array UInt8) : UInt64 :=
  merge (absorb data) 11 (UInt64.ofNat data.size * prime64a)

def digest (key : Bytes) : UInt64 :=
  let data := key.toArray
  let size := data.size
  if size = 0 then ofEmpty
  else if size ≤ 3 then ofShort data
  else if size ≤ 8 then ofWord data
  else if size ≤ 16 then ofPair data
  else if size ≤ 128 then ofMiddle data
  else if size ≤ 240 then ofLarge data
  else ofLong data

end ReplicaRing.Hash.Xxh3.Digest64

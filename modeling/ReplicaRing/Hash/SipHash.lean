import ReplicaRing.Hash.Word

/-! SipHash with one compression round a word and three rounds to finish, under the zero
key. The bytes are taken as they are, with no length mark in front of them. -/

namespace ReplicaRing.Hash.SipHash

structure State where
  v0 : UInt64
  v1 : UInt64
  v2 : UInt64
  v3 : UInt64

/-- The four lanes before any input when both halves of the key are zero. -/
def initial : State where
  v0 := 0x736f6d6570736575
  v1 := 0x646f72616e646f6d
  v2 := 0x6c7967656e657261
  v3 := 0x7465646279746573

def State.round (state : State) : State :=
  let v0 := state.v0 + state.v1
  let v1 := rotateLeft64 state.v1 13 ^^^ v0
  let v0 := rotateLeft64 v0 32
  let v2 := state.v2 + state.v3
  let v3 := rotateLeft64 state.v3 16 ^^^ v2
  let v0 := v0 + v3
  let v3 := rotateLeft64 v3 21 ^^^ v0
  let v2 := v2 + v1
  let v1 := rotateLeft64 v1 17 ^^^ v2
  let v2 := rotateLeft64 v2 32
  { v0, v1, v2, v3 }

/-- One word of input: into the last lane, a round, and into the first lane. -/
def State.absorb (state : State) (word : UInt64) : State :=
  let mixed := { state with v3 := state.v3 ^^^ word }.round
  { mixed with v0 := mixed.v0 ^^^ word }

/-- The bytes that fill no whole word, under a top byte that counts all the input. -/
def lastWord (data : Array UInt8) : UInt64 :=
  let whole := data.size / 8 * 8
  UInt64.ofNat (numberAt data whole (data.size - whole)) |||
    (UInt64.ofNat data.size <<< 56)

def digest (key : Bytes) : UInt64 :=
  let data := key.toArray
  let absorbed := (List.range (data.size / 8)).foldl
    (fun state index => state.absorb (word64At data (8 * index))) initial
  let closed := absorbed.absorb (lastWord data)
  let final := { closed with v2 := closed.v2 ^^^ 0xff }.round.round.round
  final.v0 ^^^ final.v1 ^^^ final.v2 ^^^ final.v3

end ReplicaRing.Hash.SipHash

import ReplicaRing.Hash.Word

/-! The 32-byte digest of BLAKE3 without a key. Chunks of 1024 bytes are the leaves of a
tree; a level of the tree joins its neighbours two by two and passes an odd last one up,
which puts the largest power of two of chunks under every left branch. -/

namespace ReplicaRing.Hash.Blake3

abbrev Digest := Vector UInt8 32
abbrev Chain := Vector UInt32 8
abbrev Block := Vector UInt32 16

def initialChain : Chain :=
  #v[0x6A09E667, 0xBB67AE85, 0x3C6EF372, 0xA54FF53A, 0x510E527F, 0x9B05688C, 0x1F83D9AB, 0x5BE0CD19]

/-- Where each word of a block stands in the next round. -/
def order : Vector (Fin 16) 16 :=
  #v[2, 6, 3, 10, 7, 0, 4, 13, 1, 11, 12, 5, 9, 14, 15, 8]

def chunkStart : UInt32 := 1
def chunkEnd : UInt32 := 2
def parent : UInt32 := 4
def root : UInt32 := 8

/-- Two message words into one column or diagonal of the state. -/
def quarter (state : Block) (a b c d : Fin 16) (first second : UInt32) : Block :=
  let va := state[a] + state[b] + first
  let vd := rotateRight32 (state[d] ^^^ va) 16
  let vc := state[c] + vd
  let vb := rotateRight32 (state[b] ^^^ vc) 12
  let va := va + vb + second
  let vd := rotateRight32 (vd ^^^ va) 8
  let vc := vc + vd
  let vb := rotateRight32 (vb ^^^ vc) 7
  (((state.set a va).set b vb).set c vc).set d vd

/-- The four columns and then the four diagonals. -/
def round (state words : Block) : Block :=
  let state := quarter state 0 4 8 12 words[0] words[1]
  let state := quarter state 1 5 9 13 words[2] words[3]
  let state := quarter state 2 6 10 14 words[4] words[5]
  let state := quarter state 3 7 11 15 words[6] words[7]
  let state := quarter state 0 5 10 15 words[8] words[9]
  let state := quarter state 1 6 11 12 words[10] words[11]
  let state := quarter state 2 7 8 13 words[12] words[13]
  quarter state 3 4 9 14 words[14] words[15]

def reorder (words : Block) : Block :=
  Vector.ofFn fun position => words[order[position]]

def rounds : Nat → Block → Block → Block
  | 0, state, _ => state
  | count + 1, state, words => rounds count (round state words) (reorder words)

/-- What one compression needs. A node keeps it until it is known whether it is the root. -/
structure Node where
  chain : Chain
  words : Block
  counter : UInt64
  size : UInt32
  flags : UInt32

def Node.compress (node : Node) (extra : UInt32) : Chain :=
  let chain := node.chain
  let start : Block := #v[
    chain[0], chain[1], chain[2], chain[3], chain[4], chain[5], chain[6], chain[7],
    initialChain[0], initialChain[1], initialChain[2], initialChain[3],
    node.counter.toUInt32, (node.counter >>> 32).toUInt32, node.size, node.flags ||| extra]
  let final := rounds 7 start node.words
  Vector.ofFn fun lane => final.get ⟨lane.val, by omega⟩ ^^^ final.get ⟨lane.val + 8, by omega⟩

/-- The sixteen words of a block that starts at a position, zeros past the end. -/
def blockAt (data : Array UInt8) (position : Nat) : Block :=
  Vector.ofFn fun word => word32At data (position + 4 * word.val)

/-- A chunk of at most 1024 bytes: all blocks but the last are compressed into the chain. -/
def chunk (data : Array UInt8) (index : Nat) : Node :=
  let begins := 1024 * index
  let size := min 1024 (data.size - begins)
  let last := (size - 1) / 64
  let mark (block : Nat) : UInt32 := if block = 0 then chunkStart else 0
  let chain := (List.range last).foldl
    (fun chain block => Node.compress
      { chain, words := blockAt data (begins + 64 * block), counter := UInt64.ofNat index,
        size := 64, flags := mark block } 0)
    initialChain
  { chain, words := blockAt data (begins + 64 * last), counter := UInt64.ofNat index,
    size := UInt32.ofNat (size - 64 * last), flags := mark last ||| chunkEnd }

def join (left right : Node) : Node where
  chain := initialChain
  words := left.compress 0 ++ right.compress 0
  counter := 0
  size := 64
  flags := parent

/-- One level of the tree from the level below it. -/
def level : List Node → List Node
  | left :: right :: rest => join left right :: level rest
  | rest => rest

/-- The root over a row of nodes. Each level at least halves a row of two or more, so as
many levels as there are nodes are enough. -/
def top : Nat → Node → List Node → Node
  | _, first, [] => first
  | 0, first, _ => first
  | height + 1, first, second :: rest => top height (join first second) (level rest)

def digest (input : Bytes) : Digest :=
  let data := input.toArray
  let later := (List.range ((data.size - 1) / 1024)).map fun index => chunk data (index + 1)
  let chain := (top later.length (chunk data 0) later).compress root
  Vector.ofFn fun position =>
    (chain.get ⟨position.val / 4, by omega⟩ >>> UInt32.ofNat (8 * (position.val % 4))).toUInt8

end ReplicaRing.Hash.Blake3

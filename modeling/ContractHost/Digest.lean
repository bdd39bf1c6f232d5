import ContractHost.FormatError
/-!
# Digests

The 32 bytes that a byte string hashes to, and their hexadecimal text.
-/
namespace ContractHost

/-! ## The BLAKE3 tree hash

Input is cut into chunks of 1024 bytes, a chunk into blocks of 64. The compression function mixes a chaining value of
eight words with a block of sixteen. The chunks are the leaves of a binary tree whose left subtrees are full; the digest
is the root's output.
-/

namespace TreeHash

abbrev Chain := Vector UInt32 8

/-- A block of message words, or the state of the compression function. -/
abbrev Block := Vector UInt32 16

def start : Chain :=
  #v[0x6a09e667, 0xbb67ae85, 0x3c6ef372, 0xa54ff53a, 0x510e527f, 0x9b05688c, 0x1f83d9ab, 0x5be0cd19]

/-- Rotates a word to the right by `n` bits, `0 < n < 32`. -/
def rotate (w n : UInt32) : UInt32 :=
  (w >>> n) ||| (w <<< (32 - n))

/-- Mixes two message words into four words of the state. -/
def mix (s : Block) (a b c d : Fin 16) (x y : UInt32) : Block :=
  let wa := s[a] + s[b] + x
  let wd := rotate (s[d] ^^^ wa) 16
  let wc := s[c] + wd
  let wb := rotate (s[b] ^^^ wc) 12
  let wa := wa + wb + y
  let wd := rotate (wd ^^^ wa) 8
  let wc := wc + wd
  let wb := rotate (wb ^^^ wc) 7
  (((s.set a wa).set b wb).set c wc).set d wd

def round (s m : Block) : Block :=
  let s := mix s 0 4 8 12 m[0] m[1]
  let s := mix s 1 5 9 13 m[2] m[3]
  let s := mix s 2 6 10 14 m[4] m[5]
  let s := mix s 3 7 11 15 m[6] m[7]
  let s := mix s 0 5 10 15 m[8] m[9]
  let s := mix s 1 6 11 12 m[10] m[11]
  let s := mix s 2 7 8 13 m[12] m[13]
  mix s 3 4 9 14 m[14] m[15]

/-- The order in which the next round takes the message words. -/
def permute (m : Block) : Block :=
  #v[m[2], m[6], m[3], m[10], m[7], m[0], m[4], m[13], m[1], m[11], m[12], m[5], m[9], m[14], m[15], m[8]]

/-- A number of rounds, the message permuted between them. -/
def rounds : Nat → Block → Block → Block
  | 0, s, _ => s
  | n + 1, s, m => rounds n (round s m) (permute m)

/-- What is compressed at one place of the tree. -/
structure Node where
  chain : Chain
  block : Block
  /-- The number of the chunk, zero for an inner node. -/
  counter : UInt64
  /-- Bytes of the block that carry data. -/
  size : UInt32
  flags : UInt32

namespace Node

/-- Marks the first block of a chunk. -/
def chunkStart : UInt32 := 1

/-- Marks the last block of a chunk. -/
def chunkEnd : UInt32 := 2

/-- Marks an inner node. -/
def inner : UInt32 := 4

/-- Marks the root. -/
def top : UInt32 := 8

/-- The first half of the compression function's output. -/
def output (n : Node) : Chain :=
  let h := n.chain
  let s : Block :=
    #v[h[0], h[1], h[2], h[3], h[4], h[5], h[6], h[7], start[0], start[1], start[2], start[3],
       n.counter.toUInt32, (n.counter >>> 32).toUInt32, n.size, n.flags]
  let s := rounds 7 s n.block
  #v[s[0] ^^^ s[8], s[1] ^^^ s[9], s[2] ^^^ s[10], s[3] ^^^ s[11],
     s[4] ^^^ s[12], s[5] ^^^ s[13], s[6] ^^^ s[14], s[7] ^^^ s[15]]

def join (l r : Node) : Node :=
  { chain := start, block := l.output ++ r.output, counter := 0, size := 64, flags := inner }

end Node

def word (a b c d : UInt8) : UInt32 :=
  a.toUInt32 ||| (b.toUInt32 <<< 8) ||| (c.toUInt32 <<< 16) ||| (d.toUInt32 <<< 24)

/-- Words of bytes in groups of four; a last group that is shorter is filled up with zeros. -/
def words : List UInt8 → List UInt32
  | a :: b :: c :: d :: rest => word a b c d :: words rest
  | [a, b, c] => [word a b c 0]
  | [a, b] => [word a b 0 0]
  | [a] => [word a 0 0 0]
  | [] => []

/-- At most 64 bytes as a block, filled up with zeros. -/
def block (b : List UInt8) : Block :=
  let ws := (words b).toArray
  Vector.ofFn fun i => ws.getD i 0

/-- Compresses the blocks of a chunk in turn; the last one is left as a node. -/
def chunkNode (counter : UInt64) : UInt32 → Chain → List (List UInt8) → Node
  | flags, chain, [] => { chain, block := block [], counter, size := 0, flags := flags ||| Node.chunkEnd }
  | flags, chain, [b] =>
    { chain, block := block b, counter, size := UInt32.ofNat b.length, flags := flags ||| Node.chunkEnd }
  | flags, chain, b :: rest =>
    let node : Node := { chain, block := block b, counter, size := UInt32.ofNat b.length, flags }
    chunkNode counter 0 node.output rest

def leaf (counter : Nat) (chunk : List UInt8) : Node :=
  chunkNode (UInt64.ofNat counter) Node.chunkStart start (pieces 64 chunk)

/-- Joins neighbours; an odd one at the end moves up as it is. -/
def joinPairs : List Node → List Node
  | l :: r :: rest => l.join r :: joinPairs rest
  | rest => rest

theorem length_joinPairs_le (ns : List Node) : (joinPairs ns).length ≤ ns.length := by
  fun_induction joinPairs ns with
  | case1 l r rest ih => simp only [List.length_cons]; omega
  | case2 rest => exact Nat.le_refl _

/-- Joins neighbours level by level until one node is left. -/
def root : List Node → Node
  | [] => leaf 0 []
  | [n] => n
  | l :: r :: rest => root (l.join r :: joinPairs rest)
termination_by ns => ns.length
decreasing_by
  have := length_joinPairs_le rest
  simp only [List.length_cons]
  omega

/-- The bytes of a word, least significant first. -/
def wordBytes (w : UInt32) : List UInt8 :=
  [w.toUInt8, (w >>> 8).toUInt8, (w >>> 16).toUInt8, (w >>> 24).toUInt8]

def hash (b : List UInt8) : Bytes :=
  let n := root ((pieces 1024 b).mapIdx leaf)
  ({ n with flags := n.flags ||| Node.top } : Node).output.toList.flatMap wordBytes

theorem length_hash (b : List UInt8) : (hash b).length = 32 := by
  simp only [hash, List.length_flatMap, wordBytes, List.length_cons, List.length_nil, List.map_const',
    Vector.length_toList]
  rfl

end TreeHash

/-! ## Digests and their text -/

structure Digest where
  bytes : Bytes
  length_eq : bytes.length = 32
  deriving DecidableEq

namespace Digest

def of (b : List UInt8) : Digest :=
  ⟨TreeHash.hash b, TreeHash.length_hash b⟩

def ofParts (parts : List Bytes) : Digest :=
  of parts.flatten

def ofBytes (b : List UInt8) : Except FormatError Digest :=
  if h : b.length = 32 then .ok ⟨b, h⟩ else .error (.digestLength b.length)

def isZero (d : Digest) : Bool :=
  d.bytes.all (· == 0)

def hex (d : Digest) : String :=
  Hex.encode d.bytes

def text (d : Digest) : String :=
  "0x" ++ d.hex

def ofText (s : String) : Except FormatError Digest :=
  let digits := match s.toList with
    | '0' :: 'x' :: rest => String.ofList rest
    | '0' :: 'X' :: rest => String.ofList rest
    | _ => s
  match Hex.decode digits with
  | .error e => .error (.hex e)
  | .ok b => ofBytes b

end Digest

end ContractHost

/-!
# Random words

A stream of 32-bit words from a 64-bit seed: blocks of ChaCha with twelve rounds, in order, under a
key that is spread from the seed.
-/
namespace ClauseTriage.Random

/-- Sixteen words. -/
abbrev State := Vector UInt32 16

def rotate (x n : UInt32) : UInt32 := (x <<< n) ||| (x >>> (32 - n))

/-- Mixes four words of a state. -/
def quarter (a b c d : Fin 16) (s : State) : State :=
  let s := s.set a (s[a] + s[b])
  let s := s.set d (rotate (s[d] ^^^ s[a]) 16)
  let s := s.set c (s[c] + s[d])
  let s := s.set b (rotate (s[b] ^^^ s[c]) 12)
  let s := s.set a (s[a] + s[b])
  let s := s.set d (rotate (s[d] ^^^ s[a]) 8)
  let s := s.set c (s[c] + s[d])
  s.set b (rotate (s[b] ^^^ s[c]) 7)

/-- A round over the columns and one over the diagonals. -/
def doubleRound (s : State) : State :=
  let s := quarter 0 4 8 12 s
  let s := quarter 1 5 9 13 s
  let s := quarter 2 6 10 14 s
  let s := quarter 3 7 11 15 s
  let s := quarter 0 5 10 15 s
  let s := quarter 1 6 11 12 s
  let s := quarter 2 7 8 13 s
  quarter 3 4 9 14 s

/-- `n` times the same step. -/
def iterate (f : State → State) : Nat → State → State
  | 0, s => s
  | n + 1, s => iterate f n (f s)

/-- Constants, key, block number and an empty nonce. -/
def start (key : Vector UInt32 8) (block : UInt64) : State :=
  #v[0x61707865, 0x3320646e, 0x79622d32, 0x6b206574, key[0], key[1], key[2], key[3], key[4], key[5],
    key[6], key[7], block.toUInt32, (block >>> 32).toUInt32, 0, 0]

/-- Twelve rounds, added to where they began. -/
def block (key : Vector UInt32 8) (n : UInt64) : State :=
  let s := start key n
  Vector.zipWith (· + ·) (iterate doubleRound 6 s) s

/-- Words to come: those left of a block, then all blocks from a number on. -/
structure Stream where
  key : Vector UInt32 8
  next : UInt64
  buffered : List UInt32

/-- One step of the generator that spreads a seed. -/
def spread (s : UInt64) : UInt64 := s * 6364136223846793005 + 11634580027462260723

/-- The word of a generator state. -/
def spreadWord (s : UInt64) : UInt32 :=
  let x := (((s >>> 18) ^^^ s) >>> 27).toUInt32
  let r := (s >>> 59).toUInt32
  (x >>> r) ||| (x <<< ((32 - r) &&& 31))

/-- Words of successive generator states. -/
def keyWords : Nat → UInt64 → List UInt32
  | 0, _ => []
  | n + 1, s => spreadWord (spread s) :: keyWords n (spread s)

/-- The stream of a seed. -/
def Stream.ofSeed (seed : UInt64) : Stream :=
  let words := keyWords 8 seed
  ⟨Vector.ofFn fun i => words.getD i 0, 0, []⟩

/-- A computation that draws from a stream. -/
abbrev Draw := StateM Stream

/-- The next word. -/
def word32 : Draw UInt32 := fun s =>
  match s.buffered with
  | w :: rest => (w, { s with buffered := rest })
  | [] =>
    let words := block s.key s.next
    (words[0], { s with next := s.next + 1, buffered := words.toList.tail })

/-- The next two words, the low one first. -/
def word64 : Draw UInt64 := do
  let low ← word32
  let high ← word32
  return low.toUInt64 ||| (high.toUInt64 <<< 32)

end ClauseTriage.Random

/-!
# A seeded stream of draws

The draws that belong to a 64-bit seed: the key stream of the ChaCha cipher with twelve rounds, its
key expanded from the seed by a congruential generator, read 64 bits at a time. Every draw is
computed from its position alone.
-/

namespace Spintax.ChaCha

/-- The sixteen words a block is computed on. -/
abbrev Block := Vector UInt32 16

/-- Rotate a word left. -/
def rotateLeft (word amount : UInt32) : UInt32 :=
  (word <<< amount) ||| (word >>> (32 - amount))

/-- Mix four words of a block. -/
def quarterRound (block : Block) (a b c d : Fin 16) : Block :=
  let wa := block[a] + block[b]
  let wd := rotateLeft (block[d] ^^^ wa) 16
  let wc := block[c] + wd
  let wb := rotateLeft (block[b] ^^^ wc) 12
  let wa := wa + wb
  let wd := rotateLeft (wd ^^^ wa) 8
  let wc := wc + wd
  let wb := rotateLeft (wb ^^^ wc) 7
  (((block.set a wa).set b wb).set c wc).set d wd

/-- One round over the columns and one over the diagonals. -/
def doubleRound (block : Block) : Block :=
  let block := quarterRound block 0 4 8 12
  let block := quarterRound block 1 5 9 13
  let block := quarterRound block 2 6 10 14
  let block := quarterRound block 3 7 11 15
  let block := quarterRound block 0 5 10 15
  let block := quarterRound block 1 6 11 12
  let block := quarterRound block 2 7 8 13
  quarterRound block 3 4 9 14

/-- Apply a number of double rounds. -/
def doubleRounds : Nat → Block → Block
  | 0, block => block
  | count + 1, block => doubleRounds count (doubleRound block)

/-- The block of a key and a counter before mixing: constants, key, counter, zeros. -/
def initial (key : Vector UInt32 8) (counter : UInt64) : Block :=
  #v[0x61707865, 0x3320646e, 0x79622d32, 0x6b206574,
    key[0], key[1], key[2], key[3], key[4], key[5], key[6], key[7],
    counter.toUInt32, (counter >>> 32).toUInt32, 0, 0]

/-- The key stream block of a counter: six double rounds, added to the block they began with. -/
def keyBlock (key : Vector UInt32 8) (counter : UInt64) : Block :=
  let start := initial key counter
  (doubleRounds 6 start).zipWith (· + ·) start

/-- The next state of the generator that expands seeds. -/
def advance (state : UInt64) : UInt64 :=
  state * 6364136223846793005 + 11634580027462260723

/-- The word a generator state gives: its high bits, folded and rotated. -/
def permute (state : UInt64) : UInt32 :=
  let folded := (((state >>> 18) ^^^ state) >>> 27).toUInt32
  let amount := (state >>> 59).toUInt32
  (folded >>> amount) ||| (folded <<< ((32 - amount) % 32))

/-- The first words that a generator state leads to. -/
def expand : Nat → UInt64 → List UInt32
  | 0, _ => []
  | count + 1, state => permute (advance state) :: expand count (advance state)

/-- The key of a seed. -/
def key (seed : UInt64) : Vector UInt32 8 :=
  Vector.ofFn fun i => (expand 8 seed).getD i 0

/-- The draw at a position: two consecutive words of the key stream, the low half first. -/
def draw (key : Vector UInt32 8) (position : Nat) : UInt64 :=
  let block := keyBlock key (UInt64.ofNat (position / 8))
  let low := block.toList.getD (2 * (position % 8)) 0
  let high := block.toList.getD (2 * (position % 8) + 1) 0
  low.toUInt64 ||| (high.toUInt64 <<< 32)

end Spintax.ChaCha

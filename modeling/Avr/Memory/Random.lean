/-!
Contract: the reproducible byte stream that fills memory.

Owns:
- expansion of a 64-bit seed to a key of eight words;
- the ChaCha block function with twelve rounds;
- the stream of bytes that belongs to a seed.
-/

namespace Avr.Memory.Random

/-- Rotate a word to the right. Shifts count modulo 32, so a rotation by zero changes nothing. -/
def rotateRight (word count : UInt32) : UInt32 :=
  (word >>> count) ||| (word <<< (32 - count))

def rotateLeft (word count : UInt32) : UInt32 :=
  rotateRight word (32 - count)

/-- One step of the 64-bit linear generator that expands a seed. -/
def advanceSeed (state : UInt64) : UInt64 :=
  state * 6364136223846793005 + 11634580027462260723

/-- The word that an expanded seed state stands for. -/
def seedWord (state : UInt64) : UInt32 :=
  rotateRight (((state >>> 18) ^^^ state) >>> 27).toUInt32 (state >>> 59).toUInt32

/-- The next `count` words of an expanding seed. -/
def expandSeed : Nat → UInt64 → List UInt32
  | 0, _ => []
  | count + 1, state =>
      let next := advanceSeed state
      seedWord next :: expandSeed count next

def keyOfSeed (seed : UInt64) : List UInt32 :=
  expandSeed 8 seed

/-- The mixing step of four words of a block. -/
def quarterRound (block : Vector UInt32 16) (a b c d : Fin 16) : Vector UInt32 16 :=
  let block := block.set a (block[a] + block[b])
  let block := block.set d (rotateLeft (block[d] ^^^ block[a]) 16)
  let block := block.set c (block[c] + block[d])
  let block := block.set b (rotateLeft (block[b] ^^^ block[c]) 12)
  let block := block.set a (block[a] + block[b])
  let block := block.set d (rotateLeft (block[d] ^^^ block[a]) 8)
  let block := block.set c (block[c] + block[d])
  block.set b (rotateLeft (block[b] ^^^ block[c]) 7)

/-- A round over the columns and one over the diagonals. -/
def doubleRound (block : Vector UInt32 16) : Vector UInt32 16 :=
  let block := quarterRound block 0 4 8 12
  let block := quarterRound block 1 5 9 13
  let block := quarterRound block 2 6 10 14
  let block := quarterRound block 3 7 11 15
  let block := quarterRound block 0 5 10 15
  let block := quarterRound block 1 6 11 12
  let block := quarterRound block 2 7 8 13
  quarterRound block 3 4 9 14

/-- The block before mixing: four constants, the key, a 64-bit counter and stream zero. -/
def initialBlock (key : List UInt32) (counter : Nat) : Vector UInt32 16 :=
  let constants : List UInt32 := [0x61707865, 0x3320646e, 0x79622d32, 0x6b206574]
  let tail : List UInt32 := [UInt32.ofNat counter, UInt32.ofNat (counter / 0x100000000), 0, 0]
  Vector.ofFn fun i => (constants ++ key ++ tail).getD i.val 0

/-- The sixteen output words of one counter value. -/
def outputBlock (key : List UInt32) (counter : Nat) : List UInt32 :=
  let start := initialBlock key counter
  let mixed := Nat.repeat doubleRound 6 start
  (mixed.zipWith (· + ·) start).toList

/-- The first `count` bytes of a seed: the low byte of each output word. -/
def bytes (seed : UInt64) (count : Nat) : List UInt8 :=
  let key := keyOfSeed seed
  let words := (List.range ((count + 15) / 16)).flatMap (outputBlock key)
  (words.take count).map UInt32.toUInt8

theorem length_bytes (seed : UInt64) (count : Nat) : (bytes seed count).length = count := by
  have blocks : ((List.range ((count + 15) / 16)).flatMap (outputBlock (keyOfSeed seed))).length =
      (count + 15) / 16 * 16 := by
    simp [List.length_flatMap, outputBlock, List.map_const']
  rw [bytes, List.length_map, List.length_take, blocks]
  omega

end Avr.Memory.Random

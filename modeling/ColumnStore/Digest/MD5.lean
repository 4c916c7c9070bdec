import ColumnStore.Digest.LittleEndian

/-!
# MD5

The message digest MD5 (`MD5.hash`): the padded message is compressed in blocks of sixteen
words, each in sixty-four steps, into a state of four words.
-/

namespace ColumnStore.MD5

/-- The four words that the message is compressed into. -/
structure State where
  a : UInt32
  b : UInt32
  c : UInt32
  d : UInt32

/-- The state before the first block. -/
def initial : State := ⟨0x67452301, 0xefcdab89, 0x98badcfe, 0x10325476⟩

/-- The words added in the steps: the first thirty-two bits of the fraction of `|sin (i + 1)|`. -/
def sines : Array UInt32 :=
  #[0xd76aa478, 0xe8c7b756, 0x242070db, 0xc1bdceee, 0xf57c0faf, 0x4787c62a,
    0xa8304613, 0xfd469501, 0x698098d8, 0x8b44f7af, 0xffff5bb1, 0x895cd7be,
    0x6b901122, 0xfd987193, 0xa679438e, 0x49b40821, 0xf61e2562, 0xc040b340,
    0x265e5a51, 0xe9b6c7aa, 0xd62f105d, 0x02441453, 0xd8a1e681, 0xe7d3fbc8,
    0x21e1cde6, 0xc33707d6, 0xf4d50d87, 0x455a14ed, 0xa9e3e905, 0xfcefa3f8,
    0x676f02d9, 0x8d2a4c8a, 0xfffa3942, 0x8771f681, 0x6d9d6122, 0xfde5380c,
    0xa4beea44, 0x4bdecfa9, 0xf6bb4b60, 0xbebfbc70, 0x289b7ec6, 0xeaa127fa,
    0xd4ef3085, 0x04881d05, 0xd9d4d039, 0xe6db99e5, 0x1fa27cf8, 0xc4ac5665,
    0xf4292244, 0x432aff97, 0xab9423a7, 0xfc93a039, 0x655b59c3, 0x8f0ccc92,
    0xffeff47d, 0x85845dd1, 0x6fa87e4f, 0xfe2ce6e0, 0xa3014314, 0x4e0811a1,
    0xf7537e82, 0xbd3af235, 0x2ad7d2bb, 0xeb86d391]

/-- The bits that the steps rotate by, four of them in turn in each of the four rounds. -/
def rotations : Array UInt32 := #[7, 12, 17, 22, 5, 9, 14, 20, 4, 11, 16, 23, 6, 10, 15, 21]

/-- Rotates a word to the left by less than all of its bits, but by some. -/
def rotateLeft (x n : UInt32) : UInt32 := (x <<< n) ||| (x >>> (32 - n))

/-- The mix of three words in a round, and the word of the block that a step of it takes. -/
def mix (s : State) (i : Nat) : UInt32 × Nat :=
  match i / 16 with
  | 0 => ((s.b &&& s.c) ||| (~~~s.b &&& s.d), i)
  | 1 => ((s.d &&& s.b) ||| (~~~s.d &&& s.c), 5 * i + 1)
  | 2 => (s.b ^^^ s.c ^^^ s.d, 3 * i + 5)
  | _ => (s.c ^^^ (s.b ||| ~~~s.d), 7 * i)

/-- The step of the given number on a block. -/
def step (block : Array UInt32) (s : State) (i : Nat) : State :=
  let (f, k) := mix s i
  let x := s.a + f + sines.getD i 0 + block.getD (k % 16) 0
  ⟨s.d, s.b + rotateLeft x (rotations.getD (i / 16 * 4 + i % 4) 0), s.b, s.c⟩

/-- Compresses a block into the state. -/
def compress (s : State) (block : Array UInt32) : State :=
  let t := (List.range 64).foldl (step block) s
  ⟨s.a + t.a, s.b + t.b, s.c + t.c, s.d + t.d⟩

/-- The message with a one bit, zeros, and its length in bits, in whole blocks. -/
def padded (message : List UInt8) : Array UInt8 :=
  let size := message.length
  -- Up to eight bytes before the end of a block, where the length goes.
  let zeros := (119 - size % 64) % 64
  (message ++ 0x80 :: (List.replicate zeros 0 ++ littleEndian 8 (8 * size))).toArray

/-- The word at a position of a message in bytes. -/
def wordAt (bytes : Array UInt8) (i : Nat) : UInt32 :=
  let byte (k : Nat) : UInt32 := (bytes.getD (4 * i + k) 0).toUInt32
  byte 0 ||| byte 1 <<< 8 ||| byte 2 <<< 16 ||| byte 3 <<< 24

/-- The sixteen words of the block of the given number. -/
def blockAt (bytes : Array UInt8) (n : Nat) : Array UInt32 :=
  .ofFn fun i : Fin 16 => wordAt bytes (16 * n + i)

/-- The sixteen bytes of the digest. -/
def hash (message : List UInt8) : List UInt8 :=
  let bytes := padded message
  let s := (List.range (bytes.size / 64)).foldl (fun s n => compress s (blockAt bytes n)) initial
  [s.a, s.b, s.c, s.d].flatMap fun word => littleEndian 4 word.toNat

end ColumnStore.MD5

/-
  Courier/Digest/Md5.lean
  =======================
  **The MD5 digest of a sequence of bytes.**

  Queue names are spread over shards by the MD5 digest of their UTF-8 bytes.  The
  message is padded to blocks of 64 bytes with a one bit, zeros and its length in
  bits; each block runs 64 rounds over four words of 32 bits.
-/

namespace Courier.Digest

/-! ### Constants -/

/-- The additive constants, the integer parts of 2^32 · |sin (i + 1)|. -/
def md5Sines : Array UInt32 := #[
  0xd76aa478, 0xe8c7b756, 0x242070db, 0xc1bdceee, 0xf57c0faf, 0x4787c62a, 0xa8304613, 0xfd469501,
  0x698098d8, 0x8b44f7af, 0xffff5bb1, 0x895cd7be, 0x6b901122, 0xfd987193, 0xa679438e, 0x49b40821,
  0xf61e2562, 0xc040b340, 0x265e5a51, 0xe9b6c7aa, 0xd62f105d, 0x02441453, 0xd8a1e681, 0xe7d3fbc8,
  0x21e1cde6, 0xc33707d6, 0xf4d50d87, 0x455a14ed, 0xa9e3e905, 0xfcefa3f8, 0x676f02d9, 0x8d2a4c8a,
  0xfffa3942, 0x8771f681, 0x6d9d6122, 0xfde5380c, 0xa4beea44, 0x4bdecfa9, 0xf6bb4b60, 0xbebfbc70,
  0x289b7ec6, 0xeaa127fa, 0xd4ef3085, 0x04881d05, 0xd9d4d039, 0xe6db99e5, 0x1fa27cf8, 0xc4ac5665,
  0xf4292244, 0x432aff97, 0xab9423a7, 0xfc93a039, 0x655b59c3, 0x8f0ccc92, 0xffeff47d, 0x85845dd1,
  0x6fa87e4f, 0xfe2ce6e0, 0xa3014314, 0x4e0811a1, 0xf7537e82, 0xbd3af235, 0x2ad7d2bb, 0xeb86d391]

/-- How far a round rotates: four amounts for each quarter of the rounds. -/
def md5Rotations : Array UInt32 := #[7, 12, 17, 22, 5, 9, 14, 20, 4, 11, 16, 23, 6, 10, 15, 21]

/-! ### Padding -/

/-- The bytes of a number of 64 bits, lowest first. -/
def littleEndian64 (n : Nat) : List UInt8 :=
  (List.range 8).map fun i => UInt8.ofNat (n / Nat.pow 256 i % 256)

/-- A message with its padding, a multiple of 64 bytes. -/
def md5Padded (message : List UInt8) : List UInt8 :=
  let length := message.length
  message ++ 0x80 :: List.replicate ((119 - length % 64) % 64) 0 ++ littleEndian64 (length * 8)

/-- The words of a block, each from four bytes, lowest first. -/
def md5Words : List UInt8 → List UInt32
  | a :: b :: c :: d :: rest =>
    (a.toUInt32 ||| b.toUInt32 <<< 8 ||| c.toUInt32 <<< 16 ||| d.toUInt32 <<< 24) :: md5Words rest
  | _ => []

/-! ### Rounds -/

/-- The four words that the rounds transform. -/
structure Md5State where
  a : UInt32
  b : UInt32
  c : UInt32
  d : UInt32
deriving DecidableEq, Repr

namespace Md5State

/-- The state before the first block. -/
def start : Md5State := ⟨0x67452301, 0xefcdab89, 0x98badcfe, 0x10325476⟩

/-- One of the 64 rounds over the words of a block. -/
def round (words : Array UInt32) (s : Md5State) (i : Nat) : Md5State :=
  let (mixed, index) :=
    if i < 16 then ((s.b &&& s.c) ||| (~~~s.b &&& s.d), i)
    else if i < 32 then ((s.d &&& s.b) ||| (~~~s.d &&& s.c), (5 * i + 1) % 16)
    else if i < 48 then (s.b ^^^ s.c ^^^ s.d, (3 * i + 5) % 16)
    else (s.c ^^^ (s.b ||| ~~~s.d), 7 * i % 16)
  let sum := s.a + mixed + md5Sines.getD i 0 + words.getD index 0
  let by_ := md5Rotations.getD (i / 16 * 4 + i % 4) 0
  ⟨s.d, s.b + (sum <<< by_ ||| sum >>> (32 - by_)), s.b, s.c⟩

/-- All rounds over one block, added to the state before them. -/
def block (s : Md5State) (words : Array UInt32) : Md5State :=
  let t := (List.range 64).foldl (round words) s
  ⟨s.a + t.a, s.b + t.b, s.c + t.c, s.d + t.d⟩

/-- All blocks of a padded message, as words; the first argument bounds their number. -/
def blocks : Nat → Md5State → List UInt32 → Md5State
  | 0, s, _ => s
  | n + 1, s, words =>
    if words.isEmpty then s else blocks n (s.block (words.take 16).toArray) (words.drop 16)

/-- The bytes of the state, lowest first. -/
def bytes (s : Md5State) : List UInt8 :=
  [s.a, s.b, s.c, s.d].flatMap fun (w : UInt32) =>
    [w.toUInt8, (w >>> 8).toUInt8, (w >>> 16).toUInt8, (w >>> 24).toUInt8]

end Md5State

/-- The sixteen bytes of the MD5 digest of a message. -/
def md5 (message : List UInt8) : List UInt8 :=
  let words := md5Words (md5Padded message)
  (Md5State.blocks words.length .start words).bytes

end Courier.Digest

import FederationGraph.Text.Hexadecimal

/-!
# MD5 digests

The digest of a run of bytes: the bytes are filled up to whole blocks of sixteen
words, and each block stirs a state of four words in sixty-four rounds. Stored
files are named after the digest of what they are about, so that any text makes
a file name.
-/
namespace FederationGraph.Digest

/-- The state of a digest. -/
structure State where
  a : UInt32
  b : UInt32
  c : UInt32
  d : UInt32
  deriving DecidableEq, Repr

/-- The state in front of the first block. -/
def State.start : State := ⟨0x67452301, 0xefcdab89, 0x98badcfe, 0x10325476⟩

/-- The constants that the rounds add: the sines of 1 to 64 as fractions of a word. -/
def roundConstants : Array UInt32 := #[
  0xd76aa478, 0xe8c7b756, 0x242070db, 0xc1bdceee, 0xf57c0faf, 0x4787c62a, 0xa8304613, 0xfd469501,
  0x698098d8, 0x8b44f7af, 0xffff5bb1, 0x895cd7be, 0x6b901122, 0xfd987193, 0xa679438e, 0x49b40821,
  0xf61e2562, 0xc040b340, 0x265e5a51, 0xe9b6c7aa, 0xd62f105d, 0x02441453, 0xd8a1e681, 0xe7d3fbc8,
  0x21e1cde6, 0xc33707d6, 0xf4d50d87, 0x455a14ed, 0xa9e3e905, 0xfcefa3f8, 0x676f02d9, 0x8d2a4c8a,
  0xfffa3942, 0x8771f681, 0x6d9d6122, 0xfde5380c, 0xa4beea44, 0x4bdecfa9, 0xf6bb4b60, 0xbebfbc70,
  0x289b7ec6, 0xeaa127fa, 0xd4ef3085, 0x04881d05, 0xd9d4d039, 0xe6db99e5, 0x1fa27cf8, 0xc4ac5665,
  0xf4292244, 0x432aff97, 0xab9423a7, 0xfc93a039, 0x655b59c3, 0x8f0ccc92, 0xffeff47d, 0x85845dd1,
  0x6fa87e4f, 0xfe2ce6e0, 0xa3014314, 0x4e0811a1, 0xf7537e82, 0xbd3af235, 0x2ad7d2bb, 0xeb86d391]

/-- The distances of the rotations, which repeat in fours for each quarter of the rounds. -/
def rotations : Array (Array UInt32) :=
  #[#[7, 12, 17, 22], #[5, 9, 14, 20], #[4, 11, 16, 23], #[6, 10, 15, 21]]

/-- A word rotated to the left. -/
def rotate (x distance : UInt32) : UInt32 := (x <<< distance) ||| (x >>> (32 - distance))

/-- How a round mixes three words, and which word of the block it takes. -/
def mix (round : Nat) (s : State) : UInt32 × Nat :=
  match round / 16 with
  | 0 => ((s.b &&& s.c) ||| (~~~s.b &&& s.d), round)
  | 1 => ((s.d &&& s.b) ||| (~~~s.d &&& s.c), (5 * round + 1) % 16)
  | 2 => (s.b ^^^ s.c ^^^ s.d, (3 * round + 5) % 16)
  | _ => (s.c ^^^ (s.b ||| ~~~s.d), (7 * round) % 16)

/-- One round on a block. -/
def stir (block : Array UInt32) (s : State) (round : Nat) : State :=
  let (mixed, word) := mix round s
  let sum := s.a + mixed + (roundConstants[round]?.getD 0) + (block[word]?.getD 0)
  let distance := ((rotations[round / 16]?.getD #[])[round % 4]?).getD 0
  ⟨s.d, s.b + rotate sum distance, s.b, s.c⟩

/-- The state behind a block. -/
def absorb (s : State) (block : Array UInt32) : State :=
  let t := (List.range 64).foldl (stir block) s
  ⟨s.a + t.a, s.b + t.b, s.c + t.c, s.d + t.d⟩

/-- Some low bytes of a number, the lowest first. -/
def lowBytes : Nat → Nat → List UInt8
  | 0, _ => []
  | count + 1, n => n.toUInt8 :: lowBytes count (n / 256)

/-- The bytes filled up to whole blocks: a mark, zeros, and the number of bits. -/
def padded (bytes : List UInt8) : List UInt8 :=
  let length := bytes.length
  let zeros := (119 - length % 64) % 64
  bytes ++ 0x80 :: List.replicate zeros 0 ++ lowBytes 8 (8 * length)

/-- The words that bytes make up, four each, the lowest byte first. -/
def words : List UInt8 → List UInt32
  | a :: b :: c :: d :: rest =>
    (a.toUInt32 ||| (b.toUInt32 <<< 8) ||| (c.toUInt32 <<< 16) ||| (d.toUInt32 <<< 24)) ::
      words rest
  | _ => []

/-- The state behind all blocks of words. -/
def absorbAll (s : State) (ws : List UInt32) : State :=
  if _h : ws.length < 16 then s
  else absorbAll (absorb s (ws.take 16).toArray) (ws.drop 16)
termination_by ws.length
decreasing_by simp only [List.length_drop]; omega

/-- The digest of bytes. -/
def digest (bytes : List UInt8) : List UInt8 :=
  let s := absorbAll .start (words (padded bytes))
  [s.a, s.b, s.c, s.d].flatMap fun word => lowBytes 4 word.toNat

/-- The digest of a text in hexadecimal. -/
def md5 (text : String) : String :=
  String.ofList ((digest text.toUTF8.toList).flatMap fun byte => Text.hex 2 byte.toNat)

end FederationGraph.Digest

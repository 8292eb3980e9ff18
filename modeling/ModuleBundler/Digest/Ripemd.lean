import ModuleBundler.Digest.Bytes

/-! RIPEMD-160: two lines of eighty steps on five little-endian 32-bit words for
each block of sixty-four bytes. The lines run side by side over the words of the
block in different orders, with the mixing functions of one in the opposite order
of the other, and are added up crosswise. -/
namespace ModuleBundler.Digest.Ripemd

structure State where
  a : UInt32
  b : UInt32
  c : UInt32
  d : UInt32
  e : UInt32

def initial : State := ⟨0x67452301, 0xefcdab89, 0x98badcfe, 0x10325476, 0xc3d2e1f0⟩

/-- What one of the two lines is made of, by step or by round of sixteen steps. -/
structure Line where
  /-- The word of the block that a step takes. -/
  words : Array Nat
  shifts : Array UInt32
  constants : Array UInt32
  /-- The mixing functions of the rounds. -/
  mixers : Array Nat

def leftLine : Line where
  words := #[0, 1, 2, 3, 4, 5, 6, 7, 8, 9, 10, 11, 12, 13, 14, 15,
    7, 4, 13, 1, 10, 6, 15, 3, 12, 0, 9, 5, 2, 14, 11, 8,
    3, 10, 14, 4, 9, 15, 8, 1, 2, 7, 0, 6, 13, 11, 5, 12,
    1, 9, 11, 10, 0, 8, 12, 4, 13, 3, 7, 15, 14, 5, 6, 2,
    4, 0, 5, 9, 7, 12, 2, 10, 14, 1, 3, 8, 11, 6, 15, 13]
  shifts := #[11, 14, 15, 12, 5, 8, 7, 9, 11, 13, 14, 15, 6, 7, 9, 8,
    7, 6, 8, 13, 11, 9, 7, 15, 7, 12, 15, 9, 11, 7, 13, 12,
    11, 13, 6, 7, 14, 9, 13, 15, 14, 8, 13, 6, 5, 12, 7, 5,
    11, 12, 14, 15, 14, 15, 9, 8, 9, 14, 5, 6, 8, 6, 5, 12,
    9, 15, 5, 11, 6, 8, 13, 12, 5, 12, 13, 14, 11, 8, 5, 6]
  constants := #[0, 0x5a827999, 0x6ed9eba1, 0x8f1bbcdc, 0xa953fd4e]
  mixers := #[0, 1, 2, 3, 4]

def rightLine : Line where
  words := #[5, 14, 7, 0, 9, 2, 11, 4, 13, 6, 15, 8, 1, 10, 3, 12,
    6, 11, 3, 7, 0, 13, 5, 10, 14, 15, 8, 12, 4, 9, 1, 2,
    15, 5, 1, 3, 7, 14, 6, 9, 11, 8, 12, 2, 10, 0, 4, 13,
    8, 6, 4, 1, 3, 11, 15, 0, 5, 12, 2, 13, 9, 7, 10, 14,
    12, 15, 10, 4, 1, 5, 8, 7, 6, 2, 13, 14, 0, 3, 9, 11]
  shifts := #[8, 9, 9, 11, 13, 15, 15, 5, 7, 7, 8, 11, 14, 14, 12, 6,
    9, 13, 15, 7, 12, 8, 9, 11, 7, 7, 12, 7, 6, 15, 13, 11,
    9, 7, 15, 11, 8, 6, 6, 14, 12, 13, 5, 14, 13, 13, 7, 5,
    15, 5, 8, 11, 14, 14, 6, 14, 6, 9, 12, 9, 12, 5, 15, 8,
    8, 5, 12, 9, 12, 5, 14, 6, 8, 13, 6, 5, 15, 13, 11, 11]
  constants := #[0x50a28be6, 0x5c4dd124, 0x6d703ef3, 0x7a6d76e9, 0]
  mixers := #[4, 3, 2, 1, 0]

def rotateLeft (x distance : UInt32) : UInt32 := (x <<< distance) ||| (x >>> (32 - distance))

def mix (mixer : Nat) (x y z : UInt32) : UInt32 :=
  match mixer with
  | 0 => x ^^^ y ^^^ z
  | 1 => (x &&& y) ||| (~~~x &&& z)
  | 2 => (x ||| ~~~y) ^^^ z
  | 3 => (x &&& z) ||| (y &&& ~~~z)
  | _ => x ^^^ (y ||| ~~~z)

def step (line : Line) (block : Array UInt32) (s : State) (i : Nat) : State :=
  let round := i / 16
  let sum := s.a + mix (line.mixers.getD round 0) s.b s.c s.d +
    block.getD (line.words.getD i 0) 0 + line.constants.getD round 0
  ⟨s.e, rotateLeft sum (line.shifts.getD i 0) + s.e, s.b, rotateLeft s.c 10, s.d⟩

def compress (s : State) (block : Bytes) : State :=
  let words := ((blocks 4 block).map fun w => UInt32.ofNat (ofLittleEndian w)).toArray
  let left := (List.range 80).foldl (step leftLine words) s
  let right := (List.range 80).foldl (step rightLine words) s
  ⟨s.b + left.c + right.d, s.c + left.d + right.e, s.d + left.e + right.a,
    s.e + left.a + right.b, s.a + left.b + right.c⟩

def hash (message : Bytes) : Bytes :=
  let s := (blocks 64 (padded 64 8 littleEndian message)).foldl compress initial
  [s.a, s.b, s.c, s.d, s.e].flatMap fun w => littleEndian 4 w.toNat

end ModuleBundler.Digest.Ripemd

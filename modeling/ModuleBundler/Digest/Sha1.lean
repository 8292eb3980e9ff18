import ModuleBundler.Digest.Bytes

/-! SHA-1: eighty steps on five big-endian 32-bit words for each block of
sixty-four bytes. -/
namespace ModuleBundler.Digest.Sha1

structure State where
  a : UInt32
  b : UInt32
  c : UInt32
  d : UInt32
  e : UInt32

def initial : State := ⟨0x67452301, 0xefcdab89, 0x98badcfe, 0x10325476, 0xc3d2e1f0⟩

def rotateLeft (x distance : UInt32) : UInt32 := (x <<< distance) ||| (x >>> (32 - distance))

/-- The sixteen words of a block, extended to eighty. -/
def schedule (block : Bytes) : Array UInt32 :=
  let words := ((blocks 4 block).map fun w => UInt32.ofNat (ofBigEndian w)).toArray
  (List.range 64).foldl (fun w i =>
    w.push (rotateLeft (w.getD (i + 13) 0 ^^^ w.getD (i + 8) 0 ^^^ w.getD (i + 2) 0 ^^^
      w.getD i 0) 1)) words

/-- The mixing function and the constant of a step. -/
def mix (s : State) (i : Nat) : UInt32 × UInt32 :=
  match i / 20 with
  | 0 => ((s.b &&& s.c) ||| (~~~s.b &&& s.d), 0x5a827999)
  | 1 => (s.b ^^^ s.c ^^^ s.d, 0x6ed9eba1)
  | 2 => ((s.b &&& s.c) ||| (s.b &&& s.d) ||| (s.c &&& s.d), 0x8f1bbcdc)
  | _ => (s.b ^^^ s.c ^^^ s.d, 0xca62c1d6)

def step (words : Array UInt32) (s : State) (i : Nat) : State :=
  let (mixed, constant) := mix s i
  let sum := rotateLeft s.a 5 + mixed + s.e + constant + words.getD i 0
  ⟨sum, s.a, rotateLeft s.b 30, s.c, s.d⟩

def compress (s : State) (block : Bytes) : State :=
  let t := (List.range 80).foldl (step (schedule block)) s
  ⟨s.a + t.a, s.b + t.b, s.c + t.c, s.d + t.d, s.e + t.e⟩

def hash (message : Bytes) : Bytes :=
  let s := (blocks 64 (padded 64 8 bigEndian message)).foldl compress initial
  [s.a, s.b, s.c, s.d, s.e].flatMap fun w => bigEndian 4 w.toNat

end ModuleBundler.Digest.Sha1

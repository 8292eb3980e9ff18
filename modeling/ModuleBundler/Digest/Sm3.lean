import ModuleBundler.Digest.Bytes

/-! SM3: sixty-four steps on eight big-endian 32-bit words for each block of
sixty-four bytes. -/
namespace ModuleBundler.Digest.Sm3

def initial : List UInt32 := [
    0x7380166f, 0x4914b2b9, 0x172442d7, 0xda8a0600, 0xa96f30bc, 0x163138aa,
    0xe38dee4d, 0xb0fb0e4e]

/-- The word turned left by the distance modulo its width. -/
def turn (x : UInt32) (distance : Nat) : UInt32 :=
  let left := UInt32.ofNat (distance % 32)
  (x <<< left) ||| (x >>> (32 - left))

/-- Spreads the bits of an intermediate word. -/
def spread (x : UInt32) : UInt32 := x ^^^ turn x 9 ^^^ turn x 17

/-- Spreads the bits of a word of the schedule. -/
def spreadWide (x : UInt32) : UInt32 := x ^^^ turn x 15 ^^^ turn x 23

/-- The sixteen words of a block, extended to sixty-eight. -/
def schedule (block : Bytes) : Array UInt32 :=
  let words := ((blocks 4 block).map fun w => UInt32.ofNat (ofBigEndian w)).toArray
  (List.range 52).foldl (fun w i =>
    let mixed := spreadWide (w.getD i 0 ^^^ w.getD (i + 7) 0 ^^^ turn (w.getD (i + 13) 0) 15)
    w.push (mixed ^^^ turn (w.getD (i + 3) 0) 7 ^^^ w.getD (i + 10) 0)) words

/-- The constant of a step. -/
def constant (i : Nat) : UInt32 := turn (if i < 16 then 0x79cc4519 else 0x7a879d8a) i

/-- Parity in the first sixteen steps, majority later. -/
def majority (i : Nat) (x y z : UInt32) : UInt32 :=
  if i < 16 then x ^^^ y ^^^ z else (x &&& y) ||| (x &&& z) ||| (y &&& z)

/-- Parity in the first sixteen steps, choice later. -/
def choice (i : Nat) (x y z : UInt32) : UInt32 :=
  if i < 16 then x ^^^ y ^^^ z else (x &&& y) ||| (~~~x &&& z)

def step (words : Array UInt32) (s : List UInt32) (i : Nat) : List UInt32 :=
  match s with
  | [a, b, c, d, e, f, g, h] =>
    let first := turn (turn a 12 + e + constant i) 7
    let upper := majority i a b c + d + (first ^^^ turn a 12) +
      (words.getD i 0 ^^^ words.getD (i + 4) 0)
    let lower := choice i e f g + h + first + words.getD i 0
    [upper, a, turn b 9, c, spread lower, e, turn f 19, g]
  | other => other

def compress (s : List UInt32) (block : Bytes) : List UInt32 :=
  let t := (List.range 64).foldl (step (schedule block)) s
  List.zipWith (· ^^^ ·) s t

def hash (message : Bytes) : Bytes :=
  let s := (blocks 64 (padded 64 8 bigEndian message)).foldl compress initial
  s.flatMap fun w => bigEndian 4 w.toNat

end ModuleBundler.Digest.Sm3

import ModuleBundler.Digest.Bytes

/-! SHA-2 in its two word sizes. Both share the shape of a step; they differ in
the rotations, the constants and the number of steps. The shorter digests start
from other words and drop the end. -/
namespace ModuleBundler.Digest.Sha2

/-- What the step of one word size is made of. -/
structure Family (W : Type) where
  bytes : Nat
  ofNat : Nat → W
  toNat : W → Nat
  constants : Array W
  /-- Sums of rotations of the first and the fifth word of the state. -/
  rise : W → W
  fall : W → W
  /-- Sums of rotations and a shift that extend the schedule. -/
  early : W → W
  late : W → W

variable {W : Type} [Inhabited W] [Add W] [AndOp W] [XorOp W] [Complement W]

/-- The sixteen words of a block, extended to one for each step. -/
def schedule (f : Family W) (block : Bytes) : Array W :=
  let words := ((blocks f.bytes block).map fun w => f.ofNat (ofBigEndian w)).toArray
  (List.range (f.constants.size - 16)).foldl (fun w i =>
    w.push (f.late (w.getD (i + 14) default) + w.getD (i + 9) default +
      f.early (w.getD (i + 1) default) + w.getD i default)) words

/-- One step on the eight words of the state. -/
def step (f : Family W) (words : Array W) (s : List W) (i : Nat) : List W :=
  match s with
  | [a, b, c, d, e, g, h, k] =>
    let choice := (e &&& g) ^^^ (~~~e &&& h)
    let majority := (a &&& b) ^^^ (a &&& c) ^^^ (b &&& c)
    let t := k + f.fall e + choice + f.constants.getD i default + words.getD i default
    [t + f.rise a + majority, a, b, c, d + t, e, g, h]
  | other => other

def compress (f : Family W) (s : List W) (block : Bytes) : List W :=
  let t := (List.range f.constants.size).foldl (step f (schedule f block)) s
  List.zipWith (· + ·) s t

def hash (f : Family W) (initial : List W) (size : Nat) (message : Bytes) : Bytes :=
  let s := (blocks (16 * f.bytes) (padded (16 * f.bytes) (2 * f.bytes) bigEndian message)).foldl
    (compress f) initial
  (s.flatMap fun w => bigEndian f.bytes (f.toNat w)).take size

def rotate32 (x distance : UInt32) : UInt32 := (x >>> distance) ||| (x <<< (32 - distance))

def rotate64 (x distance : UInt64) : UInt64 := (x >>> distance) ||| (x <<< (64 - distance))

/-- Fractions of the cube roots of the first sixty-four primes. -/
def constants32 : Array UInt32 := #[
    0x428a2f98, 0x71374491, 0xb5c0fbcf, 0xe9b5dba5, 0x3956c25b, 0x59f111f1,
    0x923f82a4, 0xab1c5ed5, 0xd807aa98, 0x12835b01, 0x243185be, 0x550c7dc3,
    0x72be5d74, 0x80deb1fe, 0x9bdc06a7, 0xc19bf174, 0xe49b69c1, 0xefbe4786,
    0x0fc19dc6, 0x240ca1cc, 0x2de92c6f, 0x4a7484aa, 0x5cb0a9dc, 0x76f988da,
    0x983e5152, 0xa831c66d, 0xb00327c8, 0xbf597fc7, 0xc6e00bf3, 0xd5a79147,
    0x06ca6351, 0x14292967, 0x27b70a85, 0x2e1b2138, 0x4d2c6dfc, 0x53380d13,
    0x650a7354, 0x766a0abb, 0x81c2c92e, 0x92722c85, 0xa2bfe8a1, 0xa81a664b,
    0xc24b8b70, 0xc76c51a3, 0xd192e819, 0xd6990624, 0xf40e3585, 0x106aa070,
    0x19a4c116, 0x1e376c08, 0x2748774c, 0x34b0bcb5, 0x391c0cb3, 0x4ed8aa4a,
    0x5b9cca4f, 0x682e6ff3, 0x748f82ee, 0x78a5636f, 0x84c87814, 0x8cc70208,
    0x90befffa, 0xa4506ceb, 0xbef9a3f7, 0xc67178f2]

/-- Fractions of the cube roots of the first eighty primes. -/
def constants64 : Array UInt64 := #[
    0x428a2f98d728ae22, 0x7137449123ef65cd, 0xb5c0fbcfec4d3b2f, 0xe9b5dba58189dbbc,
    0x3956c25bf348b538, 0x59f111f1b605d019, 0x923f82a4af194f9b, 0xab1c5ed5da6d8118,
    0xd807aa98a3030242, 0x12835b0145706fbe, 0x243185be4ee4b28c, 0x550c7dc3d5ffb4e2,
    0x72be5d74f27b896f, 0x80deb1fe3b1696b1, 0x9bdc06a725c71235, 0xc19bf174cf692694,
    0xe49b69c19ef14ad2, 0xefbe4786384f25e3, 0x0fc19dc68b8cd5b5, 0x240ca1cc77ac9c65,
    0x2de92c6f592b0275, 0x4a7484aa6ea6e483, 0x5cb0a9dcbd41fbd4, 0x76f988da831153b5,
    0x983e5152ee66dfab, 0xa831c66d2db43210, 0xb00327c898fb213f, 0xbf597fc7beef0ee4,
    0xc6e00bf33da88fc2, 0xd5a79147930aa725, 0x06ca6351e003826f, 0x142929670a0e6e70,
    0x27b70a8546d22ffc, 0x2e1b21385c26c926, 0x4d2c6dfc5ac42aed, 0x53380d139d95b3df,
    0x650a73548baf63de, 0x766a0abb3c77b2a8, 0x81c2c92e47edaee6, 0x92722c851482353b,
    0xa2bfe8a14cf10364, 0xa81a664bbc423001, 0xc24b8b70d0f89791, 0xc76c51a30654be30,
    0xd192e819d6ef5218, 0xd69906245565a910, 0xf40e35855771202a, 0x106aa07032bbd1b8,
    0x19a4c116b8d2d0c8, 0x1e376c085141ab53, 0x2748774cdf8eeb99, 0x34b0bcb5e19b48a8,
    0x391c0cb3c5c95a63, 0x4ed8aa4ae3418acb, 0x5b9cca4f7763e373, 0x682e6ff3d6b2b8a3,
    0x748f82ee5defb2fc, 0x78a5636f43172f60, 0x84c87814a1f0ab72, 0x8cc702081a6439ec,
    0x90befffa23631e28, 0xa4506cebde82bde9, 0xbef9a3f7b2c67915, 0xc67178f2e372532b,
    0xca273eceea26619c, 0xd186b8c721c0c207, 0xeada7dd6cde0eb1e, 0xf57d4f7fee6ed178,
    0x06f067aa72176fba, 0x0a637dc5a2c898a6, 0x113f9804bef90dae, 0x1b710b35131c471b,
    0x28db77f523047d84, 0x32caab7b40c72493, 0x3c9ebe0a15c9bebc, 0x431d67c49c100d4c,
    0x4cc5d4becb3e42b6, 0x597f299cfc657e2a, 0x5fcb6fab3ad6faec, 0x6c44198c4a475817]

def words32 : Family UInt32 where
  bytes := 4
  ofNat := UInt32.ofNat
  toNat := UInt32.toNat
  constants := constants32
  rise x := rotate32 x 2 ^^^ rotate32 x 13 ^^^ rotate32 x 22
  fall x := rotate32 x 6 ^^^ rotate32 x 11 ^^^ rotate32 x 25
  early x := rotate32 x 7 ^^^ rotate32 x 18 ^^^ (x >>> 3)
  late x := rotate32 x 17 ^^^ rotate32 x 19 ^^^ (x >>> 10)

def words64 : Family UInt64 where
  bytes := 8
  ofNat := UInt64.ofNat
  toNat := UInt64.toNat
  constants := constants64
  rise x := rotate64 x 28 ^^^ rotate64 x 34 ^^^ rotate64 x 39
  fall x := rotate64 x 14 ^^^ rotate64 x 18 ^^^ rotate64 x 41
  early x := rotate64 x 1 ^^^ rotate64 x 8 ^^^ (x >>> 7)
  late x := rotate64 x 19 ^^^ rotate64 x 61 ^^^ (x >>> 6)

/-- Fractions of the square roots of the first eight primes. -/
def initial256 : List UInt32 := [
    0x6a09e667, 0xbb67ae85, 0x3c6ef372, 0xa54ff53a, 0x510e527f, 0x9b05688c,
    0x1f83d9ab, 0x5be0cd19]

def initial224 : List UInt32 := [
    0xc1059ed8, 0x367cd507, 0x3070dd17, 0xf70e5939, 0xffc00b31, 0x68581511,
    0x64f98fa7, 0xbefa4fa4]

def initial512 : List UInt64 := [
    0x6a09e667f3bcc908, 0xbb67ae8584caa73b, 0x3c6ef372fe94f82b, 0xa54ff53a5f1d36f1,
    0x510e527fade682d1, 0x9b05688c2b3e6c1f, 0x1f83d9abfb41bd6b, 0x5be0cd19137e2179]

/-- Fractions of the square roots of the ninth to the sixteenth prime. -/
def initial384 : List UInt64 := [
    0xcbbb9d5dc1059ed8, 0x629a292a367cd507, 0x9159015a3070dd17, 0x152fecd8f70e5939,
    0x67332667ffc00b31, 0x8eb44a8768581511, 0xdb0c2e0d64f98fa7, 0x47b5481dbefa4fa4]

/-- Where the digest of 64-bit words starts that is cut to 224 bits. -/
def initial512Cut224 : List UInt64 := [
    0x8c3d37c819544da2, 0x73e1996689dcd4d6, 0x1dfab7ae32ff9c82, 0x679dd514582f9fcf,
    0x0f6d2b697bd44da8, 0x77e36f7304c48942, 0x3f9d85a86a1d36c8, 0x1112e6ad91d692a1]

/-- Where the digest of 64-bit words starts that is cut to 256 bits. -/
def initial512Cut256 : List UInt64 := [
    0x22312194fc2bf72c, 0x9f555fa3c84c64c2, 0x2393b86b6f53b151, 0x963877195940eabd,
    0x96283ee2a88effe3, 0xbe5e1e2553863992, 0x2b0199fc2c85b8aa, 0x0eb72ddc81c52ca2]

def hash224 : Bytes → Bytes := hash words32 initial224 28

def hash256 : Bytes → Bytes := hash words32 initial256 32

def hash384 : Bytes → Bytes := hash words64 initial384 48

def hash512 : Bytes → Bytes := hash words64 initial512 64

def hash512Cut224 : Bytes → Bytes := hash words64 initial512Cut224 28

def hash512Cut256 : Bytes → Bytes := hash words64 initial512Cut256 32

end ModuleBundler.Digest.Sha2

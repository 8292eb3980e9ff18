import ModuleBundler.Digest.Blake2
import ModuleBundler.Digest.Md5
import ModuleBundler.Digest.Ripemd
import ModuleBundler.Digest.Sha1
import ModuleBundler.Digest.Sha2
import ModuleBundler.Digest.Sha3
import ModuleBundler.Digest.Sm3

/-! Fingerprints of content. A fingerprint is the hexadecimal digest of the bytes
under a named algorithm of fixed length. Some algorithms are always there and may
be chosen in settings; some more are known by the names of their standards. Those
of variable length are known too but give no fingerprint, since they need a length
as well. -/
namespace ModuleBundler

/-- The algorithms of fixed length that may be chosen. -/
inductive Digest.Algorithm where
  | md5 | sha1 | sha224 | sha256 | sha384 | sha512
  | sha3_224 | sha3_256 | sha3_384 | sha3_512
  | blake2b | blake2s
  deriving DecidableEq, Repr

namespace Digest.Algorithm

def all : List Algorithm :=
  [md5, sha1, sha224, sha256, sha384, sha512, sha3_224, sha3_256, sha3_384, sha3_512,
    blake2b, blake2s]

def name : Algorithm → String
  | md5 => "md5"
  | sha1 => "sha1"
  | sha224 => "sha224"
  | sha256 => "sha256"
  | sha384 => "sha384"
  | sha512 => "sha512"
  | sha3_224 => "sha3_224"
  | sha3_256 => "sha3_256"
  | sha3_384 => "sha3_384"
  | sha3_512 => "sha3_512"
  | blake2b => "blake2b"
  | blake2s => "blake2s"

def ofName? (name : String) : Option Algorithm := all.find? fun a => a.name == name

theorem ofName?_name (a : Algorithm) : ofName? a.name = some a := by cases a <;> decide

def hash : Algorithm → Bytes → Bytes
  | md5 => Md5.hash
  | sha1 => Sha1.hash
  | sha224 => Sha2.hash224
  | sha256 => Sha2.hash256
  | sha384 => Sha2.hash384
  | sha512 => Sha2.hash512
  | sha3_224 => Sha3.hash 28
  | sha3_256 => Sha3.hash 32
  | sha3_384 => Sha3.hash 48
  | sha3_512 => Sha3.hash 64
  | blake2b => Blake2.hash64
  | blake2s => Blake2.hash32

/-- The hexadecimal digest of the bytes. -/
def fingerprint (a : Algorithm) (content : ByteArray) : String := hex (a.hash content.toList)

end Digest.Algorithm

namespace Digest

/-- Why a name gives no fingerprint. -/
inductive NameError where
  | unsupported (name : String)
  | lengthNeeded (name : String)
  /-- There is a null character in the name. -/
  | nullCharacter

def NameError.message : NameError → String
  | unsupported name => s!"unsupported hash type {name}"
  | lengthNeeded name => s!"{name} needs a digest length"
  | nullCharacter => "null character in a name"

/-- The algorithms of fixed length beyond those that may be chosen. The last one forgets its
content. -/
def furtherHashes : List (String × (Bytes → Bytes)) :=
  [("md5-sha1", fun message => Md5.hash message ++ Sha1.hash message),
    ("sha512_224", Sha2.hash512Cut224), ("sha512_256", Sha2.hash512Cut256), ("sm3", Sm3.hash),
    ("ripemd160", Ripemd.hash), ("null", fun _ => [])]

/-- The names of the algorithms of variable length. -/
def variableLength : List String := ["shake_128", "shake_256", "keccak-kmac-128", "keccak-kmac-256"]

/-- The names of the standards and their object numbers, with the names that they have here. -/
def standardNames : List (String × String) :=
  [("md5", "md5"), ("ssl3-md5", "md5"), ("1.2.840.113549.2.5", "md5"), ("sha1", "sha1"),
    ("sha-1", "sha1"), ("ssl3-sha1", "sha1"), ("1.3.14.3.2.26", "sha1"), ("sha224", "sha224"),
    ("sha-224", "sha224"), ("sha2-224", "sha224"), ("2.16.840.1.101.3.4.2.4", "sha224"),
    ("sha256", "sha256"), ("sha-256", "sha256"), ("sha2-256", "sha256"),
    ("2.16.840.1.101.3.4.2.1", "sha256"), ("sha384", "sha384"), ("sha-384", "sha384"),
    ("sha2-384", "sha384"), ("2.16.840.1.101.3.4.2.2", "sha384"), ("sha512", "sha512"),
    ("sha-512", "sha512"), ("sha2-512", "sha512"), ("2.16.840.1.101.3.4.2.3", "sha512"),
    ("sha512-224", "sha512_224"), ("sha-512/224", "sha512_224"), ("sha2-512/224", "sha512_224"),
    ("2.16.840.1.101.3.4.2.5", "sha512_224"), ("sha512-256", "sha512_256"),
    ("sha-512/256", "sha512_256"), ("sha2-512/256", "sha512_256"),
    ("2.16.840.1.101.3.4.2.6", "sha512_256"), ("sha3-224", "sha3_224"),
    ("2.16.840.1.101.3.4.2.7", "sha3_224"), ("sha3-256", "sha3_256"),
    ("2.16.840.1.101.3.4.2.8", "sha3_256"), ("sha3-384", "sha3_384"),
    ("2.16.840.1.101.3.4.2.9", "sha3_384"), ("sha3-512", "sha3_512"),
    ("2.16.840.1.101.3.4.2.10", "sha3_512"), ("shake128", "shake_128"),
    ("shake-128", "shake_128"), ("2.16.840.1.101.3.4.2.11", "shake_128"),
    ("shake256", "shake_256"), ("shake-256", "shake_256"),
    ("2.16.840.1.101.3.4.2.12", "shake_256"), ("keccak-kmac-128", "keccak-kmac-128"),
    ("keccak-kmac128", "keccak-kmac-128"), ("keccak-kmac-256", "keccak-kmac-256"),
    ("keccak-kmac256", "keccak-kmac-256"), ("blake2b512", "blake2b"), ("blake2b-512", "blake2b"),
    ("1.3.6.1.4.1.1722.12.2.1.16", "blake2b"), ("blake2s256", "blake2s"),
    ("blake2s-256", "blake2s"), ("1.3.6.1.4.1.1722.12.2.2.8", "blake2s"),
    ("md5-sha1", "md5-sha1"), ("null", "null"), ("sm3", "sm3"), ("1.2.156.10197.1.401", "sm3"),
    ("ripemd", "ripemd160"), ("ripemd160", "ripemd160"), ("ripemd-160", "ripemd160"),
    ("rmd160", "ripemd160"), ("1.3.36.3.2.1", "ripemd160")]

/-- The names in capital letters that stand beside the same names in small ones. -/
def capitalNames : List (String × String) :=
  [("SHA512_224", "sha512_224"), ("SHA512_256", "sha512_256")]

/-- The names that a text may have here, the standards' first: those are read in letters of either
case. -/
def ownName (name : String) : String :=
  match standardNames.find? fun e => e.1 == name.toLower with
  | some (_, own) => own
  | none => ((capitalNames.find? fun e => e.1 == name).map Prod.snd).getD name

/-- The hash function of a name. -/
def named (name : String) : Except NameError (Bytes → Bytes) :=
  let own := ownName name
  if name.contains '\x00' then .error .nullCharacter
  else
    match Algorithm.ofName? own, furtherHashes.find? fun e => e.1 == own with
    | some found, _ => .ok found.hash
    | none, some (_, hash) => .ok hash
    | none, none =>
      .error (if own ∈ variableLength then .lengthNeeded name else .unsupported name)

/-- The fingerprint of content under the algorithm of a name. -/
def fingerprint (content : ByteArray) (name : String) : Except NameError String :=
  (named name).map fun hash => hex (hash content.toList)

end Digest
end ModuleBundler

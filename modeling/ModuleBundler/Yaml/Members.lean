import ModuleBundler.Yaml.Key

/-! The order in which a set shows its members. Numbers are seated one after the
other in a row of places and shown by place. Each begins at its residue modulo a
prime, so that a number has one beginning whatever its kind, and takes the first
free place it comes to. Members of which one is no number keep the order in which
they were written. -/
namespace ModuleBundler.Yaml.Members

open Decimal

/-- The modulus of residues, a prime. The powers of two repeat after 61 of them. -/
def modulus : Nat := Nat.pow 2 61 - 1

/-- The residue of a magnitude, a negative power of two being the inverse of a positive one. -/
def residue (m : Magnitude) : Nat :=
  m.significand * Nat.pow 2 (m.exponent % 61).toNat % modulus

/-- Where the infinite numbers begin. -/
def infiniteStart : Int := 314159

/-- A residue with the sign of its number; one below zero counts as two below. -/
def signed (negative : Bool) (residue : Nat) : Int :=
  if !negative then residue else if residue = 1 then -2 else -residue

/-- Where a number begins. -/
def start? (key : Key) : Option Int :=
  match key.value with
  | .bool b => some (if b then 1 else 0)
  | .whole n => some (signed (n < 0) (n.natAbs % modulus))
  | .real x =>
    match read x with
    | .finite negative size => some (signed negative (residue size))
    | .infinite negative => some (if negative then -infiniteStart else infiniteStart)
    | .notANumber => none
  | _ => none

/-- The places of a row for so many members: eight for a few, else more than twice their number. -/
def places (count : Nat) : Nat :=
  if count ≤ 4 then 8 else Nat.pow 2 (Nat.log2 (2 * count) + 1)

/-- How many places behind the first one are tried as well, if the row has them all. -/
def reach : Nat := 9

/-- The first free place of those tried from `place` on. Where all are taken the search goes on at
a place that the higher digits of the number decide, `rest` in steps of 32. -/
def seat (isFree : Nat → Bool) (size : Nat) : Nat → Nat → Nat → Nat
  | 0, _, place => place
  | fuel + 1, rest, place =>
    let tried := if place + reach < size then reach + 1 else 1
    match (List.range' place tried).find? isFree with
    | some free => free
    | none => seat isFree size fuel (rest / 32) ((5 * place + 1 + rest / 32) % size)

/-- A row with one more member in it. The number is taken in 64 bits, which 13 steps use up; from
then on the search comes by every place. -/
def sit (row : Array (Option Key)) (member : Key) (start : Int) : Array (Option Key) :=
  let word := (start % Nat.pow 2 64).toNat
  let isFree (place : Nat) : Bool := row[place]?.join.isNone
  row.set! (seat isFree row.size (row.size + 13) word (word % row.size)) (some member)

/-- The members of a set as they are shown. -/
def inOrder (members : List Key) : List Key :=
  match members.mapM start? with
  | none => members
  | some starts =>
    let empty := Array.replicate (places members.length) none
    let row := (members.zip starts).foldl (fun row (member, start) => sit row member start) empty
    row.toList.filterMap id

end ModuleBundler.Yaml.Members

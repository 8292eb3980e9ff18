import ModuleBundler.Settings.Value

/-! When two keys of a mapping are the same. Numbers are compared by their value
whatever their kind, truth values counting as one and zero, and moments by the
instant if both name an offset. What is no number equals nothing but itself. -/
namespace ModuleBundler.Yaml

open Decimal Settings

/-- The key of an entry. -/
structure Key where
  value : Value
  /-- What tells this key from others that are no numbers either. -/
  origin : Option Nat

/-- A key as a number. -/
inductive NumericKey where
  | whole (n : Int)
  | fractional (x : Float)
  | notANumber (origin : Option Nat)

def Key.numeric? (key : Key) : Option NumericKey :=
  match key.value with
  | .bool b => some (.whole (if b then 1 else 0))
  | .whole n => some (.whole n)
  | .real x =>
    match exactWhole? x with
    | some n => some (.whole n)
    | none => some (if x == x then .fractional x else .notANumber key.origin)
  | _ => none

def NumericKey.same : NumericKey → NumericKey → Bool
  | whole m, whole n => m == n
  | fractional x, fractional y => x == y
  | notANumber o, notANumber p => o == p
  | _, _ => false

def sameMoment (a b : Moment) : Bool :=
  a.offset.isSome == b.offset.isSome && a.instant == b.instant

def Key.same (a b : Key) : Bool :=
  match a.numeric?, b.numeric? with
  | some m, some n => m.same n
  | none, none =>
    match a.value, b.value with
    | .null, .null => true
    | .text s, .text t => s == t
    | .bytes s, .bytes t => s == t
    | .date d, .date e => d == e
    | .moment s, .moment t => sameMoment s t
    | _, _ => false
  | _, _ => false

/-- Stores a value under a key, which keeps its first form and place. -/
def putKey {α : Type} (key : Key) (value : α) : List (Key × α) → List (Key × α)
  | [] => [(key, value)]
  | (k, v) :: rest =>
    if k.same key then (k, value) :: rest else (k, v) :: putKey key value rest

end ModuleBundler.Yaml

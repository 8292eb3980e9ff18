import ModuleBundler.Decimal.Layout
import ModuleBundler.Decimal.Magnitude
import ModuleBundler.Json.Basic
import ModuleBundler.Ordered.Table
import ModuleBundler.Text.Quoted

/-! Module records in JSON. Reading one back checks that there is an id and that
the metadata can be taken as named values; everything else is kept as it stands. -/
namespace ModuleBundler.Graph

/-- A module as data; the fields hold whatever the data gave. -/
structure Record where
  id : Json
  metadata : Table String Json
  isEntry : Json
  timestamp : Json

/-- What keeps data from being a record. -/
inductive RecordError where
  | missing (field : String)
  | illTyped
  /-- A list in place of named values has an item at `index` that is not a pair. -/
  | notPair (index length : Nat)

def RecordError.message : RecordError → String
  | missing field => Text.quoted field
  | illTyped => "unsupported type"
  | notPair index length =>
    s!"dictionary update sequence element #{index} has length {length}; 2 is required"

/-- The items that a value can be taken apart into. -/
def items? : Json → Option (List Json)
  | .array items => some items
  | .object members => some (members.map fun m => .text m.1)
  | .text s => some (s.toList.map fun c => .text c.toString)
  | _ => none

/-- The text of a name. Anything but a list or an object may name a value. -/
def nameText? : Json → Option String
  | .null => some "None"
  | .bool true => some "True"
  | .bool false => some "False"
  | .whole n => some (toString n)
  | .real x => some (Decimal.text .plain x)
  | .text s => some s
  | .array _ | .object _ => none

/-- The whole number that a name is as good as; truth values count as one and zero. -/
def wholeName? : Json → Option Int
  | .bool b => some (if b then 1 else 0)
  | .whole n => some n
  | .real x => Decimal.exactWhole? x
  | _ => none

/-- Whether two names are the same; numbers are compared by their value whatever their kind. -/
def sameName (a b : Json) : Bool :=
  match wholeName? a, wholeName? b with
  | some m, some n => m == n
  | none, none =>
    match a, b with
    | .null, .null => true
    | .real x, .real y => x == y
    | .text s, .text t => s == t
    | _, _ => false
  | _, _ => false

/-- Stores a value under a name, which keeps its first form. -/
def putName (name value : Json) : List (Json × Json) → List (Json × Json)
  | [] => [(name, value)]
  | (n, v) :: rest =>
    if sameName n name then (n, value) :: rest else (n, v) :: putName name value rest

/-- A pair of a name and a value. -/
def namedValue (index : Nat) (item : Json) : Except RecordError (Json × Json) :=
  match items? item with
  | none => .error .illTyped
  | some [name, value] => if (nameText? name).isSome then .ok (name, value) else .error .illTyped
  | some other => .error (.notPair index other.length)

/-- Named values by the texts of their names. -/
def byText (pairs : List (Json × Json)) : Table String Json :=
  .ofList ((pairs.foldl (fun named p => putName p.1 p.2 named) []).filterMap fun (name, value) =>
    (nameText? name).map fun text => (text, value))

/-- Named values: an object, or pairs in their place; of equal names the last value counts. -/
def namedValues (value : Json) : Except RecordError (Table String Json) :=
  match value with
  | .object members => .ok (Table.ofList members)
  | other =>
    match items? other with
    | none => .error .illTyped
    | some items => do
      let pairs ← items.zipIdx.mapM fun (item, index) => namedValue index item
      return byText pairs

def Record.ofJson (data : Json) : Except RecordError Record :=
  match data with
  | .object members => do
    let fields := Table.ofList members
    let some id := fields.get? "id" | throw (.missing "id")
    let metadata ← namedValues ((fields.get? "metadata").getD (.object []))
    return ⟨id, metadata, (fields.get? "is_entry").getD (.bool false),
      (fields.get? "timestamp").getD (.real 0.0)⟩
  | _ => .error .illTyped

def Record.toJson (r : Record) : Json :=
  .object [("id", r.id), ("metadata", .object r.metadata.entries), ("is_entry", r.isEntry),
    ("timestamp", r.timestamp)]

end ModuleBundler.Graph

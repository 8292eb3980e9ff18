/-! JSON values. Whole numbers keep their kind and their size; every other number
is a double. Members of an object stand in the order in which they were written. -/
namespace ModuleBundler

inductive Json where
  | null
  | bool (value : Bool)
  | whole (value : Int)
  | real (value : Float)
  | text (value : String)
  | array (items : List Json)
  | object (members : List (String × Json))
  deriving Inhabited

namespace Json

def texts (items : List String) : Json := .array (items.map .text)

/-- The member of a name, the last one if it occurs more than once. -/
def member? : Json → String → Option Json
  | .object members, name => (members.reverse.find? fun m => m.1 == name).map Prod.snd
  | _, _ => none

end Json
end ModuleBundler

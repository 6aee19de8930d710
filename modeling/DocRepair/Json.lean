import DocRepair.Double
/-!
# `DocRepair.Json` — trees of the exchange format

Numbers keep their kind: a numeral without point and exponent is an integer of any size. An object
holds each name once; where a text repeats a name, the last value stands in the first place.

## Contents

* `Json` — the tree;
* `Json.put` — one more member of an object under construction.
-/

namespace DocRepair

/-- A tree of the exchange format. -/
inductive Json
  | null
  | bool (b : Bool)
  | int (n : Int)
  | float (x : Double)
  | text (s : String)
  | array (items : List Json)
  | object (members : List (String × Json))
deriving Repr, Inhabited

namespace Json

/-- Adds a member; one of the same name gives up its value but not its place. -/
def put {α : Type} : List (String × α) → String → α → List (String × α)
  | [], name, v => [(name, v)]
  | (k, w) :: rest, name, v => if k = name then (k, v) :: rest else (k, w) :: put rest name v

/-- The members of an object; other trees have none. -/
def members : Json → List (String × Json)
  | .object ms => ms
  | _ => []

/-- The member of an object with a given name. -/
def get? (tree : Json) (name : String) : Option Json :=
  tree.members.lookup name

end Json

end DocRepair

import DocRepair.Fault
import DocRepair.Json.Reader
/-!
# `DocRepair.Value.OfJson` — plain trees as values

## Contents

* `ofJson` — the value of a tree, in which no object has a special meaning;
* `Fault.ofReadError` — the fault of a text that is no tree;
* `ofText` — the value of a text.
-/

namespace DocRepair

namespace Value

mutual

/-- A tree as a value. -/
def ofJson : Json → Value
  | .null => .null
  | .bool b => .bool b
  | .int n => .int n
  | .float x => .float x
  | .text s => .text s
  | .array items => .array (ofItems items)
  | .object members => .object (ofMembers members)

/-- Items as values. -/
def ofItems : List Json → List Value
  | [] => []
  | x :: rest => ofJson x :: ofItems rest

/-- Members as fields. -/
def ofMembers : List (String × Json) → List (String × Value)
  | [] => []
  | (k, v) :: rest => (k, ofJson v) :: ofMembers rest

end

end Value

/-- The fault of a text that is no tree. -/
def Fault.ofReadError : Json.ReadError → Fault
  | .malformed => .malformedText
  | .longInteger digits => .longInteger digits

/-- The value of a text. -/
def Value.ofText (text : String) : Except Fault Value :=
  match Json.read text with
  | .ok tree => .ok (Value.ofJson tree)
  | .error e => .error (Fault.ofReadError e)

end DocRepair

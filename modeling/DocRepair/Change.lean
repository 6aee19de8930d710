import DocRepair.Request
import DocRepair.Path
/-!
# `DocRepair.Change` — changes to paths

A change names a path, one of four operations, and a value. Lists of changes come in two spellings:
an object that maps each path to one operation and its value, or an array of objects with the three
parts by name. Operations have a full name and a short one.

## Contents

* `Operation` — the four operations and their names;
* `Change` — a checked change;
* `Change.parse` — reads either spelling, in order.
-/

namespace DocRepair

/-- What a change does at its path. -/
inductive Operation
  | set
  | setIdentifier
  | setStatus
  | append
deriving DecidableEq, Repr

namespace Operation

/-- The full name of an operation. -/
def name : Operation → String
  | .set => "Set"
  | .setIdentifier => "SetIdentifier"
  | .setStatus => "SetStatus"
  | .append => "Append"

/-- The short name of an operation. -/
def short : Operation → String
  | .set => "$set"
  | .setIdentifier => "$setid"
  | .setStatus => "$setstatus"
  | .append => "$push"

/-- All operations. -/
def all : List Operation := [.set, .setIdentifier, .setStatus, .append]

/-- The operation with a given full name. -/
def ofName? (s : String) : Option Operation :=
  all.find? fun op => op.name == s

/-- The operation with a given name, full or short. -/
def ofTag? (s : String) : Option Operation :=
  all.find? fun op => op.name == s || op.short == s

end Operation

/-- A checked change. -/
structure Change where
  path : String
  operation : Operation
  value : Value
deriving Repr

namespace Failure

/-- No changes at all. -/
def changesRequired : Failure :=
  ⟨.missingField, "changes are required", [("field", .text "changes")]⟩

/-- A path that is not mapped to one operation and its value. -/
def badPair (path : String) : Failure :=
  ⟨.invalidOperation,
    "bad change value for " ++ path ++ ": expected exactly one operation/value pair",
    [("path", .text path)]⟩

/-- A name that no operation has. -/
def unknownOperation (tag path : Value) : Failure :=
  ⟨.invalidOperation, "unrecognized operation " ++ tag.literal ++ " for " ++ path.plain,
    [("path", path)]⟩

/-- A change that is no object. -/
def changeNotObject : Failure :=
  ⟨.invalidOperation, "each change must be an object", []⟩

/-- A change without a path. -/
def changeWithoutPath : Failure :=
  ⟨.missingField, "change is missing path", [("field", .text "path")]⟩

/-- A change without an operation. -/
def changeWithoutOperation (path : Value) : Failure :=
  ⟨.invalidOperation, "change for " ++ path.plain ++ " has no operation", [("path", path)]⟩

end Failure

namespace Change

/-- The parts of a change. -/
def parts : List (String × Shape × Option Value) :=
  [("path", .text, none), ("operation", .oneOf (Operation.all.map Operation.name), none),
   ("value", .anything, none)]

/-- An objection to the path of a change, unless it splits into segments. -/
def pathIssues (path : Value) : List Issue :=
  match Path.split path with
  | .ok _ => []
  | .error fault => [⟨"value_error", ["path"], "Value error, " ++ fault.message⟩]

/-- Everything that is wrong with the parts of a change. A path that is a text must be a path. -/
def issues (given : Fields) : List Issue :=
  let path :=
    match Fields.get? given "path" with
    | none => [⟨"missing", ["path"], "Field required"⟩]
    | some v =>
      match Shape.accept .text v with
      | .ok path => pathIssues path
      | .error found => Shape.inside "path" found
  let others := Shape.objections (Shape.acceptFields (parts.drop 1) given)
  Shape.recordIssues (path ++ others) (parts.map (·.1)) given

/-- The change with the given parts, its operation already known. -/
def build (operation : Operation) (given : Fields) : Except Fault Change :=
  let given := Fields.set given "operation" (.text operation.name)
  match issues given with
  | [] =>
    match Shape.accept .text (Fields.getD given "path") with
    | .ok path => .ok ⟨path.text?.getD "", operation, Fields.getD given "value"⟩
    | .error found => fail (.ofIssues found)
  | found => fail (.ofIssues found)

/-- The operation that a tag names. -/
def operationOf (tag path : Value) : Except Fault Operation :=
  match tag.text?.bind Operation.ofTag? with
  | some op => .ok op
  | none =>
    if tag.isHashable then fail (.unknownOperation tag path) else .error (.unhashable tag)

/-- The change that maps a path to an operation and a value. -/
def ofPair (path : String) (change : Value) : Except Fault Change :=
  match change with
  | .object [(tag, value)] => do
    let op ← operationOf (.text tag) (.text path)
    build op [("path", .text path), ("operation", .text op.name), ("value", value)]
  | _ => fail (.badPair path)

/-- The change that an object with named parts describes. -/
def ofItem (item : Value) : Except Fault Change :=
  match item with
  | .object given =>
    match Fields.get? given "path", Fields.get? given "operation" with
    | none, _ => fail .changeWithoutPath
    | some path, none => fail (.changeWithoutOperation path)
    | some path, some tag => do
      build (← operationOf tag path) given
  | _ => fail .changeNotObject

/-- Reads changes in either spelling, in order. -/
def parse (raw : Value) : Except Fault (List Change) :=
  match raw with
  | .null => fail .changesRequired
  | .object pairs => pairs.mapM fun (path, change) => ofPair path change
  | _ => do (← raw.members).mapM ofItem

end Change

end DocRepair

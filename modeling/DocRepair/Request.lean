import DocRepair.Request.Shape
import DocRepair.Value.Members
/-!
# `DocRepair.Request` — the requests that callers send

Every operation has a record of its arguments. A request that does not fit is refused with the
first objection to it: a required field that is missing is told apart from everything else.

## Contents

* `Request` — the records, by operation, and those of single steps;
* `Request.shape` — what each record must look like;
* `Request.parse` — the fields of an acceptable request, defaults filled in;
* `IdStep` / `QueryStep` / `Move` — single steps as structures.
-/

namespace DocRepair

namespace Failure

/-- The failure that reports a list of objections: it speaks of the first. -/
def ofIssues (issues : List Issue) : Failure :=
  let first := issues.headD ⟨"", [], "validation error"⟩
  let reason := String.ofList (first.message.toList.take 200)
  let context : Fields :=
    [("field_path", .array (first.location.map .text)), ("reason", .text reason)]
  if first.category = "missing" then
    ⟨.missingField, "missing required field " ++ ".".intercalate first.location, context⟩
  else ⟨.invalidOperation, "invalid request: " ++ reason, context⟩

end Failure

/-- The records that callers send. -/
inductive Request
  | idStep
  | queryStep
  | move
  | change
  | push
  | addIds
  | inject
  | arrayField
  | delete
  | translate
  | modifyArray
  | status
  | get
  | unique
  | create
  | transfer
deriving DecidableEq, Repr

namespace Request

open Shape in
/-- A required field. -/
def required (name : String) (shape : Shape) : String × Shape × Option Value :=
  (name, shape, none)

/-- A field that is null unless it is given. -/
def nullable (name : String) (shape : Shape) : String × Shape × Option Value :=
  (name, .optional shape, some .null)

/-- The filter that most requests start with. -/
def query : String × Shape × Option Value :=
  nullable "query" .mapping

/-- No rule for the whole record. -/
def free : Fields → Option String := fun _ => none

/-- A step of the way to an element: a field and, perhaps, an identifier. -/
def idStepShape : Shape :=
  .record "IdPathStepV1" [required "field" .text, nullable "id" .anything] free

/-- A new value needs a test that says which element it goes to. -/
def queryStepRule (fields : Fields) : Option String :=
  if !(Fields.getD fields "new_value").isNull && (Fields.getD fields "test_array_field").isNull then
    some "a step with new_value requires test_array_field"
  else none

/-- A step of an array query: a descent, or an edit of the element that passes a test. -/
def queryStepShape : Shape :=
  .record "FieldQueryStepV1"
    [required "field" .text, nullable "new_value" .anything, nullable "test_array_field" .text,
     nullable "test_array_value" .anything, ("object_id", .flag, some (.bool false))]
    queryStepRule

/-- A move from one path to another. -/
def moveShape : Shape :=
  .record "MoveV1" [required "from_field" .text, required "to_field" .text] free

/-- At most one kind of target may be given for a deletion. -/
def deleteRule (fields : Fields) : Option String :=
  let targets := ["fields", "by_id_path", "clear_array", "whole"]
  if 1 < (targets.filter fun name => (Fields.getD fields name).truthy).length then
    some "delete takes exactly one of fields, by_id_path, clear_array, whole"
  else none

/-- What each record must look like. -/
def shape : Request → Shape
  | .idStep => idStepShape
  | .queryStep => queryStepShape
  | .move => moveShape
  | .change => .record "ChangeRequestV1"
      [query, required "changes" (.either "dict[str,any]" .mapping "list[any]" (.list .anything))]
      free
  | .push => .record "PushRequestV1"
      [query, required "field" .text, required "value" .anything,
       nullable "id_values"
        (.either "literal['object']" (.oneOf ["object"]) "list[str]" (.list .text))] free
  | .addIds => .record "AddIdsRequestV1"
      [query, required "field" .text, required "id_values" (.list .anything)] free
  | .inject => .record "InjectRequestV1"
      [query, required "field" .text,
       ("field_ids", .either "str" .text "list[any]" (.list .anything), some (.text "")),
       required "data" (.list .anything)] free
  | .arrayField => .record "ArrayFieldRequestV1"
      [query, required "array_field" .text, nullable "unique_field" .text] free
  | .delete => .record "DeleteRequestV1"
      [query, nullable "fields" (.list .text), nullable "by_id_path" (.list idStepShape),
       nullable "clear_array" .text, ("whole", .flag, some (.bool false))] deleteRule
  | .translate => .record "TranslateRequestV1" [query, required "moves" (.list moveShape)] free
  | .modifyArray => .record "ModifyArrayRequestV1"
      [query, ("field_query", .list queryStepShape, some (.array []))] free
  | .status => .record "StatusRequestV1"
      [query, required "path" .text, required "code" .anything] free
  | .get => .record "GetRequestV1" [query, nullable "select" (.list .text)] free
  | .unique => .record "UniqueRequestV1" [query, nullable "selection" .text] free
  | .create => .record "CreateRequestV1"
      [required "documents"
        (.either "dict[str,any]" .mapping "list[dict[str,any]]" (.list .mapping))] free
  | .transfer => .record "TransferRequestV1"
      [nullable "from_query" .mapping, required "link_field" .text, required "from_field" .text,
       required "to_field" .text] free

/-- All records. -/
def all : List Request :=
  [.idStep, .queryStep, .move, .change, .push, .addIds, .inject, .arrayField, .delete, .translate,
   .modifyArray, .status, .get, .unique, .create, .transfer]

/-- The title of a record. -/
def title (r : Request) : String :=
  match r.shape with
  | .record title _ _ => title
  | _ => ""

/-- The record with a given title. -/
def ofTitle? (s : String) : Option Request :=
  all.find? fun r => r.title == s

/-- The fields of an acceptable request, defaults filled in. -/
def parse (r : Request) (payload : Value) : Except Fault Fields :=
  match r.shape.accept payload with
  | .ok v => .ok v.fields
  | .error issues => fail (.ofIssues issues)

end Request

/-! ## Single steps -/

/-- The text of a text field. -/
def Fields.textD (fields : Fields) (name : String) : String :=
  ((Fields.getD fields name).text?).getD ""

/-- A step of the way to an element. A null identifier selects nothing. -/
structure IdStep where
  field : String
  id : Value
deriving Repr

/-- A step of an array query. Without a new value it descends into a field; with one it edits the
    element whose test field agrees with the test value. -/
structure QueryStep where
  field : String
  newValue : Value := .null
  testField : Option String := none
  testValue : Value := .null
  objectId : Bool := false
deriving Repr

/-- A move of a value from one path to another. -/
structure Move where
  source : String
  target : String
deriving DecidableEq, Repr

/-- Reads a step of the way to an element. -/
def IdStep.parse (v : Value) : Except Fault IdStep := do
  let fs ← Request.parse .idStep v
  .ok ⟨Fields.textD fs "field", Fields.getD fs "id"⟩

/-- Reads a step of an array query. -/
def QueryStep.parse (v : Value) : Except Fault QueryStep := do
  let fs ← Request.parse .queryStep v
  .ok ⟨Fields.textD fs "field", Fields.getD fs "new_value",
    (Fields.getD fs "test_array_field").text?, Fields.getD fs "test_array_value",
    (Fields.getD fs "object_id").truthy⟩

/-- Reads a move. -/
def Move.parse (v : Value) : Except Fault Move := do
  let fs ← Request.parse .move v
  .ok ⟨Fields.textD fs "from_field", Fields.textD fs "to_field"⟩

/-- Reads every member of a value by the same reader, in order. -/
def parseMembers {α : Type} (parse : Value → Except Fault α) (raw : Value) :
    Except Fault (List α) := do
  (← raw.members).mapM parse

end DocRepair

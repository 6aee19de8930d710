import DocRepair.Gateway
import DocRepair.Edit.Duplicates
import DocRepair.Edit.Query
/-!
# `DocRepair.Gateway.Edits` — the calls that edit documents

## Contents

* `execute` / `setStatus` — changes to paths;
* `push` / `addIds` / `inject` / `duplicate` / `dedupe` / `modifyArray` — edits of arrays;
* `translate` — moves between paths;
* `delete` — removal of fields, of an element, of the items of an array, or of a document.
-/

namespace DocRepair

namespace Failure

/-- A deletion without a target. -/
def nothingToDelete : Failure :=
  ⟨.invalidOperation, "nothing to delete", []⟩

/-- A deletion with more than one kind of target. -/
def severalTargets (names : List String) : Failure :=
  ⟨.invalidOperation, "delete takes one target, got " ++ ", ".intercalate names, []⟩

/-- A request to move without moves. -/
def noMoves : Failure :=
  ⟨.missingField, "moves must list at least one move", [("field", .text "moves")]⟩

/-- A deletion that the store refused, of a document whose identifier is shown here. -/
def notDeleted (store id : String) (cause : Fault) : Failure :=
  notPersisted ("deleting " ++ store ++ " " ++ id ++ " failed") cause []

end Failure

namespace Gateway

variable {σ : Type} [Store σ]

/-! ## Changes -/

/-- Applies changes to the first document that a query selects, or to all of them. -/
def execute (settings : Settings) (query changes : Value) (many persist : Bool) :
    Access σ Outcome := do
  let changes ← Access.lift (Change.parse changes)
  run query many persist (quiet (Edit.applyChanges settings.idField changes))

/-- Writes a status record at a path of all documents that a query selects. -/
def setStatus (settings : Settings) (query path code : Value) (persist : Bool) :
    Access σ Outcome :=
  execute settings query
    (.array [.object [("path", path), ("operation", .text Operation.setStatus.name),
      ("value", code)]])
    true persist

/-! ## Arrays -/

/-- Appends a value to an array. -/
def push (settings : Settings) (query field v ids : Value) (persist : Bool) : Access σ Outcome :=
  run query false persist (quiet (Edit.push settings.idField field v ids))

/-- Appends identifiers that an array does not hold yet; the report lists them. -/
def addIds (settings : Settings) (query field ids : Value) (persist : Bool) : Access σ Outcome :=
  run query false persist do
    let (dirty, added) ← Edit.addIds settings.idField field ids
    return (dirty, some [("added", .array (added.map fun id => .text id.text))])

/-- Appends items to an array that selectors lead to. -/
def inject (settings : Settings) (query field ids data : Value) (persist : Bool) :
    Access σ Outcome :=
  run query false persist
    (quiet (Edit.inject settings.idField (.text settings.language) field ids
      (.array data.listed)))

/-- Appends every item of an array once more; the report gives the new length. -/
def duplicate (settings : Settings) (query field : Value) (persist : Bool) : Access σ Outcome :=
  run query false persist do
    let (dirty, count) ← Edit.duplicate settings.idField field
    return (dirty, some [("count", .int count)])

/-- Removes the elements that repeat a key, and reports them. -/
def dedupe (settings : Settings) (query field keyField : Value)
    (persist : Bool) : Access σ Outcome :=
  run query false persist do
    let (dirty, report) ← Edit.removeDuplicates settings.idField field keyField
    return (dirty, some report)

/-- Runs an array query. -/
def modifyArray (query steps : Value) (persist : Bool) :
    Access σ Outcome := do
  if !steps.truthy then Access.lift (fail .noQuerySteps)
  else do
    let steps ← Access.lift (parseMembers QueryStep.parse steps)
    run query false persist (quiet (Edit.modify steps))

/-! ## Fields and documents -/

/-- Moves values between paths, in all documents that a query selects. -/
def translate (settings : Settings) (query moves : Value) (persist : Bool) :
    Access σ Outcome := do
  if !moves.truthy then Access.lift (fail .noMoves)
  else do
    let moves ← Access.lift (parseMembers Move.parse moves)
    run query true persist (quiet (Edit.moveAll settings.idField moves))

/-- The targets that a deletion may have. -/
structure Deletion where
  fields : Value := .null
  byIdPath : Value := .null
  clearArray : Value := .null
  whole : Value := .null
deriving Repr

/-- The names of the targets that are given. -/
def Deletion.given (d : Deletion) : List String :=
  ([("fields", d.fields), ("by_id_path", d.byIdPath), ("clear_array", d.clearArray),
    ("whole", d.whole)].filter fun t => t.2.truthy).map (·.1)

/-- Removes the first document that a query selects. -/
def deleteDocument (query : Value) (persist : Bool) : Access σ Outcome := do
  let handles ← Access.look (targets false query)
  let documents := handles.map Handle.data
  match persist, handles with
  | true, h :: _ => do
    let name ← Access.look fun s => .ok (Store.name s)
    match ← Access.attempt (Store.delete h) with
    | .ok _ => return { persisted := true, documents := documents }
    | .error fault => do
      let id ← Access.lift h.id.plainText
      return { status := .failed, documents := documents,
               failure := some (.notDeleted name id fault) }
  | _, _ => return { documents := documents }

/-- The edit of a deletion inside a document. -/
def deletionTask (settings : Settings) (d : Deletion) : Except Fault Task :=
  if d.fields.truthy then .ok (quiet (Edit.deleteFields settings.idField d.fields))
  else if d.byIdPath.truthy then do
    let steps ← parseMembers IdStep.parse d.byIdPath
    .ok do
      let (dirty, removed) ← Edit.removeElement settings.idField steps
      return (dirty, some [("removed", removed)])
  else .ok (quiet (Edit.clear settings.idField d.clearArray))

/-- Removes exactly one kind of target. -/
def delete (settings : Settings) (query : Value) (d : Deletion) (persist : Bool) :
    Access σ Outcome :=
  match d.given with
  | [] => Access.lift (fail .nothingToDelete)
  | [_] =>
    if d.whole.truthy then deleteDocument query persist
    else do
      let task ← Access.lift (deletionTask settings d)
      run query false persist task
  | names => Access.lift (fail (.severalTargets names))

end Gateway

end DocRepair

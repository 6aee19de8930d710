import DocRepair.Gateway
import DocRepair.Projection
import DocRepair.Edit.Duplicates
/-!
# `DocRepair.Gateway.Reads` — the calls that only read, and the one that creates

## Contents

* `get` — selected parts of documents;
* `findDuplicates` — the elements that repeat a key;
* `distinct` / `uniqueValues` — the different values at a path, in a fixed order;
* `getRefs` — documents that others refer to;
* `create` — new documents.
-/

namespace DocRepair

namespace Failure

/-- No path whose values are wanted. -/
def missingSelection : Failure :=
  ⟨.missingField, "missing selection", [("field", .text "selection")]⟩

/-- No path of references. -/
def missingRefField : Failure :=
  ⟨.missingField, "missing ref_field", [("field", .text "ref_field")]⟩

/-- No query for the documents referred to. -/
def missingRefQuery : Failure :=
  ⟨.missingField, "missing ref_query", [("field", .text "ref_query")]⟩

/-- No documents to create. -/
def noDocuments : Failure :=
  ⟨.missingField, "no documents to create", [("field", .text "documents")]⟩

/-- New documents that the store refused. -/
def notCreated (store : String) (cause : Fault) : Failure :=
  notPersisted ("creating documents in " ++ store ++ " failed") cause []

end Failure

namespace Gateway

variable {σ τ : Type} [Store σ] [Store τ]

/-! ## Reading -/

/-- Selected parts of the documents that a query selects. -/
def get (settings : Settings) (query select : Value) (store : σ) : Except Fault Outcome := do
  let handles ← targets true query store
  let documents ← handles.mapM fun h => project settings.idField (.object h.data) select
  .ok { documents := documents }

/-- Reports the elements of an array that repeat a key. -/
def findDuplicates (settings : Settings) (query field keyField : Value) :
    Access σ Outcome := do
  let handles ← Access.look (targets false query)
  let edited ← editAll (do
    return (∅, some (← Edit.findDuplicates settings.idField field keyField))) handles
  return { report := notesOf edited }

/-- The value at a path, null if there is none. -/
def valueOrNull (h : Handle) (path : Value) : Except Fault Value := do
  .ok ((← Path.read? (.object h.data) path).getD .null)

/-- The value at a path, null if there is none. It has to be one that can be shown. -/
def shownValue (h : Handle) (path : Value) : Except Fault Value := do
  let v ← valueOrNull h path
  let _ ← v.literalText
  .ok v

/-- Values without those whose literal came before. -/
def distinct : (seen : List String) → List Value → List Value
  | _, [] => []
  | seen, v :: rest =>
    if seen.contains v.literal then distinct seen rest
    else v :: distinct (v.literal :: seen) rest

/-- The order of reported values: null first, then by kind, then by text. -/
def ordered (a b : Value) : Bool :=
  if a.isNull != b.isNull then a.isNull
  else if a.kindName != b.kindName then a.kindName < b.kindName
  else a.plain ≤ b.plain

/-- The different values at a path of the documents that a query selects. -/
def uniqueValues (query selection : Value) (store : σ) : Except Fault Outcome := do
  if !selection.truthy then fail .missingSelection
  else do
    let handles ← targets true query store
    let found ← handles.mapM fun h => shownValue h selection
    .ok { report := some [("values", .array ((distinct [] found).mergeSort ordered))] }

/-! ## References -/

/-- Values without those whose key came before. -/
def distinctByKey : (seen : List (Option String)) → List Value → List Value
  | _, [] => []
  | seen, v :: rest =>
    if seen.contains (Identity.key v) then distinctByKey seen rest
    else v :: distinctByKey (Identity.key v :: seen) rest

/-- The value at a path, null if there is none. It has to be one that can be filed. -/
def filedValue (h : Handle) (path : Value) : Except Fault Value := do
  let v ← valueOrNull h path
  let _ ← Identity.filing v
  .ok v

/-- The values at a path of some documents that refer to something, each once. -/
def references (handles : List Handle) (path : Value) : Except Fault (List Value) := do
  let found ← handles.mapM fun h => filedValue h path
  .ok (distinctByKey [] (found.filter fun v => !v.isNull && !v.isAbsent))

/-- The documents of another store that match a query and are referred to, at a path, by documents
    that a query selects. -/
def getRefs (settings : Settings) (query refField refQuery : Value) (store : σ) (others : τ) :
    Except Fault Outcome := do
  if !refField.truthy then fail .missingRefField
  else if refQuery.isNull then fail .missingRefQuery
  else do
    let handles ← targets true query store
    let refs ← references handles refField
    let fields ← refQuery.asFields
    get settings
      (.object (Fields.set fields (Store.idField others) (.object [("$in", .array refs)])))
      .null others

/-! ## Creating -/

/-- Stores new documents, or shows what they would be. -/
def create (settings : Settings) (documents : Value) (persist : Bool) : Access σ Outcome := do
  let given := documents.listed
  if given.isEmpty then Access.lift (fail .noDocuments)
  else do
    let payload ← Access.identifyAll settings.idField given
    if persist then do
      let name ← Access.look fun s => .ok (Store.name s)
      match ← Access.attempt (Store.create (.array (payload.map .object))) with
      | .ok created => return { persisted := true, documents := created.map Handle.data }
      | .error fault =>
        return { status := .failed, documents := payload,
                 failure := some (.notCreated name fault) }
    else return { documents := payload }

end Gateway

end DocRepair

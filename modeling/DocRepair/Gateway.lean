import DocRepair.Store
import DocRepair.Settings
/-!
# `DocRepair.Gateway` — one edit on the documents that a query selects

A call looks its targets up, runs one edit on each, and only then writes: a fault in any edit leaves
the store as it was. Without the wish to persist it stops before the first write, and the edited
copies are a preview. A write that the store refuses does not stop the others; the outcome says
which went through.

## Contents

* `Status` / `Outcome` — what a call returns;
* `targets` — the documents that a query selects;
* `Edited` / `editAll` — the edit on each of them;
* `Writes` / `writeAll` — the writes, one after the other, and what became of each;
* `run` — the whole of it.
-/

namespace DocRepair

namespace Failure

/-- No query. -/
def missingQuery : Failure :=
  ⟨.missingQuery, "missing query", []⟩

/-- No document for a query that needs one, here as its literal. -/
def noDocument (store : String) (query : String) : Failure :=
  ⟨.notFound, "no document in " ++ store ++ " matches the query", [("query", .text query)]⟩

/-- A write that the store refused. -/
def notPersisted (message : String) (cause : Fault) (context : Fields) : Failure :=
  ⟨.persistenceFailure, message, withCause context cause.literal⟩

/-- A save that the store refused, of a document whose identifier is shown here. -/
def notSaved (store id : String) (fields : DirtySet) (cause : Fault) : Failure :=
  notPersisted ("saving " ++ store ++ " " ++ id ++ " failed") cause
    [("collection", .text store), ("id", .text id), ("fields", fields.toValue)]

end Failure

/-! ## Outcomes -/

/-- How the writes of a call went. -/
inductive Status
  | ok
  | incomplete
  | failed
deriving DecidableEq, Repr

/-- The name under which a status is reported. -/
def Status.name : Status → String
  | .ok => "ok"
  | .incomplete => "partial"
  | .failed => "failed"

/-- What a call returns: the documents as edited or found, and the fields touched. -/
structure Outcome where
  status : Status := .ok
  persisted : Bool := false
  documents : List Fields := []
  dirty : DirtySet := ∅
  failure : Option Failure := none
  report : Option Fields := none
deriving Repr

namespace Outcome

/-- A value that may be absent, as null then. -/
def orNull (v : Option Value) : Value := v.getD .null

/-- An outcome as an object. -/
def toValue (o : Outcome) : Value :=
  .object [("status", .text o.status.name), ("persisted", .bool o.persisted),
    ("documents", .array (o.documents.map .object)), ("dirty", o.dirty.toValue),
    ("failure", orNull (o.failure.map Failure.toValue)),
    ("report", orNull (o.report.map .object))]

/-- The only document of an outcome. -/
def document (o : Outcome) : Except Fault Fields :=
  match o.documents with
  | [doc] => .ok doc
  | docs => .error (.badValue ("result holds " ++ toString docs.length ++ " documents, not one"))

end Outcome

namespace Gateway

variable {σ : Type} [Store σ]

/-! ## Targets and edits -/

/-- The documents that a query selects: all of them, or the first, which must exist. -/
def targets (many : Bool) (query : Value) (store : σ) : Except Fault (List Handle) :=
  match query with
  | .null => fail .missingQuery
  | _ =>
    if many then Store.find store query
    else do
      match ← Store.findOne store query with
      | some h => .ok [h]
      | none => do fail (.noDocument (Store.name store) (← query.literalText))

/-- A document after its edit, the fields touched, and what the edit has to report. -/
structure Edited where
  handle : Handle
  dirty : DirtySet
  notes : Option Fields := none
deriving Repr

/-- An edit with what it has to report. -/
abbrev Task := Edit (DirtySet × Option Fields)

/-- An edit with nothing to report. -/
def quiet (e : Edit DirtySet) : Task := do
  return (← e, none)

/-- The edit of every document, one after the other. -/
def editAll (task : Task) : List Handle → Access σ (List Edited)
  | [] => pure []
  | h :: rest => do
    let (h, dirty, notes) ← Access.edit h task
    return ⟨h, dirty, notes⟩ :: (← editAll task rest)

/-- All fields touched. -/
def allDirty (edited : List Edited) : DirtySet :=
  edited.foldl (fun all e => all.union e.dirty) ∅

/-- What the last edit has to report. -/
def notesOf (edited : List Edited) : Option Fields :=
  (edited.getLast?).bind Edited.notes

/-! ## Writes -/

/-- What became of the writes: the identifiers of the documents saved, and the failures, each in
    order. -/
structure Writes where
  saved : List String := []
  failures : List Failure := []
deriving Repr

namespace Writes

/-- How the writes went. -/
def status (w : Writes) : Status :=
  if w.failures.isEmpty then .ok
  else if w.saved.isEmpty then .failed
  else .incomplete

/-- A report with the writes. -/
def addTo (w : Writes) (report : Fields) : Fields :=
  let report := Fields.set report "saved" (.array (w.saved.map .text))
  if w.failures.isEmpty then report
  else Fields.set report "failures" (.array (w.failures.map Failure.toValue))

end Writes

/-- Saves the touched fields of a document. A refusal is returned, unless it is a failure of the
    engine itself, which stops the call. -/
def write (e : Edited) : Access σ (Handle × Option Failure) := do
  let name ← Access.look fun s => .ok (Store.name s)
  let (fields, h) := DirtySet.notify Handle.mark e.dirty.fields e.handle
  let (h, saved) ← Store.save h fields
  match saved with
  | .ok _ => return (h, none)
  | .error (.failure f) => Access.lift (fail f)
  | .error fault => do
    let id ← Access.lift h.id.plainText
    return (h, some (.notSaved name id fields fault))

/-- Saves every document with touched fields, one after the other. The results are the documents
    afterwards and what became of the writes. -/
def writeAll : List Edited → Access σ (List Handle × Writes)
  | [] => pure ([], {})
  | e :: rest =>
    if e.dirty.isEmpty then do
      let (hs, w) ← writeAll rest
      return (e.handle :: hs, w)
    else do
      let (h, failure) ← write e
      match failure with
      | none => do
        -- The identifier is noted before the next save, and may stop the call.
        let id ← Access.lift h.id.plainText
        let (hs, w) ← writeAll rest
        return (h :: hs, { w with saved := id :: w.saved })
      | some f => do
        let (hs, w) ← writeAll rest
        return (h :: hs, { w with failures := f :: w.failures })

/-! ## Calls -/

/-- The outcome of edits that are not written. -/
def preview (edited : List Edited) : Outcome :=
  { documents := edited.map (·.handle.data), dirty := allDirty edited, report := notesOf edited }

/-- The outcome of edits that were written. -/
def written (edited : List Edited) (handles : List Handle) (w : Writes) : Outcome where
  status := w.status
  persisted := w.failures.isEmpty
  documents := handles.map Handle.data
  dirty := allDirty edited
  failure := w.failures.head?
  report := some (w.addTo ((notesOf edited).getD []))

/-- Runs an edit on the documents that a query selects, and writes them if asked to. -/
def run (query : Value) (many persist : Bool) (task : Task) : Access σ Outcome := do
  let handles ← Access.look (targets many query)
  -- A fault in any of the edits stops the call here, before the first write.
  let edited ← editAll task handles
  if persist then do
    let (handles, w) ← writeAll edited
    return written edited handles w
  else return preview edited

end Gateway

end DocRepair

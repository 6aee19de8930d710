import DocRepair.Gateway
import DocRepair.Edit.Changes
/-!
# `DocRepair.Transfer` — copying a value into linked documents

Every source lends the value at one path to all documents of a target store that hold the same
value as it does at a linking path. Each linked document is written and saved on its own. What fails
on the way is reported, and the transfer goes on.

## Contents

* `Stage` / `Setback` — where a link failed, and how;
* `TransferReport` — counts, setbacks and previews;
* `copyInto` — one linked document;
* `fromSource` — all documents linked to one source;
* `transfer` — all sources that a query selects.
-/

namespace DocRepair

namespace Failure

/-- No query for the sources. -/
def missingFromQuery : Failure :=
  ⟨.missingQuery, "missing from_query", []⟩

/-- An argument that is empty. -/
def missingArgument (name : String) : Failure :=
  ⟨.missingField, "missing " ++ name, [("field", .text name)]⟩

/-- A transfer into the identifier field, at a path with its plain text. -/
def transferIntoIdentity (path : Value) (shown : String) : Failure :=
  ⟨.invalidOperation, "cannot transfer into " ++ shown, [("path", path)]⟩

end Failure

/-- Where a link failed: in the lookup, in the edit, or in the save. -/
inductive Stage
  | find
  | apply
  | save
deriving DecidableEq, Repr

/-- The name under which a stage is reported. -/
def Stage.name : Stage → String
  | .find => "find"
  | .apply => "apply"
  | .save => "save"

/-- A lookup or a linked document that failed. -/
structure Setback where
  source : String
  link : Option String
  stage : Stage
  error : Value
deriving Repr

/-- A setback as an object. -/
def Setback.toValue (s : Setback) : Value :=
  .object ([("source", .text s.source)] ++
    (match s.link with
     | some link => [("link", .text link)]
     | none => []) ++
    [("stage", .text s.stage.name), ("error", s.error)])

/-- What a transfer did. -/
structure TransferReport where
  persisted : Bool
  sources : Nat := 0
  links : Nat := 0
  saved : Nat := 0
  skipped : List String := []
  setbacks : List Setback := []
  previews : List Fields := []
deriving Repr

namespace TransferReport

/-- Whether nothing failed. -/
def ok (r : TransferReport) : Bool := r.setbacks.isEmpty

/-- How a transfer went. -/
def status (r : TransferReport) : Status :=
  if r.ok then .ok else .incomplete

/-- A report as an object. -/
def toValue (r : TransferReport) : Value :=
  .object [("status", .text r.status.name), ("persisted", .bool r.persisted),
    ("sources", .int r.sources), ("links", .int r.links), ("saved", .int r.saved),
    ("skipped_sources", .array (r.skipped.map .text)),
    ("failures", .array (r.setbacks.map Setback.toValue)),
    ("previews", .array (r.previews.map .object))]

/-- A report with one more setback. -/
def setback (r : TransferReport) (s : Setback) : TransferReport :=
  { r with setbacks := r.setbacks ++ [s] }

end TransferReport

namespace Transfer

variable {σ τ : Type} [Store σ] [Store τ]

/-- What a transfer copies where: from a path of the sources to a path of the documents that agree
    with them at the linking path. -/
structure Plan where
  linkField : Value
  fromField : Value
  toField : Value
deriving Repr

/-- The filter for the documents linked to a source. A path that is no text must be able to serve
    as a key. -/
def linkFilter (linkField linkValue : Value) : Except Fault Value :=
  match linkField with
  | .text name => .ok (.object [(name, linkValue)])
  | other =>
    if other.isHashable then do
      .ok (.object [(Path.join (← Path.split other), linkValue)])
    else .error (.unhashable other)

/-- A setback at a linked document; it shows the identifiers of the source and of the link. -/
def setbackAt (source link : Value) (stage : Stage) (error : Value) : Except Fault Setback := do
  .ok ⟨← source.plainText, some (← link.plainText), stage, error⟩

/-- Saves a linked document, and reports what became of it. -/
def saveLink (source : Value) (h : Handle) (toField : Value) (report : TransferReport) :
    Access τ TransferReport := do
  let dirty ← Access.lift ((∅ : DirtySet).touch toField)
  let (fields, h) := DirtySet.notify Handle.mark dirty.fields h
  let (h, saved) ← Store.save h fields
  match saved with
  | .ok _ => return { report with saved := report.saved + 1 }
  | .error fault => do
    return report.setback (← Access.lift (setbackAt source h.id .save (.text fault.literal)))

/-- Copies a value into one linked document, and saves it if asked to. -/
def copyInto (source v toField : Value) (h : Handle) (report : TransferReport) :
    Access τ TransferReport := do
  let report := { report with links := report.links + 1 }
  match ← Access.attempt (Access.edit h (Edit.write (some 1) toField v)) with
  -- Only a failure is noted; any other fault ends the transfer.
  | .error (.failure f) => do
    return report.setback (← Access.lift (setbackAt source h.id .apply f.toValue))
  | .error fault => Access.lift (.error fault)
  | .ok (h, _) =>
    if report.persisted then saveLink source h toField report
    else return { report with previews := report.previews ++ [h.data] }

/-- Copies a value into linked documents, one after the other. -/
def copyIntoAll (source v toField : Value) :
    List Handle → TransferReport → Access τ TransferReport
  | [], report => pure report
  | h :: rest, report => do
    copyIntoAll source v toField rest (← copyInto source v toField h report)

/-- The transfer from one source. Without a linking value it is skipped. -/
def fromSource (plan : Plan) (h : Handle) (report : TransferReport) :
    Access τ TransferReport := do
  let report := { report with sources := report.sources + 1 }
  match ← Access.lift (Path.find? (.object h.data) plan.linkField) with
  | none => do
    let source ← Access.lift h.id.plainText
    return { report with skipped := report.skipped ++ [source] }
  | some linkValue => do
    let v ← Access.lift (Path.read? (.object h.data) plan.fromField)
    let lookup := Access.look fun target => do
      Store.find target (← linkFilter plan.linkField linkValue)
    match ← Access.attempt lookup with
    | .error fault => do
      let source ← Access.lift h.id.plainText
      return report.setback ⟨source, none, .find, .text fault.literal⟩
    | .ok links => copyIntoAll h.id (v.getD .null) plan.toField links report

/-- The transfer from sources, one after the other. -/
def fromSources (plan : Plan) : List Handle → TransferReport → Access τ TransferReport
  | [], report => pure report
  | h :: rest, report => do
    fromSources plan rest (← fromSource plan h report)

/-- The first argument of a plan that is empty. -/
def Plan.missing? (plan : Plan) : Option String :=
  ([("link_field", plan.linkField), ("from_field", plan.fromField),
    ("to_field", plan.toField)].find? fun a => !a.2.truthy).map (·.1)

/-- Whether a plan can be carried out on a target with the given identifier field. -/
def Plan.check (plan : Plan) (fromQuery : Value) (idField : String) : Except Fault Unit := do
  if fromQuery.isNull then fail .missingFromQuery
  else
    match plan.missing? with
    | some name => fail (.missingArgument name)
    | none =>
      if ← Edit.isIdentity idField plan.toField then
        failShowing plan.toField (.transferIntoIdentity plan.toField)

end Transfer

variable {σ τ : Type} [Store σ] [Store τ]

/-- Copies a value of every source that a query selects into the documents linked to it. The
    sources are all fetched before the first document is written. -/
def transfer (plan : Transfer.Plan) (fromQuery : Value) (source : σ) (persist : Bool) :
    Access τ TransferReport := do
  Access.lift (plan.check fromQuery (Store.idField (← Access.look fun t : τ => .ok t)))
  let handles ← Access.lift (Store.find source fromQuery)
  Transfer.fromSources plan handles { persisted := persist }

end DocRepair

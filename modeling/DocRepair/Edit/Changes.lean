import DocRepair.Edit
import DocRepair.Change
/-!
# `DocRepair.Edit.Changes` — applying changes

Changes are applied in order. One that fails leaves the document as it found it, so a list that
stops at a change has applied exactly those before it, and the failure says how many they were and
which fields they touched. Only the setting of an identifier may write the identifier field.

## Contents

* `guardIdentity` — the identifier field stays as it is;
* `statusRecord` — a status code with the instant it was set;
* `applyOperation` / `applyChange` — one change;
* `applyChanges` — a list of checked changes, and `applyRaw` in either spelling.
-/

namespace DocRepair

namespace Failure

/-- An operation that would change the identifier field. -/
def identityRewrite (op : Operation) (idField : String) (path : Value) : Failure :=
  ⟨.invalidOperation, op.name ++ " may not rewrite " ++ idField ++ "; use SetIdentifier",
    [("path", path)]⟩

/-- An array is needed where a path leads to something else. -/
def notAppendable (path : Value) (shown : String) : Failure :=
  ⟨.typeMismatch, shown ++ " is not an array", [("path", path)]⟩

/-- An operation of no known name, here as its literal. -/
def noOperation (path : Value) (literal : String) : Failure :=
  ⟨.invalidOperation, "unrecognized operation " ++ literal, [("path", path)]⟩

end Failure

namespace Edit

/-- A path that is the identifier field itself. -/
def isIdentity (idField : String) (path : Value) : Except Fault Bool := do
  .ok ((← Path.split path) == [idField])

/-- Stops if an operation would change the identifier field. -/
def guardIdentity (idField : String) (op : Operation) (path : Value) : Except Fault Unit := do
  if ← isIdentity idField path then fail (.identityRewrite op idField path)

/-- A status code with the instant it was set. -/
def statusRecord (code : Value) (t : Instant) : Value :=
  .object [("code", code), ("date", .instant t)]

/-- Appends a value to the array at a path; an absent one is made, with all levels above it. -/
def append (idField : String) (path v : Value) : Edit Unit := do
  let place ← look fun doc => Path.resolve idField doc path .null
  let target ← look fun doc => .ok (Path.valueAt? doc place)
  match place, target with
  | some p, some (.array xs) => setItems p (xs ++ [v])
  | _, some _ => lift (failShowing path (.notAppendable path))
  | _, none => write none path (.array [v])

/-- Does an operation at a path. -/
def applyOperation (idField : String) (op : Operation) (path v : Value) : Edit Unit :=
  match op with
  | .set => do
    lift (guardIdentity idField op path)
    write (some 1) path v
  | .setIdentifier => do
    let id ← lift (Identity.convert v)
    write (some 1) path (.ident id)
  | .setStatus => do
    lift (guardIdentity idField op path)
    let t ← tick
    write (some 1) path (statusRecord v t)
  | .append => do
    lift (guardIdentity idField op path)
    append idField path v

/-- Does what a tag names, if it is the full name of an operation. -/
def applyTag (idField : String) (tag path v : Value) : Edit Unit :=
  match tag.text?.bind Operation.ofName? with
  | some op => applyOperation idField op path v
  | none => lift (do fail (.noOperation path (← tag.literalText)))

/-- Applies a checked change. -/
def applyChange (idField : String) (c : Change) : Edit Unit :=
  applyOperation idField c.operation (.text c.path) c.value

/-- A failure with the progress made before it. -/
def withProgress (applied : Nat) (dirty : DirtySet) : Fault → Fault
  | .failure f =>
    .failure ((f.addContext "applied" (.int applied)).addContext "dirty" dirty.toValue)
  | fault => fault

/-- Applies checked changes, after `applied` others that touched `dirty`. -/
def applyFrom (idField : String) : (applied : Nat) → DirtySet → List Change → Edit DirtySet
  | _, dirty, [] => pure dirty
  | applied, dirty, c :: rest => fun d =>
    match applyChange idField c d with
    | .error fault d => .error (withProgress applied dirty fault) d
    | .ok _ d =>
      match dirty.touch (.text c.path) with
      | .error fault => .error fault d
      | .ok dirty => applyFrom idField (applied + 1) dirty rest d

/-- Applies checked changes in order, and returns the fields they touched. -/
def applyChanges (idField : String) (changes : List Change) : Edit DirtySet :=
  applyFrom idField 0 ∅ changes

/-- Applies changes in either spelling. -/
def applyRaw (idField : String) (raw : Value) : Edit DirtySet := do
  applyChanges idField (← lift (Change.parse raw))

end Edit

end DocRepair

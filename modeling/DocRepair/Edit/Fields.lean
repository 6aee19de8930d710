import DocRepair.Edit.Changes
/-!
# `DocRepair.Edit.Fields` — removing and moving values

## Contents

* `deleteField` / `deleteFields` — removes what paths name; an absent field counts as touched;
* `move` — takes a value from one path to another, whose container must exist.
-/

namespace DocRepair

namespace Failure

/-- Something that must not happen to the identifier field itself. -/
def identityKept (verb idField : String) (path : Value) : Failure :=
  ⟨.invalidOperation, "cannot " ++ verb ++ " " ++ idField, [("path", path)]⟩

end Failure

namespace Edit

/-- Stops if a path is the identifier field itself. -/
def keepIdentity (idField verb : String) (path : Value) : Except Fault Unit := do
  if ← isIdentity idField path then fail (.identityKept verb idField path)

/-- The place that a path names in the document. -/
def place? (idField : String) (path : Value) : Edit (Option Place) :=
  look fun doc => Path.resolve idField doc path .null

/-- Removes what a path names, if anything. -/
def deleteField (idField : String) (path : Value) : Edit Unit := do
  lift (keepIdentity idField "delete" path)
  match ← place? idField path with
  | some p => do let _ ← drop p
  | none => pure ()

/-- Removes what paths name, one after the other, after others that touched `dirty`. -/
def deleteFrom (idField : String) : DirtySet → List Value → Edit DirtySet
  | dirty, [] => pure dirty
  | dirty, path :: rest => do
    deleteField idField path
    deleteFrom idField (← lift (dirty.touch path)) rest

/-- Removes what the listed paths name, in order. -/
def deleteFields (idField : String) (paths : Value) : Edit DirtySet := do
  deleteFrom idField ∅ (← lift paths.members)

/-- The way from a place that may be absent to the known value, if it lies there. -/
def knownIn (place : Option Place) : Edit (Option Location) :=
  match place with
  | some p => knownBelow? p
  | none => pure none

/-- Takes the value at a place away. -/
def take (place : Option Place) : Edit (Option Value) :=
  match place with
  | some p => drop p
  | none => pure none

/-- Takes the value at one path to another. The source is always emptied. Nothing is written if
    the value is null or absent, or if the container of the target does not exist then. -/
def move (idField : String) (source target : Value) : Edit DirtySet := do
  lift (keepIdentity idField "move" source)
  lift (keepIdentity idField "move" target)
  let dirty ← lift ((∅ : DirtySet).touch source)
  let dirty ← lift (dirty.touch target)
  let start ← place? idField source
  let known ← knownIn start
  let v ← take start
  match v with
  | none | some .null | some .absent => pure dirty
  | some v => do
    match ← place? idField target with
    | some p => do
      put p v
      -- The value itself is moved, and with it what a store knows the document by.
      match known with
      | some rest => follow (p.way ++ rest)
      | none => pure ()
    | none => pure ()
    pure dirty

/-- Moves one after the other, after others that touched `dirty`. -/
def moveFrom (idField : String) : DirtySet → List Move → Edit DirtySet
  | dirty, [] => pure dirty
  | dirty, m :: rest => do
    let more ← move idField (.text m.source) (.text m.target)
    moveFrom idField (dirty.union more) rest

/-- Moves one after the other. -/
def moveAll (idField : String) (moves : List Move) : Edit DirtySet :=
  moveFrom idField ∅ moves

end Edit

end DocRepair

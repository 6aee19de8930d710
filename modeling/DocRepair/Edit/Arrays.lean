import DocRepair.Edit.Fields
/-!
# `DocRepair.Edit.Arrays` — adding to, emptying and searching arrays

## Contents

* `push` — one more item, with some of its values turned into identifiers;
* `inject` — more items for an array that selectors lead to;
* `duplicate` — every item once more;
* `addIds` — identifiers that an array does not hold yet;
* `removeElement` — the element that fields and identifiers lead to;
* `clear` — an array without items.
-/

namespace DocRepair

namespace Failure

/-- An array is needed at a path. -/
def notAnArray (path : Value) (shown : String) : Failure :=
  ⟨.notAnArray, shown ++ " is not an array", [("field", path)]⟩

/-- Names of parts to convert, for a value that has no parts. -/
def noPartsToConvert : Failure :=
  ⟨.typeMismatch, "id_values names sub-fields but the value is not an object", []⟩

/-- A part to convert that the value does not have. -/
def noPartToConvert (name : Value) (shown : String) : Failure :=
  ⟨.missingField, "value has no " ++ shown ++ " to convert", [("field", name)]⟩

/-- A selector beside the last segment of an injection. -/
def injectionIntoElement (path : Value) : Failure :=
  ⟨.invalidOperation, "inject target must be an array field, not an element", [("path", path)]⟩

/-- No steps that lead to an element. -/
def noIdSteps : Failure :=
  ⟨.missingField, "by_id_path needs at least one step", [("field", .text "by_id_path")]⟩

/-- Steps that lead nowhere. -/
def nothingAt (path : String) : Failure :=
  ⟨.notFound, "nothing at " ++ path, [("path", .text path)]⟩

/-- Steps that lead to something other than an item of an array. -/
def notAnElement (path : String) : Failure :=
  ⟨.typeMismatch, "cannot remove " ++ path ++ ": parent container is not an array",
    [("path", .text path)]⟩

end Failure

namespace Edit

/-- The place at a path with the value it holds. -/
def target? (idField : String) (path : Value) : Edit (Option (Place × Value)) :=
  look fun doc => do
    let place ← Path.resolve idField doc path .null
    .ok (place.bind fun p => (p.value? doc).map (p, ·))

/-- The array at a path; anything else there, or nothing, is a failure. -/
def array (idField : String) (path : Value) : Edit (Place × List Value) := do
  match ← target? idField path with
  | some (p, .array xs) => pure (p, xs)
  | _ => lift (failShowing path (.notAnArray path))

/-- The set that holds the top level of a path. -/
def touched (path : Value) : Edit DirtySet :=
  lift ((∅ : DirtySet).touch path)

/-! ## Pushing -/

/-- A value whose named parts are turned into identifiers, one after the other. -/
def convertParts : Fields → List Value → Except Fault Fields
  | fs, [] => .ok fs
  | fs, name :: rest =>
    if name.isHashable then
      match name.text?.bind (fun s => (Fields.get? fs s).map (s, ·)) with
      | some (s, v) => do convertParts (Fields.set fs s (.ident (← Identity.convert v))) rest
      | none => failShowing name (.noPartToConvert name)
    else .error (.unhashable name)

/-- The item that a pushed value becomes. The word "object" turns the value itself into an
    identifier; names turn those parts of it. -/
def pushed (v ids : Value) : Except Fault Value :=
  if ids.text? = some "object" then (Identity.convert v).map .ident
  else if ids.truthy then
    match v with
    | .object fs => do .ok (.object (← convertParts fs (← ids.members)))
    | _ => fail .noPartsToConvert
  else .ok v

/-- Appends a value to the array at a path, if there is one. -/
def push (idField : String) (path v ids : Value) : Edit DirtySet := do
  match ← target? idField path with
  | some (p, .array xs) => do
    let item ← lift (pushed v ids)
    setItems p (xs ++ [item])
    touched path
  | _ => pure ∅

/-! ## Injecting -/

/-- The field whose injected items are wrapped as localized text. -/
def optionsField : String := "enum_opts"

/-- A text with its language, as the one item of a list. -/
def localizedText (v language : Value) : Value :=
  .array [.object [("text", v), ("language", language)]]

/-- The items that injected ones become in a field. -/
def injected (field : String) (language : Value) (items : List Value) : List Value :=
  if field = optionsField then items.map (localizedText · language) else items

/-- Appends items to the array that a path and its selectors lead to, if there is one. -/
def inject (idField : String) (language path ids data : Value) : Edit DirtySet := do
  let names ← lift (Path.split path)
  let wanted ← lift (Path.selectors ids)
  if (wanted.getD (names.length - 1) none).isSome then
    lift (fail (.injectionIntoElement path))
  else do
    let place ← look fun doc => Path.resolveFrom idField doc names wanted
    let target ← look fun doc => .ok (Path.valueAt? doc place)
    match place, target with
    | some p, some (.array xs) => do
      let items ← lift data.members
      setItems p (xs ++ injected (names.getLastD "") language items)
      pure ((∅ : DirtySet).insert (names.headD ""))
    | _, _ => pure ∅

/-! ## Doubling, growing, shrinking -/

/-- Appends every item of an array once more, and returns the new length. -/
def duplicate (idField : String) (path : Value) : Edit (DirtySet × Nat) := do
  let (p, xs) ← array idField path
  setItems p (xs ++ xs)
  pure (← touched path, (xs ++ xs).length)

/-- The identifiers that an array does not hold yet, each once, in order. -/
def newIds (held : List Value) : List ObjectId → Except Fault (List ObjectId)
  | [] => .ok []
  | id :: rest => do
    if ← held.anyM fun v => Identity.compare v (.ident id) then newIds held rest
    else .ok (id :: (← newIds (held ++ [.ident id]) rest))

/-- Appends the identifiers that an array does not hold yet; an absent array is made. -/
def addIds (idField : String) (path ids : Value) : Edit (DirtySet × List ObjectId) := do
  let converted ← lift (do (← ids.members).mapM Identity.convert)
  match ← target? idField path with
  | some (p, .array xs) => do
    let added ← lift (newIds xs converted)
    setItems p (xs ++ added.map .ident)
    let dirty ← touched path
    pure (if added.isEmpty then ∅ else dirty, added)
  | none | some (_, .absent) => do
    let added ← lift (newIds [] converted)
    write none path (.array (added.map .ident))
    pure (← touched path, added)
  | some _ => lift (failShowing path (.notAppendable path))

/-- Removes the element that fields and identifiers lead to, and returns it. -/
def removeElement (idField : String) (steps : List IdStep) : Edit (DirtySet × Value) := do
  if steps.isEmpty then lift (fail .noIdSteps)
  else do
    let path : Value := .array (steps.map fun s => .text s.field)
    let shown := Path.join (steps.map IdStep.field)
    match ← look fun doc => Path.resolve idField doc path (.array (steps.map IdStep.id)) with
    | none => lift (fail (.nothingAt shown))
    | some p =>
      match ← look fun doc => .ok (p.value? doc), p.key with
      | none, _ => lift (fail (.nothingAt shown))
      | some _, .field _ => lift (fail (.notAnElement shown))
      | some removed, .index _ => do
        let _ ← drop p
        pure (← touched path, removed)

/-- Makes the array at a path empty, whatever was there. -/
def clear (idField : String) (path : Value) : Edit DirtySet := do
  lift (keepIdentity idField "clear" path)
  write (some 1) path (.array [])
  touched path

end Edit

end DocRepair

import DocRepair.Edit.Arrays
/-!
# `DocRepair.Edit.Query` — editing the element that passes a test

Steps without a new value descend from field to field. A step with one stands at an array: it
writes a field of the first element that passes its test, and the way does not move on.

## Contents

* `QueryStep.passes` — the test of a step;
* `assigned` — the value that a step writes;
* `modify` — the steps of a query.
-/

namespace DocRepair

namespace Failure

/-- A query without steps. -/
def noQuerySteps : Failure :=
  ⟨.missingField, "field_query must list at least one step", [("field", .text "field_query")]⟩

/-- The way walked so far, or a word for the root. -/
def walkedOrRoot (walked : List String) : String :=
  if Path.join walked = "" then "<root>" else Path.join walked

/-- A step into a field that is not there. -/
def noFieldUnder (field : String) (walked : List String) : Failure :=
  ⟨.notFound, "no field " ++ Text.Quoted.quote field ++ " under " ++ walkedOrRoot walked, []⟩

/-- An edit where the way has not led to an array. -/
def noArrayWalked (walked : List String) : Failure :=
  ⟨.typeMismatch, walkedOrRoot walked ++ " is not an array", []⟩

/-- No element passes the test of a step, whose test value is shown here. -/
def noneMatches (walked : List String) (step : QueryStep) (shown : String) : Failure :=
  ⟨.notFound,
    "no element of " ++ Path.join walked ++ " has " ++ step.testField.getD "None" ++ " == " ++
      shown,
    [("path", .text (Path.join walked)), ("field", (step.testField.map Value.text).getD .null)]⟩

end Failure

/-- Whether an element passes the test of a step: its test field agrees with the test value. -/
def QueryStep.passes (step : QueryStep) (element : Value) : Except Fault Bool :=
  match element, step.testField with
  | .object fs, some name => Identity.compare (Fields.getD fs name) step.testValue
  | _, _ => .ok false

namespace Edit

/-- The word that asks for a fresh identifier. -/
def freshMarker : String := "newID"

/-- The value that a step writes: a fresh identifier, a converted one, or the value as given. -/
def assigned (step : QueryStep) : Edit Value := do
  if step.newValue.text? = some freshMarker then return .ident (← mint)
  else if step.objectId then return .ident (← lift (Identity.convert step.newValue))
  else return step.newValue

/-- Descends into a field. -/
def descend (here : Location) (walked : List String) (field : String) : Edit Location := do
  match ← look fun doc => .ok (((doc.at? here).getD .null).child? (.field field)) with
  | some _ => pure (here ++ [.field field])
  | none => lift (fail (.noFieldUnder field walked))

/-- Writes the field of the first element that passes the test of a step. -/
def editElement (here : Location) (walked : List String) (step : QueryStep) : Edit Unit := do
  match ← look fun doc => .ok (doc.at? here) with
  | some (.array xs) =>
    match ← lift (Value.firstIndex? step.passes xs) with
    | some i => do
      let v ← assigned step
      put ⟨here ++ [.index i], .field step.field⟩ v
    | none => lift (failShowing step.testValue (.noneMatches walked step))
  | _ => lift (fail (.noArrayWalked walked))

/-- The steps of a query, from a location that the fields `walked` lead to. -/
def walk : (here : Location) → (walked : List String) → List QueryStep → Edit Unit
  | _, _, [] => pure ()
  | here, walked, step :: rest =>
    if step.newValue.isNull then do
      let there ← descend here walked step.field
      walk there (walked ++ [step.field]) rest
    else do
      editElement here walked step
      walk here walked rest

/-- Runs a query; it counts as touching the field of its first step. -/
def modify (steps : List QueryStep) : Edit DirtySet := do
  match steps with
  | [] => lift (fail .noQuerySteps)
  | first :: _ => do
    walk [] [] steps
    touched (.text first.field)

end Edit

end DocRepair

import DocRepair.Path.Resolve
/-!
# `DocRepair.Projection` — the selected part of a document

The result holds the identifier and what is found at the selected paths, under the same names but in
objects only: an index of an array becomes the name of a field.

## Contents

* `graft` — a value put at segments, with objects made on the way;
* `select` — one selected path;
* `project` — all of them.
-/

namespace DocRepair

/-- A value put at segments. Missing objects are made; what is already on the way must be able to
    take a field. -/
def Fields.graft : Fields → List String → Value → Except Fault Fields
  | fs, [], _ => .ok fs
  | fs, [name], v => .ok (Fields.set fs name v)
  | fs, name :: second :: rest, v =>
    match (Fields.get? fs name).getD (.object []) with
    | .object inner => do .ok (Fields.set fs name (.object (← graft inner (second :: rest) v)))
    | other =>
      if rest.isEmpty then .error (.notAssignable other)
      else .error (.lacks other "setdefault")

/-- Adds what is found at one path, if anything. -/
def selectPath (doc : Value) (out : Fields) (path : Value) : Except Fault Fields := do
  match ← Path.find? doc path, path with
  | none, _ => .ok out
  | some v, .text s => Fields.graft out ((Path.splitDots s.toList).map String.ofList) v
  | some _, .bytes _ => .error (.wrongType "a bytes-like object is required, not 'str'")
  | some _, other => .error (.lacks other "split")

/-- Whether a text stands somewhere in another. -/
def occursIn (word : List Char) : List Char → Bool
  | [] => word.isEmpty
  | c :: rest => word.isPrefixOf (c :: rest) || occursIn word rest

/-- Whether a name is among what a value holds: fields, items, or parts of its text. -/
def holdsName (name : String) : Value → Except Fault Bool
  | .object fs => .ok (Fields.has fs name)
  | .array xs => .ok (xs.any fun x => x.sameInside (.text name))
  | .text s | .code s _ => .ok (occursIn name.toList s.toList)
  | other => .error (.wrongType ("argument of type '" ++ other.fullKindName ++ "' is not iterable"))

/-- The identifier of a document, as the start of a projection. Only an object may hold one. -/
def identifierOf (idField : String) (doc : Value) : Except Fault Fields := do
  if ← holdsName idField doc then
    match doc with
    | .object fs => .ok [(idField, Fields.getD fs idField)]
    | other => .error (.wrongType ("indices of '" ++ other.fullKindName ++ "' must be integers"))
  else .ok []

/-- The identifier and what is found at the selected paths; all of a document if none is
    selected. -/
def project (idField : String) (doc select : Value) : Except Fault Fields :=
  if select.truthy then do
    (← select.members).foldlM (selectPath doc) (← identifierOf idField doc)
  else doc.asFields

end DocRepair

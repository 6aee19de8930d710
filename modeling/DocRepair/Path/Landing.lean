import DocRepair.Path.Resolve
/-!
# `DocRepair.Path.Landing` — where a write to a path lands

A write goes to the deepest container that the path reaches. Objects that are missing on the way
below it are made, up to a limit. Nothing is made inside scalars, nor in an array other than at its
end.

## Contents

* `Landing` — a place, and the names of the objects to be made below it;
* `containerKey` — the key that a segment names in an existing container;
* `landing` — where a write to segments lands, or why it cannot;
* `write` — a document after a write to a path.
-/

namespace DocRepair

namespace Failure

/-- A segment that is no index, on the way through an array. -/
def notAnIndex (segment : String) : Failure :=
  ⟨.typeMismatch, "cannot address array with non-numeric segment " ++ Text.Quoted.quote segment,
    []⟩

/-- A segment below a scalar. -/
def scalarAt (segment : String) : Failure :=
  ⟨.typeMismatch, "cannot descend into scalar at " ++ Text.Quoted.quote segment, []⟩

/-- A scalar on the way of a path. -/
def scalarOnTheWay (walked whole : List String) : Failure :=
  ⟨.typeMismatch,
    Text.Quoted.quote (Path.join walked) ++ " holds a scalar, cannot descend",
    [("path", .text (Path.join whole))]⟩

/-- More levels missing than may be made. -/
def tooDeep (walked whole : List String) : Failure :=
  ⟨.notFound,
    "path " ++ Text.Quoted.quote (Path.join whole) ++ " is missing " ++
      Text.Quoted.quote (Path.join walked),
    [("path", .text (Path.join whole))]⟩

/-- An index that an array can neither replace nor append. -/
def badIndex (segment : String) : Failure :=
  ⟨.typeMismatch, "invalid array index " ++ Text.Quoted.quote segment, []⟩

end Failure

/-- Where a write lands: a place in an existing container, and the names below it, outermost first,
    whose objects are made on the way. -/
structure Landing where
  place : Place
  below : List String
deriving DecidableEq, Repr

namespace Landing

/-- The landing one or more keys further down. -/
def under (way : Location) (l : Landing) : Landing :=
  { l with place := l.place.under way }

/-- A value inside new objects, one for each name. -/
def nest (names : List String) (v : Value) : Value :=
  names.foldr (fun name inner => .object [(name, inner)]) v

/-- The last key that the write names. -/
def lastKey (l : Landing) : Key :=
  match l.below.getLast? with
  | some name => .field name
  | none => l.place.key

/-- The document after the write. -/
def put (l : Landing) (doc v : Value) : Except Fault Value :=
  l.place.put doc (nest l.below v)

end Landing

namespace Path

/-- The key that a segment names in a container, for a write. -/
def containerKey (container : Value) (segment : String) : Except Fault Key :=
  match container with
  | .array xs => do
    match ← index? segment with
    | some i => if i ≤ xs.length then .ok (.index i) else fail (.badIndex segment)
    | none => fail (.badIndex segment)
  | _ => .ok (.field segment)

/-- The child that a segment names on the way of a write. A way that can never exist is a
    failure. -/
def writableChild (current : Value) (segment : String) : Except Fault (Option (Key × Value)) :=
  match current with
  | .object fs => .ok ((present (Fields.get? fs segment)).map (Key.field segment, ·))
  | .array xs => do
    match ← index? segment with
    | some i => .ok ((present xs[i]?).map (Key.index i, ·))
    | none => fail (.notAnIndex segment)
  | _ => fail (.scalarAt segment)

/-- Whether so many missing levels are within the limit; no limit allows any number. -/
def within (limit : Option Int) (missing : Nat) : Bool :=
  match limit with
  | some n => missing ≤ n
  | none => true

/-- Where a write to segments lands, seen from a value that the segments `walked` lead to. -/
def landingFrom (limit : Option Int) :
    (walked : List String) → Value → List String → Except Fault Landing
  | _, _, [] => fail .emptyPath
  | _, current, [segment] => do
    .ok ⟨⟨[], ← containerKey current segment⟩, []⟩
  | walked, current, segment :: second :: rest => do
    match ← writableChild current segment with
    | none =>
      -- Below a missing level there is nothing, so all that follows is new.
      if within limit (rest.length + 1) then do
        .ok ⟨⟨[], ← containerKey current segment⟩, second :: rest⟩
      else fail (.tooDeep (walked ++ [segment]) (walked ++ segment :: second :: rest))
    | some (k, next) =>
      if next.isContainer then do
        .ok ((← landingFrom limit (walked ++ [segment]) next (second :: rest)).under [k])
      else fail (.scalarOnTheWay (walked ++ [segment]) (walked ++ segment :: second :: rest))

/-- Where a write to a path lands. -/
def landing (limit : Option Int) (doc path : Value) : Except Fault Landing := do
  landingFrom limit [] doc (← split path)

/-- The document after a write to a path. -/
def write (limit : Option Int) (doc path v : Value) : Except Fault Value := do
  (← landing limit doc path).put doc v

end Path

end DocRepair

import DocRepair.Fault
/-!
# `DocRepair.Path.Place` — places in a document

A place is a container, reached by keys from the root, together with one more key in it. It need
not hold anything yet: a write to it adds a field, or an item at the end of an array.

## Contents

* `Key` / `Location` — a field name or an index, and the way from the root to a value;
* `Value.child?` / `Value.at?` — the value under a key, and at a location;
* `Value.replaceAt` — a document with another value at a location;
* `Value.assign` / `Value.remove` — writing and removing one key of a container;
* `Place` — container and key, with `value?`, `exists?`, `put` and `drop`.
-/

namespace DocRepair

/-- A way from a container to one of its values. -/
inductive Key
  | field (name : String)
  | index (i : Nat)
deriving DecidableEq, Repr

/-- The way from the root to a value. -/
abbrev Location := List Key

/-- A key as a value. -/
def Key.toValue : Key → Value
  | .field name => .text name
  | .index i => .int i

namespace Value

/-- The value under a key, if the value is a container that holds one there. -/
def child? : Value → Key → Option Value
  | .object fs, .field name => Fields.get? fs name
  | .array xs, .index i => xs[i]?
  | _, _ => none

/-- The value at a location. -/
def at? : Value → Location → Option Value
  | v, [] => some v
  | v, k :: rest =>
    match v.child? k with
    | some c => c.at? rest
    | none => none

/-- The container with another value under a key that it has; otherwise itself. -/
def setChild : Value → Key → Value → Value
  | .object fs, .field name, v => .object (Fields.set fs name v)
  | .array xs, .index i, v => .array (xs.set i v)
  | container, _, _ => container

/-- The document with another value at a location that it has; otherwise itself. -/
def replaceAt : Value → Location → Value → Value
  | _, [], new => new
  | v, k :: rest, new =>
    match v.child? k with
    | some c => v.setChild k (c.replaceAt rest new)
    | none => v

/-- The container after a write under a key: a new field or a new last item may appear. -/
def assign : Value → Key → Value → Except Fault Value
  | .object fs, .field name, v => .ok (.object (Fields.set fs name v))
  | .array xs, .index i, v =>
    if i < xs.length then .ok (.array (xs.set i v))
    else if i = xs.length then .ok (.array (xs ++ [v]))
    else .error .outOfRange
  | container, _, _ => .error (.notAssignable container)

/-- The container without what it holds under a key. -/
def remove : Value → Key → Value
  | .object fs, .field name => .object (Fields.erase fs name)
  | .array xs, .index i => .array (xs.eraseIdx i)
  | container, _ => container

end Value

/-- A container of a document and a key in it. -/
structure Place where
  container : Location
  key : Key
deriving DecidableEq, Repr

namespace Place

/-- The place one or more keys further down. -/
def under (way : Location) (p : Place) : Place :=
  { p with container := way ++ p.container }

/-- The way from the root to what a place holds. -/
def way (p : Place) : Location := p.container ++ [p.key]

/-- The value that a place holds. -/
def value? (p : Place) (doc : Value) : Option Value :=
  match doc.at? p.container with
  | some c => c.child? p.key
  | none => none

/-- Whether a place holds anything. -/
def exists? (p : Place) (doc : Value) : Bool :=
  (p.value? doc).isSome

/-- The document after a write to a place. -/
def put (p : Place) (doc v : Value) : Except Fault Value :=
  match doc.at? p.container with
  | some c => (c.assign p.key v).map (doc.replaceAt p.container)
  | none => .ok doc

/-- The document without what a place holds. -/
def drop (p : Place) (doc : Value) : Value :=
  match doc.at? p.container with
  | some c => doc.replaceAt p.container (c.remove p.key)
  | none => doc

end Place

end DocRepair

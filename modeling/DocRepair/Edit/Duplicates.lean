import DocRepair.Edit.Arrays
/-!
# `DocRepair.Edit.Duplicates` — elements with a repeated key

The key of an element is the text of one of its fields, of its identifier, or of itself. The first
element with a key stays; elements without a key always stay.

## Contents

* `elementKey` / `elementKeys` — the key of an element, and of all elements of an array;
* `Scan` — what a pass over an array keeps and reports;
* `Scan.after` / `Scan.ofArray` — the pass;
* `findDuplicates` / `removeDuplicates` — the report alone, and with the removal.
-/

namespace DocRepair

/-- The key of an element: the text of a field of an object. Without a field name it is the
    identifier of an object, and the text of anything else. No field has a name that is no text, but
    it must be able to be one. -/
def elementKey (idField : String) (keyField element : Value) : Except Fault (Option String) :=
  match keyField, element with
  | .null, .object fs => Identity.filing (Fields.getD fs idField)
  | .null, v => Identity.filing v
  | name, .object fs =>
    if name.isHashable then
      match name.text? with
      | some s => Identity.filing (Fields.getD fs s)
      | none => .ok none
    else .error (.unhashable name)
  | _, _ => .ok none

/-- The key of every element of an array. -/
def elementKeys (idField : String) (keyField : Value) (xs : List Value) :
    Except Fault (Value → Option String) := do
  let _ ← xs.mapM (elementKey idField keyField)
  .ok fun v => (elementKey idField keyField v).toOption.join

/-- What a pass over an array finds: the elements that stay, those that repeat a key, the keys in
    order of their first appearance, and the number of elements without one. -/
structure Scan where
  kept : List Value := []
  repeated : List Value := []
  keys : List String := []
  unkeyed : Nat := 0
deriving Repr

namespace Scan

/-- A pass over elements, after others with the keys `seen`. -/
def after (key : Value → Option String) : (seen : List String) → List Value → Scan
  | seen, [] => { keys := seen }
  | seen, v :: rest =>
    match key v with
    | none =>
      let s := after key seen rest
      { s with kept := v :: s.kept, unkeyed := s.unkeyed + 1 }
    | some k =>
      if seen.contains k then
        let s := after key seen rest
        { s with repeated := v :: s.repeated }
      else
        let s := after key (seen ++ [k]) rest
        { s with kept := v :: s.kept }

/-- A pass over an array. -/
def ofArray (key : Value → Option String) (xs : List Value) : Scan :=
  after key [] xs

/-- Whether the element at an index stays: it has no key, or none before it has the same. -/
def stays (key : Value → Option String) (xs : List Value) (i : Nat) : Bool :=
  match xs[i]?.bind key with
  | some k => !((xs.take i).filterMap key).contains k
  | none => true

/-- The report of a pass over an array of a given length. -/
def report (s : Scan) (length : Nat) : Fields :=
  [("original_count", .int length), ("unique_count", .int s.keys.length),
   ("duplicate_count", .int s.repeated.length), ("unkeyed_count", .int s.unkeyed),
   ("duplicates", .array s.repeated)]

end Scan

namespace Edit

/-- Reports the elements that repeat a key. -/
def findDuplicates (idField : String) (path keyField : Value) : Edit Fields := do
  let (_, xs) ← array idField path
  let key ← lift (elementKeys idField keyField xs)
  pure ((Scan.ofArray key xs).report xs.length)

/-- Removes the elements that repeat a key, and reports them. -/
def removeDuplicates (idField : String) (path keyField : Value) : Edit (DirtySet × Fields) := do
  let (p, xs) ← array idField path
  let key ← lift (elementKeys idField keyField xs)
  let s := Scan.ofArray key xs
  keepItems p s.kept (Scan.stays key xs)
  pure (← touched path, s.report xs.length)

end Edit

end DocRepair

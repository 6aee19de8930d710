import DocRepair.Path
import DocRepair.Path.Place
import DocRepair.Identity
import DocRepair.Text.Digit
/-!
# `DocRepair.Path.Resolve` — finding the place that a path names

A segment names a field of an object or, written in decimal digits, an index of an array. Beside a
segment may stand a selector: then the segment must name an array, and the way goes on to the first
element whose identifier agrees with the selector. A missing way is no error here but an absence.

## Contents

* `selectors` — the selectors that an argument lists, one for each segment;
* `index?` — the index that a segment spells;
* `step` — the way down one segment;
* `resolve` — the place that a path names, if the way to its container exists;
* `read?` / `find?` / `has` — the value at a path, and whether there is one.
-/

namespace DocRepair

namespace Failure

/-- No element of an array carries the identifier asked for, here as it is shown. -/
def noElement (segment idField wanted : String) : Failure :=
  ⟨.notFound, "no element of " ++ Text.Quoted.quote segment ++ " has " ++ idField ++ " " ++ wanted,
    [("field", .text segment), ("id", .text wanted)]⟩

/-- A selector beside a segment that names no array. -/
def notSelectable (segment : String) : Failure :=
  ⟨.typeMismatch,
    Text.Quoted.quote segment ++ " is addressed by identifier but is not an array",
    [("field", .text segment)]⟩

end Failure

namespace Path

open DocRepair.Text

/-! ## Selectors and indexes -/

/-- A selector, unless it is null or the empty text. -/
def selector? : Value → Option Value
  | .null => none
  | .text s => if s = "" then none else some (.text s)
  | v => some v

/-- The selectors that an argument lists; a text lists them with dots between. -/
def selectors : Value → Except Fault (List (Option Value))
  | .null => .ok []
  | .text s | .code s _ =>
    .ok (if s = "" then []
      else (splitDots s.toList).map fun cs => selector? (.text (String.ofList cs)))
  | ids => do
    let members ← ids.members
    .ok (members.map selector?)

/-- The index that a segment spells, if it is made of digits. -/
def index? (segment : String) : Except Fault (Option Nat) :=
  match Digit.readIndex segment.toList with
  | .notNumeric => .ok none
  | .number n => .ok (some n)
  | .noValue => .error (.notInteger 10 (Quoted.quote segment))
  | .tooLong digits => .error (.longInteger digits)

/-! ## One segment -/

/-- The key and the value of the child that a segment names, if there is one. -/
def childAt (current : Value) (segment : String) : Except Fault (Option (Key × Value)) :=
  match current with
  | .object fs => .ok ((Fields.get? fs segment).map (Key.field segment, ·))
  | .array xs => do
    match ← index? segment with
    | some i => .ok (xs[i]?.map (Key.index i, ·))
    | none => .ok none
  | _ => .ok none

/-- The index of the first element whose identifier agrees with the one wanted. -/
def indexOfId? (idField : String) (wanted : Value) (elements : List Value) :
    Except Fault (Option Nat) :=
  Value.firstIndex? (fun e => Identity.compare (Identity.ofElement idField e) wanted) elements

/-- The element that a selector picks from what a segment names. -/
def select (idField segment : String) (wanted target : Value) : Except Fault (Nat × Value) :=
  match target with
  | .array xs => do
    match ← indexOfId? idField wanted xs with
    | some i => .ok (i, xs.getD i .null)
    | none => failShowing wanted (.noElement segment idField)
  | _ => fail (.notSelectable segment)

/-- The way down one segment and past its selector, with the value reached. -/
def step (idField : String) (current : Value) (segment : String) (selector : Option Value) :
    Except Fault (Option (Location × Value)) := do
  match ← childAt current segment with
  | none => .ok none
  | some (k, v) =>
    match selector with
    | none => .ok (some ([k], v))
    | some wanted => do
      let (i, element) ← select idField segment wanted v
      .ok (some ([k, .index i], element))

/-! ## Whole paths -/

/-- The place that a last segment without selector names. Of an array it may lie beyond the end. -/
def lastPlace (current : Value) (segment : String) : Except Fault (Option Place) :=
  match current with
  | .array _ => do .ok ((← index? segment).map fun i => ⟨[], .index i⟩)
  | _ => .ok (some ⟨[], .field segment⟩)

/-- The place that a last segment with a selector names. -/
def selectedPlace (idField : String) (current : Value) (segment : String) (wanted : Value) :
    Except Fault (Option Place) := do
  match ← childAt current segment with
  | none | some (_, .absent) => .ok none
  | some (k, target) => do
    let (i, _) ← select idField segment wanted target
    .ok (some ⟨[k], .index i⟩)

/-- The place that segments with selectors beside them name, seen from a value. -/
def resolveFrom (idField : String) :
    Value → List String → List (Option Value) → Except Fault (Option Place)
  | _, [], _ => .ok none
  | current, [segment], ids =>
    match ids.headD none with
    | none => lastPlace current segment
    | some wanted => selectedPlace idField current segment wanted
  | current, segment :: second :: rest, ids => do
    match ← step idField current segment (ids.headD none) with
    | none => .ok none
    | some (way, next) =>
      if next.isContainer then do
        .ok ((← resolveFrom idField next (second :: rest) ids.tail).map (·.under way))
      else .ok none

/-- The place that a path names, if the way to its container exists. -/
def resolve (idField : String) (doc path ids : Value) : Except Fault (Option Place) := do
  let names ← split path
  let wanted ← selectors ids
  resolveFrom idField doc names wanted

/-- The place that a path without selectors names. -/
def resolvePlain (doc path : Value) : Except Fault (Option Place) := do
  resolveFrom "" doc (← split path) []

/-- The value at a place that may be absent. -/
def valueAt? (doc : Value) (place : Option Place) : Option Value :=
  place.bind (·.value? doc)

/-- The value at a path; an empty path stands for the whole document. -/
def read? (doc path : Value) : Except Fault (Option Value) :=
  if path.truthy then do .ok (valueAt? doc (← resolvePlain doc path))
  else .ok (some doc)

/-- A value, unless it is the marker of absence. -/
def present (v : Option Value) : Option Value :=
  v.filter fun v => !v.isAbsent

/-- The value at a path, unless it is the marker of absence. -/
def find? (doc path : Value) : Except Fault (Option Value) := do
  .ok (present (← read? doc path))

/-- Whether there is a value at a path. -/
def has (doc path : Value) : Except Fault Bool := do
  .ok (valueAt? doc (← resolvePlain doc path)).isSome

end Path

end DocRepair

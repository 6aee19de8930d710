import DocRepair.Fault
import DocRepair.Value.Same
/-!
# `DocRepair.Value.Members` — going through a value

Where an argument lists things, any value with members will do: the items of an array, the
characters of a text, the names of an object's fields, the numbers of bytes.

## Contents

* `members` — the members of a value, or a fault if it has none;
* `listed` — a value as a list;
* `firstIndex?` — the first of some values that passes a test;
* `asPairs` / `asFields` — a value as pairs, or as fields;
* `isHashable` — whether a value may serve as a key.
-/

namespace DocRepair.Value

/-- The members of a value that has some. -/
def members? : Value → Option (List Value)
  | .array xs => some xs
  | .text s | .code s _ => some (s.toList.map fun c => .text c.toString)
  | .object fs => some (fs.map fun f => .text f.1)
  | .bytes bs | .binary _ bs => some (bs.map fun b => .int b.toNat)
  | _ => none

/-- The members of a value; a fault if it is of a kind that has none. -/
def members (v : Value) : Except Fault (List Value) :=
  match v.members? with
  | some vs => .ok vs
  | none => .error (.notIterable v)

/-- What an argument lists: the items of an array; anything else stands for itself. -/
def listed : Value → List Value
  | .array items => items
  | v => [v]

/-- The index of the first value that passes a test, tried from the front up to that value. -/
def firstIndex? (passes : Value → Except Fault Bool) : List Value → Except Fault (Option Nat)
  | [] => .ok none
  | v :: rest => do
    if ← passes v then .ok (some 0) else .ok ((← firstIndex? passes rest).map (· + 1))

mutual

/-- Whether a value may serve as a key: containers may not, nor program texts, patterns and decimal
    numbers, nor a reference with a part that may not. -/
def isHashable : Value → Bool
  | .array _ | .object _ | .code _ _ | .pattern _ _ | .decimal _ => false
  | .reference collection id database extra =>
    collection.isHashable && id.isHashable && database.isHashable && areHashable extra
  | _ => true

/-- Whether the values of all fields may serve as keys. -/
def areHashable : List (String × Value) → Bool
  | [] => true
  | (_, v) :: rest => v.isHashable && areHashable rest

end

/-- The name and the value that a pair describes. -/
def pair (v : Value × Nat) : Except Fault (Value × Value) :=
  match v.1.members? with
  | some [name, v] => if name.isHashable then .ok (name, v) else .error (.unhashable name)
  | some parts => .error (.badValue
      ("dictionary update sequence element #" ++ toString v.2 ++ " has length " ++
        toString parts.length ++ "; 2 is required"))
  | none => .error (.wrongType
      ("cannot convert dictionary update sequence element #" ++ toString v.2 ++
        " to a sequence"))

/-- Pairs with another one added: of two pairs with one name the later gives the value. -/
def putPair : List (Value × Value) → Value × Value → List (Value × Value)
  | [], p => [p]
  | q :: rest, p =>
    if q.1.sameInside p.1 then (q.1, p.2) :: rest else q :: putPair rest p

/-- A value as pairs of names and values: the fields of an object, or what the members of anything
    else describe. A name need not be a text, but it must be able to serve as a key. -/
def asPairs (v : Value) : Except Fault (List (Value × Value)) :=
  match v with
  | .object fs => .ok (fs.map fun f => (.text f.1, f.2))
  | other => do
    let pairs ← (← other.members).zipIdx.mapM pair
    .ok (pairs.foldl putPair [])

/-- A value as fields: those of an object, or those that the members of anything else describe. -/
def asFields (v : Value) : Except Fault Fields :=
  match v with
  | .object fs => .ok fs
  | other => do
    (← other.asPairs).mapM fun p =>
      match p.1 with
      | .text name => .ok (name, p.2)
      | name => .error (.wrongType ("'" ++ name.kindName ++ "' is no name of a field"))

@[simp] theorem members_array (xs : List Value) : members (.array xs) = .ok xs := rfl

end DocRepair.Value

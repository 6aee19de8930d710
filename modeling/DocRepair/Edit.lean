import DocRepair.Path.Landing
import DocRepair.DirtySet
import DocRepair.Supply
/-!
# `DocRepair.Edit` — edits of one document

An edit works on a draft: the document as it is now and the supply. When it stops with a fault the
draft keeps what was done until then. Every change goes through one of three steps: a write to a
place, the removal of what a place holds, or new items for an array that stays where it is.

The draft also follows the value by which a store knows the document. While that value lies in the
document, changes inside it change it too. Once it is overwritten or taken out, it is kept apart as
it was then.

## Contents

* `Known` — the value by which a store knows a document: in the document, or apart from it;
* `Draft` — document, supply and known value;
* `Edit` — a computation on a draft that may stop with a fault;
* `Edit.put` / `Edit.drop` / `Edit.setItems` — the three steps;
* `Edit.write` — a write to a path.
-/

namespace DocRepair

/-- The value by which a store knows a document. -/
inductive Known
  /-- What lies at a location of the document. -/
  | within (way : Location)
  /-- A value that is no longer part of the document. -/
  | apart (v : Value)
deriving Repr

namespace Known

/-- The known value of a document; null if nothing lies where it should. -/
def value (doc : Value) : Known → Value
  | .within way => (doc.at? way).getD .null
  | .apart v => v

/-- After something else came to lie at a location, or nothing. -/
def part (doc : Value) (way : Location) : Known → Known
  | .within known => if way.isPrefixOf known then .apart ((doc.at? known).getD .null)
    else .within known
  | known => known

/-- The way from a location to the known value, if it lies there. -/
def below? (way : Location) : Known → Option Location
  | .within known => if way.isPrefixOf known then some (known.drop way.length) else none
  | .apart _ => none

/-- After the items of the array at a location were given new places. An item without a place is no
    longer part of the document. -/
def rearrange (doc : Value) (array : Location) (placeOf : Nat → Option Nat) (k : Known) : Known :=
  match k.below? array with
  | some (.index i :: rest) =>
    match placeOf i with
    | some j => .within (array ++ .index j :: rest)
    | none => .apart (k.value doc)
  | _ => k

end Known

/-- A document under edit. -/
structure Draft where
  doc : Value
  supply : Supply
  known : Known := .apart .null
deriving Repr

namespace Draft

/-- The draft before a place is written. -/
def part (d : Draft) (p : Place) : Draft :=
  { d with known := d.known.part d.doc p.way }

/-- The draft before a place is emptied. In an array the items behind move up. -/
def close (d : Draft) (p : Place) : Draft :=
  match p.key with
  | .field _ => d.part p
  | .index i =>
    let placeOf (j : Nat) : Option Nat :=
      if j = i then none else if i < j then some (j - 1) else some j
    { d with known := d.known.rearrange d.doc p.container placeOf }

end Draft

/-- A computation on a draft that may stop with a fault. -/
abbrev Edit := EStateM Fault Draft

namespace Edit

/-- A result that may be a fault, without effect on the draft. -/
def lift {α : Type} (r : Except Fault α) : Edit α := fun d =>
  match r with
  | .ok a => .ok a d
  | .error e => .error e d

/-- What a function finds in the document. -/
def look {α : Type} (f : Value → Except Fault α) : Edit α := fun d =>
  match f d.doc with
  | .ok a => .ok a d
  | .error e => .error e d

/-- Writes a value to a landing. -/
def land (l : Landing) (v : Value) : Edit Unit := fun d =>
  match l.put d.doc v with
  | .ok doc => .ok () { d.part l.place with doc := doc }
  | .error e => .error e d

/-- Writes a value to a place. -/
def put (p : Place) (v : Value) : Edit Unit :=
  land ⟨p, []⟩ v

/-- Removes what a place holds, and returns it. -/
def drop (p : Place) : Edit (Option Value) := fun d =>
  match p.value? d.doc with
  | some v => .ok (some v) { d.close p with doc := p.drop d.doc }
  | none => .ok none d

/-- Gives new items to the array that a place holds; those that it had keep their places, in front
    of all others. -/
def setItems (p : Place) (items : List Value) : Edit Unit := fun d =>
  .ok () { d with doc := d.doc.replaceAt p.way (.array items) }

/-- Leaves to the array that a place holds only some of its items, given together with the test
    that an index passes if its item stays. -/
def keepItems (p : Place) (items : List Value) (stays : Nat → Bool) : Edit Unit := fun d =>
  let placeOf (i : Nat) : Option Nat :=
    if stays i then some ((List.range i).countP stays) else none
  .ok () {
    d with
    doc := d.doc.replaceAt p.way (.array items)
    known := d.known.rearrange d.doc p.way placeOf }

/-- Writes a value to a path, making at most `limit` missing levels. -/
def write (limit : Option Int) (path v : Value) : Edit Unit := do
  let l ← look fun doc => Path.landing limit doc path
  land l v

/-- The way from a place to the known value, if it lies there. -/
def knownBelow? (p : Place) : Edit (Option Location) := fun d =>
  .ok (d.known.below? p.way) d

/-- Takes the known value to be at a location. -/
def follow (way : Location) : Edit Unit := fun d =>
  .ok () { d with known := .within way }

/-- A fresh identifier. -/
def mint : Edit ObjectId := fun d =>
  let (id, supply) := d.supply.mint
  .ok id { d with supply := supply }

/-- The next instant. -/
def tick : Edit Instant := fun d =>
  let (t, supply) := d.supply.tick
  .ok t { d with supply := supply }

end Edit

end DocRepair

import DocRepair.Fault
/-!
# `DocRepair.Supply` — fresh identifiers and instants

What an operation takes from its surroundings is counted here, so that a run is a function of the
supply that it starts with. Identifiers are numbered after a fixed origin. Instants advance by a
fixed pace; a pace of zero is a clock that stands still. What is not a number gets a label of its
own each time that it is made anew; the label 0 is that of the word in the exchange format.

## Contents

* `Supply` — origin and count of identifiers, last instant and pace of the clock;
* `mint` — a fresh identifier;
* `tick` — the next instant;
* `label` — a fresh label for what is not a number;
* `Draw` — a computation that draws on a supply.
-/

namespace DocRepair

/-- A numbering of fresh identifiers, a clock that is read in microseconds since 1970, and a
    numbering of labels. -/
structure Supply where
  origin : Nat
  minted : Nat := 0
  last : Int
  pace : Int
  labels : Nat := 1
deriving DecidableEq, Repr

namespace Supply

/-- The identifier with a number: six bytes of origin, six bytes of number. -/
def identifier (s : Supply) (number : Nat) : ObjectId :=
  ObjectId.ofNat (s.origin * Nat.pow 2 48 + number)

/-- A fresh identifier. -/
def mint (s : Supply) : ObjectId × Supply :=
  (s.identifier (s.minted + 1), { s with minted := s.minted + 1 })

/-- The next instant, in universal time. -/
def tick (s : Supply) : Instant × Supply :=
  (⟨s.last + s.pace, some 0⟩, { s with last := s.last + s.pace })

/-- A fresh label. -/
def label (s : Supply) : Nat × Supply :=
  (s.labels, { s with labels := s.labels + 1 })

end Supply

/-- A computation that draws on a supply and may stop with a fault. -/
abbrev Draw := EStateM Fault Supply

namespace Draw

/-- A result that may be a fault, without effect on the supply. -/
def lift {α : Type} (r : Except Fault α) : Draw α := fun s =>
  match r with
  | .ok a => .ok a s
  | .error e => .error e s

/-- A fresh identifier. -/
def mint : Draw ObjectId := fun s =>
  let (id, s) := s.mint
  .ok id s

/-- A fresh label. -/
def label : Draw Nat := fun s =>
  let (n, s) := s.label
  .ok n s

end Draw

end DocRepair

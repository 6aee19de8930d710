import DocRepair.Store
/-!
# `DocRepair.Store.Guarded` — a store that refuses some kinds of access

## Contents

* `Guarded` — a store, the faults it answers with instead, and a record of the saves asked for;
* its `Store` instance — lookups of a single document are never refused.
-/

namespace DocRepair

/-- A store behind a guard. Each fault given is the answer to one kind of access. -/
structure Guarded (σ : Type) where
  inner : σ
  onFind : Option Fault := none
  onSave : Option Fault := none
  onDelete : Option Fault := none
  asked : List DirtySet := []

namespace Guarded

variable {σ : Type}

/-- Runs an access on the store behind the guard. -/
def behind {α : Type} (a : Access σ α) : Access (Guarded σ) α := fun s =>
  match a ⟨s.store.inner, s.supply⟩ with
  | .ok x t => .ok x ⟨{ s.store with inner := t.store }, t.supply⟩
  | .error e t => .error e ⟨{ s.store with inner := t.store }, t.supply⟩

/-- Stops with a fault, if there is one. -/
def refuse (fault : Option Fault) : Access (Guarded σ) Unit :=
  match fault with
  | some e => Access.lift (.error e)
  | none => pure ()

/-- Notes the fields of a save that is asked for. -/
def note (fields : DirtySet) : Access (Guarded σ) Unit :=
  Access.modifyStore fun g => { g with asked := g.asked ++ [fields] }

instance [Store σ] : Store (Guarded σ) where
  name g := Store.name g.inner
  idField g := Store.idField g.inner
  find g filter :=
    match g.onFind with
    | some e => .error e
    | none => Store.find g.inner filter
  findOne g filter := Store.findOne g.inner filter
  save h fields := do
    note fields
    match ← Access.look fun g => .ok g.onSave with
    | some fault => return (h, .error fault)
    | none => behind (Store.save h fields)
  create docs := behind (Store.create docs)
  delete h := do
    refuse (← Access.look fun g => .ok g.onDelete)
    behind (Store.delete h)

end Guarded

end DocRepair

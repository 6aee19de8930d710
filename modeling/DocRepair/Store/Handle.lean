import DocRepair.Edit
/-!
# `DocRepair.Store.Handle` — documents on loan

A handle holds a copy of a stored document for editing, the identity under which the store knows
it, and the names of the fields that were marked as modified.

The known identity is at first the value of the identifier field itself: changes inside that value
change it too, even where it has been moved. Once it is overwritten or taken out, it is kept apart.

## Contents

* `Handle` — the loan;
* `knownId` / `id` / `idChanged` — the identity that the store knows, and the present one;
* `compareId` / `renamedBy` — the comparison of the two, in itself and for a save;
* `mark` / `settle` — noting modified fields, and starting over after a save;
* `setField` / `unsetField` — writing a field directly;
* `draft` / `afterDraft` — the document for an edit, and the handle behind it.
-/

namespace DocRepair

/-- A document on loan from a store. -/
structure Handle where
  data : Fields
  idField : String
  known : Known := .within [.field idField]
  modified : DirtySet := ∅
deriving Repr

namespace Handle

/-- The present value of the identifier field; null if it is absent. -/
def id (h : Handle) : Value := Fields.getD h.data h.idField

/-- The identity under which the store knows the document. -/
def knownId (h : Handle) : Value := h.known.value (.object h.data)

/-- Whether the present identifier no longer agrees with the known one. -/
def idChanged (h : Handle) : Bool :=
  !h.knownId.isNull && !Identity.agree h.knownId h.id

/-- The comparison of the present identifier with the known one: whether it no longer agrees. -/
def compareId (h : Handle) : Except Fault Bool := do
  if h.knownId.isNull then .ok false else .ok (!(← Identity.compare h.knownId h.id))

/-- Whether a save of some fields changes the identifier in the field of a store. -/
def renamedBy (h : Handle) (idField : String) (fields : DirtySet) : Except Fault Bool :=
  if fields.contains idField then h.compareId else .ok false

theorem compareId_ok {h : Handle} {b : Bool} :
    h.compareId = .ok b ↔ Identity.comparable h.knownId h.id = true ∧ h.idChanged = b := by
  unfold compareId idChanged
  cases hn : h.knownId.isNull with
  | true => simp [Identity.comparable, hn]
  | false =>
    cases hc : Identity.comparable h.knownId h.id <;>
      simp [Identity.compare, hc, Bind.bind, Except.bind]

theorem compareId_error {h : Handle} {fault : Fault} (stop : h.compareId = .error fault) :
    fault = .endlessInteger := by
  unfold compareId at stop
  split at stop
  · cases stop
  · cases compared : Identity.compare h.knownId h.id with
    | ok b => simp [compared, Bind.bind, Except.bind] at stop
    | error other =>
      rw [compared] at stop
      cases stop
      exact (Identity.compare_error.1 compared).2

/-- The identifier by which a save looks for the document: the known one, or the present one of a
    document that had none. -/
def addressId (h : Handle) : Value :=
  if h.knownId.isNull then h.id else h.knownId

/-- Notes a modified field. -/
def mark (h : Handle) (name : String) : Handle :=
  { h with modified := h.modified.insert name }

/-- Whether a field is noted as modified. -/
def isModified (h : Handle) (name : String) : Bool :=
  h.modified.contains name

/-- Forgets which fields were modified. -/
def clearModified (h : Handle) : Handle :=
  { h with modified := ∅ }

/-- The handle after a save, known from then on by a value. -/
def settle (h : Handle) (known : Known) : Handle :=
  { h with known := known, modified := ∅ }

/-- The handle before a field is written or removed. -/
def part (h : Handle) (name : String) : Handle :=
  { h with known := h.known.part (.object h.data) [.field name] }

/-- Writes a field. -/
def setField (h : Handle) (name : String) (v : Value) : Handle :=
  { h.part name with data := Fields.set h.data name v }

/-- Removes a field. -/
def unsetField (h : Handle) (name : String) : Handle :=
  if Fields.has h.data name then { h.part name with data := Fields.erase h.data name } else h

/-- The document of a handle as a draft. -/
def draft (h : Handle) (supply : Supply) : Draft :=
  ⟨.object h.data, supply, h.known⟩

/-- The handle whose document a draft has become. -/
def afterDraft (h : Handle) (d : Draft) : Handle :=
  { h with data := d.doc.fields, known := d.known }

/-- The text that shows a handle. -/
def text (h : Handle) : Except Fault String := do
  .ok ("TrackedDocument(" ++ h.idField ++ "=" ++ (← h.id.plainText) ++ ")")

end Handle

end DocRepair

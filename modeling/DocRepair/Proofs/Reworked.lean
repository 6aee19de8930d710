import DocRepair.Proofs.Kept
import DocRepair.Proofs.Loans
/-!
# `DocRepair.Proofs.Reworked` — copies edited in place

Whoever holds a copy on loan may edit it as he likes, through the edits or field by field. A scalar by
which the store knows the document is not changed by that: it stays where it is, or is kept apart. A
container is changed along with the copy, since it is the same value. Nothing else is known of a
handle that was edited in place, and nothing else is used of it here.

## Contents

* `Handle.Reworked` — a handle, and what it may have become by edits in place;
* `Handle.part_reworked` — one field was written or removed;
* `setField_reworked` / `unsetField_reworked` / `afterDraft_reworked` — edits in place;
* `Handle.Spares` — edits in place that spare what the handle is known by.
-/

namespace DocRepair

/-! ## One field -/

/-- What lies at a location that does not begin with a field stays there when only that field
    changes. The whole document is a container. -/
theorem Value.at?_other_field {fs gs : Fields} {n : String} {way : Location}
    (same : ∀ m, m ≠ n → Fields.get? gs m = Fields.get? fs m)
    (scalar : (((Value.object fs).at? way).getD .null).isContainer = false)
    (off : [Key.field n].isPrefixOf way = false) :
    (Value.object gs).at? way = (Value.object fs).at? way := by
  cases way with
  | nil => cases scalar
  | cons k rest =>
    rw [Value.at?_cons, Value.at?_cons]
    cases k with
    | index i => rfl
    | field m =>
      have other : m ≠ n := by
        rintro rfl
        rw [List.isPrefixOf_cons_cons, beq_self_eq_true] at off
        cases off
      show (Fields.get? gs m).bind _ = (Fields.get? fs m).bind _
      rw [same m other]

/-- A known scalar is still known when one field is written or removed. -/
theorem Known.value_part_field {fs gs : Fields} {n : String} {k : Known}
    (same : ∀ m, m ≠ n → Fields.get? gs m = Fields.get? fs m)
    (scalar : (k.value (.object fs)).isContainer = false) :
    (k.part (.object fs) [.field n]).value (.object gs) = k.value (.object fs) := by
  cases k with
  | apart v => rfl
  | within way =>
    unfold Known.part
    by_cases below : [Key.field n].isPrefixOf way = true
    · simp only [below, if_true]
      rfl
    · simp only [below, Bool.false_eq_true, if_false]
      have still := Value.at?_other_field same scalar (Bool.eq_false_iff.2 below)
      exact congrArg (·.getD .null) still

/-! ## Edits in place -/

namespace Handle

/-- What a handle may have become by edits in place: its documents are identified by the same field,
    and it is known by the same value, unless that is a container. -/
structure Reworked (before after : Handle) : Prop where
  idField : after.idField = before.idField
  known : before.knownId.isContainer = false → after.knownId = before.knownId

variable {h g k : Handle}

theorem Reworked.refl (h : Handle) : h.Reworked h := ⟨rfl, fun _ => rfl⟩

theorem Reworked.trans (first : h.Reworked g) (second : g.Reworked k) : h.Reworked k := by
  refine ⟨second.idField.trans first.idField, fun scalar => ?_⟩
  have same := first.known scalar
  rw [← same] at scalar ⊢
  exact second.known scalar

/-- A change of one field. -/
theorem part_reworked {n : String} {gs : Fields}
    (same : ∀ m, m ≠ n → Fields.get? gs m = Fields.get? h.data m) :
    h.Reworked { h.part n with data := gs } :=
  ⟨rfl, fun scalar => Known.value_part_field same scalar⟩

theorem setField_reworked (h : Handle) (n : String) (v : Value) : h.Reworked (h.setField n v) :=
  part_reworked fun _ other => Fields.get?_set_ne h.data v other

theorem unsetField_reworked (h : Handle) (n : String) : h.Reworked (h.unsetField n) := by
  unfold unsetField
  split
  · exact part_reworked fun _ other => Fields.get?_erase_ne h.data other
  · exact .refl h

/-- **The edits are edits in place**, however they end. -/
theorem afterDraft_reworked {idField : String} {renames : Prop} {names : String → Prop}
    {supply : Supply} {d : Draft} (steps : (h.draft supply).Steps idField renames names d)
    (named : h.knownId.isNull = false) : h.Reworked (h.afterDraft d) := by
  refine ⟨rfl, fun scalar => ?_⟩
  have obj := Draft.Steps.isObject steps rfl
  have same : d.knownValue = h.knownId := Draft.Steps.knownValue steps scalar named
  rw [← same]
  show d.known.value (.object d.doc.fields) = d.known.value d.doc
  rw [← Draft.doc_eq_object obj]

/-- Edits in place that spare the identity by which the store knows the document, if that is a
    container. -/
def Spares (before after : Handle) : Prop :=
  before.Reworked after ∧ (before.knownId.isContainer = true → after.knownId = before.knownId)

/-- Any edit in place spares a scalar. -/
theorem Reworked.spares (reworked : h.Reworked g) (scalar : h.knownId.isContainer = false) :
    h.Spares g := by
  refine ⟨reworked, fun container => ?_⟩
  rw [scalar] at container
  cases container

theorem Spares.knownId (spares : h.Spares g) : g.knownId = h.knownId := by
  cases shape : h.knownId.isContainer with
  | true => exact spares.2 shape
  | false => exact spares.1.known shape

/-- **A copy that was lent** is known by the identifier of its document, also behind edits that spare
    it. -/
theorem Spares.knownId_loan {idField : String} {doc : Fields}
    (spares : (Collection.loan idField doc).Spares h) : h.knownId = Fields.getD doc idField :=
  spares.knownId.trans (knownId_within rfl)

end Handle

end DocRepair

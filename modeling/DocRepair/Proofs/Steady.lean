import Mathlib.Data.List.Forall2
import DocRepair.Gateway.Edits
import DocRepair.Proofs.Steps
/-!
# `DocRepair.Proofs.Steady` — edits under a clock that stands still

Changes and moves mint no identifier. All that they take from the supply is instants, so with a
clock that stands still they leave it as it was. The edits of a call then all start from the same
supply, and what one of them makes of a document does not depend on which documents came before it.

## Contents

* `Edit.Steady` — an edit that leaves the supply as it is when the clock stands still;
* `Edit.applyFrom_steady` / `Edit.moveFrom_steady` — changes and moves are such edits;
* `Gateway.edited?` — what a task makes of one document on loan;
* `Gateway.editAll_steady` — steady edits of many documents, each by itself.
-/

namespace DocRepair

namespace Edit

variable {α β : Type}

/-- An edit that leaves the supply as it is when the clock stands still, whether it returns or
stops. -/
def Steady (a : Edit α) : Prop :=
  ∀ d : Draft, d.supply.pace = 0 → (a.draftAfter d).supply = d.supply

theorem Steady.ok {a : Edit α} {x : α} {d d' : Draft} (steady : Steady a) (still : d.supply.pace = 0)
    (run : a d = .ok x d') : d'.supply = d.supply := by
  rw [← draftAfter_ok run]
  exact steady d still

/-- An edit that never looks at the supply is steady. -/
theorem Steady.of_kept {a : Edit α} (kept : ∀ d, (a.draftAfter d).supply = d.supply) : Steady a :=
  fun d _ => kept d

theorem Steady.pure (x : α) : Steady (Pure.pure x : Edit α) := .of_kept fun _ => rfl

theorem Steady.lift (r : Except Fault α) : Steady (lift r) := by
  refine .of_kept fun d => ?_
  cases r with
  | ok x => rfl
  | error fault => rfl

theorem Steady.look (f : Value → Except Fault α) : Steady (look f) := by
  refine .of_kept fun d => ?_
  unfold draftAfter Edit.look
  cases f d.doc <;> rfl

/-- A reading of a clock that stands still is the reading before. -/
theorem Steady.tick : Steady Edit.tick := by
  intro d still
  show { d.supply with last := d.supply.last + d.supply.pace } = d.supply
  rw [still, Int.add_zero]

theorem Steady.bind {a : Edit α} {f : α → Edit β} (first : Steady a) (rest : ∀ x, Steady (f x)) :
    Steady (a >>= f) := by
  intro d still
  unfold draftAfter
  rw [run_bind]
  cases run : a d with
  | ok x d' =>
    have same : d'.supply = d.supply := first.ok still run
    have go : ((f x).draftAfter d').supply = d'.supply := rest x d' (by rw [same]; exact still)
    exact go.trans same
  | error fault d' =>
    rw [← draftAfter_error run]
    exact first d still

/-! ## The basic edits -/

theorem land_steady (l : Landing) (v : Value) : Steady (land l v) := by
  refine .of_kept fun d => ?_
  unfold draftAfter land
  cases l.put d.doc v <;> rfl

theorem drop_steady (p : Place) : Steady (drop p) := by
  refine .of_kept fun d => ?_
  unfold draftAfter drop
  cases p.value? d.doc with
  | none => rfl
  | some v =>
    show (d.close p).supply = d.supply
    unfold Draft.close
    cases p.key <;> rfl

theorem write_steady (limit : Option Int) (path v : Value) : Steady (write limit path v) :=
  (Steady.look _).bind fun l => land_steady l v

/-! ## Changes -/

variable {idField : String}

theorem append_steady (path v : Value) : Steady (append idField path v) := by
  refine (Steady.look _).bind fun place => (Steady.look _).bind fun target => ?_
  split
  · exact .of_kept fun _ => rfl
  · exact .lift _
  · exact write_steady none path _

/-- **Each operation is steady**: of the supply it uses the clock alone. -/
theorem applyOperation_steady (op : Operation) (path v : Value) :
    Steady (applyOperation idField op path v) := by
  cases op with
  | set => exact (Steady.lift _).bind fun _ => write_steady _ path v
  | setIdentifier => exact (Steady.lift _).bind fun id => write_steady _ path (.ident id)
  | setStatus =>
    exact (Steady.lift _).bind fun _ => Steady.tick.bind fun t => write_steady _ path _
  | append => exact (Steady.lift _).bind fun _ => append_steady path v

theorem applyFrom_steady (applied : Nat) (dirty : DirtySet) (changes : List Change) :
    Steady (applyFrom idField applied dirty changes) := by
  induction changes generalizing applied dirty with
  | nil => exact .pure dirty
  | cons c rest ih =>
    intro d still
    have first : Steady (applyChange idField c) := applyOperation_steady _ _ _
    unfold draftAfter applyFrom
    cases run : applyChange idField c d with
    | error fault d' =>
      rw [← draftAfter_error run]
      exact first d still
    | ok u d' =>
      have same : d'.supply = d.supply := first.ok still run
      cases touched : dirty.touch (.text c.path) with
      | error fault => exact same
      | ok more =>
        have go : ((applyFrom idField (applied + 1) more rest).draftAfter d').supply = d'.supply :=
          ih (applied + 1) more d' (by rw [same]; exact still)
        exact go.trans same

/-! ## Moves -/

theorem move_steady (source target : Value) : Steady (move idField source target) := by
  refine (Steady.lift _).bind fun _ => (Steady.lift _).bind fun _ => ?_
  refine (Steady.lift _).bind fun _ => (Steady.lift _).bind fun dirty => ?_
  refine (Steady.look _).bind fun start => ?_
  have known : Steady (knownIn start) := by
    cases start with
    | none => exact .pure none
    | some p => exact .of_kept fun _ => rfl
  have taken : Steady (take start) := by
    cases start with
    | none => exact .pure none
    | some p => exact drop_steady p
  refine known.bind fun known => taken.bind fun v => ?_
  split
  · exact .pure dirty
  · exact .pure dirty
  · exact .pure dirty
  · refine (Steady.look _).bind fun place => ?_
    cases place with
    | none => exact .pure dirty
    | some p =>
      refine (land_steady _ _).bind fun _ => ?_
      cases known with
      | none => exact .pure dirty
      | some rest => exact .of_kept fun _ => rfl

theorem moveFrom_steady (dirty : DirtySet) (moves : List Move) :
    Steady (moveFrom idField dirty moves) := by
  induction moves generalizing dirty with
  | nil => exact .pure dirty
  | cons m rest ih => exact (move_steady _ _).bind fun more => ih (dirty.union more)

end Edit

/-! ## The edits of a call -/

namespace Gateway

open Edit

variable {σ : Type} {task : Task} {supply : Supply} {handles : List Handle} {edited : List Edited}
  {s t : Session σ}

theorem quiet_steady {edit : Edit DirtySet} (steady : Steady edit) : Steady (quiet edit) :=
  steady.bind fun _ => .pure _

/-- What a task makes of a document on loan; nothing if it stops. -/
def edited? (task : Task) (supply : Supply) (h : Handle) : Option Edited :=
  match task (h.draft supply) with
  | .ok (dirty, notes) d => some ⟨h.afterDraft d, dirty, notes⟩
  | .error _ _ => none

theorem edited_eq_some {h : Handle} {e : Edited} :
    edited? task supply h = some e ↔
      ∃ d, task (h.draft supply) = .ok (e.dirty, e.notes) d ∧ e.handle = h.afterDraft d := by
  unfold edited?
  constructor
  · intro made
    cases run : task (h.draft supply) with
    | error fault d =>
      rw [run] at made
      cases made
    | ok r d =>
      rw [run] at made
      cases made
      exact ⟨d, rfl, rfl⟩
  · rintro ⟨d, run, after⟩
    rw [run]
    dsimp only
    rw [← after]

/-- **Steady edits under a clock that stands still** are made each for itself, and leave the session
as it is. -/
theorem editAll_steady (steady : Steady task) (still : s.supply.pace = 0) :
    editAll task handles s = .ok edited t ↔
      t = s ∧ List.Forall₂ (fun h e => edited? task s.supply h = some e) handles edited := by
  induction handles generalizing edited with
  | nil =>
    constructor
    · intro run
      obtain ⟨rfl, rfl⟩ := run_pure_ok.1 run
      exact ⟨rfl, .nil⟩
    · rintro ⟨rfl, made⟩
      cases made
      rfl
  | cons h rest ih =>
    constructor
    · intro run
      obtain ⟨⟨after, dirty, notes⟩, u, first, run⟩ := run_bind_ok.1 run
      obtain ⟨others, v, more, run⟩ := run_bind_ok.1 run
      obtain ⟨rfl, rfl⟩ := run_pure_ok.1 run
      unfold Access.edit at first
      cases made : task (h.draft s.supply) with
      | error fault d =>
        rw [made] at first
        cases first
      | ok r d =>
        rw [made] at first
        cases first
        have same : d.supply = s.supply := steady.ok still made
        have back : ({ s with supply := d.supply } : Session σ) = s := by rw [same]
        rw [back] at more
        obtain ⟨rfl, others⟩ := ih.1 more
        exact ⟨rfl, .cons (edited_eq_some.2 ⟨d, made, rfl⟩) others⟩
    · rintro ⟨rfl, made⟩
      cases made with
      | @cons _ e _ others first more =>
        obtain ⟨d, run, after⟩ := edited_eq_some.1 first
        have same : d.supply = t.supply := steady.ok still run
        have edits : Access.edit h task t = .ok (e.handle, e.dirty, e.notes) t := by
          unfold Access.edit
          rw [run, after]
          dsimp only
          rw [same]
        refine run_bind_ok.2 ⟨_, _, edits, run_bind_ok.2 ⟨others, t, ih.2 ⟨rfl, more⟩, rfl⟩⟩

end Gateway

end DocRepair

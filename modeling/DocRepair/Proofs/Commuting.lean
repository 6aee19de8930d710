import DocRepair.Proofs.Progress
import DocRepair.Proofs.Steady
import DocRepair.Proofs.Interleaving
/-!
# `DocRepair.Proofs.Commuting` — changes of different fields in either order

Changes reach no further than the fields with which their paths begin: what they find there decides
alone whether they go through and what they leave. Two lists without such a field in common hence go
through in either order or in none. Both orders leave the same document, apart from the order of its
fields, and report the same fields. The clock has to stand still, as each instant is otherwise later
than the one before.

## Contents

* `Edit.Made.append` — a list in two parts that goes through;
* `Edit.Made.untouched` / `Edit.Made.supply` / `Edit.Made.twin` — what changes leave alone, and what
  they depend on;
* `Edit.Made.swap` — the other order goes through as well;
* `Edit.applyChanges_commute` — the two orders side by side.
-/

namespace DocRepair

namespace Edit

variable {idField n : String} {xs ys changes : List Change} {d e d' : Draft}

/-! ## Changes that went through -/

theorem Made.append :
    Made idField (xs ++ ys) d e ↔ ∃ m, Made idField xs d m ∧ Made idField ys m e := by
  induction xs generalizing d with
  | nil =>
    constructor
    · intro made
      exact ⟨d, .nil d, made⟩
    · rintro ⟨m, ⟨⟩, made⟩
      exact made
  | cons c rest ih =>
    constructor
    · intro made
      cases made with
      | cons first others =>
        obtain ⟨m, front, back⟩ := ih.1 others
        exact ⟨m, .cons first front, back⟩
    · rintro ⟨m, front, back⟩
      cases front with
      | cons first others => exact .cons first (ih.2 ⟨m, others, back⟩)

/-- Changes that go through are applied, and report the fields with which they begin. -/
theorem Made.run (made : Made idField changes d e) :
    applyChanges idField changes d = .ok (Change.tops changes) e :=
  applyFrom_ok.2 ⟨made, (DirtySet.empty_union _).symm⟩

theorem applyChanges_made {dirty : DirtySet} (run : applyChanges idField changes d = .ok dirty e) :
    Made idField changes d e ∧ dirty = Change.tops changes := by
  obtain ⟨made, same⟩ := applyFrom_ok.1 run
  exact ⟨made, same.trans (DirtySet.empty_union _)⟩

theorem Made.steps (made : Made idField changes d e) (obj : d.doc.isObject = true) :
    Draft.Steps idField True (fun n => ChangesBegin n changes) d e :=
  Goes.ok (applyChanges_goes obj (fun c among _ rest splits => ⟨c, among, rest, splits⟩)
    fun _ _ _ => trivial) made.run

theorem Made.isObject (made : Made idField changes d e) (obj : d.doc.isObject = true) :
    e.doc.isObject = true :=
  (made.steps obj).isObject obj

theorem Made.untouched (made : Made idField changes d e) (obj : d.doc.isObject = true)
    (other : ¬ ChangesBegin n changes) :
    Fields.get? e.doc.fields n = Fields.get? d.doc.fields n :=
  ((made.steps obj).untouched obj other).1

theorem Made.supply (made : Made idField changes d e) (still : d.supply.pace = 0) :
    e.supply = d.supply :=
  (applyFrom_steady 0 ∅ changes).ok still made.run

/-- **Changes go through again** where the fields with which they begin are the same. -/
theorem Made.twin (made : Made idField changes d e)
    (agree : d.Agree (fun n => ChangesBegin n changes) d') :
    ∃ e', Made idField changes d' e' ∧ e.Agree (fun n => ChangesBegin n changes) e' := by
  have twin : Twin _ (applyFrom idField 0 ∅ changes) d d' :=
    applyFrom_twin 0 ∅ agree fun c among _ rest splits => ⟨c, among, rest, splits⟩
  unfold Twin at twin
  have run : applyFrom idField 0 ∅ changes d = .ok (Change.tops changes) e := made.run
  rw [run] at twin
  cases again : applyFrom idField 0 ∅ changes d' with
  | error fault e' =>
    rw [again] at twin
    cases twin
  | ok dirty e' =>
    rw [again] at twin
    cases twin with
    | ok _ after => exact ⟨e', (applyFrom_ok.1 again).1, after⟩

/-! ## The other order -/

section Swap

variable (obj : d.doc.isObject = true) (still : d.supply.pace = 0)
  (apart : ∀ n, ¬ (ChangesBegin n xs ∧ ChangesBegin n ys))

include obj still apart

/-- **If one order goes through, so does the other**, and leaves the same in every field. -/
theorem Made.swap (made : Made idField (xs ++ ys) d e) :
    ∃ e', Made idField (ys ++ xs) d e' ∧ e'.doc.isObject = true ∧
      Fields.Same e.doc.fields e'.doc.fields := by
  obtain ⟨m, first, second⟩ := Made.append.1 made
  have objM := first.isObject obj
  -- The second list finds its fields as they were at the start.
  have early : m.Agree (fun n => ChangesBegin n ys) d :=
    ⟨objM, obj, first.supply still, fun n begins =>
      first.untouched obj fun too => apart n ⟨too, begins⟩⟩
  obtain ⟨m', second', back⟩ := second.twin early
  have objM' := second'.isObject obj
  -- And the first list finds its fields untouched by the second.
  have late : d.Agree (fun n => ChangesBegin n xs) m' :=
    ⟨obj, objM', (second'.supply still).symm, fun n begins =>
      (second'.untouched obj fun too => apart n ⟨begins, too⟩).symm⟩
  obtain ⟨e', first', front⟩ := first.twin late
  refine ⟨e', Made.append.2 ⟨m', second', first'⟩, first'.isObject objM', fun n => ?_⟩
  by_cases inFirst : ChangesBegin n xs
  · have spared : ¬ ChangesBegin n ys := fun too => apart n ⟨inFirst, too⟩
    rw [second.untouched objM spared]
    exact front.same n inFirst
  · rw [first'.untouched objM' inFirst]
    by_cases inSecond : ChangesBegin n ys
    · exact back.same n inSecond
    · rw [second.untouched objM inSecond, first.untouched obj inFirst,
        second'.untouched obj inSecond]

theorem applyChanges_of_swap
    (run : ∃ dirty e, applyChanges idField (xs ++ ys) d = .ok dirty e) :
    ∃ dirty e, applyChanges idField (ys ++ xs) d = .ok dirty e := by
  obtain ⟨dirty, e, run⟩ := run
  obtain ⟨e', made, _⟩ := (applyChanges_made run).1.swap obj still apart
  exact ⟨_, e', made.run⟩

end Swap

/-- **Changes of different fields commute.** No field begins a path of both lists, and the clock
    stands still. Then one order of the lists goes through if and only if the other does, and the two
    report the same fields and leave the same document, apart from the order of its fields. -/
theorem applyChanges_commute (obj : d.doc.isObject = true) (still : d.supply.pace = 0)
    (apart : ∀ n, ¬ (ChangesBegin n xs ∧ ChangesBegin n ys)) :
    ((∃ dirty e, applyChanges idField (xs ++ ys) d = .ok dirty e) ↔
      ∃ dirty e, applyChanges idField (ys ++ xs) d = .ok dirty e) ∧
    ∀ dirty e dirty' e', applyChanges idField (xs ++ ys) d = .ok dirty e →
      applyChanges idField (ys ++ xs) d = .ok dirty' e' →
      dirty = dirty' ∧
        ∃ fs gs, e.doc = .object fs ∧ e'.doc = .object gs ∧ Fields.Same fs gs := by
  have apart' : ∀ n, ¬ (ChangesBegin n ys ∧ ChangesBegin n xs) := fun n both => apart n both.symm
  refine ⟨⟨applyChanges_of_swap obj still apart, applyChanges_of_swap obj still apart'⟩, ?_⟩
  intro dirty e dirty' e' run run'
  obtain ⟨made, rfl⟩ := applyChanges_made run
  obtain ⟨made', rfl⟩ := applyChanges_made run'
  constructor
  · refine DirtySet.ext_mem fun n => ?_
    rw [Change.mem_tops, Change.mem_tops]
    unfold ChangesBegin
    simp only [List.mem_append, or_comm]
  · obtain ⟨f, swapped, objF, same⟩ := made.swap obj still apart
    -- There is one outcome only, so the swapped run is the given one.
    obtain rfl : f = e' := by
      have outcome := swapped.run.symm.trans made'.run
      cases outcome
      rfl
    exact ⟨e.doc.fields, f.doc.fields, Draft.doc_eq_object (made.isObject obj),
      Draft.doc_eq_object objF, same⟩

/-- Two levels are made below one field, and a status is set in another, in either order. -/
theorem applyChanges_commute_append :
    let supply : Supply := { origin := 0, last := 5, pace := 0 }
    let d : Draft := { doc := .object [("_id", .text "d1")], supply := supply }
    let xs : List Change := [⟨"a.b.c", .append, .int 1⟩]
    let ys : List Change := [⟨"state", .setStatus, .text "done"⟩, ⟨"state.by", .set, .text "me"⟩]
    ∃ dirty e e', applyChanges "_id" (xs ++ ys) d = .ok dirty e ∧
      applyChanges "_id" (ys ++ xs) d = .ok dirty e' ∧
      dirty.fields = ["a", "state"] ∧
      Fields.names e.doc.fields = ["_id", "a", "state"] ∧
      Fields.names e'.doc.fields = ["_id", "state", "a"] ∧
      Fields.Same e.doc.fields e'.doc.fields := by
  intro supply d xs ys
  have first {n : String} (begins : ChangesBegin n xs) : n = "a" := by
    obtain ⟨c, among, rest, splits⟩ := begins
    obtain rfl := List.mem_singleton.1 among
    have own : Path.split (.text "a.b.c") = .ok ["a", "b", "c"] := rfl
    exact (List.cons.inj (Except.ok.inj (own.symm.trans splits))).1.symm
  have second {n : String} (begins : ChangesBegin n ys) : n = "state" := by
    obtain ⟨c, among, rest, splits⟩ := begins
    rcases List.mem_cons.1 among with rfl | among
    · have own : Path.split (.text "state") = .ok ["state"] := rfl
      exact (List.cons.inj (Except.ok.inj (own.symm.trans splits))).1.symm
    · obtain rfl := List.mem_singleton.1 among
      have own : Path.split (.text "state.by") = .ok ["state", "by"] := rfl
      exact (List.cons.inj (Except.ok.inj (own.symm.trans splits))).1.symm
  have apart : ∀ n, ¬ (ChangesBegin n xs ∧ ChangesBegin n ys) := fun n both =>
    absurd ((first both.1).symm.trans (second both.2)) (by decide)
  -- What is reported, and the fields of the document afterwards.
  let seen (changes : List Change) : Edit (List String × List String) := do
    let dirty ← applyChanges "_id" changes
    return (dirty.fields, Fields.names (← get).doc.fields)
  have returns {changes : List Change} {fields names : List String}
      (sees : (seen changes).run' d = some (fields, names)) :
      ∃ dirty e, applyChanges "_id" changes d = .ok dirty e ∧ dirty.fields = fields ∧
        Fields.names e.doc.fields = names := by
    cases run : applyChanges "_id" changes d with
    | error fault e =>
      have stops : seen changes d = .error fault e := run_bind_error.2 (.inl run)
      delta EStateM.run' EStateM.run at sees
      rw [stops] at sees
      cases sees
    | ok dirty e =>
      have goes : seen changes d = .ok (dirty.fields, Fields.names e.doc.fields) e :=
        run_bind_ok.2 ⟨dirty, e, run, rfl⟩
      delta EStateM.run' EStateM.run at sees
      rw [goes] at sees
      cases sees
      exact ⟨dirty, e, rfl, rfl, rfl⟩
  have sees : (seen (xs ++ ys)).run' d = some (["a", "state"], ["_id", "a", "state"]) := by
    decide +kernel
  have sees' : (seen (ys ++ xs)).run' d = some (["a", "state"], ["_id", "state", "a"]) := by
    decide +kernel
  obtain ⟨dirty, e, run, reported, names⟩ := returns sees
  obtain ⟨dirty', e', run', _, names'⟩ := returns sees'
  obtain ⟨rfl, fs, gs, left, right, same⟩ :=
    (applyChanges_commute (show d.doc.isObject = true from rfl) rfl apart).2
      dirty e dirty' e' run run'
  refine ⟨dirty, e, e', run, run', reported, names, names', ?_⟩
  rw [left, right]
  exact same

end Edit

end DocRepair

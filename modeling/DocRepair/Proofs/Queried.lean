import DocRepair.Proofs.Locality
import DocRepair.Proofs.Rewritten
import DocRepair.Proofs.Stops
/-!
# `DocRepair.Proofs.Queried` — what an array query does

A query first descends, by names that it takes as they are, and then edits: once it stands at an
array it cannot descend any more, and an edit leaves it there. Each edit finds its element in what
the edits before it have made of the array, so it may be one that would not have passed before, or
one that an earlier edit has changed.

The names that a query descends by are no paths, but its report is read off the first of them as if
it were one.

## Contents

* `QueryStep.Holds` — the test of a step;
* `QueryStep.Edits` / `QueryStep.EditsAll` — one edit of an array, and one after another;
* `Edit.editElement_ok` / `Edit.walk_edits` / `Edit.walk_ok` — from an array, and from anywhere;
* `Edit.modify_folds` — the effect of a query;
* `Edit.modify_reports` — when a query reports what it has changed.
-/

namespace DocRepair

/-! ## Names and paths -/

namespace Path

theorem splitDots_undotted {cs segment : List Char} (among : segment ∈ splitDots cs) :
    '.' ∉ segment := by
  induction cs generalizing segment with
  | nil =>
    rw [List.mem_singleton.1 among]
    exact List.not_mem_nil
  | cons c rest ih =>
    unfold splitDots at among
    split at among
    · rcases List.mem_cons.1 among with rfl | later
      · exact List.not_mem_nil
      · exact ih later
    · rename_i first
      cases parts : splitDots rest with
      | nil => exact absurd parts (splitDots_ne_nil rest)
      | cons front others =>
        rw [parts] at among ih
        rcases List.mem_cons.1 among with rfl | later
        · exact List.not_mem_cons_of_ne_of_not_mem (Ne.symm first) (ih List.mem_cons_self)
        · exact ih (List.mem_cons_of_mem front later)

/-- A name is the top of the path that it spells just if it has no dot. -/
theorem top_iff_undotted {name top : String} {rest : List String}
    (splits : split (.text name) = .ok (top :: rest)) : top = name ↔ '.' ∉ name.toList := by
  have nonempty : name ≠ "" := by
    rintro rfl
    cases splits
  constructor
  · rintro rfl
    obtain ⟨segs, listed, splits⟩ := bind_eq_ok.1 splits
    have spelled : segments (.text top) = .ok ((splitDots top.toList).map String.ofList) :=
      congrArg Except.ok (if_neg nonempty)
    rw [spelled] at listed
    cases listed
    split at splits
    · cases splits
    · split at splits
      · cases splits
      · have among : top ∈ (splitDots top.toList).map String.ofList := by
          rw [Except.ok.inj splits]
          exact List.mem_cons_self
        obtain ⟨segment, among, same⟩ := List.mem_map.1 among
        rw [← same, String.toList_ofList]
        exact splitDots_undotted among
  · intro undotted
    rw [split_name nonempty undotted] at splits
    cases splits
    rfl

end Path

/-! ## Edits of an array -/

namespace QueryStep

variable {step : QueryStep} {v : Value} {before after : List Value × Supply}
  {steps : List QueryStep}

/-- An element is an object whose test field agrees with the test value. -/
def Holds (step : QueryStep) (v : Value) : Prop :=
  ∃ fs name, v = .object fs ∧ step.testField = some name ∧
    Identity.agree (Fields.getD fs name) step.testValue = true

/-- A test that has an answer tells whether it holds. -/
theorem passes_ok {b : Bool} (answer : step.passes v = .ok b) : b = true ↔ step.Holds v := by
  unfold passes at answer
  split at answer
  · rename_i fs name tested
    rw [← (Identity.compare_ok.1 answer).2]
    constructor
    · exact fun agrees => ⟨fs, name, rfl, tested, agrees⟩
    · rintro ⟨gs, other, same, tested', agrees⟩
      cases same
      rw [tested] at tested'
      cases tested'
      exact agrees
  · rename_i untested
    cases answer
    refine iff_of_false Bool.false_ne_true ?_
    rintro ⟨fs, name, rfl, tested, _⟩
    exact untested fs name rfl tested

/-- One edit of an array, with the supply that it draws on: the first element for which the test
    holds has in the named field what the step writes, and all else is as it was. -/
def Edits (step : QueryStep) (before after : List Value × Supply) : Prop :=
  ∃ i fs v, before.1[i]? = some (.object fs) ∧ step.Holds (.object fs) ∧
    (∀ j < i, ∀ w, before.1[j]? = some w → ¬ step.Holds w) ∧
    step.Writes before.2 v after.2 ∧
    after.1 = before.1.set i (.object (Fields.set fs step.field v))

/-- Edits of an array one after another, each of what the ones before have left. -/
inductive EditsAll : List QueryStep → List Value × Supply → List Value × Supply → Prop
  | nil (array : List Value × Supply) : EditsAll [] array array
  | cons {step : QueryStep} {rest : List QueryStep} {before between after : List Value × Supply}
      (first : step.Edits before between) (others : EditsAll rest between after) :
      EditsAll (step :: rest) before after

theorem Edits.length (edits : step.Edits before after) : after.1.length = before.1.length := by
  obtain ⟨i, fs, v, _, _, _, _, left⟩ := edits
  rw [left, List.length_set]

theorem EditsAll.length (edits : EditsAll steps before after) :
    after.1.length = before.1.length := by
  induction edits with
  | nil => rfl
  | cons first _ ih => exact ih.trans first.length

end QueryStep

/-! ## Queries -/

namespace Edit

open DocRepair.QueryStep (EditsAll)

variable {here : Location} {walked : List String} {step : QueryStep} {steps : List QueryStep}
  {xs : List Value} {d d' : Draft} {u : Unit}

/-- **An edit changes one field of one element** of the array that it stands at. -/
theorem editElement_ok (run : editElement here walked step d = .ok u d') :
    ∃ xs ys, d.doc.at? here = some (.array xs) ∧
      step.Edits (xs, d.supply) (ys, d'.supply) ∧ d'.doc = d.doc.replaceAt here (.array ys) := by
  obtain ⟨target, e, looked, run⟩ := run_bind_ok.1 run
  obtain ⟨held, rfl⟩ := look_ok.1 looked
  split at run
  · rename_i xs
    have held : d.doc.at? here = some (.array xs) := Except.ok.inj held
    obtain ⟨found, e, looks, run⟩ := run_bind_ok.1 run
    obtain ⟨searched, rfl⟩ := lift_ok.1 looks
    cases found with
    | none => exact absurd (lift_ok.1 run).1 failShowing_ne_ok
    | some i =>
      obtain ⟨v, e, assigns, wrote⟩ := run_bind_ok.1 run
      obtain ⟨s, rfl, writes⟩ := assigned_ok assigns
      obtain ⟨doc, put, rfl⟩ := land_ok.1 wrote
      obtain ⟨⟨element, item, passes⟩, before⟩ := firstIndex?_eq_some.1 searched
      obtain ⟨fs, rfl⟩ := step.object_of_passes passes
      have child : (Value.array xs).child? (.index i) = some (.object fs) := item
      have there : d.doc.at? (here ++ [.index i]) = some (.object fs) := by
        rw [Value.at?_append, held, Option.bind_some, Value.at?_cons, child]
        rfl
      have written : (⟨here ++ [.index i], .field step.field⟩ : Place).put d.doc v = .ok doc := put
      unfold Place.put at written
      rw [there] at written
      cases written
      refine ⟨xs, xs.set i (.object (Fields.set fs step.field v)), held, ?_,
        Value.replaceAt_concat held child _⟩
      refine ⟨i, fs, v, item, (QueryStep.passes_ok passes).1 rfl, fun j earlier w at_j holds => ?_,
        writes, rfl⟩
      exact absurd ((QueryStep.passes_ok (before j earlier w at_j)).2 holds) Bool.false_ne_true
  · cases (lift_ok.1 run).1

/-- **From an array on, all steps are edits** of this array. -/
theorem walk_edits (held : d.doc.at? here = some (.array xs))
    (run : walk here walked steps d = .ok u d') :
    (∀ step ∈ steps, step.newValue.isNull = false) ∧
      ∃ ys, EditsAll steps (xs, d.supply) (ys, d'.supply) ∧
        d'.doc = d.doc.replaceAt here (.array ys) := by
  induction steps generalizing d xs with
  | nil =>
    obtain ⟨_, rfl⟩ := run_pure_ok.1 run
    exact ⟨by simp, xs, .nil _, (Value.replaceAt_self held).symm⟩
  | cons step rest ih =>
    unfold walk at run
    split at run
    · -- An array has no fields to descend into.
      obtain ⟨there, e, descended, _⟩ := run_bind_ok.1 run
      obtain ⟨_, _, c, child⟩ := descend_ok descended
      rw [held] at child
      cases child
    · rename_i edits
      obtain ⟨_, e, edited, run⟩ := run_bind_ok.1 run
      obtain ⟨_, zs, held', first, left⟩ := editElement_ok edited
      rw [held] at held'
      cases held'
      have held' : e.doc.at? here = some (.array zs) := by
        rw [left]
        exact Value.at?_replaceAt_self held _
      obtain ⟨others, ys, after, left'⟩ := ih held' run
      refine ⟨List.forall_mem_cons.2 ⟨Bool.of_not_eq_true edits, others⟩, ys, .cons first after, ?_⟩
      rw [left', left, Value.replaceAt_replaceAt held]

/-- **The steps of a query are descents and then edits**, all of one array. -/
theorem walk_ok (run : walk here walked steps d = .ok u d') :
    ∃ descents edits, steps = descents ++ edits ∧
      (∀ step ∈ descents, step.newValue.isNull = true) ∧
      (∀ step ∈ edits, step.newValue.isNull = false) ∧
      (edits = [] → d' = d) ∧
      (edits ≠ [] → ∃ xs ys,
        d.doc.at? (here ++ descents.map fun step => .field step.field) = some (.array xs) ∧
        EditsAll edits (xs, d.supply) (ys, d'.supply) ∧
        d'.doc = d.doc.replaceAt (here ++ descents.map fun step => .field step.field)
          (.array ys)) := by
  induction steps generalizing here walked with
  | nil =>
    obtain ⟨_, rfl⟩ := run_pure_ok.1 run
    exact ⟨[], [], rfl, by simp, by simp, fun _ => rfl, fun some => absurd rfl some⟩
  | cons step rest ih =>
    by_cases descends : step.newValue.isNull = true
    · unfold walk at run
      rw [if_pos descends] at run
      obtain ⟨there, e, descended, run⟩ := run_bind_ok.1 run
      obtain ⟨rfl, rfl, _⟩ := descend_ok descended
      obtain ⟨descents, edits, rfl, down, edit, none, some⟩ := ih run
      refine ⟨step :: descents, edits, rfl, List.forall_mem_cons.2 ⟨descends, down⟩, edit, none, ?_⟩
      rw [List.map_cons, List.append_cons]
      exact some
    · -- The first edit is at an array, and so are those behind it.
      have edited := run
      unfold walk at edited
      rw [if_neg descends] at edited
      obtain ⟨_, e, edited, _⟩ := run_bind_ok.1 edited
      obtain ⟨xs, _, held, _⟩ := editElement_ok edited
      obtain ⟨edits, ys, after, left⟩ := walk_edits held run
      refine ⟨[], step :: rest, rfl, by simp, edits, fun none => (List.cons_ne_nil _ _ none).elim,
        fun _ => ⟨xs, ys, ?_⟩⟩
      rw [List.map_nil, List.append_nil]
      exact ⟨held, after, left⟩

/-- **The effect of an array query.** Its steps are descents, and then edits. Without edits the
    document is as it was. Otherwise the array that the descents lead to has been edited by one
    after another, has as many elements as before, and is all that has changed. -/
theorem modify_folds {dirty : DirtySet} (run : modify steps d = .ok dirty d') :
    ∃ descents edits, steps = descents ++ edits ∧
      (∀ step ∈ descents, step.newValue.isNull = true) ∧
      (∀ step ∈ edits, step.newValue.isNull = false) ∧
      let way : Location := descents.map fun step => .field step.field
      (edits = [] → d'.doc = d.doc) ∧
      (edits ≠ [] → ∃ xs ys, d.doc.at? way = some (.array xs) ∧
        EditsAll edits (xs, d.supply) (ys, d'.supply) ∧ ys.length = xs.length ∧
        d'.doc = d.doc.replaceAt way (.array ys) ∧ d'.doc.at? way = some (.array ys) ∧
        ∀ w, ¬ way <+: w → ¬ w <+: way → d'.doc.at? w = d.doc.at? w) := by
  unfold modify at run
  split at run
  · cases (lift_ok.1 run).1
  · obtain ⟨_, e, walks, run⟩ := run_bind_ok.1 run
    obtain ⟨_, rfl⟩ := lift_ok.1 run
    obtain ⟨descents, edits, parts, down, edit, none, some⟩ := walk_ok walks
    refine ⟨descents, edits, parts, down, edit, fun empty => by rw [none empty], fun more => ?_⟩
    obtain ⟨xs, ys, held, after, left⟩ := some more
    rw [List.nil_append] at held left
    refine ⟨xs, ys, held, after, after.length, left, ?_, fun w notBelow notAbove => ?_⟩
    · rw [left]
      exact Value.at?_replaceAt_self held _
    · rw [left]
      exact Value.at?_replaceAt_apart notBelow notAbove _ _

/-- Two edits of one element: it passes the second test only since the first edit. -/
theorem modify_folds_in_turn :
    let steps : List QueryStep := [{ field := "xs" },
      { field := "k", newValue := .text "y", testField := some "k", testValue := .text "x" },
      { field := "v", newValue := .int 2, testField := some "k", testValue := .text "y" }]
    let xs : List Value := [.object [("k", .text "x")], .object [("k", .text "y")]]
    let d : Draft := {
      doc := .object [("xs", .array xs)]
      supply := { origin := 0, last := 0, pace := 1 } }
    ∃ dirty d', modify steps d = .ok dirty d' ∧
      ∃ descents edits, steps = descents ++ edits ∧
        (∀ step ∈ descents, step.newValue.isNull = true) ∧
        (∀ step ∈ edits, step.newValue.isNull = false) ∧
        let way : Location := descents.map fun step => .field step.field
        (edits = [] → d'.doc = d.doc) ∧
        (edits ≠ [] → ∃ xs ys, d.doc.at? way = some (.array xs) ∧
          EditsAll edits (xs, d.supply) (ys, d'.supply) ∧ ys.length = xs.length ∧
          d'.doc = d.doc.replaceAt way (.array ys) ∧ d'.doc.at? way = some (.array ys) ∧
          ∀ w, ¬ way <+: w → ¬ w <+: way → d'.doc.at? w = d.doc.at? w) := by
  intro steps xs d
  obtain ⟨dirty, d', run⟩ : ∃ dirty d', modify steps d = .ok dirty d' := ⟨_, _, rfl⟩
  exact ⟨dirty, d', run, modify_folds run⟩

/-- **When an array query reports what it has changed.** It changes at most the field that its first
    step names, and reports the top of that name, read as a path. So its report covers the change
    just if the name has no dot, or the field is as it was. -/
theorem modify_reports {dirty : DirtySet} (obj : d.doc.isObject = true)
    (run : modify steps d = .ok dirty d') :
    ∃ first rest, steps = first :: rest ∧
      (∀ name ≠ first.field, Fields.get? d'.doc.fields name = Fields.get? d.doc.fields name) ∧
      ((∀ name ∉ dirty.fields, Fields.get? d'.doc.fields name = Fields.get? d.doc.fields name) ↔
        '.' ∉ first.field.toList ∨
          Fields.get? d'.doc.fields first.field = Fields.get? d.doc.fields first.field) := by
  obtain ⟨first, rest, top, names, rfl, splits, reported, confined, _⟩ := modify_confined "" obj run
  have others : ∀ name ≠ first.field,
      Fields.get? d'.doc.fields name = Fields.get? d.doc.fields name :=
    fun name other => confined.same name fun same => other (List.mem_singleton.1 same)
  refine ⟨first, rest, rfl, others, ?_⟩
  rw [reported, ← Path.top_iff_undotted splits]
  constructor
  · intro covered
    by_cases same : top = first.field
    · exact .inl same
    · exact .inr (covered first.field fun among => same (List.mem_singleton.1 among).symm)
  · rintro (rfl | same) name unreported
    · exact others name fun named => unreported (List.mem_singleton.2 named)
    · by_cases named : name = first.field
      · rw [named]
        exact same
      · exact others name named

/-- A query below a field without dots reports it. -/
theorem modify_reports_plain_field :
    let steps : List QueryStep := [{ field := "xs" },
      { field := "v", newValue := .int 2, testField := some "k", testValue := .text "x" }]
    let d : Draft := {
      doc := .object [("xs", .array [.object [("k", .text "x"), ("v", .int 1)]])]
      supply := { origin := 0, last := 0, pace := 1 } }
    ∃ dirty d', modify steps d = .ok dirty d' ∧ ∃ first rest, steps = first :: rest ∧
      (∀ name ≠ first.field, Fields.get? d'.doc.fields name = Fields.get? d.doc.fields name) ∧
      ((∀ name ∉ dirty.fields, Fields.get? d'.doc.fields name = Fields.get? d.doc.fields name) ↔
        '.' ∉ first.field.toList ∨
          Fields.get? d'.doc.fields first.field = Fields.get? d.doc.fields first.field) := by
  intro steps d
  obtain ⟨dirty, d', run⟩ : ∃ dirty d', modify steps d = .ok dirty d' := ⟨_, _, rfl⟩
  exact ⟨dirty, d', run, modify_reports rfl run⟩

/-- A query changes the field `a.b`, and reports a field `a` that is not there. -/
theorem dotted_field_not_reported :
    let steps : List QueryStep := [{ field := "a.b" },
      { field := "v", newValue := .int 2, testField := some "k", testValue := .text "x" }]
    let d : Draft := {
      doc := .object [("a.b", .array [.object [("k", .text "x"), ("v", .int 1)]])]
      supply := { origin := 0, last := 0, pace := 1 } }
    ∃ dirty d', modify steps d = .ok dirty d' ∧ dirty.fields = ["a"] ∧
      ¬ ∀ name ∉ dirty.fields, Fields.get? d'.doc.fields name = Fields.get? d.doc.fields name := by
  intro steps d
  refine ⟨_, _, rfl, rfl, fun covered => ?_⟩
  cases covered "a.b" (by decide)

end Edit

end DocRepair

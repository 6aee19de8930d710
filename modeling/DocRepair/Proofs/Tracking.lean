import DocRepair.Proofs.Calls
import DocRepair.Proofs.Dirty
/-!
# `DocRepair.Proofs.Tracking` — what an edit on loan leaves behind

A document on loan is known by its identifier field. The edit of a call may write that field only
with an object identifier, and then reports it. An array query does not go by a path: it walks from
field to field, and what it reports is read off the first field's name.

## Contents

* `QueryStep.Writes` / `Edit.assigned_ok` — what a step of an array query writes;
* `Edit.modify_confined` — an array query never writes the identifier field itself;
* `Gateway.Reports` — an edit behind the report of a call;
* `Gateway.Call.task_given` / `Gateway.Call.task_cases` — every edit of a call goes by paths, or is an
  array query;
* `Gateway.Traced` / `Gateway.Call.task_traced` — the document behind the edit of a call;
* `Gateway.Call.task_unreported` — a field that a plain call does not report is as it was.
-/

namespace DocRepair

/-- What a step writes, and the supply that is left then: a fresh identifier, the identifier that
    its new value stands for, or its new value. -/
inductive QueryStep.Writes (step : QueryStep) (s : Supply) : Value → Supply → Prop
  | fresh (asked : step.newValue.text? = some Edit.freshMarker) :
      Writes step s (.ident s.mint.1) s.mint.2
  | converted {id : ObjectId} (other : step.newValue.text? ≠ some Edit.freshMarker)
      (asked : step.objectId = true) (converts : Identity.convert step.newValue = .ok id) :
      Writes step s (.ident id) s
  | given (other : step.newValue.text? ≠ some Edit.freshMarker) (plain : step.objectId = false) :
      Writes step s step.newValue s

namespace Edit

variable {idField n : String} {more : Location} {d d' : Draft}

/-! ## Array queries -/

/-- A write below the identifier field leaves that field the known value. -/
theorem land_within {l : Landing} {v : Value} {u : Unit} {way : Location}
    (hway : l.place.way = .field n :: way) (below : way ≠ [])
    (within : d.known = .within [.field idField]) (run : land l v d = .ok u d') :
    d'.known = .within [.field idField] := by
  obtain ⟨doc, _, rfl⟩ := land_ok.1 run
  show d.known.part d.doc l.place.way = _
  rw [hway, within]
  exact Known.part_within fun h => below h.2

theorem assigned_ok {step : QueryStep} {v : Value} (run : assigned step d = .ok v d') :
    ∃ s, d' = { d with supply := s } ∧ step.Writes d.supply v s := by
  unfold assigned at run
  split at run
  · rename_i asked
    obtain ⟨id, e, minted, run⟩ := run_bind_ok.1 run
    obtain ⟨rfl, rfl⟩ := run_pure_ok.1 run
    cases minted
    exact ⟨_, rfl, .fresh asked⟩
  · rename_i other
    split at run
    · rename_i asked
      obtain ⟨id, e, converted, run⟩ := run_bind_ok.1 run
      obtain ⟨rfl, rfl⟩ := run_pure_ok.1 run
      obtain ⟨converts, rfl⟩ := lift_ok.1 converted
      exact ⟨d.supply, rfl, .converted other asked converts⟩
    · rename_i plain
      obtain ⟨rfl, rfl⟩ := run_pure_ok.1 run
      exact ⟨d.supply, rfl, .given other (Bool.of_not_eq_true plain)⟩

theorem assigned_same {step : QueryStep} {v : Value} (run : assigned step d = .ok v d') :
    ∃ supply, d' = { d with supply := supply } := by
  obtain ⟨s, same, _⟩ := assigned_ok run
  exact ⟨s, same⟩

/-- A query below a field stays below it, and never writes the field itself. -/
theorem walk_confined {walked : List String} {steps : List QueryStep} {u : Unit}
    (obj : d.doc.isObject = true)
    (run : walk (.field n :: more) walked steps d = .ok u d') :
    Confined idField [n] d d' ∧
      (d.known = .within [.field idField] → d'.known = .within [.field idField]) := by
  induction steps generalizing more walked d with
  | nil =>
    obtain ⟨_, rfl⟩ := run_pure_ok.1 run
    exact ⟨.refl obj, fun h => h⟩
  | cons step rest ih =>
    unfold walk at run
    split at run
    · obtain ⟨there, e, descended, run⟩ := run_bind_ok.1 run
      obtain ⟨child, e', looked, descended⟩ := run_bind_ok.1 descended
      obtain ⟨_, rfl⟩ := look_ok.1 looked
      cases child with
      | none => cases (lift_ok.1 descended).1
      | some c =>
        obtain ⟨rfl, rfl⟩ := run_pure_ok.1 descended
        exact ih obj run
    · obtain ⟨_, e, edited, run⟩ := run_bind_ok.1 run
      obtain ⟨here, e', looked, edited⟩ := run_bind_ok.1 edited
      obtain ⟨_, rfl⟩ := look_ok.1 looked
      split at edited
      · rename_i xs _
        obtain ⟨found, e', sought, edited⟩ := run_bind_ok.1 edited
        obtain ⟨_, rfl⟩ := lift_ok.1 sought
        cases found with
        | none => exact absurd (lift_ok.1 edited).1 failShowing_ne_ok
        | some i =>
          obtain ⟨v, e', assigns, wrote⟩ := run_bind_ok.1 edited
          obtain ⟨supply, rfl⟩ := assigned_same assigns
          let l : Landing := ⟨⟨.field n :: more ++ [.index i], .field step.field⟩, []⟩
          have hway : l.place.way = .field n :: (more ++ [.index i] ++ [.field step.field]) := rfl
          have below : more ++ [.index i] ++ [.field step.field] ≠ ([] : Location) := by simp
          have drawn : Confined idField [n] d { d with supply := supply } := .of_supply obj supply
          have written : Confined idField [n] _ e :=
            land_confined drawn.isObject hway (fun _ hw => absurd hw below) wrote
          obtain ⟨others, stays⟩ := ih written.isObject run
          refine ⟨(drawn.trans written).trans others, fun within => stays ?_⟩
          have start : ({ d with supply := supply } : Draft).known = .within [.field idField] :=
            within
          exact land_within hway below start wrote
      · cases (lift_ok.1 edited).1

/-- **An array query is confined to the field named by its first step**, and never writes the
    identifier field itself. What it reports is only the first segment of that name. -/
theorem modify_confined (idField : String) {steps : List QueryStep} {dirty : DirtySet}
    (obj : d.doc.isObject = true)
    (run : modify steps d = .ok dirty d') :
    ∃ first rest n names, steps = first :: rest ∧
      Path.split (.text first.field) = .ok (n :: names) ∧ dirty.fields = [n] ∧
      Confined idField [first.field] d d' ∧
      (d.known = .within [.field idField] → d'.known = .within [.field idField]) := by
  unfold modify at run
  split at run
  · cases (lift_ok.1 run).1
  · rename_i first rest
    obtain ⟨_, e, walks, run⟩ := run_bind_ok.1 run
    obtain ⟨n, names, hsplit, hdirty, rfl⟩ := touched_ok run
    refine ⟨first, rest, n, names, rfl, hsplit, hdirty, ?_⟩
    unfold walk at walks
    split at walks
    · obtain ⟨there, e, descended, walks⟩ := run_bind_ok.1 walks
      obtain ⟨child, e', looked, descended⟩ := run_bind_ok.1 descended
      obtain ⟨_, rfl⟩ := look_ok.1 looked
      cases child with
      | none => cases (lift_ok.1 descended).1
      | some c =>
        obtain ⟨rfl, rfl⟩ := run_pure_ok.1 descended
        exact walk_confined obj walks
    · -- The document itself is no array.
      obtain ⟨_, e, edited, _⟩ := run_bind_ok.1 walks
      obtain ⟨here, e', looked, edited⟩ := run_bind_ok.1 edited
      obtain ⟨hhere, rfl⟩ := look_ok.1 looked
      rw [Draft.doc_eq_object obj] at hhere
      cases hhere
      cases (lift_ok.1 edited).1

end Edit

namespace Gateway

/-! ## The edits of calls -/

/-- The edit behind a task: what the task reports as touched is what the edit reports. -/
def Reports (edit : Edit DirtySet) (task : Task) : Prop :=
  ∀ d dirty notes d', task d = .ok (dirty, notes) d' → edit d = .ok dirty d'

theorem Reports.quiet (edit : Edit DirtySet) : Reports edit (quiet edit) := by
  intro d dirty notes d' run
  obtain ⟨reported, e, done, run⟩ := run_bind_ok.1 run
  obtain ⟨heq, rfl⟩ := run_pure_ok.1 run
  cases heq
  exact done

/-- A task that reports on the result of its edit. -/
theorem Reports.noted {α : Type} (edit : Edit (DirtySet × α)) (notes : α → Option Fields) :
    Reports (edit >>= fun r => pure r.1) (edit >>= fun r => pure (r.1, notes r.2)) := by
  intro d dirty notes d' run
  obtain ⟨⟨reported, a⟩, e, done, run⟩ := run_bind_ok.1 run
  obtain ⟨heq, rfl⟩ := run_pure_ok.1 run
  cases heq
  exact run_bind_ok.2 ⟨_, _, done, rfl⟩

variable {settings : Settings} {query : Value} {many : Bool} {task : Task}

/-- The changes that a call is given. -/
def Call.changes : Call → Option Value
  | .execute _ changes _ => some changes
  | .setStatus _ path code =>
    some (.array [.object [("path", path), ("operation", .text Operation.setStatus.name),
      ("value", code)]])
  | _ => none

/-- An edit that applies no changes but those that a call is given. -/
def Call.Given (call : Call) : PathEdit → Prop
  | .applyChanges changes => ∃ raw, call.changes = some raw ∧ Change.parse raw = .ok changes
  | .applyRaw _ => False
  | _ => True

/-- **Every edit of a call goes by paths, or is an array query.** The changes that it applies are
    those of the call. -/
theorem Call.task_given {call : Call} (h : call.action settings = .ok (.edit query many task)) :
    (∃ edit : PathEdit, call.Given edit ∧ Reports (edit.run settings.idField) task) ∨
      ∃ given steps, call = .modifyArray query given ∧
        parseMembers QueryStep.parse given = .ok steps ∧ Reports (Edit.modify steps) task := by
  cases call with
  | execute query changes many =>
    obtain ⟨parsed, parses, h⟩ := bind_eq_ok.1 h
    cases h
    exact .inl ⟨.applyChanges parsed, ⟨_, rfl, parses⟩, .quiet _⟩
  | setStatus query path code =>
    obtain ⟨parsed, parses, h⟩ := bind_eq_ok.1 h
    cases h
    exact .inl ⟨.applyChanges parsed, ⟨_, rfl, parses⟩, .quiet _⟩
  | push query field v ids =>
    cases h
    exact .inl ⟨.push field v ids, trivial, .quiet _⟩
  | addIds query field ids =>
    cases h
    exact .inl ⟨.addIds field ids, trivial, .noted (Edit.addIds settings.idField field ids)
      fun added => some [("added", .array (added.map fun id : ObjectId => Value.text id.text))]⟩
  | inject query field ids data =>
    cases h
    exact .inl ⟨.inject _ field ids _, trivial, .quiet _⟩
  | duplicate query field =>
    cases h
    exact .inl ⟨.duplicate field, trivial, .noted (Edit.duplicate settings.idField field)
      fun count : Nat => some [("count", .int count)]⟩
  | dedupe query field keyField =>
    cases h
    exact .inl ⟨.removeDuplicates field keyField, trivial,
      .noted (Edit.removeDuplicates settings.idField field keyField) some⟩
  | modifyArray query steps =>
    simp only [Call.action] at h
    split at h
    · cases h
    · obtain ⟨parsed, reads, h⟩ := bind_eq_ok.1 h
      cases h
      exact .inr ⟨steps, parsed, rfl, reads, .quiet _⟩
  | translate query moves =>
    simp only [Call.action] at h
    split at h
    · cases h
    · obtain ⟨parsed, _, h⟩ := bind_eq_ok.1 h
      cases h
      exact .inl ⟨.moveAll parsed, trivial, .quiet _⟩
  | delete query target =>
    simp only [Call.action] at h
    split at h
    · cases h
    · split at h
      · cases h
      · obtain ⟨deletion, chosen, h⟩ := bind_eq_ok.1 h
        cases h
        unfold deletionTask at chosen
        split at chosen
        · cases chosen
          exact .inl ⟨.deleteFields target.fields, trivial, .quiet _⟩
        · split at chosen
          · obtain ⟨steps, _, chosen⟩ := bind_eq_ok.1 chosen
            cases chosen
            exact .inl ⟨.removeElement steps, trivial,
              .noted (Edit.removeElement settings.idField steps)
              fun removed : Value => some [("removed", removed)]⟩
          · cases chosen
            exact .inl ⟨.clear target.clearArray, trivial, .quiet _⟩
    · cases h
  | create documents => cases h

theorem Call.task_cases {call : Call} (h : call.action settings = .ok (.edit query many task)) :
    (∃ edit : PathEdit, Reports (edit.run settings.idField) task) ∨
      ∃ given steps, call = .modifyArray query given ∧
        parseMembers QueryStep.parse given = .ok steps ∧ Reports (Edit.modify steps) task :=
  (Call.task_given h).imp_left fun ⟨edit, _, reports⟩ => ⟨edit, reports⟩

/-! ## What an edit on loan leaves behind -/

/-- What is known of a draft behind the edit of a call. A document on loan is tracked from then on;
    its known value is the identifier field itself unless that field is reported, and stays what it
    is unless it is a container. -/
structure Traced (idField : String) (dirty : DirtySet) (d d' : Draft) : Prop where
  isObject : d'.doc.isObject = true
  distinct : Fields.Distinct d.doc.fields → Fields.Distinct d'.doc.fields
  tracked : d.known = .within [.field idField] → d'.Tracked idField
  known : d.known = .within [.field idField] →
    d'.known = .within [.field idField] ∨ idField ∈ dirty.fields
  steady : d.known = .within [.field idField] → d.knownValue.isContainer = false →
    d'.knownValue = d.knownValue

/-- **The edit of a call leaves a document traced.** -/
theorem Call.task_traced {call : Call} {d d' : Draft} {dirty : DirtySet} {notes : Option Fields}
    (h : call.action settings = .ok (.edit query many task)) (obj : d.doc.isObject = true)
    (run : task d = .ok (dirty, notes) d') : Traced settings.idField dirty d d' := by
  rcases Call.task_cases h with ⟨edit, reports⟩ | ⟨_, steps, _, _, reports⟩
  · have confined := edit.run_confined obj (reports d dirty notes d' run)
    exact ⟨confined.isObject, confined.distinct, fun loaned => confined.tracked (.inl loaned),
      confined.known, fun loaned => confined.steady (.inl loaned)⟩
  · obtain ⟨_, _, _, _, _, _, _, confined, stays⟩ :=
      Edit.modify_confined settings.idField obj (reports d dirty notes d' run)
    exact ⟨confined.isObject, confined.distinct, fun loaned => .inl (stays loaned),
      fun loaned => .inl (stays loaned), fun loaned => confined.steady (.inl loaned)⟩

/-- A call that is no array query, or one whose first step names a field without a dot. -/
def Call.Plain : Call → Prop
  | .modifyArray _ given => ∀ first rest, parseMembers QueryStep.parse given = .ok (first :: rest) →
    Path.split (.text first.field) = .ok [first.field]
  | _ => True

/-- **A field that a plain call does not report is as it was.** -/
theorem Call.task_unreported {call : Call} {d d' : Draft} {dirty : DirtySet}
    {notes : Option Fields} {name : String} (plain : call.Plain)
    (h : call.action settings = .ok (.edit query many task)) (obj : d.doc.isObject = true)
    (run : task d = .ok (dirty, notes) d') (unreported : name ∉ dirty.fields) :
    Fields.get? d'.doc.fields name = Fields.get? d.doc.fields name := by
  rcases Call.task_cases h with ⟨edit, reports⟩ | ⟨given, steps, rfl, reads, reports⟩
  · exact (edit.run_confined obj (reports d dirty notes d' run)).same name unreported
  · obtain ⟨first, rest, n, names, rfl, hsplit, hdirty, confined, _⟩ :=
      Edit.modify_confined settings.idField obj (reports d dirty notes d' run)
    have own := plain first rest reads
    rw [hsplit] at own
    cases own
    refine confined.same name fun h => unreported ?_
    rw [hdirty]
    exact h

end Gateway

end DocRepair

import Mathlib.Data.List.Forall2
import DocRepair.Proofs.Filed
import DocRepair.Proofs.Tracking
import DocRepair.Proofs.Unwritten
/-!
# `DocRepair.Proofs.Loans` — documents on loan, and their way back

A query lends copies of stored documents, each known by its identifier. An edit leaves every copy
traced, and that is enough to say under which key a save files it. No call leaves a collection other
than it should be.

## Contents

* `Collection.targets_loans` — what a query selects is lent from the collection;
* `Identity.key_of_agree_ident` / `Identity.key_of_agree_absent` — agreement and keys;
* `Gateway.editAll_ok` — the edit of every document, one by one;
* `Handle.Traced` — a handle behind the edit of a call, and the key that a save gives it;
* `Gateway.Worked.knownId` — an identifier that is no container stays what a document is known by;
* `Gateway.Call.run_preserves` — every call leaves a collection as it should be.
-/

namespace DocRepair

open Access

/-- What stands on the right of related lists has something related to it on the left. -/
theorem exists_of_forall₂ {α β : Type} {R : α → β → Prop} {l : List α} {m : List β} {b : β}
    (h : List.Forall₂ R l m) (hb : b ∈ m) : ∃ a ∈ l, R a b := by
  induction h with
  | nil => cases hb
  | cons first _ ih =>
    rcases List.mem_cons.1 hb with rfl | hb
    · exact ⟨_, List.mem_cons_self, first⟩
    · obtain ⟨a, ha, related⟩ := ih hb
      exact ⟨a, List.mem_cons_of_mem _ ha, related⟩

/-! ## Lending -/

namespace Collection

variable {c : Collection} {filter query : Value} {docs chosen : List Fields} {doc : Fields}

theorem selectFrom_sublist (run : selectFrom filter docs = .ok chosen) : chosen.Sublist docs := by
  induction docs generalizing chosen with
  | nil => cases run; exact List.Sublist.slnil
  | cons doc rest ih =>
    obtain ⟨matched, _, run⟩ := bind_eq_ok.1 run
    obtain ⟨others, more, run⟩ := bind_eq_ok.1 run
    cases run
    cases matched with
    | true => exact (ih more).cons_cons doc
    | false => exact (ih more).cons doc

theorem firstOf_mem (run : firstOf filter docs = .ok (some doc)) : doc ∈ docs := by
  induction docs with
  | nil => cases run
  | cons first rest ih =>
    obtain ⟨matched, _, run⟩ := bind_eq_ok.1 run
    cases matched with
    | true => cases run; exact List.mem_cons_self
    | false => exact List.mem_cons_of_mem _ (ih run)

/-- **What a query selects is lent from the collection**, in its order and never twice. -/
theorem targets_loans {many : Bool} {handles : List Handle}
    (run : Gateway.targets many query c = .ok handles) :
    ∃ docs : List Fields, handles = docs.map (loan c.idField) ∧ docs.Sublist c.all := by
  unfold Gateway.targets at run
  split at run
  · cases run
  · cases many with
    | true =>
      obtain ⟨chosen, selected, run⟩ := bind_eq_ok.1 run
      cases run
      exact ⟨chosen, rfl, selectFrom_sublist selected⟩
    | false =>
      obtain ⟨found, finding, run⟩ := bind_eq_ok.1 run
      obtain ⟨first, searched, finding⟩ := bind_eq_ok.1 finding
      cases finding
      cases first with
      | none =>
        obtain ⟨_, _, stops⟩ := bind_eq_ok.1 run
        cases stops
      | some doc =>
        cases run
        exact ⟨[doc], rfl, List.singleton_sublist.2 (firstOf_mem searched)⟩

/-- The keys in use are those of the identifiers. -/
theorem Filed.keys_eq (filed : Filed c) :
    c.docs.map (·.1) = c.all.map fun doc => Identity.key (Fields.getD doc c.idField) := by
  rw [all, List.map_map]
  exact List.map_congr_left filed.under

/-- Every document is found under its identifier. -/
theorem Filed.lookup_own (filed : Filed c) (h : doc ∈ c.all) :
    lookup c.docs (Identity.key (Fields.getD doc c.idField)) = some doc := by
  obtain ⟨entry, hentry, rfl⟩ := List.mem_map.1 h
  rw [← filed.under entry hentry]
  exact lookup_of_mem filed.keys hentry

theorem Filed.distinct_all (filed : Filed c) (h : doc ∈ c.all) : Fields.Distinct doc := by
  obtain ⟨entry, hentry, rfl⟩ := List.mem_map.1 h
  exact filed.distinct entry hentry

theorem Shown.all (shown : Shown c) (h : doc ∈ c.all) :
    (Fields.getD doc c.idField).hasPlain = true := by
  obtain ⟨entry, hentry, rfl⟩ := List.mem_map.1 h
  exact shown entry hentry

end Collection

namespace Gateway

variable {σ : Type}

/-- What an edit makes of a document on loan. -/
def Worked (task : Task) (h : Handle) (e : Edited) : Prop :=
  ∃ supply notes d, task (h.draft supply) = .ok (e.dirty, notes) d ∧ e.handle = h.afterDraft d

/-- Every document is edited, and nothing is stored. -/
theorem editAll_ok {task : Task} {handles : List Handle} {edited : List Edited} {s t : Session σ}
    (run : editAll task handles s = .ok edited t) :
    t.store = s.store ∧ List.Forall₂ (Worked task) handles edited := by
  induction handles generalizing edited s with
  | nil =>
    obtain ⟨rfl, rfl⟩ := run_pure_ok.1 run
    exact ⟨rfl, .nil⟩
  | cons h rest ih =>
    obtain ⟨⟨after, dirty, notes⟩, u, first, run⟩ := run_bind_ok.1 run
    obtain ⟨others, v, more, run⟩ := run_bind_ok.1 run
    obtain ⟨rfl, rfl⟩ := run_pure_ok.1 run
    obtain ⟨same, worked⟩ := ih more
    unfold Access.edit at first
    cases task_run : task (h.draft s.supply) with
    | error fault d =>
      rw [task_run] at first
      cases first
    | ok r d =>
      rw [task_run] at first
      cases first
      exact ⟨same, .cons ⟨s.supply, notes, d, task_run, rfl⟩ worked⟩

end Gateway

/-! ## Identifiers that agree -/

/-- A field with a value that is not null is there. -/
theorem Fields.held_of_named {doc : Fields} {name : String}
    (named : (Fields.getD doc name).isNull = false) :
    Fields.get? doc name = some (Fields.getD doc name) := by
  unfold Fields.getD at named ⊢
  cases held : Fields.get? doc name with
  | some v => rfl
  | none =>
    rw [held] at named
    cases named

namespace Identity

theorem key_of_not_null {v : Value} (h : v.isNull = false) : key v = some v.plain := by
  cases v with
  | null => cases h
  | _ => rfl

/-- What agrees with an object identifier has its key. -/
theorem key_of_agree_ident {v : Value} {i : ObjectId} (h : agree v (.ident i) = true) :
    key v = key (.ident i) := by
  unfold agree at h
  split at h
  · cases h
  · rename_i notNull
    have given : v.isNull = false := by
      rw [Bool.or_eq_true, not_or] at notNull
      exact Bool.eq_false_iff.2 notNull.1
    have same : v.plain = (Value.ident i).plain := by simpa [isIdent] using h
    rw [key_of_not_null given, same]
    rfl

/-- Only the marker of absence agrees with it. -/
theorem key_of_agree_absent {v : Value} (h : agree .absent v = true) :
    key .absent = key v := by
  cases v with
  | absent => rfl
  | ident i => exact key_of_agree_ident h
  | _ =>
    simp [agree, isIdent, Value.isNull, Value.same, Value.sameScalar,
      Value.numeral?] at h

end Identity

/-! ## The way back -/

/-- A handle behind an edit that reported the fields `dirty`: what it is known by is the identifier
    field itself, or was written over in it and reported. -/
structure Handle.Traced (h : Handle) (dirty : DirtySet) : Prop where
  tracked : h.known = .within [.field h.idField] ∨
    ∃ v, h.known = .apart v ∧ Succeeded h.idField h.data v
  known : h.known = .within [.field h.idField] ∨ h.idField ∈ dirty.fields

namespace Handle

variable {g : Handle} {dirty : DirtySet}

theorem knownId_within (within : g.known = .within [.field g.idField]) : g.knownId = g.id := by
  unfold knownId id
  rw [within]
  show ((Value.object g.data).at? [.field g.idField]).getD .null = _
  rw [Value.at?_field]
  rfl

/-- A save looks for a document that is known by its identifier field under its identifier. -/
theorem addressId_within (within : g.known = .within [.field g.idField]) : g.addressId = g.id := by
  unfold addressId
  rw [knownId_within within, ite_self]

theorem knownId_apart {v : Value} (apart : g.known = .apart v) : g.knownId = v := by
  unfold knownId
  rw [apart]
  rfl

/-- What was known apart and agrees with the present identifier has its key. -/
theorem key_of_succeeded {v : Value}
    (h : Succeeded g.idField g.data v) (agrees : Identity.agree v g.id = true) :
    Identity.key v = Identity.key g.id := by
  rcases h with rfl | ⟨rfl, _⟩ | ⟨i, hi⟩
  · cases agrees
  · exact Identity.key_of_agree_absent agrees
  · have present : g.id = .ident i := by
      unfold id Fields.getD
      rw [hi]
      rfl
    rw [present] at agrees ⊢
    exact Identity.key_of_agree_ident agrees

/-- Where a document is not filed anew, its old key is that of its present identifier. -/
theorem Traced.key_addressId (traced : Traced g dirty) (stays : g.refiled g.idField dirty = false) :
    Identity.key g.addressId = Identity.key g.id := by
  unfold addressId
  split
  · rfl
  · rename_i named
    rcases traced.tracked with within | ⟨v, apart, after⟩
    · rw [knownId_within within]
    · rw [knownId_apart apart] at named ⊢
      refine key_of_succeeded after ?_
      -- It was written over, which was reported, so only agreement can have left it in place.
      have reported : g.idField ∈ dirty.fields := by
        refine traced.known.resolve_left fun within => ?_
        rw [apart] at within
        cases within
      have contains : dirty.contains g.idField = true := by
        unfold DirtySet.contains
        simpa using reported
      unfold refiled idChanged at stays
      rw [contains, knownId_apart apart] at stays
      simpa [named] using stays

/-- **A save files a document that it finds under the key of its identifier.** -/
theorem Traced.keyAfter_eq (traced : Traced g dirty) :
    g.keyAfter g.idField dirty = Identity.key g.id := by
  unfold keyAfter
  split
  · rfl
  · rename_i stays
    exact traced.key_addressId (Bool.eq_false_iff.2 stays)

/-- A document that is filed anew has an identifier. -/
theorem Traced.has_of_refiled (traced : Traced g dirty)
    (moved : g.refiled g.idField dirty = true) : Fields.get? g.data g.idField = some g.id := by
  have changed : g.knownId.isNull = false := by
    unfold refiled idChanged at moved
    simp only [Bool.and_eq_true, Bool.not_eq_true'] at moved
    exact moved.2.1
  have present : Fields.has g.data g.idField = true := by
    unfold Fields.has
    rcases traced.tracked with within | ⟨v, apart, after⟩
    · rw [knownId_within within] at changed
      unfold id Fields.getD at changed
      cases held : Fields.get? g.data g.idField with
      | none => rw [held] at changed; cases changed
      | some w => rfl
    · rw [knownId_apart apart] at changed
      rcases after with rfl | ⟨rfl, held⟩ | ⟨i, hi⟩
      · cases changed
      · exact held
      · rw [hi]
        rfl
  unfold Fields.has at present
  unfold id Fields.getD
  cases held : Fields.get? g.data g.idField with
  | none => rw [held] at present; cases present
  | some w => rfl

end Handle

namespace Gateway

variable {settings : Settings} {query : Value} {many : Bool} {task : Task} {call : Call}
  {h : Handle} {e : Edited}

/-- An edit keeps the names of fields apart. -/
theorem Worked.distinct (worked : Worked task h e)
    (accepted : call.action settings = .ok (.edit query many task))
    (distinct : Fields.Distinct h.data) : Fields.Distinct e.handle.data := by
  obtain ⟨supply, notes, d, run, after⟩ := worked
  rw [after]
  exact (Call.task_traced accepted rfl run).distinct distinct

/-- **The edit of a call leaves a document that was just lent traced.** -/
theorem Worked.traced {doc : Fields}
    (worked : Worked task (Collection.loan settings.idField doc) e)
    (accepted : call.action settings = .ok (.edit query many task)) :
    e.handle.idField = settings.idField ∧ e.handle.Traced e.dirty := by
  obtain ⟨supply, notes, d, run, after⟩ := worked
  have traced := Call.task_traced accepted rfl run
  rw [after]
  exact ⟨rfl, traced.tracked rfl, traced.known rfl⟩

/-- An identifier that is no container stays what the document is known by. -/
theorem Worked.knownId {doc : Fields}
    (worked : Worked task (Collection.loan settings.idField doc) e)
    (accepted : call.action settings = .ok (.edit query many task))
    (leaf : (Fields.getD doc settings.idField).isContainer = false) :
    e.handle.knownId = Fields.getD doc settings.idField := by
  obtain ⟨supply, notes, d, run, after⟩ := worked
  have traced := Call.task_traced accepted rfl run
  have start : ((Collection.loan settings.idField doc).draft supply).knownValue =
      Fields.getD doc settings.idField := Draft.knownValue_within rfl rfl
  have kept : d.knownValue = Fields.getD doc settings.idField := by
    rw [← start]
    rw [← start] at leaf
    exact traced.steady rfl leaf
  rw [after, ← kept]
  show d.known.value (.object d.doc.fields) = d.known.value d.doc
  rw [← Draft.doc_eq_object traced.isObject]

/-- A field that a plain call does not report is as it was. -/
theorem Worked.unreported (worked : Worked task h e) (plain : call.Plain)
    (accepted : call.action settings = .ok (.edit query many task)) (name : String)
    (unreported : name ∉ e.dirty.fields) :
    Fields.get? e.handle.data name = Fields.get? h.data name := by
  obtain ⟨supply, notes, d, run, after⟩ := worked
  rw [after]
  exact Call.task_unreported plain accepted rfl run unreported

/-! ## Calls leave a collection as it should be -/

/-- A property that the save of a document keeps is kept by its write, which marks fields first. -/
theorem write_preserves {P : Collection → Prop}
    (saves : ∀ marked, Preserves P (Collection.save { e.handle with modified := marked } e.dirty)) :
    Preserves P (write e) := by
  unfold write
  refine (Keeps.look _).preserves.bind fun name => ?_
  obtain ⟨marked, hmarked⟩ := DirtySet.notify_handle e.dirty.fields e.handle
  have hfields := DirtySet.notify_fields e.dirty e.handle
  have saving : Preserves P
      (Store.save (DirtySet.notify Handle.mark e.dirty.fields e.handle).2
        (DirtySet.notify Handle.mark e.dirty.fields e.handle).1) := by
    rw [hmarked, hfields]
    exact saves marked
  refine saving.bind fun r => ?_
  obtain ⟨after, fault | stored⟩ := r
  · cases fault with
    | failure f => exact (Keeps.lift _).preserves
    | _ => exact (Keeps.lift _).preserves.bind fun _ => (Keeps.pure _).preserves
  · exact (Keeps.pure _).preserves

theorem writeAll_preserves {P : Collection → Prop} {edited : List Edited}
    (saves : ∀ e ∈ edited, ∀ marked,
      Preserves P (Collection.save { e.handle with modified := marked } e.dirty)) :
    Preserves P (writeAll edited) := by
  induction edited with
  | nil => exact (Keeps.pure _).preserves
  | cons e rest ih =>
    have more := ih fun other hother => saves other (List.mem_cons_of_mem _ hother)
    unfold writeAll
    split
    · exact more.bind fun _ => (Keeps.pure _).preserves
    · refine (write_preserves (saves e List.mem_cons_self)).bind fun wrote => ?_
      obtain ⟨h, failure⟩ := wrote
      cases failure with
      | none =>
        exact (Keeps.lift _).preserves.bind fun _ => more.bind fun _ => (Keeps.pure _).preserves
      | some f => exact more.bind fun _ => (Keeps.pure _).preserves

/-- **A property that the saves of a run keep is kept by the run.** What is saved was lent from a
    collection with the property, and then edited. -/
theorem run_preserves {P : Collection → Prop} (persist : Bool)
    (saves : ∀ c doc e, P c → doc ∈ c.all → Worked task (Collection.loan c.idField doc) e →
      ∀ marked, Preserves P (Collection.save { e.handle with modified := marked } e.dirty)) :
    Preserves P (run query many persist task) := by
  unfold run
  refine (Keeps.look _).preserves.bind_of fun s handles t start found => ?_
  obtain ⟨docs, rfl, sub⟩ := Collection.targets_loans (look_ok.1 found).1
  refine (editAll_keeps _ _).preserves.bind_of fun u edited v _ ran => ?_
  have worked := (editAll_ok ran).2
  have each : ∀ e ∈ edited, ∀ marked,
      Preserves P (Collection.save { e.handle with modified := marked } e.dirty) := by
    intro e he
    obtain ⟨h, hh, work⟩ := exists_of_forall₂ worked he
    obtain ⟨doc, hdoc, rfl⟩ := List.mem_map.1 hh
    exact saves s.store doc e start (sub.subset hdoc) work
  cases persist with
  | true => exact (writeAll_preserves each).bind fun _ => (Keeps.pure _).preserves
  | false => exact (Keeps.pure _).preserves

theorem deleteDocument_preserves (query : Value) (persist : Bool) :
    Preserves Collection.Filed (deleteDocument query persist) := by
  unfold deleteDocument
  refine (Keeps.look _).preserves.bind fun handles => ?_
  split
  · refine (Keeps.look _).preserves.bind fun name => ?_
    refine Collection.delete_preserves.attempt.bind fun r => ?_
    cases r with
    | error fault => exact (Keeps.lift _).preserves.bind fun _ => (Keeps.pure _).preserves
    | ok u => exact (Keeps.pure _).preserves
  · exact (Keeps.pure _).preserves

theorem identifyAll_distinct {idField : String} {docs : List Value} {named : List Fields}
    {s t : Session Collection} (distinct : ∀ doc, Value.object doc ∈ docs → Fields.Distinct doc)
    (run : identifyAll idField docs s = .ok named t) : ∀ doc ∈ named, Fields.Distinct doc := by
  induction docs generalizing named s t with
  | nil =>
    obtain ⟨rfl, _⟩ := run_pure_ok.1 run
    exact fun _ h => absurd h List.not_mem_nil
  | cons v rest ih =>
    cases v with
    | object fs =>
      obtain ⟨doc, u, first, run⟩ := run_bind_ok.1 run
      obtain ⟨docs, u, more, run⟩ := run_bind_ok.1 run
      obtain ⟨rfl, _⟩ := run_pure_ok.1 run
      intro other hother
      rcases List.mem_cons.1 hother with rfl | hother
      · exact (Collection.identify_distinct (distinct fs List.mem_cons_self) first).1
      · exact ih (fun doc hdoc => distinct doc (List.mem_cons_of_mem _ hdoc)) more other hother
    | _ => cases run

/-- The documents that a call is to create have no two fields of one name. -/
def Call.DistinctDocuments : Call → Prop
  | .create documents => ∀ doc, Value.object doc ∈ documents.listed → Fields.Distinct doc
  | _ => True

theorem create_preserves {documents : Value} (settings : Settings) (persist : Bool)
    (distinct : (Call.create documents).DistinctDocuments) :
    Preserves Collection.Filed (create settings documents persist) := by
  unfold create
  dsimp only
  split
  · exact (Keeps.lift _).preserves
  · refine (Keeps.identifyAll settings.idField _).preserves.bind_of fun s payload t _ named => ?_
    cases persist with
    | false => exact (Keeps.pure _).preserves
    | true =>
      have apart := identifyAll_distinct distinct named
      have creating : Preserves Collection.Filed
          (Store.create (.array (payload.map .object)) : Access Collection (List Handle)) := by
        refine Collection.create_preserves fun members listed doc hdoc => ?_
        rw [Value.members_array] at listed
        cases listed
        obtain ⟨fs, hfs, same⟩ := List.mem_map.1 hdoc
        cases same
        exact apart doc hfs
      refine (Keeps.look _).preserves.bind fun name => creating.attempt.bind fun r => ?_
      cases r with
      | error fault => exact (Keeps.pure _).preserves
      | ok created => exact (Keeps.pure _).preserves

/-- **Every call leaves a collection as it should be**, whether it returns or stops. -/
theorem Call.run_preserves (settings : Settings) (persist : Bool) (call : Call)
    (distinct : call.DistinctDocuments) :
    Preserves Collection.Filed (call.run settings persist) := by
  rw [Call.run_eq]
  refine (Keeps.lift _).preserves.bind_of fun s action t _ chosen => ?_
  have accepted := (lift_ok.1 chosen).1
  cases action with
  | edit query many task =>
    -- What is lent has fields of different names, and an edit keeps that.
    refine Gateway.run_preserves persist fun c doc e filed hdoc worked marked => ?_
    exact Collection.save_preserves (worked.distinct accepted (filed.distinct_all hdoc))
  | remove query => exact deleteDocument_preserves query persist
  | create documents =>
    have given : call = .create documents := Call.action_create accepted
    rw [given] at distinct
    exact Gateway.create_preserves settings persist distinct

end Gateway

end DocRepair

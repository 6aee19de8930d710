import DocRepair.Proofs.Verdicts
/-!
# `DocRepair.Proofs.Persisted` — when a store holds what a call returns

A call that persists returns its edited copies. A store writes only the fields that an edit reports,
and it files a document anew only if its identifier no longer agrees with the old one. So the store
holds what the call returns exactly if the edits report all that they change. An array query whose
first step names a field with a dot reports another field; there the change is lost, and the call
says that all went well.

## Contents

* `Gateway.writeAll_stored` — writes that go through, one after the other;
* `Gateway.Persisted` — the store holds what a call returned, and all other documents as before;
* `Gateway.Reported` — the edit of a document reports what it changed;
* `Gateway.contentsAfter_iff` — a save leaves what the copy holds exactly if that was reported;
* `Gateway.persisted_of_plain` — plain calls that keep identifiers report all that they change;
* `Gateway.persisted_iff_reported` — the store holds what a call returns exactly if all that was
  changed is reported.
-/

namespace DocRepair.Gateway

open Collection

/-! ## Writes that go through -/

variable {s t : Session Collection}

/-- **Writes that go through.** If the documents are found where they are known, each under a key of
    its own, then afterwards each has its new contents, and all that is not among them stays. The
    identifiers of those that were written can be shown. -/
theorem writeAll_stored {docs : List Fields} {edited : List Edited} {handles : List Handle}
    {w : Writes} (found : List.Forall₂ (fun doc (e : Edited) =>
      lookup s.store.docs (Identity.key e.handle.addressId) = some doc) docs edited)
    (apart : (edited.map fun e => Identity.key e.handle.addressId).Nodup)
    (run : writeAll edited s = .ok (handles, w) t) (ok : w.failures = []) :
    List.Forall₂ (fun doc (e : Edited) =>
        lookup t.store.docs (e.handle.keyAfter s.store.idField e.dirty) =
          some (e.handle.contentsAfter s.store.idField e.dirty doc)) docs edited ∧
      (∀ e ∈ edited, e.dirty.isEmpty = false → e.handle.id.hasPlain = true) ∧
      ∀ key doc, (∀ e ∈ edited, key ≠ Identity.key e.handle.addressId) →
        lookup s.store.docs key = some doc → lookup t.store.docs key = some doc := by
  obtain ⟨judged, rfl, fair, _, failures, settle⟩ := writeAll_judged run
  obtain ⟨final, others⟩ := settle docs found apart
  have told : ∀ e ∈ judged.map Judged.edited, e.dirty.isEmpty = false →
      e.handle.id.hasPlain = true := by
    intro e he touched
    obtain ⟨j, hj, rfl⟩ := List.mem_map.1 he
    refine (fair j hj).shown fun untouched => ?_
    rw [(fair j hj).untouched.1 untouched] at touched
    cases touched
  refine ⟨?_, told, others⟩
  rw [ok] at failures
  have accepted := List.filterMap_eq_nil_iff.1 failures.symm
  rw [List.forall₂_map_right_iff]
  refine List.forall₂_iff_zip.2 ⟨final.length_eq, fun {doc j} pair => ?_⟩
  have among : j ∈ judged := (List.of_mem_zip pair).2
  obtain ⟨key, contents⟩ := (fair j among).of_accepted (accepted j among) s.store.idField
  rw [← key, ← contents]
  exact List.forall₂_zip final pair

/-! ## What should be stored, and what should be reported -/

/-- A store holds what a call returned: for every document that was selected one was returned, and
    under the identifier of each that was returned stands just this document. All documents that
    were not selected are as before. -/
structure Persisted (before after : Collection) (handles : List Handle)
    (documents : List Fields) : Prop where
  each : documents.length = handles.length
  stored : ∀ doc ∈ documents, ∃ held,
    after.get? (Fields.getD doc before.idField) = .ok (some held) ∧
      ∀ name, Fields.get? held name = Fields.get? doc name
  others : ∀ id doc, (∀ h ∈ handles, Identity.key h.id ≠ Identity.key id) →
    before.get? id = .ok (some doc) → after.get? id = .ok (some doc)

/-- The edit of a document on loan reports what it changed: a field that is not reported is as it
    was, and so is the identifier unless the document is filed anew. -/
structure Reported (h : Handle) (e : Edited) : Prop where
  fields : ∀ name, name ∉ e.dirty.fields →
    Fields.get? e.handle.data name = Fields.get? h.data name
  identifier : e.handle.refiled h.idField e.dirty = true ∨
    Fields.get? e.handle.data h.idField = Fields.get? h.data h.idField

variable {settings : Settings} {call : Call} {query : Value} {many : Bool} {task : Task}
  {idField : String} {doc : Fields} {e : Edited}

/-- **A save writes just what was reported**: the contents that it leaves are those of the copy if
    and only if the edit reported what it changed. -/
theorem contentsAfter_iff (idSame : e.handle.idField = idField)
    (traced : e.handle.Traced e.dirty) (distinct : Fields.Distinct doc) :
    (∀ name, Fields.get? (e.handle.contentsAfter idField e.dirty doc) name =
      Fields.get? e.handle.data name) ↔ Reported (loan idField doc) e := by
  subst idSame
  constructor
  · intro same
    refine ⟨fun name unreported => ?_, ?_⟩
    · have kept := same name
      rw [Handle.get?_contentsAfter distinct, if_neg unreported] at kept
      split at kept
      · -- The identifier is not reported, so the document was not filed anew.
        rename_i own
        have stays : e.handle.refiled e.handle.idField e.dirty = false := by
          rw [own] at unreported
          unfold Handle.refiled DirtySet.contains
          simp [unreported]
        rw [stays] at kept
        rw [own] at kept ⊢
        exact kept.symm
      · exact kept.symm
    · by_cases moved : e.handle.refiled e.handle.idField e.dirty = true
      · exact .inl moved
      · have kept := same e.handle.idField
        rw [Handle.get?_contentsAfter distinct, if_pos rfl, if_neg moved] at kept
        exact .inr kept.symm
  · intro reported name
    rw [Handle.get?_contentsAfter distinct]
    split
    · -- A document that is filed anew gets the identifier of the copy.
      rename_i own
      rw [own]
      split
      · rename_i moved
        exact (traced.has_of_refiled moved).symm
      · rename_i stays
        exact (reported.identifier.resolve_left stays).symm
    · split
      · rfl
      · rename_i unreported
        exact (reported.fields name unreported).symm

/-! ## The whole of a call -/

variable {handles : List Handle} {edited : List Edited} {u : Session Collection} {o : Outcome}

theorem failures_of_ok {w : Writes} (ok : w.status = .ok) : w.failures = [] := by
  unfold Writes.status at ok
  split at ok
  · rename_i none
    exact List.isEmpty_iff.1 none
  · split at ok
    · cases ok
    · cases ok

/-- What stands under the identifier of each document behind writes that go through; all that is not
    among the documents stays. -/
theorem writeAll_each {docs : List Fields} {hs : List Handle} {w : Writes}
    (filed : s.store.Filed) (shown : s.store.Shown) (same : settings.idField = s.store.idField)
    (accepted : call.action settings = .ok (.edit query many task))
    (sub : docs.Sublist s.store.all)
    (works : List.Forall₂ (fun doc => Worked task (loan s.store.idField doc)) docs edited)
    (addressed : List.Forall₂ (fun doc => Addressed (loan s.store.idField doc)) docs edited)
    (wrote : writeAll edited s = .ok (hs, w) t) (ok : w.failures = []) :
    List.Forall₂ (fun doc (e : Edited) =>
        ∃ held,
          lookup t.store.docs (Identity.key (Fields.getD e.handle.data s.store.idField)) =
            some held ∧
          ((∀ name, Fields.get? held name = Fields.get? e.handle.data name) ↔
            Reported (loan s.store.idField doc) e) ∧
          (Reported (loan s.store.idField doc) e →
            (Fields.getD e.handle.data s.store.idField).hasPlain = true)) docs edited ∧
      ∀ key doc, (∀ e ∈ edited, key ≠ Identity.key e.handle.addressId) →
        lookup s.store.docs key = some doc → lookup t.store.docs key = some doc := by
  have found := addresses_found filed sub addressed
  obtain ⟨final, told, others⟩ :=
    writeAll_stored found (addresses_nodup filed sub addressed) wrote ok
  refine ⟨List.forall₂_iff_zip.2 ⟨addressed.length_eq, fun {doc e} pair => ?_⟩, others⟩
  have work : Worked task (loan s.store.idField doc) e := List.forall₂_zip works pair
  rw [← same] at work
  obtain ⟨idSame, traced⟩ := work.traced accepted
  rw [same] at idSame
  have distinct := filed.distinct_all (sub.subset (List.of_mem_zip pair).1)
  refine ⟨_, ?_, contentsAfter_iff idSame traced distinct, fun reported => ?_⟩
  · have filedUnder := List.forall₂_zip final pair
    rw [← idSame, traced.keyAfter_eq] at filedUnder
    rw [← idSame]
    exact filedUnder
  · -- A copy that was not written has the identifier with which it was lent.
    cases touched : e.dirty.isEmpty with
    | false =>
      rw [← idSame]
      exact told e (List.of_mem_zip pair).2 touched
    | true =>
      have unreported : s.store.idField ∉ e.dirty.fields := by
        rw [List.isEmpty_iff.1 touched]
        exact List.not_mem_nil
      have lent := shown.all (sub.subset (List.of_mem_zip pair).1)
      unfold Fields.getD
      rw [reported.fields _ unreported]
      exact lent

/-- With given targets and edits: the store holds what the call returns exactly if these edits report
    all that they changed. -/
theorem persisted_iff (filed : s.store.Filed) (shown : s.store.Shown)
    (same : settings.idField = s.store.idField)
    (accepted : call.action settings = .ok (.edit query many task))
    (selected : targets many query s.store = .ok handles)
    (worked : editAll task handles s = .ok edited u)
    (addressed : List.Forall₂ Addressed handles edited)
    (run : call.run settings true s = .ok o t) (ok : o.status = .ok) :
    Persisted s.store t.store handles o.documents ↔ List.Forall₂ Reported handles edited := by
  obtain ⟨hs, w, wrote, rfl⟩ := run_persist_ok accepted selected worked run
  obtain ⟨kept, works⟩ := editAll_ok worked
  obtain ⟨docs, rfl, sub⟩ := targets_loans selected
  rw [List.forall₂_map_left_iff] at works addressed ⊢
  have copies := writeAll_copies wrote
  rw [← kept] at filed shown same sub works addressed ⊢
  obtain ⟨each, others⟩ :=
    writeAll_each filed shown same accepted sub works addressed wrote (failures_of_ok ok)
  constructor
  · -- What is stored under an identifier is what was returned for it.
    intro persisted
    refine List.forall₂_iff_zip.2 ⟨addressed.length_eq, fun {doc e} pair => ?_⟩
    obtain ⟨held, here, reports, _⟩ := List.forall₂_zip each pair
    have returned : e.handle.data ∈ (written edited hs w).documents := by
      show e.handle.data ∈ hs.map Handle.data
      rw [copies]
      exact List.mem_map.2 ⟨e, (List.of_mem_zip pair).2, rfl⟩
    obtain ⟨held', here', contents⟩ := persisted.stored _ returned
    rw [(get?_ok.1 here').2] at here
    cases here
    exact reports.1 contents
  · intro reported
    refine ⟨?_, fun copy hcopy => ?_, fun id doc hid hdoc => ?_⟩
    · show (hs.map Handle.data).length = _
      rw [copies, List.length_map, List.length_map, addressed.length_eq]
    · have among : copy ∈ edited.map (·.handle.data) := by
        rw [← copies]
        exact hcopy
      obtain ⟨e, he, rfl⟩ := List.mem_map.1 among
      have both := List.Forall₂.mp (fun _ _ => And.intro) each reported
      obtain ⟨doc, _, ⟨held, here, reports, shows⟩, report⟩ := exists_of_forall₂ both he
      exact ⟨held, get?_ok.2 ⟨shows report, here⟩, reports.2 report⟩
    · obtain ⟨named, hdoc⟩ := get?_ok.1 hdoc
      refine get?_ok.2 ⟨named, others _ _ (fun e he => ?_) hdoc⟩
      obtain ⟨doc, hdoc, address⟩ := exists_of_forall₂ addressed he
      have other := hid _ (List.mem_map_of_mem hdoc)
      rw [address]
      exact fun h => other h.symm

/-- **A plain call that keeps identifiers** leaves in the store just what it returns, if no
    identifier is missing or a container. -/
theorem persisted_of_plain (filed : s.store.Filed) (shown : s.store.Shown)
    (same : settings.idField = s.store.idField)
    (plain : call.Plain) (accepted : call.action settings = .ok (.edit query many task))
    (selected : targets many query s.store = .ok handles)
    (worked : editAll task handles s = .ok edited u)
    (leaf : ∀ h ∈ handles, h.id.isContainer = false ∧ h.id.isNull = false)
    (keeps : ∀ e ∈ edited, settings.idField ∉ e.dirty.fields)
    (run : call.run settings true s = .ok o t) (ok : o.status = .ok) :
    Persisted s.store t.store handles o.documents := by
  have works := (editAll_ok worked).2
  have addressed := addressed_of_scalars accepted selected works leaf
  have reported : List.Forall₂ Reported handles edited := by
    obtain ⟨docs, rfl, sub⟩ := targets_loans selected
    refine List.forall₂_iff_zip.2 ⟨works.length_eq, fun {h e} pair => ?_⟩
    have unreported := (List.forall₂_zip works pair).unreported plain accepted
    have own : h.idField = settings.idField := by
      obtain ⟨doc, _, rfl⟩ := List.mem_map.1 (List.of_mem_zip pair).1
      exact same.symm
    refine ⟨unreported, .inr (unreported _ ?_)⟩
    rw [own]
    exact keeps e (List.of_mem_zip pair).2
  exact (persisted_iff filed shown same accepted selected worked addressed run ok).2 reported

/-- **A store holds what a call returns exactly if all that was changed is reported.** The call edits
    documents of a collection that is as it should be, is to persist, and returns that all went
    well. The saves are to look for the documents where these were lent from, as they do unless an
    identifier is missing or is a container. -/
theorem persisted_iff_reported (filed : s.store.Filed) (shown : s.store.Shown)
    (same : settings.idField = s.store.idField)
    (accepted : call.action settings = .ok (.edit query many task))
    (run : call.run settings true s = .ok o t) (ok : o.status = .ok) :
    ∃ handles edited u, targets many query s.store = .ok handles ∧
      editAll task handles s = .ok edited u ∧
      ((∀ h ∈ handles, h.id.isContainer = false ∧ h.id.isNull = false) →
        List.Forall₂ Addressed handles edited) ∧
      (List.Forall₂ Addressed handles edited →
        (Persisted s.store t.store handles o.documents ↔ List.Forall₂ Reported handles edited)) := by
  obtain ⟨handles, edited, u, selected, worked⟩ := run_ok accepted run
  refine ⟨handles, edited, u, selected, worked, fun leaf => ?_, fun addressed => ?_⟩
  · exact addressed_of_scalars accepted selected (editAll_ok worked).2 leaf
  · exact persisted_iff filed shown same accepted selected worked addressed run ok

/-- A value is written below a field that is still to be made, in one document of two. -/
theorem persisted_iff_reported_new_field :
    let docs : Collection :=
      { name := "forms"
        docs := [(some "d1", [("_id", .text "d1")]), (some "d2", [("_id", .text "d2")])] }
    let s : Session Collection := ⟨docs, { origin := 0, last := 0, pace := 1 }⟩
    let query : Value := .object [("_id", .text "d2")]
    let changes : Value := .object [("a.b", .object [("$set", .int 1)])]
    let call : Call := .execute query changes true
    ∃ o t task, docs.Filed ∧ docs.Shown ∧ Settings.idField {} = docs.idField ∧
      call.action {} = .ok (.edit query true task) ∧ call.run {} true s = .ok o t ∧
      o.status = .ok ∧ ∃ handles edited u, targets true query docs = .ok handles ∧
        editAll task handles s = .ok edited u ∧
        (Persisted docs t.store handles o.documents ↔ List.Forall₂ Reported handles edited) := by
  intro docs s query changes call
  have filed : docs.Filed := by
    refine ⟨by decide, fun entry h => ?_, fun entry h => ?_⟩
    · simp only [docs, List.mem_cons, List.not_mem_nil, or_false] at h
      rcases h with rfl | rfl
      · rfl
      · rfl
    · simp only [docs, List.mem_cons, List.not_mem_nil, or_false] at h
      rcases h with rfl | rfl
      · show List.Nodup ["_id"]
        decide
      · show List.Nodup ["_id"]
        decide
  have shown : docs.Shown := by
    intro entry h
    simp only [docs, List.mem_cons, List.not_mem_nil, or_false] at h
    rcases h with rfl | rfl
    · rfl
    · rfl
  have runs : ∃ o t, call.run {} true s = .ok o t ∧ o.status = .ok := ⟨_, _, rfl, rfl⟩
  obtain ⟨o, t, run, ok⟩ := runs
  have accepts : ∃ task, call.action {} = .ok (.edit query true task) := ⟨_, rfl⟩
  obtain ⟨task, accepted⟩ := accepts
  obtain ⟨handles, edited, u, selected, worked, scalar, agrees⟩ :=
    persisted_iff_reported filed shown rfl accepted run ok
  have lent : targets true query docs = .ok [loan "_id" [("_id", .text "d2")]] := rfl
  have leaf : ∀ h ∈ handles, h.id.isContainer = false ∧ h.id.isNull = false := by
    have selected' : targets true query docs = .ok handles := selected
    rw [lent] at selected'
    cases selected'
    intro h hh
    rw [List.mem_singleton.1 hh]
    exact ⟨rfl, rfl⟩
  exact ⟨o, t, task, filed, shown, rfl, accepted, run, ok, handles, edited, u, selected, worked,
    agrees (scalar leaf)⟩

/-- An array query whose first step names a field with a dot: the field is changed in the copy, but
    reported is what stands before the dot. The call says that all went well and was persisted, and
    the store does not hold what it returned. -/
theorem dotted_query_not_persisted :
    let docs : Collection :=
      { name := "forms"
        docs := [(some "d1", [("_id", .text "d1"),
          ("a.b", .array [.object [("k", .text "x"), ("v", .int 1)]])])] }
    let s : Session Collection := ⟨docs, { origin := 0, last := 0, pace := 1 }⟩
    let query : Value := .object [("_id", .text "d1")]
    let call : Call := .modifyArray query
      (.array [.object [("field", .text "a.b")],
        .object [("field", .text "v"), ("new_value", .int 2), ("test_array_field", .text "k"),
          ("test_array_value", .text "x")]])
    ∃ o t handles, targets false query docs = .ok handles ∧ call.run {} true s = .ok o t ∧
      o.status = .ok ∧ o.persisted = true ∧ ¬ Persisted docs t.store handles o.documents := by
  intro docs s query call
  refine ⟨_, _, _, rfl, rfl, rfl, rfl, fun persisted => ?_⟩
  obtain ⟨held, here, contents⟩ := persisted.stored _ List.mem_cons_self
  have stays : held = [("_id", .text "d1"),
      ("a.b", .array [.object [("k", .text "x"), ("v", .int 1)]])] :=
    (Option.some.inj (Except.ok.inj here)).symm
  have lost : Fields.get? held "a.b" =
      some (.array [.object [("k", .text "x"), ("v", .int 2)]]) := contents "a.b"
  rw [stays] at lost
  simp [Fields.get?] at lost

end DocRepair.Gateway

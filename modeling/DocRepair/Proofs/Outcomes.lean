import DocRepair.Proofs.Verdicts
/-!
# `DocRepair.Proofs.Outcomes` — a call tells truly what became of its saves

Each document that a call touched is told of once, as saved or as a failure, and the status follows
from the two lists. If each save looks for its document where that was lent from, then a document
whose save was refused stands as before, and a saved one holds what the call returned in the fields
that it reported. Saves do so unless an identifier is missing or is a container: one that was changed
in place leads the save to another document.

## Contents

* `Gateway.Told` / `Gateway.written_told` — the outcome, given the two lists;
* `Gateway.Held` / `Gateway.held_of_settled` — the store, given the verdicts;
* `Gateway.saves_told` — the outcome of a call, and the store;
* `Gateway.moved_identifier_misleads` — a value moved out of an identifier.
-/

namespace DocRepair

namespace Gateway

open Collection

variable {doc : Fields} {s t : Session Collection}

/-! ## The outcome of a call -/

/-- An outcome tells truly of saves, given the entries of the documents saved and the failures of
    those refused. -/
structure Told (saved : List String) (failures : List Failure) (o : Outcome) : Prop where
  listed : ∃ report, o.report = some report ∧
    Fields.get? report "saved" = some (.array (saved.map .text)) ∧
    (failures ≠ [] →
      Fields.get? report "failures" = some (.array (failures.map Failure.toValue)))
  ok : o.status = .ok ↔ failures = []
  failed : o.status = .failed ↔ failures ≠ [] ∧ saved = []
  incomplete : o.status = .incomplete ↔ failures ≠ [] ∧ saved ≠ []
  persisted : o.persisted = true ↔ o.status = .ok
  first : o.failure = failures.head?

theorem written_told (edited : List Edited) (handles : List Handle) (w : Writes) :
    Told w.saved w.failures (written edited handles w) := by
  obtain ⟨saved, failures⟩ := w
  have apart : "saved" ≠ "failures" := by decide
  refine ⟨⟨_, rfl, ?_, fun some => ?_⟩, ?_, ?_, ?_, ?_, rfl⟩
  · show Fields.get? (Writes.addTo ⟨saved, failures⟩ _) "saved" = _
    unfold Writes.addTo
    cases failures with
    | nil => exact Fields.get?_set_self _ _ _
    | cons f rest =>
      refine (Fields.get?_set_ne _ _ apart).trans ?_
      exact Fields.get?_set_self _ _ _
  · show Fields.get? (Writes.addTo ⟨saved, failures⟩ _) "failures" = _
    unfold Writes.addTo
    cases failures with
    | nil => exact absurd rfl some
    | cons f rest => exact Fields.get?_set_self _ _ _
  all_goals
    show _ ↔ _
    simp only [written, Writes.status]
    cases failures with
    | nil => simp
    | cons f rest => cases saved <;> simp

/-- What a store holds of a document behind its verdict: one that was not saved stands as before,
    and one that was saved holds what was returned in all fields that were reported, under its new
    identifier if it was filed anew. -/
def Held (before after : Collection) (h : Handle) (j : Judged) : Prop :=
  match j.verdict with
  | .saved => ∃ held,
      after.get? (if j.edited.handle.refiled before.idField j.edited.dirty then j.edited.handle.id
        else h.id) = .ok (some held) ∧
      ∀ name ∈ j.edited.dirty.fields, name ≠ before.idField →
        Fields.get? held name = Fields.get? j.edited.handle.data name
  | _ => after.get? h.id = before.get? h.id

variable {settings : Settings} {call : Call} {query : Value} {many : Bool} {task : Task}
  {o : Outcome} {h : Handle} {j : Judged}

theorem held_of_settled {before after : Collection} (distinct : Fields.Distinct doc)
    (fair : j.Fair) (shown : h.id.hasPlain = true) (addressed : Addressed h j.edited)
    (found : lookup before.docs (Identity.key j.edited.handle.addressId) = some doc)
    (settled : lookup after.docs (j.keyAfter before.idField) =
      some (j.contentsAfter before.idField doc)) : Held before after h j := by
  -- The document stood under its identifier, and the save looked for it there.
  have stood : before.get? h.id = .ok (some doc) := get?_ok.2 ⟨shown, addressed ▸ found⟩
  have stays (same : lookup after.docs (Identity.key j.edited.handle.addressId) = some doc) :
      after.get? h.id = before.get? h.id := by
    rw [stood]
    exact get?_ok.2 ⟨shown, addressed ▸ same⟩
  obtain ⟨e, verdict⟩ := j
  cases verdict with
  | untouched => exact stays settled
  | refused cause => exact stays settled
  | saved =>
    refine ⟨e.handle.contentsAfter before.idField e.dirty doc, ?_, fun name touched other => ?_⟩
    · have settled : lookup after.docs (e.handle.keyAfter before.idField e.dirty) =
        some (e.handle.contentsAfter before.idField e.dirty doc) := settled
      unfold Handle.keyAfter at settled
      by_cases moved : e.handle.refiled before.idField e.dirty = true
      · rw [if_pos moved] at settled ⊢
        exact get?_ok.2 ⟨fair.shown Verdict.noConfusion, settled⟩
      · rw [if_neg moved] at settled ⊢
        exact get?_ok.2 ⟨shown, addressed ▸ settled⟩
    · rw [Handle.get?_contentsAfter distinct, if_neg other, if_pos touched]

/-- **A call tells truly what became of its saves.** It edits documents of a collection that is as it
    should be, is to persist, and returns. Each edited document has a verdict: it was left untouched
    if the edit touched nothing, and otherwise it was saved or refused. The outcome lists those
    saved and the failures of those refused, in order, and its status follows from the two lists.
    Behind it, if the saves looked for the documents where these were lent from, as they do unless
    an identifier is missing or is a container, every refused document stands as before, and every
    saved one holds what was returned. -/
theorem saves_told (filed : s.store.Filed) (shown : s.store.Shown)
    (accepted : call.action settings = .ok (.edit query many task))
    (run : call.run settings true s = .ok o t) :
    ∃ handles u, ∃ judged : List Judged, targets many query s.store = .ok handles ∧
      editAll task handles s = .ok (judged.map Judged.edited) u ∧ (∀ j ∈ judged, j.Fair) ∧
      o.documents = judged.map (·.edited.handle.data) ∧
      Told (judged.filterMap Judged.saved?) (judged.filterMap (Judged.failure? s.store.name)) o ∧
      ((∀ h ∈ handles, h.id.isContainer = false ∧ h.id.isNull = false) →
        List.Forall₂ Addressed handles (judged.map Judged.edited)) ∧
      (List.Forall₂ Addressed handles (judged.map Judged.edited) →
        List.Forall₂ (Held s.store t.store) handles judged) := by
  obtain ⟨handles, edited, u, selected, worked⟩ := run_ok accepted run
  obtain ⟨hs, w, wrote, rfl⟩ := run_persist_ok accepted selected worked run
  obtain ⟨judged, rfl, fair, saved, failures, settle⟩ := writeAll_judged wrote
  obtain ⟨same, works⟩ := editAll_ok worked
  rw [same] at failures settle
  refine ⟨handles, u, judged, selected, worked, fair, ?_, ?_, fun scalars => ?_,
    fun addressed => ?_⟩
  · show hs.map Handle.data = _
    rw [writeAll_copies wrote, List.map_map]
    rfl
  · have told := written_told (judged.map Judged.edited) hs w
    rw [saved, failures] at told
    exact told
  · exact addressed_of_scalars accepted selected works scalars
  · -- Documents of a collection are filed under keys of their own, so their writes do not meet.
    obtain ⟨docs, rfl, sub⟩ := targets_loans selected
    rw [List.forall₂_map_left_iff] at addressed ⊢
    have found := addresses_found filed sub addressed
    obtain ⟨settled, _⟩ := settle docs found (addresses_nodup filed sub addressed)
    rw [List.forall₂_map_right_iff] at addressed found
    refine List.forall₂_iff_zip.2 ⟨settled.length_eq, fun {doc j} pair => ?_⟩
    have lent : doc ∈ s.store.all := sub.subset (List.of_mem_zip pair).1
    exact held_of_settled (filed.distinct_all lent) (fair j (List.of_mem_zip pair).2)
      (shown.all lent) (List.forall₂_zip addressed pair) (List.forall₂_zip found pair)
      (List.forall₂_zip settled pair)

/-- A field is set in two documents, and the save of the second is refused. -/
theorem saves_told_second_refused :
    let c : Collection :=
      { name := "forms"
        docs := [(some "d1", [("_id", .text "d1")]), (some "d2", [("_id", .text "d2")])]
        rejects := fun h => h.id.plain == "d2" }
    let s : Session Collection := ⟨c, { origin := 0, last := 0, pace := 1 }⟩
    let call : Call := .execute (.object []) (.object [("a", .object [("$set", .int 1)])]) true
    ∃ o t handles, ∃ judged : List Judged, call.run {} true s = .ok o t ∧ o.status = .incomplete ∧
      Told (judged.filterMap Judged.saved?) (judged.filterMap (Judged.failure? "forms")) o ∧
      List.Forall₂ (Held c t.store) handles judged := by
  intro c s call
  have filed : c.Filed := by
    refine ⟨by decide, fun entry h => ?_, fun entry h => ?_⟩
    · simp only [c, List.mem_cons, List.not_mem_nil, or_false] at h
      rcases h with rfl | rfl
      · rfl
      · rfl
    · simp only [c, List.mem_cons, List.not_mem_nil, or_false] at h
      rcases h with rfl | rfl
      · show List.Nodup ["_id"]
        decide
      · show List.Nodup ["_id"]
        decide
  have shown : c.Shown := by
    intro entry h
    simp only [c, List.mem_cons, List.not_mem_nil, or_false] at h
    rcases h with rfl | rfl
    · rfl
    · rfl
  have accepts : ∃ task, call.action {} = .ok (.edit (.object []) true task) := ⟨_, rfl⟩
  obtain ⟨task, accepted⟩ := accepts
  have runs : ∃ o t, call.run {} true s = .ok o t ∧ o.status = .incomplete := ⟨_, _, rfl, rfl⟩
  obtain ⟨o, t, run, status⟩ := runs
  obtain ⟨handles, u, judged, selected, _, _, _, told, addressed, held⟩ :=
    saves_told filed shown accepted run
  have scalars : ∀ h ∈ handles, h.id.isContainer = false ∧ h.id.isNull = false := by
    have lent : targets true (.object []) c =
        .ok [loan "_id" [("_id", .text "d1")], loan "_id" [("_id", .text "d2")]] := rfl
    rw [lent] at selected
    cases selected
    intro h hh
    simp only [List.mem_cons, List.not_mem_nil, or_false] at hh
    rcases hh with rfl | rfl
    · exact ⟨rfl, rfl⟩
    · exact ⟨rfl, rfl⟩
  exact ⟨o, t, handles, judged, run, status, told, held (addressed scalars)⟩

/-- A value is moved out of each of two identifiers that are arrays, and the second save is refused.
    The first save, which is told of as gone through, looks under what is left of the identifier. So
    the document that was saved stands as before, and the one that was refused has been written. -/
theorem moved_identifier_misleads :
    let first : Value := .array [.int 9, .int 1, .int 5]
    let second : Value := .array [.int 1, .int 5]
    let c : Collection :=
      { name := "forms"
        docs := [(some "[9, 1, 5]", [("_id", first)]), (some "[1, 5]", [("_id", second)])]
        rejects := fun h => h.id.plain == "[5]" }
    let s : Session Collection := ⟨c, { origin := 0, last := 0, pace := 1 }⟩
    let call : Call := .translate (.object [])
      (.array [.object [("from_field", .text "_id.0"), ("to_field", .text "n")]])
    ∃ o t, call.run {} true s = .ok o t ∧ o.status = .incomplete ∧
      (o.report.bind (Fields.get? · "saved")).map Value.plain = some "['[1, 5]']" ∧
      o.failure.map Failure.kind = some .persistenceFailure ∧
      (t.store.get? first).toOption.join.map Fields.names = some ["_id"] ∧
      (t.store.get? second).toOption.join.map Fields.names = some ["_id", "n"] := by
  intro first second c s call
  have check : returnsWith (fun o t => decide (o.status = .incomplete ∧
      (o.report.bind (Fields.get? · "saved")).map Value.plain = some "['[1, 5]']" ∧
      o.failure.map Failure.kind = some .persistenceFailure ∧
      (t.store.get? first).toOption.join.map Fields.names = some ["_id"] ∧
      (t.store.get? second).toOption.join.map Fields.names = some ["_id", "n"]))
      (call.run {} true s) = true := by decide +kernel
  obtain ⟨o, t, run, holds⟩ := exists_of_returnsWith check
  exact ⟨o, t, run, of_decide_eq_true holds⟩

end Gateway

end DocRepair

import DocRepair.Proofs.Persisted
import DocRepair.Proofs.References
import DocRepair.Proofs.Rehearsed
import DocRepair.Proofs.Steady
/-!
# `DocRepair.Proofs.OneByOne` — one call for many documents, or one call for each

A call for all documents that a query selects edits all of them before it saves the first. One call
for each of them looks its document up again, behind the saves of the others. Both come to the same:
an edit sees nothing but its own document, a save writes nothing but that, and the identifier of a
document leads to that document and to no other. So it does not matter in which order the documents
are taken.

That the identifier leads to its document needs an identifier field whose name is no connective of
filters.

## Contents

* `Identity.Common` — object identifiers and texts, which agree exactly if their keys are equal;
* `Collection.targets_own` — the query for an identifier finds its document;
* `Call.sweep?` / `Call.aimed` — a call for all documents of a query, and the same for one of them;
* `Gateway.reworked` — what a document becomes;
* `Swept` — a session in which some documents have become that;
* `Swept.write` / `writeAll_swept` — a write, and the writes of a call;
* `aimed_swept` / `inTurn_swept` — a call for one document, and one for each;
* `sweep_one_by_one` — the two ways leave the same documents.
-/

namespace DocRepair

open Access

/-! ## The query for an identifier -/

namespace Identity

variable {v w : Value}

/-- The usual identifiers: object identifiers and texts. -/
def Common : Value → Prop
  | .ident _ | .text _ => True
  | _ => False

theorem Common.leaf (common : Common v) :
    v.isContainer = false ∧ v.isNull = false ∧ v.isAbsent = false := by
  cases v with
  | ident i => exact ⟨rfl, rfl, rfl⟩
  | text t => exact ⟨rfl, rfl, rfl⟩
  | _ => exact common.elim

/-- A usual identifier can be shown. -/
theorem Common.shown (common : Common v) : v.hasPlain = true := by
  cases v with
  | ident i => rfl
  | text t => rfl
  | _ => exact common.elim

/-- Usual identifiers agree exactly if they have the same key. -/
theorem Common.agree_iff (left : Common v) (right : Common w) :
    agree v w = true ↔ key v = key w := by
  cases v with
  | ident i =>
    cases w with
    | ident j => simp [agree, isIdent, Value.isNull, key]
    | text t => simp [agree, isIdent, Value.isNull, key]
    | _ => exact right.elim
  | text t =>
    cases w with
    | ident j => simp [agree, isIdent, Value.isNull, key]
    | text u =>
      simp [agree, isIdent, Value.isNull, key, Value.same, Value.sameScalar, Value.plain]
    | _ => exact right.elim
  | _ => exact left.elim

end Identity

namespace Filter

variable {name : String} {ident : Value} {doc : Fields}

/-- **The query for an identifier** is satisfied by the documents whose identifier has its key. -/
theorem matches_ident (plain : Path.split (.text name) = .ok [name])
    (noConnective : name ≠ "$and" ∧ name ≠ "$or") (named : Identity.Common (Fields.getD doc name))
    (common : Identity.Common ident) :
    matches? (.object doc) (.object [(name, ident)]) =
      .ok (decide (Identity.key (Fields.getD doc name) = Identity.key ident)) := by
  obtain ⟨leaf, given, there⟩ := common.leaf
  rw [matches_identifier noConnective plain named.leaf.1 leaf given,
    Identity.compare_shown named.shown common.shown, there]
  refine congrArg Except.ok ?_
  rw [Bool.not_false, Bool.true_and, Bool.eq_iff_iff, decide_eq_true_iff]
  exact named.agree_iff common

end Filter

namespace Collection

variable {c : Collection} {filter : Value} {docs : List Fields} {doc : Fields}

/-- Where every document has its verdict, a filter selects those with a good one. -/
theorem selectFrom_verdict {p : Fields → Bool}
    (verdict : ∀ doc ∈ docs, Filter.matches? (.object doc) filter = .ok (p doc)) :
    selectFrom filter docs = .ok (docs.filter p) := by
  induction docs with
  | nil => rfl
  | cons first rest ih =>
    unfold selectFrom
    rw [verdict first List.mem_cons_self, ih fun doc h => verdict doc (List.mem_cons_of_mem _ h),
      List.filter_cons]
    rfl

theorem firstOf_verdict {p : Fields → Bool}
    (verdict : ∀ doc ∈ docs, Filter.matches? (.object doc) filter = .ok (p doc)) :
    firstOf filter docs = .ok (docs.filter p).head? := by
  induction docs with
  | nil => rfl
  | cons first rest ih =>
    unfold firstOf
    rw [verdict first List.mem_cons_self, ih fun doc h => verdict doc (List.mem_cons_of_mem _ h),
      List.filter_cons]
    cases p first <;> rfl

/-- Among documents with keys of their own, one is singled out by its key. -/
theorem filter_own {k : Fields → Option String} (keys : (docs.map k).Nodup) (among : doc ∈ docs) :
    docs.filter (fun other => decide (k other = k doc)) = [doc] := by
  induction docs with
  | nil => cases among
  | cons first rest ih =>
    obtain ⟨fresh, keys⟩ := List.nodup_cons.1 keys
    rw [List.filter_cons]
    rcases List.mem_cons.1 among with rfl | among
    · have others : rest.filter (fun other => decide (k other = k doc)) = [] := by
        rw [List.filter_eq_nil_iff]
        intro other present
        have apart : k other ≠ k doc := fun same =>
          fresh (List.mem_map.2 ⟨other, present, same⟩)
        simpa using apart
      rw [if_pos (by simp), others]
    · have apart : k first ≠ k doc := fun same => fresh (List.mem_map.2 ⟨doc, among, same.symm⟩)
      rw [if_neg (by simpa using apart), ih keys among]

/-- **The query for the identifier of a document** finds this document, and no other. -/
theorem targets_own (filed : c.Filed) (plain : Path.split (.text c.idField) = .ok [c.idField])
    (noConnective : c.idField ≠ "$and" ∧ c.idField ≠ "$or")
    (named : ∀ doc ∈ c.all, Identity.Common (Fields.getD doc c.idField)) (among : doc ∈ c.all)
    (many : Bool) :
    Gateway.targets many (.object [(c.idField, Fields.getD doc c.idField)]) c =
      .ok [loan c.idField doc] := by
  have verdict : ∀ other ∈ c.all,
      Filter.matches? (.object other) (.object [(c.idField, Fields.getD doc c.idField)]) =
        .ok (decide (c.keyOf other = c.keyOf doc)) := fun other present =>
    Filter.matches_ident plain noConnective (named other present) (named doc among)
  have keys : (c.all.map c.keyOf).Nodup := by
    have all := filed.keys
    rw [filed.keys_eq] at all
    exact all
  have only := filter_own keys among
  unfold Gateway.targets
  dsimp only
  cases many with
  | true =>
    show c.find _ = _
    rw [find_eq, selectFrom_verdict verdict, only]
    rfl
  | false =>
    have found : Store.findOne c (.object [(c.idField, Fields.getD doc c.idField)]) =
        .ok (some (loan c.idField doc)) := by
      show c.findOne _ = _
      unfold findOne
      rw [firstOf_verdict verdict, only]
      rfl
    rw [if_neg Bool.false_ne_true, found]
    rfl

end Collection

/-! ## The calls -/

namespace Gateway

variable {settings : Settings} {call : Call} {query ident : Value} {many : Bool} {task : Task}

/-- The query of a call that edits all documents that it selects. -/
def Call.sweep? : Call → Option Value
  | .execute query _ true => some query
  | .setStatus query _ _ => some query
  | .translate query _ => some query
  | _ => none

/-- Such a call, made for the document with an identifier alone. -/
def Call.aimed (idField : String) (ident : Value) : Call → Call
  | .execute _ changes _ => .execute (.object [(idField, ident)]) changes false
  | .setStatus _ path code => .setStatus (.object [(idField, ident)]) path code
  | .translate _ moves => .translate (.object [(idField, ident)]) moves
  | other => other

/-- **A call for all documents of a query**, once its arguments are accepted, runs one steady edit on
them; and the call for one of them runs the same edit. -/
theorem Call.sweep_action {action : Action} (sweeps : call.sweep? = some query)
    (accepted : call.action settings = .ok action) :
    ∃ task, action = .edit query true task ∧ Edit.Steady task ∧
      ∀ idField ident, ∃ many,
        (call.aimed idField ident).action settings =
          .ok (.edit (.object [(idField, ident)]) many task) := by
  cases call with
  | execute own changes many =>
    cases many with
    | false => cases sweeps
    | true =>
      cases sweeps
      obtain ⟨parsed, parses, accepted⟩ := bind_eq_ok.1 accepted
      cases accepted
      refine ⟨_, rfl, quiet_steady (Edit.applyFrom_steady 0 ∅ parsed), fun idField ident => ?_⟩
      refine ⟨false, ?_⟩
      show (do .ok (Action.edit _ _ (quiet (Edit.applyChanges _ (← Change.parse changes))))) = _
      rw [parses]
      rfl
  | setStatus own path code =>
    cases sweeps
    obtain ⟨parsed, parses, accepted⟩ := bind_eq_ok.1 accepted
    cases accepted
    refine ⟨_, rfl, quiet_steady (Edit.applyFrom_steady 0 ∅ parsed), fun idField ident => ?_⟩
    refine ⟨true, ?_⟩
    show (do .ok (Action.edit _ _ (quiet (Edit.applyChanges _ (← Change.parse _))))) = _
    rw [parses]
    rfl
  | translate own moves =>
    cases sweeps
    simp only [Call.action] at accepted
    split at accepted
    · cases accepted
    · rename_i some_moves
      obtain ⟨parsed, parses, accepted⟩ := bind_eq_ok.1 accepted
      cases accepted
      refine ⟨_, rfl, quiet_steady (Edit.moveFrom_steady ∅ parsed), fun idField ident => ?_⟩
      refine ⟨true, ?_⟩
      simp only [Call.aimed, Call.action]
      rw [if_neg some_moves, parses]
      rfl
  | _ => cases sweeps

/-! ## What becomes of the documents -/

open Collection

/-- What becomes of a stored document once a task was run on it and the fields touched were saved. -/
def reworked (task : Task) (supply : Supply) (idField : String) (doc : Fields) : Fields :=
  match edited? task supply (loan idField doc) with
  | some e => writeFields idField e.handle.data doc e.dirty.fields
  | none => doc

/-- The copy that is saved for an edited document: the fields touched are marked in it. -/
def Edited.marked (e : Edited) : Handle :=
  (DirtySet.notify Handle.mark e.dirty.fields e.handle).2

/-- The save of an edited document is not refused: nothing was touched, or the collection takes the
copy. -/
def Edited.Accepted (c : Collection) (e : Edited) : Prop :=
  e.dirty.isEmpty = true ∨ c.rejects e.marked = false

/-- An edited document that has the identifier it had, and is known by it. -/
structure Edited.InPlace (idField : String) (doc : Fields) (e : Edited) : Prop where
  field : e.handle.idField = idField
  known : e.handle.known = .within [.field idField]
  id : e.handle.id = Fields.getD doc idField

/-- A task on the documents of a session whose clock stands still. All identifiers are usual ones, a
query for one of them reads the identifier field, and the edits leave them as they are. -/
structure Sweeping (task : Task) (start : Session Collection) : Prop where
  filed : start.store.Filed
  plain : Path.split (.text start.store.idField) = .ok [start.store.idField]
  noConnective : start.store.idField ≠ "$and" ∧ start.store.idField ≠ "$or"
  named : ∀ doc ∈ start.store.all, Identity.Common (Fields.getD doc start.store.idField)
  still : start.supply.pace = 0
  steady : Edit.Steady task
  inPlace : ∀ doc ∈ start.store.all, ∀ e,
    edited? task start.supply (loan start.store.idField doc) = some e →
      e.InPlace start.store.idField doc

/-- What documents have become once those under some keys were reworked. -/
def partly (task : Task) (start : Session Collection) (done : List (Option String))
    (doc : Fields) : Fields :=
  if start.store.keyOf doc ∈ done then reworked task start.supply start.store.idField doc else doc

/-- A session in which the documents under some keys have been reworked. All else is as at the
start. -/
structure Swept (task : Task) (start : Session Collection) (done : List (Option String))
    (s : Session Collection) : Prop where
  supply : s.supply = start.supply
  becomes : Becomes (partly task start done) start.store s.store

variable {start s t : Session Collection} {done : List (Option String)} {doc : Fields} {e : Edited}

/-- **The edits of a call that keeps identifiers** leave every document in its place. -/
theorem inPlace_of_keeps (same : settings.idField = start.store.idField)
    (accepted : call.action settings = .ok (.edit query many task))
    (keeps : call.KeepsIdentifiers settings.idField)
    (common : Identity.Common (Fields.getD doc start.store.idField))
    (made : edited? task start.supply (loan start.store.idField doc) = some e) :
    e.InPlace start.store.idField doc := by
  obtain ⟨d, run, after⟩ := edited_eq_some.1 made
  have worked : Worked task (loan start.store.idField doc) e := ⟨_, e.notes, d, run, after⟩
  obtain ⟨supply, d, renames, names, steps, after, steady⟩ := worked.steps accepted
  rw [same] at steps
  obtain ⟨leaf, named, present⟩ := common.leaf
  have held : Path.present (Fields.get? doc start.store.idField) =
      some (Fields.getD doc start.store.idField) := by
    refine Path.present_eq_some.2 ⟨?_, present⟩
    unfold Fields.getD at named ⊢
    cases found : Fields.get? doc start.store.idField with
    | none =>
      rw [found] at named
      cases named
    | some v => rfl
  obtain ⟨still, within⟩ := Draft.Steps.faithful steps rfl (steady keeps) held leaf rfl
  refine ⟨by rw [after]; rfl, by rw [after]; exact within, ?_⟩
  rw [after]
  show Fields.getD d.doc.fields start.store.idField = _
  unfold Fields.getD at still ⊢
  rw [(Path.present_eq_some.1 still).1]
  rfl

/-- A save of some fields does not touch the identifier, nor does it give a document two fields of one
name. -/
theorem partly_kept (task : Task) (start : Session Collection) (done : List (Option String))
    (doc : Fields) :
    Fields.get? (partly task start done doc) start.store.idField =
      Fields.get? doc start.store.idField ∧
    (Fields.Distinct doc → Fields.Distinct (partly task start done doc)) := by
  unfold partly reworked
  split
  · split
    · exact ⟨get?_writeFields_own _ _, fun distinct => writeFields_distinct distinct _⟩
    · exact ⟨rfl, id⟩
  · exact ⟨rfl, id⟩

theorem Swept.begin (task : Task) (start : Session Collection) : Swept task start [] start := by
  refine ⟨rfl, rfl, rfl, ?_⟩
  simp [partly]

/-- **What is stored is decided by which documents were reworked**, not by their order. -/
theorem Swept.same {done' : List (Option String)} (first : Swept task start done s)
    (second : Swept task start done' t) (keys : ∀ key, key ∈ done ↔ key ∈ done') :
    s.store.docs = t.store.docs := by
  rw [first.becomes.docs, second.becomes.docs]
  simp only [partly, keys]

/-- A write whose save goes through. -/
theorem write_of_save {h now : Handle}
    (saving : Collection.save e.marked e.dirty s = .ok (h, .ok now) t) :
    write e s = .ok (h, none) t := by
  have fields := DirtySet.notify_fields e.dirty e.handle
  unfold Edited.marked at saving
  unfold write
  simp only [run_bind, Access.look, Store.save, fields, saving]
  rfl

/-- A write whose save is refused. -/
theorem write_of_refusal {h : Handle} {reason : String} (shown : h.id.hasPlain = true)
    (saving : Collection.save e.marked e.dirty s = .ok (h, .error (.rejected reason)) t) :
    write e s =
      .ok (h, some (.notSaved s.store.name h.id.plain e.dirty (.rejected reason))) t := by
  have fields := DirtySet.notify_fields e.dirty e.handle
  have shows : h.id.plainText = .ok h.id.plain := Value.plainText_ok.2 ⟨shown, rfl⟩
  unfold Edited.marked at saving
  unfold write
  simp only [run_bind, Access.look, Store.save, Access.lift, fields, saving, shows]
  rfl

/-- Selection, edits and writes make up a call that persists. -/
theorem run_of_writes {handles hs : List Handle} {edited : List Edited} {u : Session Collection}
    {w : Writes} (accepted : call.action settings = .ok (.edit query many task))
    (selected : targets many query s.store = .ok handles)
    (worked : editAll task handles s = .ok edited u) (wrote : writeAll edited u = .ok (hs, w) t) :
    call.run settings true s = .ok (written edited hs w) t := by
  rw [Call.run_eq, accepted]
  refine run_bind_ok.2 ⟨.edit query many task, s, rfl, ?_⟩
  refine run_bind_ok.2 ⟨handles, s, look_ok.2 ⟨selected, rfl⟩, ?_⟩
  exact run_bind_ok.2 ⟨edited, u, worked, run_bind_ok.2 ⟨(hs, w), t, wrote, rfl⟩⟩

theorem status_of_no_failures {w : Writes} (none : w.failures = []) : w.status = .ok := by
  unfold Writes.status
  rw [none]
  rfl

section Job

variable (job : Sweeping task start)

include job

/-- One more document is stored as it was reworked. -/
theorem Swept.replaced (swept : Swept task start done s) (among : doc ∈ start.store.all)
    (supply : t.supply = s.supply) (idField : t.store.idField = s.store.idField)
    (rejects : t.store.rejects = s.store.rejects)
    (docs : t.store.docs = replace s.store.docs (start.store.keyOf doc)
      (reworked task start.supply start.store.idField doc)) :
    Swept task start (start.store.keyOf doc :: done) t := by
  refine ⟨supply.trans swept.supply, idField.trans swept.becomes.idField,
    rejects.trans swept.becomes.rejects, ?_⟩
  rw [docs, swept.becomes.docs, replace_eq_map job.filed.keys]
  refine List.map_congr_left fun entry listed => ?_
  have under : entry.1 = start.store.keyOf entry.2 := job.filed.under entry listed
  have present : entry.2 ∈ start.store.all := List.mem_map.2 ⟨entry, listed, rfl⟩
  rw [under]
  by_cases own : start.store.keyOf entry.2 = start.store.keyOf doc
  · have one : entry.2 = doc := job.filed.eq_of_keyOf present among own
    rw [one, if_pos rfl, partly, if_pos List.mem_cons_self]
  · have either : start.store.keyOf entry.2 ∈ start.store.keyOf doc :: done ↔
        start.store.keyOf entry.2 ∈ done := by
      rw [List.mem_cons]
      exact or_iff_right own
    simp only [if_neg own, partly, either]

/-- A document that was not yet reworked is stored as at the start. -/
theorem Swept.lookup (swept : Swept task start done s) (among : doc ∈ start.store.all)
    (fresh : start.store.keyOf doc ∉ done) :
    Collection.lookup s.store.docs (start.store.keyOf doc) = some doc := by
  rw [swept.becomes.lookup job.filed among, partly, if_neg fresh]

/-- A document in which nothing was touched counts as reworked. -/
theorem Swept.skip (swept : Swept task start done s) (among : doc ∈ start.store.all)
    (fresh : start.store.keyOf doc ∉ done)
    (made : edited? task start.supply (loan start.store.idField doc) = some e)
    (clean : e.dirty.isEmpty = true) : Swept task start (start.store.keyOf doc :: done) s := by
  have nothing : e.dirty.fields = [] := List.isEmpty_iff.1 clean
  have same : reworked task start.supply start.store.idField doc = doc := by
    unfold reworked
    rw [made]
    dsimp only
    rw [nothing]
    rfl
  refine swept.replaced job among rfl rfl rfl ?_
  rw [same, replace_self (swept.lookup job among fresh)]

/-- **The write of a document that was not yet reworked**: if the collection takes the copy, the
document is stored as it was reworked, and all others stay. -/
theorem Swept.write (swept : Swept task start done s) (among : doc ∈ start.store.all)
    (fresh : start.store.keyOf doc ∉ done)
    (made : edited? task start.supply (loan start.store.idField doc) = some e) :
    if start.store.rejects e.marked then ∃ h f t, Gateway.write e s = .ok (h, some f) t
    else ∃ h t, Gateway.write e s = .ok (h, none) t ∧ h.id.hasPlain = true ∧
      Swept task start (start.store.keyOf doc :: done) t := by
  obtain ⟨field, known, ident⟩ := job.inPlace doc among e made
  obtain ⟨marks, marked⟩ := DirtySet.notify_handle e.dirty.fields e.handle
  have copy : e.marked = { e.handle with modified := marks } := marked
  have within : e.marked.known = .within [.field e.marked.idField] := by
    rw [copy]
    show e.handle.known = .within [.field e.handle.idField]
    rw [field]
    exact known
  have own : e.marked.id = Fields.getD doc start.store.idField := by
    rw [copy]
    exact ident
  -- The copy is still known by its identifier, so it is looked for where it is, and stays there.
  have address : Identity.key e.marked.addressId = start.store.keyOf doc := by
    rw [Handle.addressId_within within, own]
    rfl
  have common := job.named doc among
  have shown : e.marked.id.hasPlain = true := by
    rw [own]
    exact common.shown
  have stays : e.marked.renamedBy s.store.idField e.dirty = .ok false := by
    have agrees : Identity.agree e.marked.id e.marked.id = true := by
      rw [own]
      exact (common.agree_iff common).2 rfl
    refine Handle.renamedBy_ok.2 ⟨fun _ => ?_, ?_⟩
    · rw [Handle.knownId_within within]
      exact (Identity.compare_ok.1 (Identity.compare_shown shown shown)).1
    · unfold Handle.idChanged
      rw [Handle.knownId_within within, agrees]
      simp
  have found := swept.lookup job among fresh
  rw [← address] at found
  have saving := save_in_place ((Handle.addressId_within within).symm ▸ shown) found stays
  rw [swept.becomes.rejects] at saving
  dsimp only at saving
  by_cases refused : start.store.rejects e.marked = true
  · rw [if_pos refused] at saving ⊢
    obtain ⟨reason, refusal⟩ := s.store.refusal_shown shown
    rw [refusal] at saving
    exact ⟨_, _, _, write_of_refusal shown saving⟩
  · rw [if_neg refused] at saving ⊢
    refine ⟨_, _, write_of_save saving, shown, swept.replaced job among rfl rfl rfl ?_⟩
    have data : e.marked.data = e.handle.data := by rw [copy]
    show replace s.store.docs (Identity.key e.marked.addressId) _ = _
    rw [address, swept.becomes.idField, data]
    unfold reworked
    rw [made]

/-- **The writes of a call** that are not refused leave every document as it was reworked. -/
theorem writeAll_swept {docs : List Fields} {edited : List Edited} {hs : List Handle} {w : Writes}
    (swept : Swept task start done s) (among : ∀ doc ∈ docs, doc ∈ start.store.all)
    (keys : (docs.map start.store.keyOf).Nodup)
    (fresh : ∀ doc ∈ docs, start.store.keyOf doc ∉ done)
    (made : List.Forall₂ (fun doc e =>
      edited? task start.supply (loan start.store.idField doc) = some e) docs edited)
    (run : writeAll edited s = .ok (hs, w) t) (ok : w.failures = []) :
    Swept task start ((docs.map start.store.keyOf).reverse ++ done) t ∧
      ∀ e ∈ edited, e.Accepted start.store := by
  induction made generalizing s done hs w with
  | nil =>
    obtain ⟨heq, rfl⟩ := run_pure_ok.1 run
    exact ⟨swept, fun e h => absurd h List.not_mem_nil⟩
  | @cons doc e docs rest first _ ih =>
    obtain ⟨apart, keys⟩ := List.nodup_cons.1 keys
    have present := among doc List.mem_cons_self
    have unused := fresh doc List.mem_cons_self
    -- It is enough that this document is done, since the others have other keys.
    suffices step : ∃ u hs v, Swept task start (start.store.keyOf doc :: done) u ∧
        writeAll rest u = .ok (hs, v) t ∧ v.failures = [] ∧ e.Accepted start.store by
      obtain ⟨u, hs, v, done', more, none, accepted⟩ := step
      have others : ∀ other ∈ docs, start.store.keyOf other ∉ start.store.keyOf doc :: done := by
        intro other h used
        rcases List.mem_cons.1 used with same | used
        · exact apart (List.mem_map.2 ⟨other, h, same⟩)
        · exact fresh other (List.mem_cons_of_mem _ h) used
      obtain ⟨all, accepts⟩ :=
        ih done' (fun d h => among d (List.mem_cons_of_mem _ h)) keys others more none
      refine ⟨?_, fun e' h => ?_⟩
      · rw [List.map_cons, List.reverse_cons, List.append_assoc]
        exact all
      · rcases List.mem_cons.1 h with rfl | h
        · exact accepted
        · exact accepts e' h
    unfold writeAll at run
    by_cases clean : e.dirty.isEmpty = true
    · rw [if_pos clean] at run
      obtain ⟨⟨hs, v⟩, u, more, run⟩ := run_bind_ok.1 run
      obtain ⟨heq, rfl⟩ := run_pure_ok.1 run
      cases heq
      exact ⟨s, hs, w, swept.skip job present unused first clean, more, ok, .inl clean⟩
    · rw [if_neg clean] at run
      obtain ⟨⟨h, failure⟩, u, wrote, run⟩ := run_bind_ok.1 run
      have write := swept.write job present unused first
      by_cases refused : start.store.rejects e.marked = true
      · rw [if_pos refused] at write
        obtain ⟨h', f, v', failed⟩ := write
        rw [failed] at wrote
        cases wrote
        obtain ⟨⟨hs, v⟩, u', more, run⟩ := run_bind_ok.1 run
        obtain ⟨heq, rfl⟩ := run_pure_ok.1 run
        cases heq
        cases ok
      · rw [if_neg refused] at write
        obtain ⟨h', v', saved, _, done'⟩ := write
        rw [saved] at wrote
        cases wrote
        obtain ⟨id, u', lifted, run⟩ := run_bind_ok.1 run
        obtain ⟨_, rfl⟩ := lift_ok.1 lifted
        obtain ⟨⟨hs, v⟩, u', more, run⟩ := run_bind_ok.1 run
        obtain ⟨heq, rfl⟩ := run_pure_ok.1 run
        cases heq
        exact ⟨u, hs, v, done', more, ok, .inr (Bool.eq_false_iff.2 refused)⟩

/-- The write of one document whose save is not refused. -/
theorem writeAll_one (swept : Swept task start done s) (among : doc ∈ start.store.all)
    (fresh : start.store.keyOf doc ∉ done)
    (made : edited? task start.supply (loan start.store.idField doc) = some e)
    (accepted : e.Accepted start.store) :
    ∃ hs w t, writeAll [e] s = .ok (hs, w) t ∧ w.failures = [] ∧
      Swept task start (start.store.keyOf doc :: done) t := by
  by_cases clean : e.dirty.isEmpty = true
  · refine ⟨[e.handle], {}, s, ?_, rfl, swept.skip job among fresh made clean⟩
    rw [writeAll, if_pos clean]
    rfl
  · have takes := accepted.resolve_left clean
    have write := swept.write job among fresh made
    rw [if_neg (Bool.eq_false_iff.1 takes)] at write
    obtain ⟨h, t, saved, shown, done'⟩ := write
    refine ⟨[h], { saved := [h.id.plain] }, t, ?_, rfl, done'⟩
    have shows : h.id.plainText = .ok h.id.plain := Value.plainText_ok.2 ⟨shown, rfl⟩
    rw [writeAll, if_neg clean]
    refine run_bind_ok.2 ⟨_, t, saved, run_bind_ok.2 ⟨_, t, lift_ok.2 ⟨shows, rfl⟩, rfl⟩⟩

/-- A session in which some documents were reworked is as it should be, with the identifiers of the
start. -/
theorem Swept.filed (swept : Swept task start done s) : s.store.Filed ∧
    ∀ d ∈ s.store.all, Identity.Common (Fields.getD d s.store.idField) := by
  have kept := partly_kept task start done
  refine ⟨swept.becomes.filed job.filed (fun d => (kept d).1) fun d => (kept d).2, ?_⟩
  intro d present
  rw [swept.becomes.all] at present
  obtain ⟨doc, among, rfl⟩ := List.mem_map.1 present
  have named := job.named doc among
  unfold Fields.getD at named ⊢
  rw [swept.becomes.idField, (kept doc).1]
  exact named

/-- **A call for one document** that was not yet reworked leaves it as it is reworked. -/
theorem aimed_swept (swept : Swept task start done s) (among : doc ∈ start.store.all)
    (fresh : start.store.keyOf doc ∉ done)
    (made : edited? task start.supply (loan start.store.idField doc) = some e)
    (accepted : e.Accepted start.store)
    (accepts : call.action settings = .ok (.edit
      (.object [(start.store.idField, Fields.getD doc start.store.idField)]) many task)) :
    ∃ o t, call.run settings true s = .ok o t ∧ o.status = .ok ∧
      Swept task start (start.store.keyOf doc :: done) t := by
  obtain ⟨filed, named⟩ := swept.filed job
  have field := swept.becomes.idField
  have here : doc ∈ s.store.all := by
    rw [swept.becomes.all]
    refine List.mem_map.2 ⟨doc, among, ?_⟩
    rw [partly, if_neg fresh]
  have selected : targets many (.object [(start.store.idField,
      Fields.getD doc start.store.idField)]) s.store = .ok [loan start.store.idField doc] := by
    have own := targets_own filed (by rw [field]; exact job.plain)
      (by rw [field]; exact job.noConnective) named here many
    rw [field] at own
    exact own
  have still : s.supply.pace = 0 := by
    rw [swept.supply]
    exact job.still
  have edits : editAll task [loan start.store.idField doc] s = .ok [e] s := by
    refine (editAll_steady job.steady still).2 ⟨rfl, .cons ?_ .nil⟩
    rw [swept.supply]
    exact made
  obtain ⟨hs, w, t, wrote, none, done'⟩ := writeAll_one job swept among fresh made accepted
  refine ⟨written [e] hs w, t, run_of_writes accepts selected edits wrote, ?_, done'⟩
  exact status_of_no_failures none

/-- **A call for each of some documents**, in any order, leaves all of them reworked. -/
theorem inTurn_swept {order : List Value} (swept : Swept task start done s)
    (accepts : ∀ idField ident, ∃ many, (call.aimed idField ident).action settings =
      .ok (.edit (.object [(idField, ident)]) many task))
    (each : ∀ ident ∈ order, ∃ doc ∈ start.store.all,
      Fields.getD doc start.store.idField = ident ∧
      ∃ e, edited? task start.supply (loan start.store.idField doc) = some e ∧
        e.Accepted start.store)
    (keys : (order.map Identity.key).Nodup)
    (fresh : ∀ ident ∈ order, Identity.key ident ∉ done) :
    ∃ outcomes t, (order.mapM fun ident =>
        (call.aimed start.store.idField ident).run settings true) s = .ok outcomes t ∧
      (∀ o ∈ outcomes, o.status = .ok) ∧
      Swept task start ((order.map Identity.key).reverse ++ done) t := by
  induction order generalizing s done with
  | nil => exact ⟨[], s, rfl, fun o h => absurd h List.not_mem_nil, swept⟩
  | cons ident rest ih =>
    obtain ⟨apart, restKeys⟩ := List.nodup_cons.1 keys
    obtain ⟨doc, among, rfl, e, made, accepted⟩ := each ident List.mem_cons_self
    obtain ⟨many, action⟩ := accepts start.store.idField (Fields.getD doc start.store.idField)
    obtain ⟨o, u, first, ok, done'⟩ := aimed_swept job swept among
      (fresh _ List.mem_cons_self) made accepted action
    have others : ∀ other ∈ rest, Identity.key other ∉ start.store.keyOf doc :: done := by
      intro other h used
      rcases List.mem_cons.1 used with same | used
      · exact apart (List.mem_map.2 ⟨other, h, same⟩)
      · exact fresh other (List.mem_cons_of_mem _ h) used
    obtain ⟨outcomes, t, more, oks, all⟩ :=
      ih done' (fun other h => each other (List.mem_cons_of_mem _ h)) restKeys others
    refine ⟨o :: outcomes, t, ?_, ?_, ?_⟩
    · rw [List.mapM_cons]
      exact run_bind_ok.2 ⟨o, u, first, run_bind_ok.2 ⟨outcomes, t, more, rfl⟩⟩
    · intro o' h
      rcases List.mem_cons.1 h with rfl | h
      · exact ok
      · exact oks o' h
    · rw [List.map_cons, List.reverse_cons, List.append_assoc]
      exact all

end Job

/-! ## One call for all, or one call for each -/

/-- **Many matches are independent.** Let a collection have an identifier field whose name is no
connective and has no dots, and let all its identifiers be object identifiers or texts. A call for
all documents of a query that gives no document another identifier is made with a clock that stands
still, and no save is refused. Then the same call, made for one of the documents after the other in
any order, goes through each time, and leaves the same documents. -/
theorem sweep_one_by_one {o : Outcome} {handles : List Handle} {order : List Value}
    (filed : s.store.Filed) (nonempty : s.store.idField ≠ "") (undotted : '.' ∉ s.store.idField.toList)
    (noConnective : s.store.idField ≠ "$and" ∧ s.store.idField ≠ "$or")
    (named : ∀ doc ∈ s.store.all, Identity.Common (Fields.getD doc s.store.idField))
    (same : settings.idField = s.store.idField) (still : s.supply.pace = 0)
    (sweeps : call.sweep? = some query) (keeps : call.KeepsIdentifiers settings.idField)
    (run : call.run settings true s = .ok o t) (ok : o.status = .ok)
    (matched : s.store.find query = .ok handles) (taken : order.Perm (handles.map Handle.id)) :
    ∃ outcomes u, (order.mapM fun ident =>
        (call.aimed s.store.idField ident).run settings true) s = .ok outcomes u ∧
      (∀ o ∈ outcomes, o.status = .ok) ∧ u.store.docs = t.store.docs := by
  -- What the call does, once for all documents.
  have accepts : ∃ action, call.action settings = .ok action := by
    rw [Call.run_eq] at run
    obtain ⟨action, _, lifted, _⟩ := run_bind_ok.1 run
    exact ⟨action, (Access.lift_ok.1 lifted).1⟩
  obtain ⟨action, accepted⟩ := accepts
  obtain ⟨task, rfl, steady, aims⟩ := Call.sweep_action sweeps accepted
  obtain ⟨handles', edited, u, selected, worked⟩ := run_ok accepted run
  obtain ⟨hs, w, wrote, rfl⟩ := run_persist_ok accepted selected worked run
  have none : w.failures = [] := failures_of_ok ok
  obtain ⟨rfl, made⟩ := (editAll_steady steady still).1 worked
  rw [targets_all selected, List.forall₂_map_left_iff] at made
  have job : Sweeping task u :=
    { filed, noConnective, named, still, steady
      plain := Path.split_name nonempty undotted
      inPlace := fun doc among e made => inPlace_of_keeps same accepted keeps (named doc among) made }
  have among : ∀ doc ∈ u.store.selected query, doc ∈ u.store.all := fun doc h =>
    (List.mem_filter.1 h).1
  have keys : ((u.store.selected query).map u.store.keyOf).Nodup := by
    have all := filed.keys
    rw [filed.keys_eq] at all
    exact all.sublist (List.filter_sublist.map _)
  obtain ⟨swept, accepts⟩ := writeAll_swept job (.begin task u) among keys
    (fun _ _ used => absurd used List.not_mem_nil) made wrote none
  -- What it does for one of them after the other.
  have idents : handles.map Handle.id =
      (u.store.selected query).map fun doc => Fields.getD doc u.store.idField := by
    rw [find_ok matched, List.map_map]
    rfl
  rw [idents] at taken
  have listed : (order.map Identity.key).Perm ((u.store.selected query).map u.store.keyOf) := by
    have mapped := taken.map Identity.key
    rw [List.map_map] at mapped
    exact mapped
  have each : ∀ ident ∈ order, ∃ doc ∈ u.store.all, Fields.getD doc u.store.idField = ident ∧
      ∃ e, edited? task u.supply (loan u.store.idField doc) = some e ∧ e.Accepted u.store := by
    intro ident h
    obtain ⟨doc, chosen, rfl⟩ := List.mem_map.1 (taken.subset h)
    obtain ⟨e, he, edits⟩ := exists_of_forall₂ made.flip chosen
    exact ⟨doc, among doc chosen, rfl, e, edits, accepts e he⟩
  obtain ⟨outcomes, v, runs, oks, turn⟩ := inTurn_swept job (.begin task u) aims each
    (listed.nodup_iff.2 keys) fun _ _ used => absurd used List.not_mem_nil
  refine ⟨outcomes, v, runs, oks, turn.same swept fun key => ?_⟩
  rw [List.append_nil, List.append_nil, List.mem_reverse, List.mem_reverse]
  exact listed.mem_iff

/-- Two documents, one with a text and one with an object identifier for its identifier, and a number
that is set in both: it may be set in the second one first. -/
theorem sweep_one_by_one_backwards :
    let ident : Value := .ident ⟨[0, 0, 0, 0, 0, 0, 0, 0, 0, 0, 0, 7], rfl⟩
    let c : Collection :=
      { name := "forms"
        docs := [(some "d1", [("_id", .text "d1"), ("n", .int 1)]),
          (some "000000000000000000000007", [("_id", ident), ("n", .int 1)])] }
    let s : Session Collection := ⟨c, { origin := 0, last := 0, pace := 0 }⟩
    let query : Value := .object [("n", .int 1)]
    let call : Call := .execute query (.object [("n", .object [("$set", .int 2)])]) true
    let order : List Value := [ident, .text "d1"]
    ∃ o t handles, call.run {} true s = .ok o t ∧ o.status = .ok ∧ c.find query = .ok handles ∧
      order.Perm (handles.map Handle.id) ∧
      ∃ outcomes u, (order.mapM fun ident => (call.aimed c.idField ident).run {} true) s =
          .ok outcomes u ∧
        (∀ o ∈ outcomes, o.status = .ok) ∧ u.store.docs = t.store.docs := by
  intro ident c s query call order
  have filed : c.Filed := by
    refine ⟨by decide, fun entry h => ?_, fun entry h => ?_⟩
    · simp only [c, List.mem_cons, List.not_mem_nil, or_false] at h
      rcases h with rfl | rfl
      · rfl
      · rfl
    · simp only [c, List.mem_cons, List.not_mem_nil, or_false] at h
      rcases h with rfl | rfl
      · show List.Nodup ["_id", "n"]
        decide
      · show List.Nodup ["_id", "n"]
        decide
  have named : ∀ doc ∈ c.all, Identity.Common (Fields.getD doc c.idField) := by
    intro doc h
    simp only [c, all, List.map_cons, List.map_nil, List.mem_cons, List.not_mem_nil, or_false] at h
    rcases h with rfl | rfl
    · exact trivial
    · exact trivial
  have keeps : call.KeepsIdentifiers "_id" := by
    intro parsed parses
    cases parses
    rintro ⟨change, among, renames, _⟩
    rw [List.mem_singleton.1 among] at renames
    cases renames
  have runs : ∃ o t, call.run {} true s = .ok o t ∧ o.status = .ok := ⟨_, _, rfl, rfl⟩
  obtain ⟨o, t, run, ok⟩ := runs
  have finds : ∃ handles, c.find query = .ok handles ∧ order.Perm (handles.map Handle.id) :=
    ⟨_, rfl, List.Perm.swap _ _ _⟩
  obtain ⟨handles, matched, taken⟩ := finds
  have undotted : '.' ∉ c.idField.toList := by decide
  have noConnective : c.idField ≠ "$and" ∧ c.idField ≠ "$or" := by decide
  have same : Settings.idField {} = c.idField := rfl
  have still : s.supply.pace = 0 := rfl
  have sweeps : call.sweep? = some query := rfl
  have turns := sweep_one_by_one (s := s) filed (by decide) undotted noConnective named same still
    sweeps keeps run ok matched taken
  exact ⟨o, t, handles, run, ok, matched, taken, turns⟩

/-- An identifier field with the name of a connective. A call for all documents that satisfy a query
goes through. But the query for the identifier of the one document that was found is read as a list
of filters, and stops. -/
theorem connective_not_aimed :
    let c : Collection :=
      { name := "forms", idField := "$and"
        docs := [(some "d1", [("$and", .text "d1"), ("n", .int 1)])] }
    let s : Session Collection := ⟨c, { origin := 0, last := 0, pace := 0 }⟩
    let settings : Settings := { idField := "$and" }
    let query : Value := .object [("n", .int 1)]
    let call : Call := .execute query (.object [("n", .object [("$set", .int 2)])]) true
    c.Filed ∧ call.KeepsIdentifiers "$and" ∧
      (c.find query).map (List.map Handle.id) = .ok [.text "d1"] ∧
      (∃ o t, call.run settings true s = .ok o t ∧ o.status = .ok ∧
        t.store.docs = [(some "d1", [("$and", .text "d1"), ("n", .int 2)])]) ∧
      (call.aimed "$and" (.text "d1")).run settings true s =
        .error (.noSuchPart "'str' object has no attribute 'items'") s := by
  intro c s settings query call
  have filed : c.Filed := by
    refine ⟨by decide, fun entry h => ?_, fun entry h => ?_⟩
    · simp only [c, List.mem_cons, List.not_mem_nil, or_false] at h
      rw [h]
      rfl
    · simp only [c, List.mem_cons, List.not_mem_nil, or_false] at h
      rw [h]
      show List.Nodup ["$and", "n"]
      decide
  have keeps : call.KeepsIdentifiers "$and" := by
    intro parsed parses
    cases parses
    rintro ⟨change, among, renames, _⟩
    rw [List.mem_singleton.1 among] at renames
    cases renames
  have all : ∃ o t, call.run settings true s = .ok o t ∧ o.status = .ok ∧
      t.store.docs = [(some "d1", [("$and", .text "d1"), ("n", .int 2)])] :=
    ⟨_, _, rfl, rfl, rfl⟩
  have one : (call.aimed "$and" (.text "d1")).run settings true s =
      .error (.noSuchPart "'str' object has no attribute 'items'") s := rfl
  exact ⟨filed, keeps, rfl, all, one⟩

end Gateway

end DocRepair

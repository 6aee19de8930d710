import DocRepair.Proofs.Calls
import DocRepair.Proofs.Writing
import DocRepair.Transfer
/-!
# `DocRepair.Proofs.Unwritten` — what is not asked for is not written

A call edits copies. Without the wish to persist nothing that it does reaches the store, whatever
store that is; with it, all edits come before the first write, and no write to a collection in
memory stops the call, unless there is an identifier that cannot be shown. All of it follows link by
link from how the calls are built.

## Contents

* `Gateway.Call.run_keeps` — a call that is not to persist;
* `Gateway.Call.Shown` — the identifiers of what a call would write can be shown;
* `Gateway.Call.run_stops` — a call that is to persist, and stops with a fault;
* `Transfer.transfer_keeps` — a transfer that is not to persist.
-/

namespace DocRepair

open Access

variable {σ τ γ : Type} [Store σ] [Store τ] {view : σ → γ}

namespace Gateway

/-! ## Without the wish to persist -/

omit [Store σ] in
/-- Edits are made on copies. -/
theorem editAll_keeps (task : Task) (handles : List Handle) :
    Keeps view (editAll task handles : Access σ (List Edited)) := by
  induction handles with
  | nil => exact Keeps.pure _
  | cons h rest ih => exact (Keeps.edit h task).bind fun _ => ih.bind fun _ => Keeps.pure _

theorem run_keeps (query : Value) (many : Bool) (task : Task) :
    Keeps view (run query many false task : Access σ Outcome) :=
  (Keeps.look _).bind fun handles => (editAll_keeps task handles).bind fun _ => Keeps.pure _

theorem deleteDocument_keeps (query : Value) :
    Keeps view (deleteDocument query false : Access σ Outcome) :=
  (Keeps.look _).bind fun _ => Keeps.pure _

theorem create_keeps (settings : Settings) (documents : Value) :
    Keeps view (create settings documents false : Access σ Outcome) := by
  by_cases nothing : documents.listed.isEmpty = true
  · simp only [create, nothing, if_true]
    exact Keeps.lift _
  · simp only [create, nothing]
    exact (Keeps.identifyAll settings.idField _).bind fun _ => Keeps.pure _

theorem Action.perform_keeps (settings : Settings) (action : Action) :
    Keeps view (action.perform settings false : Access σ Outcome) := by
  cases action with
  | edit query many task => exact run_keeps query many task
  | remove query => exact deleteDocument_keeps query
  | create documents => exact create_keeps settings documents

/-- **A call that is not to persist leaves the store as it was**, whether it returns or stops. -/
theorem Call.run_keeps (settings : Settings) (call : Call) :
    Keeps view (call.run settings false : Access σ Outcome) := by
  rw [Call.run_eq]
  exact (Keeps.lift _).bind fun action => action.perform_keeps settings

/-- The report on repeated keys is made on a copy as well. -/
theorem findDuplicates_keeps (settings : Settings) (query field keyField : Value) :
    Keeps view (findDuplicates settings query field keyField : Access σ Outcome) :=
  (Keeps.look _).bind fun handles => (editAll_keeps _ handles).bind fun _ => Keeps.pure _

/-! ## With the wish to persist -/

/-- The identifiers of the documents that a call would write, as its preview has them, can be shown.
    Those of new documents need not be. -/
def Call.Shown (settings : Settings) (call : Call) (s : Session Collection) : Prop :=
  (∀ documents, call ≠ .create documents) → ∀ o t, call.run settings false s = .ok o t →
    ∀ doc ∈ o.documents, (Fields.getD doc s.store.idField).hasPlain = true

variable {view : Collection → γ} {s t : Session Collection} {fault : Fault}

theorem Call.shown_of_preview {settings : Settings} {call : Call}
    (preview : (match call.run settings false s with
      | .ok o _ => o.documents.all fun doc => (Fields.getD doc s.store.idField).hasPlain
      | .error _ _ => true) = true) : call.Shown settings s := by
  intro _ o t run
  rw [run] at preview
  exact List.all_eq_true.1 preview

/-- Of an action, the preview is that of its call. -/
theorem Call.Shown.action {settings : Settings} {call : Call} {action : Action}
    (shown : call.Shown settings s) (accepted : call.action settings = .ok action)
    (other : ∀ documents, action ≠ .create documents) :
    ∀ o u, action.perform settings false s = .ok o u →
      ∀ doc ∈ o.documents, (Fields.getD doc s.store.idField).hasPlain = true := by
  intro o u run
  refine shown (fun documents same => ?_) o u ?_
  · rw [same] at accepted
    cases accepted
    exact other documents rfl
  · rw [Call.run_eq]
    exact run_bind_ok.2 ⟨action, s, lift_ok.2 ⟨accepted, rfl⟩, run⟩

/-- What a query selects is identified by the field of the collection. -/
theorem targets_field {many : Bool} {query : Value} {c : Collection} {handles : List Handle}
    (run : targets many query c = .ok handles) : ∀ h ∈ handles, h.idField = c.idField := by
  unfold targets at run
  split at run
  · cases run
  · cases many with
    | true =>
      obtain ⟨chosen, _, run⟩ := bind_eq_ok.1 run
      cases run
      intro h among
      obtain ⟨doc, _, rfl⟩ := List.mem_map.1 among
      rfl
    | false =>
      obtain ⟨found, finding, run⟩ := bind_eq_ok.1 run
      obtain ⟨first, _, finding⟩ := bind_eq_ok.1 finding
      cases finding
      cases first with
      | none =>
        obtain ⟨_, _, run⟩ := bind_eq_ok.1 run
        cases run
      | some doc =>
        cases run
        exact fun h among => by rw [List.mem_singleton.1 among]; rfl

/-- Edits leave the field by which a copy is identified. -/
theorem editAll_field {task : Task} {handles : List Handle} {edited : List Edited}
    (run : editAll task handles s = .ok edited t) {idField : String}
    (field : ∀ h ∈ handles, h.idField = idField) : ∀ e ∈ edited, e.handle.idField = idField := by
  induction handles generalizing edited s t with
  | nil =>
    obtain ⟨rfl, _⟩ := run_pure_ok.1 run
    exact fun e among => absurd among List.not_mem_nil
  | cons h rest ih =>
    obtain ⟨⟨after, dirty, notes⟩, u, first, run⟩ := run_bind_ok.1 run
    obtain ⟨others, v, more, run⟩ := run_bind_ok.1 run
    obtain ⟨rfl, _⟩ := run_pure_ok.1 run
    have same : after.idField = h.idField := by
      unfold Access.edit at first
      split at first <;> cases first
      rfl
    intro e among
    rcases List.mem_cons.1 among with rfl | among
    · exact same.trans (field h List.mem_cons_self)
    · exact ih more (fun g listed => field g (List.mem_cons_of_mem _ listed)) e among

/-- Copies whose identifiers can be shown in a preview are all written. -/
theorem written_shown {many : Bool} {query : Value} {task : Task} {handles : List Handle}
    {edited : List Edited} (selects : targets many query s.store = .ok handles)
    (edits : editAll task handles s = .ok edited t)
    (shown : ∀ o u, run query many false task s = .ok o u →
      ∀ doc ∈ o.documents, (Fields.getD doc s.store.idField).hasPlain = true) :
    ∀ e ∈ edited, ¬ Hidden e := by
  rintro e among ⟨_, hidden⟩
  have previewed : run query many false task s = .ok (preview edited) t :=
    run_bind_ok.2 ⟨handles, s, look_ok.2 ⟨selects, rfl⟩, run_bind_ok.2 ⟨edited, t, edits, rfl⟩⟩
  have field := editAll_field edits (targets_field selects) e among
  have own := shown _ _ previewed e.handle.data (List.mem_map_of_mem among)
  unfold Handle.id at hidden
  rw [field, own] at hidden
  cases hidden

/-- A document whose identifier can be shown in a preview is removed, or reported. -/
theorem deleted_shown {query : Value} {h : Handle} {rest : List Handle}
    (selects : targets false query s.store = .ok (h :: rest))
    (shown : ∀ o u, deleteDocument query false s = .ok o u →
      ∀ doc ∈ o.documents, (Fields.getD doc s.store.idField).hasPlain = true) :
    h.id.plainText = .ok h.id.plain := by
  have previewed : deleteDocument query false s =
      .ok { documents := (h :: rest).map Handle.data } s :=
    run_bind_ok.2 ⟨h :: rest, s, look_ok.2 ⟨selects, rfl⟩, rfl⟩
  have own := shown _ _ previewed h.data List.mem_cons_self
  rw [← targets_field selects h List.mem_cons_self] at own
  exact Value.plainText_ok.2 ⟨own, rfl⟩

theorem run_stops {query : Value} {many : Bool} {task : Task}
    (shown : ∀ o u, run query many false task s = .ok o u →
      ∀ doc ∈ o.documents, (Fields.getD doc s.store.idField).hasPlain = true)
    (stop : run query many true task s = .error fault t) : view t.store = view s.store := by
  rcases run_bind_error.1 stop with stop | ⟨handles, u, looked, stop⟩
  · exact (Keeps.look _).error stop
  obtain ⟨selects, rfl⟩ := look_ok.1 looked
  rcases run_bind_error.1 stop with stop | ⟨edited, v, edits, stop⟩
  · exact (editAll_keeps task handles).error stop
  obtain ⟨hs, w, x, returned, _⟩ := writeAll_returns (written_shown selects edits shown) v
  have persists : (writeAll edited >>= fun r => pure (written edited r.1 r.2)) v =
      .ok (written edited hs w) x := run_bind_ok.2 ⟨(hs, w), x, returned, rfl⟩
  have stop : (writeAll edited >>= fun r => pure (written edited r.1 r.2)) v =
      .error fault t := stop
  rw [persists] at stop
  cases stop

theorem deleteDocument_stops {query : Value}
    (shown : ∀ o u, deleteDocument query false s = .ok o u →
      ∀ doc ∈ o.documents, (Fields.getD doc s.store.idField).hasPlain = true)
    (stop : deleteDocument query true s = .error fault t) : view t.store = view s.store := by
  rcases run_bind_error.1 stop with stop | ⟨handles, u, looked, stop⟩
  · exact (Keeps.look _).error stop
  obtain ⟨selects, rfl⟩ := look_ok.1 looked
  cases handles with
  | nil => cases stop
  | cons h rest =>
    have shows := deleted_shown selects shown
    obtain ⟨r, v, tried⟩ := attempt_returns (Store.delete h : Access Collection Unit) s
    obtain ⟨name, u, looked, stop⟩ := (run_bind_error.1 stop).resolve_left
      fun stop => by cases stop
    obtain ⟨_, rfl⟩ := look_ok.1 looked
    rw [run_bind_of_ok tried] at stop
    cases r with
    | ok done => cases stop
    | error fault =>
      dsimp only at stop
      rw [shows] at stop
      cases stop

theorem create_cleanStop (settings : Settings) (documents : Value) :
    CleanStop view (create settings documents true : Access Collection Outcome) := by
  by_cases nothing : documents.listed.isEmpty = true
  · simp only [create, nothing, if_true]
    exact (Keeps.lift _).cleanStop
  · simp only [create, nothing]
    refine CleanStop.bind (Keeps.identifyAll settings.idField _) fun payload => ?_
    refine CleanStop.bind (Keeps.look _) fun name => CleanStop.of_returns fun s => ?_
    obtain ⟨r, t, tried⟩ := attempt_returns
      (Store.create (.array (payload.map .object)) : Access Collection (List Handle)) s
    cases r with
    | ok created => exact ⟨_, t, run_bind_ok.2 ⟨_, t, tried, rfl⟩⟩
    | error fault => exact ⟨_, t, run_bind_ok.2 ⟨_, t, tried, rfl⟩⟩

/-- **A call that stops with a fault has written nothing**, even if it was to persist, as long as the
    identifiers of what it would write can be shown. -/
theorem Call.run_stops {settings : Settings} {call : Call} (shown : call.Shown settings s)
    (stop : call.run settings true s = .error fault t) : view t.store = view s.store := by
  rw [Call.run_eq] at stop
  rcases run_bind_error.1 stop with stop | ⟨action, u, lifted, stop⟩
  · exact (Keeps.lift _).error stop
  obtain ⟨accepted, rfl⟩ := lift_ok.1 lifted
  cases action with
  | edit query many task =>
    exact Gateway.run_stops (shown.action accepted fun _ h => nomatch h) stop
  | remove query => exact deleteDocument_stops (shown.action accepted fun _ h => nomatch h) stop
  | create documents => exact create_cleanStop settings documents s fault t stop

end Gateway

/-! ## Transfers -/

namespace Transfer

variable {source v toField : Value} {report : TransferReport}

/-- One link reports whether the transfer persists as it was told. -/
theorem copyInto_persisted {h : Handle} {s t : Session σ} {after : TransferReport}
    (run : copyInto source v toField h report s = .ok after t)
    (dry : report.persisted = false) : after.persisted = false := by
  unfold copyInto at run
  obtain ⟨r, u, _, run⟩ := run_bind_ok.1 run
  split at run
  · obtain ⟨_, u, _, run⟩ := run_bind_ok.1 run
    obtain ⟨rfl, _⟩ := run_pure_ok.1 run
    exact dry
  · cases run
  · rw [if_neg (by rw [dry]; exact Bool.false_ne_true)] at run
    obtain ⟨rfl, _⟩ := run_pure_ok.1 run; exact dry

theorem copyInto_keeps (h : Handle) (dry : report.persisted = false) :
    Keeps view (copyInto source v toField h report : Access σ TransferReport) := by
  unfold copyInto
  refine (Keeps.edit h _).attempt.bind fun r => ?_
  split
  · exact (Keeps.lift _).bind fun _ => Keeps.pure _
  · exact Keeps.lift _
  · rw [if_neg (by rw [dry]; exact Bool.false_ne_true)]
    exact Keeps.pure _

theorem copyIntoAll_keeps (handles : List Handle) (dry : report.persisted = false) :
    Keeps view (copyIntoAll source v toField handles report : Access σ TransferReport) := by
  induction handles generalizing report with
  | nil => exact Keeps.pure _
  | cons h rest ih =>
    exact (copyInto_keeps h dry).bind_of fun _ _ _ run => ih (copyInto_persisted run dry)

theorem copyIntoAll_persisted {handles : List Handle} {s t : Session σ} {after : TransferReport}
    (run : copyIntoAll source v toField handles report s = .ok after t)
    (dry : report.persisted = false) : after.persisted = false := by
  induction handles generalizing report s with
  | nil => obtain ⟨rfl, _⟩ := run_pure_ok.1 run; exact dry
  | cons h rest ih =>
    obtain ⟨next, u, first, run⟩ := run_bind_ok.1 run
    exact ih run (copyInto_persisted first dry)

theorem fromSource_persisted {plan : Plan} {h : Handle} {s t : Session σ} {after : TransferReport}
    (run : fromSource plan h report s = .ok after t) (dry : report.persisted = false) :
    after.persisted = false := by
  unfold fromSource at run
  obtain ⟨link, u, _, run⟩ := run_bind_ok.1 run
  cases link with
  | none =>
    obtain ⟨_, u, _, run⟩ := run_bind_ok.1 run
    obtain ⟨rfl, _⟩ := run_pure_ok.1 run
    exact dry
  | some linkValue =>
    obtain ⟨w, u, _, run⟩ := run_bind_ok.1 run
    obtain ⟨r, u, _, run⟩ := run_bind_ok.1 run
    cases r with
    | error fault =>
      obtain ⟨_, u, _, run⟩ := run_bind_ok.1 run
      obtain ⟨rfl, _⟩ := run_pure_ok.1 run
      exact dry
    | ok links => exact copyIntoAll_persisted run dry

theorem fromSource_keeps (plan : Plan) (h : Handle) (dry : report.persisted = false) :
    Keeps view (fromSource plan h report : Access σ TransferReport) := by
  unfold fromSource
  refine (Keeps.lift _).bind fun link => ?_
  cases link with
  | none => exact (Keeps.lift _).bind fun _ => Keeps.pure _
  | some linkValue =>
    refine (Keeps.lift _).bind fun w => (Keeps.look _).attempt.bind fun r => ?_
    cases r with
    | error fault => exact (Keeps.lift _).bind fun _ => Keeps.pure _
    | ok links => exact copyIntoAll_keeps links dry

theorem fromSources_keeps (plan : Plan) (handles : List Handle) (dry : report.persisted = false) :
    Keeps view (fromSources plan handles report : Access σ TransferReport) := by
  induction handles generalizing report with
  | nil => exact Keeps.pure _
  | cons h rest ih =>
    exact (fromSource_keeps plan h dry).bind_of fun _ _ _ run => ih (fromSource_persisted run dry)

/-- **A transfer that is not to persist leaves its target as it was**, whether it returns or
    stops. Its source it never changes. -/
theorem transfer_keeps (plan : Plan) (fromQuery : Value) (source : τ) :
    Keeps view (transfer plan fromQuery source false : Access σ TransferReport) :=
  (Keeps.look _).bind fun _ => (Keeps.lift _).bind fun _ => (Keeps.lift _).bind fun handles =>
    fromSources_keeps plan handles rfl

end Transfer

end DocRepair

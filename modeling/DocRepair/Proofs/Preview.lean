import DocRepair.Proofs.Unwritten
/-!
# `DocRepair.Proofs.Preview` — a preview shows what a persisted call returns

A call runs twice from the same session, once without and once with the wish to persist. Up to the
first write both runs are one and the same computation; behind it the persisted run goes on to
write, but no write changes the copies that it returns, whatever the store refuses. Only where a copy
has an identifier that cannot be shown does the persisted run stop where the preview returns.

## Contents

* `Agree` — two runs that stop with the same fault, or return the same documents and touched fields;
* `Agree.bind` — runs that begin with the same computation;
* `Collection.create_named` — documents that have identifiers are created as they are;
* `preview_agrees` — the two runs of a call;
* `preview_astray` — two runs that part, since an identifier cannot be shown.
-/

namespace DocRepair

open Access

/-! ## Documents that have identifiers -/

/-- A document has an identifier: the field is there, and it is not null. -/
def Named (idField : String) (doc : Fields) : Prop :=
  (Fields.getD doc idField).isNull = false

theorem Access.identify_of_named {σ : Type} {idField : String} {doc : Fields}
    (h : Named idField doc) : (identify idField doc : Access σ Fields) = pure doc := by
  unfold identify
  rw [if_neg (by rw [h]; exact Bool.false_ne_true)]

theorem Access.identify_named {σ : Type} {idField : String} {doc named : Fields} {s t : Session σ}
    (run : identify idField doc s = .ok named t) : Named idField named := by
  unfold identify at run
  split at run
  · obtain ⟨id, u, _, run⟩ := run_bind_ok.1 run
    obtain ⟨rfl, _⟩ := run_pure_ok.1 run
    unfold Named Fields.getD
    rw [Fields.get?_set_self]
    rfl
  · rename_i present
    obtain ⟨rfl, _⟩ := run_pure_ok.1 run
    exact Bool.eq_false_iff.2 present

theorem Access.identifyAll_named {σ : Type} {idField : String} {docs : List Value}
    {named : List Fields} {s t : Session σ} (run : identifyAll idField docs s = .ok named t) :
    ∀ doc ∈ named, Named idField doc := by
  induction docs generalizing named s t with
  | nil =>
    obtain ⟨rfl, _⟩ := run_pure_ok.1 run
    exact fun _ h => absurd h List.not_mem_nil
  | cons v rest ih =>
    cases v with
    | object fs =>
      obtain ⟨doc, u, first, run⟩ := run_bind_ok.1 run
      obtain ⟨docs, u, more, run⟩ := run_bind_ok.1 run
      obtain ⟨rfl, _⟩ := run_pure_ok.1 run
      intro d hd
      rcases List.mem_cons.1 hd with rfl | hd
      · exact identify_named first
      · exact ih more d hd
    | _ => cases run

namespace Collection

/-- A document that has an identifier is filed as it is. -/
theorem file_named {doc filed : Fields} {s t : Session Collection} (h : Named s.store.idField doc)
    (run : file doc s = .ok filed t) : filed = doc ∧ t.store.idField = s.store.idField := by
  obtain ⟨u, identified, _, _, rfl⟩ := file_ok.1 run
  rw [identify_of_named h] at identified
  obtain ⟨rfl, _⟩ := run_pure_ok.1 identified
  exact ⟨rfl, rfl⟩

theorem fileAll_named {docs filed : List Fields} {s t : Session Collection}
    (h : ∀ doc ∈ docs, Named s.store.idField doc)
    (run : fileAll (docs.map .object) s = .ok filed t) : filed = docs := by
  induction docs generalizing filed s t with
  | nil => exact (run_pure_ok.1 run).1.symm
  | cons doc rest ih =>
    obtain ⟨first, u, one, run⟩ := run_bind_ok.1 run
    obtain ⟨others, v, more, run⟩ := run_bind_ok.1 run
    obtain ⟨rfl, _⟩ := run_pure_ok.1 run
    obtain ⟨rfl, sameField⟩ := file_named (h doc List.mem_cons_self) one
    have named : ∀ d ∈ rest, Named u.store.idField d := by
      intro d hd
      rw [sameField]
      exact h d (List.mem_cons_of_mem _ hd)
    rw [ih named more]

/-- Documents that have identifiers are created as they are. -/
theorem create_named {docs : List Fields} {handles : List Handle} {s t : Session Collection}
    (h : ∀ doc ∈ docs, Named s.store.idField doc)
    (run : create (.array (docs.map .object)) s = .ok handles t) :
    handles.map Handle.data = docs := by
  obtain ⟨values, u, listed, run⟩ := run_bind_ok.1 run
  cases listed
  obtain ⟨filed, u, filing, run⟩ := run_bind_ok.1 run
  obtain ⟨_, v, _, run⟩ := run_bind_ok.1 run
  obtain ⟨c, w, _, run⟩ := run_bind_ok.1 run
  obtain ⟨rfl, _⟩ := run_pure_ok.1 run
  have same : filed = docs := fileAll_named h filing
  rw [List.map_map, same]
  exact List.map_id' docs

end Collection

namespace Gateway

/-! ## Runs that agree -/

variable {σ α : Type}

/-- Two runs of a call agree: both stop with the same fault, or both return, with the same documents
    and the same touched fields. -/
inductive Agree : EStateM.Result Fault (Session σ) Outcome →
    EStateM.Result Fault (Session σ) Outcome → Prop
  | returned {o p : Outcome} {s t : Session σ} (documents : o.documents = p.documents)
      (dirty : o.dirty = p.dirty) : Agree (.ok o s) (.ok p t)
  | stopped {fault : Fault} {s t : Session σ} : Agree (.error fault s) (.error fault t)

/-- Runs that begin with the same computation agree if they do from there on. -/
theorem Agree.bind {a : Access σ α} {f g : α → Access σ Outcome} {s : Session σ}
    (rest : ∀ x t, a s = .ok x t → Agree (f x t) (g x t)) : Agree ((a >>= f) s) ((a >>= g) s) := by
  rw [run_bind, run_bind]
  cases first : a s with
  | error fault t => exact .stopped
  | ok x t => exact rest x t first

theorem Agree.refl (r : EStateM.Result Fault (Session σ) Outcome) : Agree r r := by
  cases r with
  | ok o s => exact .returned rfl rfl
  | error fault s => exact .stopped

/-! ## The two runs of a call -/

variable {s : Session Collection}

/-- The copies that a run returns are those of its preview, whatever becomes of the writes. -/
theorem run_agrees {query : Value} {many : Bool} {task : Task}
    (shown : ∀ o u, run query many false task s = .ok o u →
      ∀ doc ∈ o.documents, (Fields.getD doc s.store.idField).hasPlain = true) :
    Agree (run query many false task s) (run query many true task s) := by
  refine Agree.bind fun handles t looked => Agree.bind fun edited u edits => ?_
  obtain ⟨selects, rfl⟩ := look_ok.1 looked
  obtain ⟨hs, w, v, returned, same⟩ := writeAll_returns (written_shown selects edits shown) u
  have persisted : (writeAll edited >>= fun r => pure (written edited r.1 r.2)) u =
      .ok (written edited hs w) v := by
    rw [run_bind, returned]
    rfl
  show Agree (.ok (preview edited) u)
    ((writeAll edited >>= fun r => pure (written edited r.1 r.2)) u)
  rw [persisted]
  exact .returned same.symm rfl

theorem deleteDocument_agrees {query : Value}
    (shown : ∀ o u, deleteDocument query false s = .ok o u →
      ∀ doc ∈ o.documents, (Fields.getD doc s.store.idField).hasPlain = true) :
    Agree (deleteDocument query false s) (deleteDocument query true s) := by
  refine Agree.bind fun handles t looked => ?_
  obtain ⟨selects, rfl⟩ := look_ok.1 looked
  cases handles with
  | nil => exact Agree.refl _
  | cons h rest =>
    have shows := deleted_shown selects shown
    obtain ⟨r, u, tried⟩ := attempt_returns (Store.delete h : Access Collection Unit) s
    simp only [run_bind, Access.look, tried]
    cases r with
    | ok done => exact .returned rfl rfl
    | error fault =>
      simp only [run_bind, shows, Access.lift]
      exact .returned rfl rfl

/-- New documents get their identifiers before the two runs part. -/
theorem create_agrees (settings : Settings) (documents : Value)
    (same : settings.idField = s.store.idField) :
    Agree (create settings documents false s) (create settings documents true s) := by
  by_cases nothing : documents.listed.isEmpty = true
  · simp only [create, nothing, if_true]
    exact Agree.refl _
  · simp only [create, nothing]
    refine Agree.bind fun payload t identified => ?_
    have keeps : Keeps id (identifyAll settings.idField documents.listed : Access Collection _) :=
      Keeps.identifyAll _ _
    have kept : t.store = s.store := keeps.ok identified
    have named : ∀ doc ∈ payload, Named t.store.idField doc := by
      intro doc hdoc
      rw [kept, ← same]
      exact identifyAll_named identified doc hdoc
    simp only [run_bind, Access.look, Access.attempt, if_true]
    cases created : (Store.create (.array (payload.map .object)) : Access Collection _) t with
    | ok handles u => exact .returned (Collection.create_named named created).symm rfl
    | error fault u => exact .returned rfl rfl

/-- **A preview shows what a persisted call returns**: from the same session, with and without the
    wish to persist, both runs stop with the same fault, or both return the same documents and the
    same touched fields, as long as the identifiers of what the call would write can be shown. -/
theorem preview_agrees (settings : Settings) (call : Call) (s : Session Collection)
    (same : settings.idField = s.store.idField) (shown : call.Shown settings s) :
    Agree (call.run settings false s) (call.run settings true s) := by
  rw [Call.run_eq, Call.run_eq]
  refine Agree.bind fun action t lifted => ?_
  obtain ⟨accepted, rfl⟩ := lift_ok.1 lifted
  cases action with
  | edit query many task => exact run_agrees (shown.action accepted fun _ h => nomatch h)
  | remove query => exact deleteDocument_agrees (shown.action accepted fun _ h => nomatch h)
  | create documents => exact create_agrees settings documents same

/-- Two documents are selected, and the store refuses to save the second one. -/
theorem preview_agrees_refused_save :
    let docs : Collection :=
      { name := "forms"
        docs := [(some "d1", [("_id", .text "d1")]), (some "d2", [("_id", .text "d2")])]
        rejects := fun h => h.id.plain == "d2" }
    let s : Session Collection := ⟨docs, { origin := 0, last := 0, pace := 1 }⟩
    let call : Call := .setStatus (.object []) (.text "state") (.int 3)
    Settings.idField {} = docs.idField ∧ call.Shown {} s ∧
      Agree (call.run {} false s) (call.run {} true s) := by
  intro docs s call
  have shown : call.Shown {} s := Call.shown_of_preview (by decide +kernel)
  exact ⟨rfl, shown, preview_agrees {} call s rfl shown⟩

/-- An identifier gets a part that is too long to be shown. The preview returns; the persisted call
    would have to show the identifier, and stops. -/
theorem preview_astray :
    let c : Collection :=
      { name := "forms", docs := [(some "\x7b'k': 1\x7d", [("_id", .object [("k", .int 1)])])] }
    let s : Session Collection := ⟨c, { origin := 0, last := 0, pace := 1 }⟩
    let call : Call := .execute (.object [])
      (.object [("_id.k", .object [("$set", .int Text.Digit.beyond)])]) false
    Settings.idField {} = c.idField ∧ ¬ Agree (call.run {} false s) (call.run {} true s) := by
  intro c s call
  refine ⟨rfl, fun agree => ?_⟩
  have stops : stopsWith (fun _ => true) (call.run {} true s) = true := by decide +kernel
  obtain ⟨o, t, returns⟩ : ∃ o t, call.run {} false s = .ok o t := ⟨_, _, rfl⟩
  obtain ⟨fault, u, stopped, -⟩ := exists_of_stopsWith stops
  rw [returns, stopped] at agree
  cases agree

end Gateway

end DocRepair

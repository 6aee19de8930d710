import DocRepair.Proofs.Register
/-!
# `DocRepair.Proofs.Verdicts` — what becomes of the documents that a call writes

The saves of a call go one after the other, against a store that the earlier ones have changed, and
any of them may be refused. So each edited document gets a verdict. One that was saved stands with
its new contents under its new key; one that was not stands as before; and no save touches another
document. All this holds if each save looks for its document where that was lent from, as it does
unless the identifier is missing or is a container.

## Contents

* `Verdict` / `Judged` — what became of each edited document;
* `Gateway.Stored` / `Gateway.write_stored` — a write that goes through;
* `Gateway.write_judged` / `Gateway.Settled` — any write;
* `Gateway.writeAll_judged` — the writes of a call, one after the other;
* `Gateway.Addressed` / `Gateway.addressed_of_scalars` — a save looks for its document where it is;
* `Gateway.run_ok` / `Gateway.run_persist_ok` — a call that returns comes to its writes.
-/

namespace DocRepair

open Access

/-! ## Verdicts -/

/-- What became of an edited document: its edit touched nothing, or it was saved, or its save was
    refused. -/
inductive Verdict
  | untouched
  | saved
  | refused (cause : Fault)

/-- An edited document and what became of it. -/
structure Judged where
  edited : Gateway.Edited
  verdict : Verdict

namespace Judged

/-- A document with touched fields is saved or refused, and no other is. To be told of, it has an
    identifier that can be shown. -/
structure Fair (j : Judged) : Prop where
  untouched : j.verdict = .untouched ↔ j.edited.dirty.isEmpty = true
  shown : j.verdict ≠ .untouched → j.edited.handle.id.hasPlain = true

/-- The entry of a saved document. -/
def saved? (j : Judged) : Option String :=
  match j.verdict with
  | .saved => some j.edited.handle.id.plain
  | _ => none

/-- The failure of a refused one. -/
def failure? (store : String) (j : Judged) : Option Failure :=
  match j.verdict with
  | .refused cause => some (.notSaved store j.edited.handle.id.plain j.edited.dirty cause)
  | _ => none

/-- The key under which a document stands then. -/
def keyAfter (idField : String) (j : Judged) : Option String :=
  match j.verdict with
  | .saved => j.edited.handle.keyAfter idField j.edited.dirty
  | _ => Identity.key j.edited.handle.addressId

/-- What a document that stood as `doc` holds then. -/
def contentsAfter (idField : String) (j : Judged) (doc : Fields) : Fields :=
  match j.verdict with
  | .saved => j.edited.handle.contentsAfter idField j.edited.dirty doc
  | _ => doc

/-- **A document whose save was not refused** stands under its new key with its new contents, which
    are the old ones if nothing was touched. -/
theorem Fair.of_accepted {j : Judged} {store : String} (fair : j.Fair)
    (accepted : j.failure? store = none) (idField : String) :
    j.keyAfter idField = j.edited.handle.keyAfter idField j.edited.dirty ∧
      j.contentsAfter idField = j.edited.handle.contentsAfter idField j.edited.dirty := by
  obtain ⟨e, verdict⟩ := j
  cases verdict with
  | saved => exact ⟨rfl, rfl⟩
  | refused cause => cases accepted
  | untouched =>
    have clean : e.dirty.isEmpty = true := fair.untouched.1 rfl
    have nothing : e.dirty.fields = [] := List.isEmpty_iff.1 clean
    have stays : e.handle.refiled idField e.dirty = false := by
      unfold Handle.refiled DirtySet.contains
      rw [nothing]
      rfl
    refine ⟨?_, funext fun doc => ?_⟩
    · show Identity.key e.handle.addressId = e.handle.keyAfter idField e.dirty
      unfold Handle.keyAfter
      rw [stays]
      rfl
    · show doc = e.handle.contentsAfter idField e.dirty doc
      unfold Handle.contentsAfter
      rw [stays, nothing]
      rfl

end Judged

namespace Collection

variable {h : Handle} {fields : DirtySet} {s t : Session Collection} {final : Fields}

/-- A save does not give a collection another name or identifier field. -/
theorem store_named (run : store h fields s = .ok final t) :
    t.store.name = s.store.name ∧ t.store.idField = s.store.idField := by
  cases found : lookup s.store.docs (Identity.key h.addressId) with
  | none =>
    rw [store_missing (store_shown run) found] at run
    obtain ⟨u, _, _, _, rfl⟩ := file_ok.1 run
    exact ⟨rfl, rfl⟩
  | some stored =>
    obtain ⟨after, key, doc, filing, _, rfl⟩ := store_overwrites found run
    split at filing
    · obtain ⟨_, _, _, _, _, rfl, _⟩ := refile_ok found filing
      exact ⟨rfl, rfl⟩
    · cases filing
      exact ⟨rfl, rfl⟩

end Collection

namespace Gateway

open Collection

variable {e : Edited} {edited : List Edited} {s t : Session Collection} {idField : String}
  {before after : List (Option String × Fields)} {doc : Fields}

/-! ## One write -/

/-- What the write of a document does with the documents of a collection: this one is left with its
    new contents under its new key, which was not in use; under all other keys everything stays. -/
structure Stored (idField : String) (before after : List (Option String × Fields)) (doc : Fields)
    (e : Edited) : Prop where
  final : lookup after (e.handle.keyAfter idField e.dirty) =
    some (e.handle.contentsAfter idField e.dirty doc)
  unused : e.handle.refiled idField e.dirty = true →
    lookup before (Identity.key e.handle.id) = none
  others : ∀ key other, key ≠ Identity.key e.handle.addressId →
    lookup before key = some other → lookup after key = some other

theorem write_stored {h : Handle}
    (found : lookup s.store.docs (Identity.key e.handle.addressId) = some doc)
    (run : write e s = .ok (h, none) t) :
    t.store.idField = s.store.idField ∧
      Stored s.store.idField s.store.docs t.store.docs doc e := by
  rcases write_cases e s with ⟨_, _, _, _, failing, _⟩ | ⟨stored, u, storing, done⟩ | ⟨_, stops, _⟩
  · rw [failing] at run
    cases run
  · rw [done] at run
    cases run
    have attempt := store_found (s := { s with store := s.store.attempted }) found storing
    obtain ⟨rfl, sameField, final, unused, others⟩ := attempt
    exact ⟨sameField, final, unused, others⟩
  · rw [stops] at run
    cases run

/-- The write of a document: it is refused and nothing is changed, or it is stored. -/
theorem write_judged {h : Handle} {failure : Option Failure} (run : write e s = .ok (h, failure) t) :
    h.id = e.handle.id ∧ t.store.name = s.store.name ∧ t.store.idField = s.store.idField ∧
      ((∃ cause, failure = some (.notSaved s.store.name e.handle.id.plain e.dirty cause) ∧
          e.handle.id.hasPlain = true ∧ t.store.docs = s.store.docs) ∨
        failure = none) := by
  rcases write_cases e s with
    ⟨marked, fault, u, refused, failing, shown⟩ | ⟨stored, u, storing, done⟩ | ⟨_, stops, _⟩
  · rw [failing] at run
    cases run
    rw [(save_error refused).2]
    exact ⟨rfl, rfl, rfl, .inl ⟨_, rfl, shown, rfl⟩⟩
  · rw [done] at run
    cases run
    obtain ⟨name, idField⟩ := store_named storing
    exact ⟨rfl, name, idField, .inr rfl⟩
  · rw [stops] at run
    cases run

/-- What the write of a judged document does with the documents of a collection: this one stands as
    it should, under a key that is its own or was not in use; under all other keys all stays. -/
structure Settled (idField : String) (before after : List (Option String × Fields)) (doc : Fields)
    (j : Judged) : Prop where
  final : lookup after (j.keyAfter idField) = some (j.contentsAfter idField doc)
  unused : j.keyAfter idField ≠ Identity.key j.edited.handle.addressId →
    lookup before (j.keyAfter idField) = none
  others : ∀ key other, key ≠ Identity.key j.edited.handle.addressId →
    lookup before key = some other → lookup after key = some other

theorem Settled.of_same {verdict : Verdict} (same : after = before) (unsaved : verdict ≠ .saved)
    (found : lookup before (Identity.key e.handle.addressId) = some doc) :
    Settled idField before after doc ⟨e, verdict⟩ := by
  subst same
  cases verdict with
  | saved => exact absurd rfl unsaved
  | untouched => exact ⟨found, fun moved => absurd rfl moved, fun _ _ _ held => held⟩
  | refused cause => exact ⟨found, fun moved => absurd rfl moved, fun _ _ _ held => held⟩

theorem Settled.of_stored (stored : Stored idField before after doc e) :
    Settled idField before after doc ⟨e, .saved⟩ := by
  refine ⟨stored.final, fun moved => ?_, stored.others⟩
  have moved : e.handle.keyAfter idField e.dirty ≠ Identity.key e.handle.addressId := moved
  show lookup before (e.handle.keyAfter idField e.dirty) = none
  unfold Handle.keyAfter at moved ⊢
  by_cases refiled : e.handle.refiled idField e.dirty = true
  · rw [if_pos refiled]
    exact stored.unused refiled
  · rw [if_neg refiled] at moved
    exact absurd rfl moved

/-! ## The writes of a call -/

/-- The first of several writes, and the others. -/
theorem writeAll_first {rest : List Edited} {handles : List Handle} {w : Writes}
    (run : writeAll (e :: rest) s = .ok (handles, w) t) :
    ∃ j u hs v, j.edited = e ∧ j.Fair ∧ u.store.name = s.store.name ∧
      u.store.idField = s.store.idField ∧ writeAll rest u = .ok (hs, v) t ∧
      w.saved = j.saved?.toList ++ v.saved ∧
      w.failures = (j.failure? s.store.name).toList ++ v.failures ∧
      ∀ doc, lookup s.store.docs (Identity.key e.handle.addressId) = some doc →
        Settled s.store.idField s.store.docs u.store.docs doc j := by
  unfold writeAll at run
  by_cases clean : e.dirty.isEmpty = true
  · rw [if_pos clean] at run
    obtain ⟨⟨hs, v⟩, u, more, run⟩ := run_bind_ok.1 run
    obtain ⟨heq, rfl⟩ := run_pure_ok.1 run
    cases heq
    refine ⟨⟨e, .untouched⟩, s, hs, w, rfl, ?_, rfl, rfl, more, rfl, rfl, fun doc found => ?_⟩
    · exact ⟨⟨fun _ => clean, fun _ => rfl⟩, fun told => absurd rfl told⟩
    · exact .of_same rfl (by simp) found
  · rw [if_neg clean] at run
    obtain ⟨⟨h, failure⟩, u, first, run⟩ := run_bind_ok.1 run
    obtain ⟨sameId, name, field, outcome⟩ := write_judged first
    rcases outcome with ⟨cause, rfl, shown, unchanged⟩ | rfl
    · obtain ⟨⟨hs, v⟩, u', more, run⟩ := run_bind_ok.1 run
      obtain ⟨heq, rfl⟩ := run_pure_ok.1 run
      cases heq
      refine ⟨⟨e, .refused cause⟩, u, hs, v, rfl, ?_, name, field, more, rfl, rfl,
        fun doc found => ?_⟩
      · exact ⟨⟨fun h => Verdict.noConfusion h, fun h => absurd h clean⟩, fun _ => shown⟩
      · exact .of_same unchanged (by simp) found
    · obtain ⟨id, u', noted, run⟩ := run_bind_ok.1 run
      obtain ⟨text, rfl⟩ := lift_ok.1 noted
      obtain ⟨shown, rfl⟩ := Value.plainText_ok.1 text
      obtain ⟨⟨hs, v⟩, u', more, run⟩ := run_bind_ok.1 run
      obtain ⟨heq, rfl⟩ := run_pure_ok.1 run
      cases heq
      refine ⟨⟨e, .saved⟩, u, hs, v, rfl, ?_, name, field, more, ?_, rfl, fun doc found => ?_⟩
      · exact ⟨⟨fun h => Verdict.noConfusion h, fun h => absurd h clean⟩, fun _ => sameId ▸ shown⟩
      · show h.id.plain :: v.saved = e.handle.id.plain :: v.saved
        rw [sameId]
      · exact .of_stored (write_stored found first).2

/-- **Writes that a call makes.** Every document with touched fields is told of once, as saved or as
    a failure. If the documents are found where they are known, each under a key of its own, then a
    refused one stands as before, a saved one holds what was written, and all others stay. -/
theorem writeAll_judged {handles : List Handle} {w : Writes}
    (run : writeAll edited s = .ok (handles, w) t) :
    ∃ judged : List Judged, judged.map Judged.edited = edited ∧ (∀ j ∈ judged, j.Fair) ∧
      w.saved = judged.filterMap Judged.saved? ∧
      w.failures = judged.filterMap (Judged.failure? s.store.name) ∧
      ∀ docs : List Fields,
        List.Forall₂ (fun doc (e : Edited) =>
          lookup s.store.docs (Identity.key e.handle.addressId) = some doc) docs edited →
        (edited.map fun e => Identity.key e.handle.addressId).Nodup →
        List.Forall₂ (fun doc (j : Judged) =>
            lookup t.store.docs (j.keyAfter s.store.idField) =
              some (j.contentsAfter s.store.idField doc)) docs judged ∧
          ∀ key doc, (∀ e ∈ edited, key ≠ Identity.key e.handle.addressId) →
            lookup s.store.docs key = some doc → lookup t.store.docs key = some doc := by
  -- By induction on the documents, over any store: each write meets what the earlier ones left.
  induction edited generalizing s handles w with
  | nil =>
    obtain ⟨heq, rfl⟩ := run_pure_ok.1 run
    cases heq
    refine ⟨[], rfl, by simp, rfl, rfl, fun docs found _ => ?_⟩
    cases found
    exact ⟨.nil, fun _ _ _ held => held⟩
  | cons e rest ih =>
    obtain ⟨j, u, hs, v, rfl, fair, name, field, more, saved, failures, settles⟩ :=
      writeAll_first run
    obtain ⟨judged, rfl, fairs, savedRest, failuresRest, settle⟩ := ih more
    refine ⟨j :: judged, rfl, ?_, ?_, ?_, fun docs found apart => ?_⟩
    · intro k hk
      rcases List.mem_cons.1 hk with rfl | hk
      · exact fair
      · exact fairs k hk
    · rw [saved, savedRest, List.filterMap_cons]
      cases j.saved? <;> rfl
    · rw [failures, failuresRest, List.filterMap_cons, name]
      cases j.failure? s.store.name <;> rfl
    · cases found with
      | @cons doc _ docs _ first others =>
        have step := settles doc first
        obtain ⟨fresh, distinct⟩ := List.nodup_cons.1 apart
        -- The other documents are known under other keys, so the first write leaves them there.
        have other (k : Edited) (hk : k ∈ judged.map Judged.edited) :
            Identity.key k.handle.addressId ≠ Identity.key j.edited.handle.addressId := by
          intro same
          exact fresh (List.mem_map.2 ⟨k, hk, same⟩)
        have still : List.Forall₂ (fun doc (e : Edited) =>
            lookup u.store.docs (Identity.key e.handle.addressId) = some doc) docs
            (judged.map Judged.edited) := by
          refine List.forall₂_iff_zip.2 ⟨others.length_eq, fun pair => ?_⟩
          exact step.others _ _ (other _ (List.of_mem_zip pair).2) (List.forall₂_zip others pair)
        obtain ⟨final, kept⟩ := settle docs still distinct
        rw [field] at final
        refine ⟨.cons ?_ final, fun key held hkey here => ?_⟩
        · -- The key under which the first one stands is not one where another is known.
          refine kept _ _ (fun k hk => ?_) step.final
          intro same
          by_cases moved : j.keyAfter s.store.idField = Identity.key j.edited.handle.addressId
          · exact other k hk (same.symm.trans moved)
          · obtain ⟨d, _, hd⟩ := exists_of_forall₂ others hk
            have unused := step.unused moved
            rw [same, hd] at unused
            cases unused
        · refine kept key held (fun k hk => hkey k (List.mem_cons_of_mem _ hk)) ?_
          exact step.others key held (hkey j.edited List.mem_cons_self) here

/-! ## Where saves look -/

/-- A save looks for an edited document where the document was lent from. -/
def Addressed (h : Handle) (e : Edited) : Prop :=
  Identity.key e.handle.addressId = Identity.key h.id

variable {settings : Settings} {call : Call} {query : Value} {many : Bool} {task : Task}
  {handles : List Handle} {u : Session Collection} {o : Outcome}

/-- **A scalar identifier leads a save to the document**, whatever the edit did, and whichever field
    the call takes for the identifier. -/
theorem Worked.addressed (worked : Worked task (loan idField doc) e)
    (accepted : call.action settings = .ok (.edit query many task))
    (scalar : (Fields.getD doc idField).isContainer = false)
    (named : (Fields.getD doc idField).isNull = false) : Addressed (loan idField doc) e := by
  obtain ⟨supply, d, renames, names, steps, after, _⟩ := worked.steps accepted
  have start : ((loan idField doc).draft supply).knownValue = Fields.getD doc idField :=
    Draft.knownValue_within rfl rfl
  rw [← start] at scalar named
  -- What a document is known by may move about, or be kept apart, but it is still the old identifier.
  have kept := Draft.Steps.knownValue steps scalar named
  have obj : d.doc.isObject = true := Draft.Steps.isObject steps rfl
  have known : e.handle.knownId = Fields.getD doc idField := by
    rw [after, ← start, ← kept]
    show d.known.value (.object d.doc.fields) = d.known.value d.doc
    rw [← Draft.doc_eq_object obj]
  unfold Addressed Handle.addressId
  rw [start] at named
  rw [known, named]
  rfl

theorem addressed_of_scalars (accepted : call.action settings = .ok (.edit query many task))
    (selected : targets many query s.store = .ok handles)
    (worked : List.Forall₂ (Worked task) handles edited)
    (scalars : ∀ h ∈ handles, h.id.isContainer = false ∧ h.id.isNull = false) :
    List.Forall₂ Addressed handles edited := by
  obtain ⟨docs, rfl, _⟩ := targets_loans selected
  refine List.forall₂_iff_zip.2 ⟨worked.length_eq, fun {h e} pair => ?_⟩
  obtain ⟨doc, _, rfl⟩ := List.mem_map.1 (List.of_mem_zip pair).1
  obtain ⟨scalar, named⟩ := scalars _ (List.of_mem_zip pair).1
  exact (List.forall₂_zip worked pair).addressed accepted scalar named

/-- Documents that are lent have keys of their own. -/
theorem addresses_nodup {c : Collection} {docs : List Fields} (filed : c.Filed)
    (sub : docs.Sublist c.all)
    (addressed : List.Forall₂ (fun doc e => Addressed (loan c.idField doc) e) docs edited) :
    (edited.map fun e => Identity.key e.handle.addressId).Nodup := by
  have same : (edited.map fun e => Identity.key e.handle.addressId) =
      docs.map fun doc => Identity.key (Fields.getD doc c.idField) := by
    induction addressed with
    | nil => rfl
    | cons first _ ih =>
      have rest := ih ((List.sublist_cons_self _ _).trans sub)
      rw [List.map_cons, List.map_cons, rest]
      exact congrArg (· :: _) first
  rw [same]
  have all := filed.keys
  rw [filed.keys_eq] at all
  exact all.sublist (sub.map _)

/-- Documents that are lent are found where the saves look for them. -/
theorem addresses_found {c : Collection} {docs : List Fields} (filed : c.Filed)
    (sub : docs.Sublist c.all)
    (addressed : List.Forall₂ (fun doc e => Addressed (loan c.idField doc) e) docs edited) :
    List.Forall₂ (fun doc (e : Edited) =>
      lookup c.docs (Identity.key e.handle.addressId) = some doc) docs edited := by
  refine List.forall₂_iff_zip.2 ⟨addressed.length_eq, fun {doc e} pair => ?_⟩
  rw [List.forall₂_zip addressed pair]
  exact filed.lookup_own (sub.subset (List.of_mem_zip pair).1)

/-! ## Calls that return -/

/-- A call that returns has selected its targets and edited each of them. -/
theorem run_ok {persist : Bool} (accepted : call.action settings = .ok (.edit query many task))
    (run : call.run settings persist s = .ok o t) :
    ∃ handles edited u, targets many query s.store = .ok handles ∧
      editAll task handles s = .ok edited u := by
  rw [Call.run_eq, accepted] at run
  obtain ⟨action, v, lifted, run⟩ := run_bind_ok.1 run
  obtain ⟨heq, rfl⟩ := Access.lift_ok.1 lifted
  cases heq
  obtain ⟨handles, v, looked, run⟩ := run_bind_ok.1 run
  obtain ⟨selected, rfl⟩ := Access.look_ok.1 looked
  obtain ⟨edited, u, worked, _⟩ := run_bind_ok.1 run
  exact ⟨handles, edited, u, selected, worked⟩

/-- A call that persists comes to the writes of its edits. -/
theorem run_persist_ok (accepted : call.action settings = .ok (.edit query many task))
    (selected : targets many query s.store = .ok handles)
    (worked : editAll task handles s = .ok edited u)
    (run : call.run settings true s = .ok o t) :
    ∃ hs w, writeAll edited u = .ok (hs, w) t ∧ o = written edited hs w := by
  rw [Call.run_eq, accepted] at run
  obtain ⟨action, v, lifted, run⟩ := run_bind_ok.1 run
  obtain ⟨heq, rfl⟩ := Access.lift_ok.1 lifted
  cases heq
  obtain ⟨chosen, v, looked, run⟩ := run_bind_ok.1 run
  obtain ⟨heq, rfl⟩ := Access.look_ok.1 looked
  rw [selected] at heq
  cases heq
  obtain ⟨copies, v, ran, run⟩ := run_bind_ok.1 run
  rw [worked] at ran
  cases ran
  obtain ⟨⟨hs, w⟩, v, wrote, run⟩ := run_bind_ok.1 run
  obtain ⟨rfl, rfl⟩ := run_pure_ok.1 run
  exact ⟨hs, w, wrote, rfl⟩

end Gateway

end DocRepair

import DocRepair.Proofs.Overwritten
/-!
# `DocRepair.Proofs.Undivided` — a save is all or nothing

A save can be refused in three ways: by the rule of the collection, because the document that it
would file as a new one has an identifier in use, or because it would file a document anew under an
identifier in use. It can also falter, at an identifier that cannot be shown. Each of them comes
before anything is written, so a save that does not go through leaves the documents and the handle as
they were. A save that goes through counts as one write, and the handle is known from then on by the
identifier that is stored.

## Contents

* `Collection.newcomer` / `Collection.needed` — a copy as a new document, and the key that a save
  needs to be free;
* `Collection.Refuses` / `Collection.Falters` — the saves that are refused, and those that falter;
* `Collection.identify_newcomer` / `Collection.store_stops` — when the storing of a copy stops;
* `Collection.store_ends` — what it leaves if it does not;
* `Collection.Completes` / `Collection.save_completes` — what a save comes to that goes through;
* `Collection.save_refused` / `save_falters` / `save_accepted` / `save_goes_iff` — when it does;
* `Collection.save_all_or_nothing` — the ways in which a save ends.
-/

namespace DocRepair.Collection

/-! ## Saves that do not go through -/

/-- A copy as it is filed as a new document: with the next identifier if it has none. -/
def newcomer (idField : String) (doc : Fields) (supply : Supply) : Fields :=
  if (Fields.getD doc idField).isNull then Fields.set doc idField (.ident supply.mint.1) else doc

/-- The key that a save needs to be free: that of the new document if none is found where the handle
    is known, and that of the new identifier of a document that is to be filed anew. -/
def needed (c : Collection) (supply : Supply) (h : Handle) (fields : DirtySet) :
    Except Fault (Option (Option String)) := do
  let known ← Identity.filing h.addressId
  if (lookup c.docs known).isNone then
    .ok (some (← Identity.filing (Fields.getD (newcomer c.idField h.data supply) c.idField)))
  else if ← h.renamedBy c.idField fields then .ok (some (← Identity.filing h.id))
  else .ok none

/-- A save is refused: by the rule of the collection, or because the key that it needs is in use. The
    refusal shows the identifier of the copy. -/
def Refuses (c : Collection) (supply : Supply) (h : Handle) (fields : DirtySet) : Prop :=
  if c.rejects h then h.id.hasPlain = true
  else ∃ key, c.needed supply h fields = .ok (some key) ∧ (lookup c.docs key).isSome = true

/-- A save falters: an identifier cannot be shown that is needed for the refusal, or for a key. -/
def Falters (c : Collection) (supply : Supply) (h : Handle) (fields : DirtySet) : Prop :=
  if c.rejects h then h.id.hasPlain = false
  else c.needed supply h fields = .error .endlessInteger

variable {h : Handle} {fields : DirtySet} {s t : Session Collection} {final stored : Fields}

theorem identify_newcomer (idField : String) (doc : Fields) (s : Session Collection) :
    ∃ supply, Access.identify idField doc s =
      .ok (newcomer idField doc s.supply) { s with supply := supply } := by
  unfold Access.identify newcomer
  by_cases missing : (Fields.getD doc idField).isNull = true
  · rw [if_pos missing, if_pos missing]
    exact ⟨_, rfl⟩
  · rw [if_neg missing, if_neg missing]
    exact ⟨_, rfl⟩

/-- **The storing of a copy stops** exactly if the key that it needs cannot be made, or is in use. -/
theorem store_stops {fault : Fault} :
    (∃ t, store h fields s = .error fault t) ↔
      s.store.needed s.supply h fields = .error fault ∨
        ∃ key, s.store.needed s.supply h fields = .ok (some key) ∧
          (lookup s.store.docs key).isSome = true ∧ s.store.clash key = fault := by
  unfold needed
  rw [store_eq]
  cases Identity.filing h.addressId with
  | error stop => simp [Bind.bind, Except.bind]
  | ok known =>
    simp only [Bind.bind, Except.bind]
    -- A document that is not found is filed, under a fresh identifier if it has none.
    cases lookup s.store.docs known with
    | none =>
      obtain ⟨supply, named⟩ := identify_newcomer s.store.idField h.data s
      simp only [Option.isNone_none, if_true, file_eq, named]
      cases Identity.filing (Fields.getD (newcomer s.store.idField h.data s.supply)
          s.store.idField) with
      | error stop => simp
      | ok key => cases used : (lookup s.store.docs key).isSome <;> simp [used]
    | some stored =>
      simp only [Option.isNone_some, Bool.false_eq_true, if_false, overwrite_eq]
      cases h.renamedBy s.store.idField fields with
      | error stop => simp
      | ok renamed =>
        cases renamed with
        | false => simp
        | true =>
          simp only [if_true, refile, Bind.bind, Except.bind]
          cases Identity.filing h.id with
          | error stop => simp
          | ok key => cases used : (lookup s.store.docs key).isSome <;> simp [used]

/-- What stops the making of a key is an identifier that cannot be shown. -/
theorem needed_error {c : Collection} {supply : Supply} {fault : Fault}
    (stop : c.needed supply h fields = .error fault) : fault = .endlessInteger := by
  unfold needed at stop
  cases known : Identity.filing h.addressId with
  | error other =>
    rw [known] at stop
    cases stop
    exact (Identity.filing_error.1 known).2
  | ok key =>
    rw [known] at stop
    simp only [Bind.bind, Except.bind] at stop
    split at stop
    · split at stop
      · rename_i hidden
        cases stop
        exact (Identity.filing_error.1 hidden).2
      · cases stop
    · split at stop
      · rename_i incomparable
        cases stop
        exact Handle.renamedBy_error incomparable
      · split at stop
        · split at stop
          · rename_i hidden
            cases stop
            exact (Identity.filing_error.1 hidden).2
          · cases stop
        · cases stop

/-! ## Saves that go through -/

/-- **The storing of a copy that does not stop** leaves the document under the key of its identifier.
    It does not count as a write itself. -/
theorem store_ends (keyed : s.store.Keyed) (run : store h fields s = .ok final t) :
    t.store.idField = s.store.idField ∧ t.store.changes = s.store.changes ∧
      lookup t.store.docs (Identity.key (Fields.getD final s.store.idField)) = some final := by
  have after := store_keyed keyed run
  cases found : lookup s.store.docs (Identity.key h.addressId) with
  | none =>
    rw [store_missing (store_shown run) found] at run
    obtain ⟨_, unused, left⟩ := file_adds run
    rw [left, lookup_append, unused]
    exact ⟨rfl, rfl, if_pos rfl⟩
  | some stored =>
    obtain ⟨_, field, leads, _⟩ := store_found found run
    have under := after.under _ (lookup_mem leads)
    rw [field] at under
    dsimp only at under
    rw [← under]
    refine ⟨field, ?_, leads⟩
    obtain ⟨c, key, doc, filing, _, rfl⟩ := store_overwrites found run
    show c.changes = s.store.changes
    split at filing
    · obtain ⟨_, _, _, _, _, rfl, _⟩ := refile_ok found filing
      rfl
    · cases filing
      rfl

/-- What a save comes to that goes through: the copy is as it was, nothing is noted as modified, one
    write is counted, and the handle is known by the identifier of the document as it is stored. -/
structure Completes (before after : Collection) (h settled now : Handle) : Prop where
  data : settled.data = h.data
  modified : settled.modified = ∅
  counted : after.changes = before.changes + 1
  known : settled.knownId = Fields.getD now.data after.idField
  stored : lookup after.docs (Identity.key settled.knownId) = some now.data

theorem save_completes {settled now : Handle} (keyed : s.store.Keyed)
    (run : save h fields s = .ok (settled, .ok now) t) :
    Completes s.store t.store h settled now := by
  obtain ⟨final, u, storing, rfl, rfl, rfl⟩ := save_ok run
  -- The attempt is counted before anything is stored.
  have counts : s.store.attempted.Keyed := ⟨keyed.keys, keyed.under⟩
  obtain ⟨field, counted, leads⟩ :=
    store_ends (s := { s with store := s.store.attempted }) counts storing
  have known : (h.settle (.apart (Fields.getD final s.store.idField))).knownId =
      Fields.getD final s.store.idField := Handle.knownId_apart rfl
  refine ⟨rfl, rfl, congrArg (· + 1) counted, ?_, ?_⟩
  · exact known.trans (congrArg (Fields.getD final) field.symm)
  · rw [known]
    exact leads

/-- **A save that is refused** leaves the handle and the collection as they were, but for the attempt,
    which counts. -/
theorem save_refused (refuses : s.store.Refuses s.supply h fields) :
    ∃ text t, save h fields s = .ok (h, .error (.rejected text)) t ∧ t.store = s.store.attempted := by
  unfold Refuses at refuses
  by_cases rejected : s.store.rejects h = true
  · rw [if_pos rejected] at refuses
    obtain ⟨text, refusal⟩ := s.store.attempted.refusal_shown refuses
    have run := (save_eq h fields s).trans (if_pos rejected)
    rw [refusal] at run
    exact ⟨text, _, run, rfl⟩
  · rw [if_neg rejected] at refuses
    obtain ⟨key, needs, used⟩ := refuses
    obtain ⟨t, stop⟩ := (store_stops (s := { s with store := s.store.attempted })).2
      (.inr ⟨key, needs, used, rfl⟩)
    have run := (save_eq h fields s).trans (if_neg rejected)
    rw [stop] at run
    exact ⟨_, t, run, store_cleanStop _ _ _ stop⟩

/-- **A save that falters** leaves them so as well, but is no rejection. -/
theorem save_falters (falters : s.store.Falters s.supply h fields) :
    ∃ t, save h fields s = .ok (h, .error .endlessInteger) t ∧ t.store = s.store.attempted := by
  unfold Falters at falters
  by_cases rejected : s.store.rejects h = true
  · rw [if_pos rejected] at falters
    have run := (save_eq h fields s).trans (if_pos rejected)
    rw [s.store.attempted.refusal_hidden falters] at run
    exact ⟨_, run, rfl⟩
  · rw [if_neg rejected] at falters
    obtain ⟨t, stop⟩ := (store_stops (s := { s with store := s.store.attempted })).2 (.inl falters)
    have run := (save_eq h fields s).trans (if_neg rejected)
    rw [stop] at run
    exact ⟨t, run, store_cleanStop _ _ _ stop⟩

/-- **A save that neither is refused nor falters** goes through. -/
theorem save_accepted (accepts : ¬ s.store.Refuses s.supply h fields)
    (shown : ¬ s.store.Falters s.supply h fields) :
    ∃ settled now t, save h fields s = .ok (settled, .ok now) t := by
  unfold Refuses at accepts
  unfold Falters at shown
  by_cases rejected : s.store.rejects h = true
  · rw [if_pos rejected] at accepts shown
    exact absurd (Bool.eq_false_iff.2 accepts) shown
  · rw [if_neg rejected] at accepts shown
    have run := (save_eq h fields s).trans (if_neg rejected)
    cases done : store h fields { s with store := s.store.attempted } with
    | error fault t =>
      rcases (store_stops (s := { s with store := s.store.attempted })).1 ⟨_, done⟩ with
        stop | ⟨key, needs, used, _⟩
      · cases needed_error stop
        exact absurd stop shown
      · exact absurd ⟨key, needs, used⟩ accepts
    | ok final u =>
      rw [done] at run
      exact ⟨_, _, _, run⟩

theorem save_goes_iff :
    (∃ settled now t, save h fields s = .ok (settled, .ok now) t) ↔
      ¬ s.store.Refuses s.supply h fields ∧ ¬ s.store.Falters s.supply h fields := by
  refine ⟨?_, fun ⟨accepts, shown⟩ => save_accepted accepts shown⟩
  rintro ⟨settled, now, t, run⟩
  refine ⟨fun refuses => ?_, fun falters => ?_⟩
  · obtain ⟨text, u, refused, _⟩ := save_refused refuses
    rw [refused] at run
    cases run
  · obtain ⟨u, stopped, _⟩ := save_falters falters
    rw [stopped] at run
    cases run

/-- **A save is all or nothing**, through a handle in any condition. If it is refused, the handle and
    the collection are as they were, but for the attempt, which counts; and so they are if it falters
    at an identifier that cannot be shown. If neither, it completes. -/
theorem save_all_or_nothing (keyed : s.store.Keyed) (h : Handle) (fields : DirtySet) :
    (s.store.Refuses s.supply h fields ∧
        ∃ text t, save h fields s = .ok (h, .error (.rejected text)) t ∧
          t.store = s.store.attempted) ∨
      (s.store.Falters s.supply h fields ∧
        ∃ t, save h fields s = .ok (h, .error .endlessInteger) t ∧
          t.store = s.store.attempted) ∨
      (¬ s.store.Refuses s.supply h fields ∧ ¬ s.store.Falters s.supply h fields ∧
        ∃ settled now t, save h fields s = .ok (settled, .ok now) t ∧
          Completes s.store t.store h settled now) := by
  by_cases refuses : s.store.Refuses s.supply h fields
  · exact .inl ⟨refuses, save_refused refuses⟩
  · by_cases falters : s.store.Falters s.supply h fields
    · exact .inr (.inl ⟨falters, save_falters falters⟩)
    · obtain ⟨settled, now, t, run⟩ := save_accepted refuses falters
      exact .inr (.inr ⟨refuses, falters, settled, now, t, run, save_completes keyed run⟩)

/-- The copy of one document is given the identifier of another: its save is refused, and nothing has
    changed. A save of another field goes through. -/
theorem save_all_or_nothing_taken :
    let supply : Supply := { origin := 0, last := 0, pace := 1 }
    let first : Fields := [("_id", .text "d1"), ("n", .int 1)]
    let other : Fields := [("_id", .text "d2")]
    let c : Collection := { name := "forms", docs := [(some "d2", other), (some "d1", first)] }
    let h := ((loan "_id" first).setField "_id" (.text "d2")).mark "_id"
    let g := ((loan "_id" first).setField "n" (.int 2)).mark "n"
    c.Keyed ∧
      (∃ text t, save h (.ofList ["_id"]) ⟨c, supply⟩ = .ok (h, .error (.rejected text)) t ∧
        t.store = c.attempted) ∧
      ∃ settled now t, save g (.ofList ["n"]) ⟨c, supply⟩ = .ok (settled, .ok now) t ∧
        Completes c t.store g settled now := by
  intro supply first other c h g
  have keyed : c.Keyed := by
    refine ⟨by decide, fun entry listed => ?_⟩
    rcases List.mem_cons.1 listed with rfl | listed
    · rfl
    · rw [List.mem_singleton.1 listed]
      rfl
  refine ⟨keyed, ?_, ?_⟩
  · have needs : c.needed supply h (.ofList ["_id"]) = .ok (some (some "d2")) := rfl
    have refuses : c.Refuses supply h (.ofList ["_id"]) := ⟨some "d2", needs, rfl⟩
    rcases save_all_or_nothing (s := ⟨c, supply⟩) keyed h (.ofList ["_id"]) with
      ⟨_, refused⟩ | ⟨falters, _⟩ | ⟨accepted, _⟩
    · exact refused
    · exact absurd (needs.symm.trans falters) (fun same => nomatch same)
    · exact absurd refuses accepted
  · have needs : c.needed supply g (.ofList ["n"]) = .ok none := rfl
    rcases save_all_or_nothing (s := ⟨c, supply⟩) keyed g (.ofList ["n"]) with
      ⟨⟨key, needed, _⟩, _⟩ | ⟨falters, _⟩ | ⟨_, _, completes⟩
    · exact absurd (needs.symm.trans needed) (fun same => nomatch same)
    · exact absurd (needs.symm.trans falters) (fun same => nomatch same)
    · exact completes

end DocRepair.Collection

import DocRepair.Store.Collection
import DocRepair.Gateway
import DocRepair.Proofs.Computations
/-!
# `DocRepair.Proofs.Writing` — writes to documents held in memory

A save never stops with a fault: it returns the document as it is now stored, or what stopped it as
a value, and either way the copy on loan keeps its contents. So once a call has begun to write, it
returns, unless it comes to a copy whose identifier cannot be shown.

## Contents

* `DirtySet.notify_fields` / `DirtySet.notify_handle` — passing names on to a handle;
* `Collection.file_ok` / `refile_eq` / `store_missing` / `store_over` — filing and storing, where
  identifiers can be shown;
* `Collection.store_fault` — what stops a save;
* `Collection.save_cases` / `save_ok` — the two ways in which a save returns;
* `Gateway.Hidden` — a copy that has to be saved although its identifier cannot be shown;
* `Gateway.write_cases` / `writeAll_cases` / `writeAll_returns` — the same for the writes of a call.
-/

namespace DocRepair

/-! ## Names passed on -/

namespace DirtySet

/-- A handle with other names marked as modified. -/
theorem notify_handle (names : List String) (h : Handle) :
    ∃ marked, (notify Handle.mark names h).2 = { h with modified := marked } := by
  unfold notify
  suffices step : ∀ (told : DirtySet) (g : Handle), (∃ m, g = { h with modified := m }) →
      ∃ m, (names.foldl (fun p name =>
        if p.1.contains name then p else (p.1.insert name, Handle.mark p.2 name))
        (told, g)).2 = { h with modified := m } from step _ h ⟨h.modified, rfl⟩
  induction names with
  | nil => exact fun _ _ hg => hg
  | cons name rest ih =>
    rintro told g ⟨m, rfl⟩
    rw [List.foldl_cons]
    by_cases seen : told.contains name = true
    · simp only [seen, if_true]; exact ih _ _ ⟨m, rfl⟩
    · simp only [seen, Bool.false_eq_true, if_false]; exact ih _ _ ⟨_, rfl⟩

theorem mem_notify {σ : Type} {mark : σ → String → σ} {names : List String} {start : σ}
    {x : String} : x ∈ (notify mark names start).1.fields ↔ x ∈ names := by
  unfold notify
  suffices step : ∀ (told : DirtySet) (state : σ),
      x ∈ (names.foldl (fun p name =>
        if p.1.contains name then p else (p.1.insert name, mark p.2 name))
        (told, state)).1.fields ↔ x ∈ told.fields ∨ x ∈ names by
    rw [step]
    simp [DirtySet.empty]
  induction names with
  | nil => simp
  | cons name rest ih =>
    intro told state
    rw [List.foldl_cons]
    by_cases seen : told.contains name = true
    · have held : name ∈ told.fields := by simpa [contains] using seen
      simp only [seen, if_true]
      rw [ih, List.mem_cons]
      constructor
      · exact fun hx => hx.imp_right .inr
      · rintro (hx | rfl | hx)
        · exact .inl hx
        · exact .inl held
        · exact .inr hx
    · simp only [seen, Bool.false_eq_true, if_false]
      rw [ih, mem_insert, List.mem_cons, or_comm (a := x = name), or_assoc]

/-- The names of a set are passed on as they are. -/
theorem notify_fields (d : DirtySet) (h : Handle) : (notify Handle.mark d.fields h).1 = d :=
  ext_mem fun _ => mem_notify

end DirtySet

/-! ## One save -/

theorem Handle.renamedBy_ok {h : Handle} {idField : String} {fields : DirtySet} {renamed : Bool} :
    h.renamedBy idField fields = .ok renamed ↔
      (fields.contains idField = true → Identity.comparable h.knownId h.id = true) ∧
        (fields.contains idField && h.idChanged) = renamed := by
  unfold Handle.renamedBy
  cases fields.contains idField <;> simp [compareId_ok]

theorem Handle.renamedBy_error {h : Handle} {idField : String} {fields : DirtySet} {fault : Fault}
    (stop : h.renamedBy idField fields = .error fault) : fault = .endlessInteger := by
  unfold Handle.renamedBy at stop
  split at stop
  · exact compareId_error stop
  · cases stop

namespace Collection

variable {h : Handle} {fields : DirtySet} {s t : Session Collection} {fault : Fault}
  {doc final stored : Fields}

theorem file_eq (doc : Fields) (s : Session Collection) :
    file doc s =
      match Access.identify s.store.idField doc s with
      | .error fault u => .error fault u
      | .ok doc u =>
        match Identity.filing (Fields.getD doc s.store.idField) with
        | .error fault => .error fault u
        | .ok key =>
          if (lookup u.store.docs key).isSome then .error (u.store.clash key) u
          else .ok doc { u with store := { u.store with docs := u.store.docs ++ [(key, doc)] } } := by
  unfold file
  rw [run_bind]
  show (Access.identify s.store.idField doc >>= _) s = _
  refine run_bind.trans ?_
  cases Access.identify s.store.idField doc s with
  | error fault u => rfl
  | ok doc u =>
    refine run_bind.trans ?_
    unfold Access.lift
    dsimp only
    cases Identity.filing (Fields.getD doc s.store.idField) <;> rfl

/-- Naming a document leaves the collection as it is. -/
theorem identify_store {idField : String} {named : Fields} {u : Session Collection}
    (run : Access.identify idField doc s = .ok named u) : u.store = s.store := by
  have kept : Access.Keeps id (Access.identify idField doc : Access Collection Fields) :=
    Access.Keeps.identify idField doc
  exact kept.ok run

/-- A document is filed if its identifier can be shown and its key is not in use. -/
theorem file_ok :
    file doc s = .ok final t ↔
      ∃ u, Access.identify s.store.idField doc s = .ok final u ∧
        (Fields.getD final s.store.idField).hasPlain = true ∧
        lookup s.store.docs (Identity.key (Fields.getD final s.store.idField)) = none ∧
        { u with store := { s.store with docs := s.store.docs ++
          [(Identity.key (Fields.getD final s.store.idField), final)] } } = t := by
  rw [file_eq]
  obtain ⟨named, u, identified⟩ := Access.identify_returns s.store.idField doc s
  simp only [identified, identify_store identified]
  constructor
  · intro run
    cases shown : Identity.filing (Fields.getD named s.store.idField) with
    | error fault => simp [shown] at run
    | ok key =>
      obtain ⟨shown', rfl⟩ := Identity.filing_ok.1 shown
      simp only [shown] at run
      split at run
      · cases run
      · rename_i unused
        cases run
        exact ⟨u, rfl, shown', by simpa using unused, rfl⟩
  · rintro ⟨v, same, shown, unused, rfl⟩
    cases same
    simp [Identity.filing_ok.2 ⟨shown, rfl⟩, unused]

/-- What stops the filing of a document: its identifier cannot be shown, or its key is in use. -/
theorem file_fault (stop : file doc s = .error fault t) :
    fault = .endlessInteger ∨ ∃ text, fault = .rejected text := by
  rw [file_eq] at stop
  obtain ⟨named, u, identified⟩ := Access.identify_returns s.store.idField doc s
  simp only [identified] at stop
  split at stop
  · rename_i hidden
    cases stop
    exact .inl (Identity.filing_error.1 hidden).2
  · split at stop
    · cases stop
      exact .inr ⟨_, rfl⟩
    · cases stop

theorem refile_eq {c : Collection} {key : Option String} {newId : Value}
    (shown : newId.hasPlain = true) :
    c.refile key doc newId =
      if (lookup c.docs (Identity.key newId)).isSome then .error (c.clash (Identity.key newId))
      else .ok ({ c with docs := discard c.docs key ++
          [(Identity.key newId, Fields.set doc c.idField newId)] },
        Identity.key newId, Fields.set doc c.idField newId) := by
  unfold refile
  rw [Identity.filing_ok.2 ⟨shown, rfl⟩]
  rfl

theorem refile_shown {c : Collection} {key : Option String} {newId : Value}
    {r : Collection × Option String × Fields} (run : c.refile key doc newId = .ok r) :
    newId.hasPlain = true := by
  obtain ⟨_, shown, _⟩ := bind_eq_ok.1 run
  exact (Identity.filing_ok.1 shown).1

theorem refile_fault {c : Collection} {key : Option String} {newId : Value}
    (stop : c.refile key doc newId = .error fault) :
    fault = .endlessInteger ∨ ∃ text, fault = .rejected text := by
  cases shown : newId.hasPlain with
  | false =>
    unfold refile at stop
    rw [Identity.filing_error.2 ⟨shown, rfl⟩] at stop
    cases stop
    exact .inl rfl
  | true =>
    rw [refile_eq shown] at stop
    split at stop
    · cases stop
      exact .inr ⟨_, rfl⟩
    · cases stop

theorem overwrite_eq (c : Collection) (h : Handle) (fields : DirtySet) (key : Option String)
    (stored : Fields) :
    c.overwrite h fields key stored =
      match h.renamedBy c.idField fields with
      | .error fault => .error fault
      | .ok renamed =>
        match (if renamed then c.refile key stored h.id else .ok (c, key, stored)) with
        | .error fault => .error fault
        | .ok (c, key, stored) =>
          let stored := writeFields c.idField h.data stored fields.fields
          .ok ({ c with docs := replace c.docs key stored }, stored) := by
  unfold overwrite
  cases h.renamedBy c.idField fields with
  | error fault => rfl
  | ok renamed =>
    cases renamed with
    | false => rfl
    | true =>
      simp only [Bind.bind, Except.bind, if_true]
      cases c.refile key stored h.id <;> rfl

theorem overwrite_fault {c : Collection} {key : Option String}
    (stop : c.overwrite h fields key stored = .error fault) :
    fault = .endlessInteger ∨ ∃ text, fault = .rejected text := by
  rw [overwrite_eq] at stop
  split at stop
  · rename_i incomparable
    cases stop
    exact .inl (Handle.renamedBy_error incomparable)
  · split at stop
    · rename_i clash
      cases stop
      split at clash
      · exact refile_fault clash
      · cases clash
    · cases stop

theorem store_eq (h : Handle) (fields : DirtySet) (s : Session Collection) :
    store h fields s =
      match Identity.filing h.addressId with
      | .error fault => .error fault s
      | .ok key =>
        match lookup s.store.docs key with
        | none => file h.data s
        | some stored =>
          match s.store.overwrite h fields key stored with
          | .error fault => .error fault s
          | .ok (c, stored) => .ok stored { s with store := c } := by
  unfold store
  simp only [run_bind, Access.look, Access.lift]
  cases Identity.filing h.addressId with
  | error fault => rfl
  | ok key =>
    dsimp only
    cases lookup s.store.docs key with
    | none => rfl
    | some stored =>
      simp only [run_bind]
      cases s.store.overwrite h fields key stored <;> rfl

/-- A copy is looked up by an identifier that can be shown. -/
theorem store_shown (run : store h fields s = .ok final t) : h.addressId.hasPlain = true := by
  rw [store_eq] at run
  split at run
  · cases run
  · rename_i shown
    exact (Identity.filing_ok.1 shown).1

/-- A copy whose document is not found is filed. -/
theorem store_missing (shown : h.addressId.hasPlain = true)
    (missing : lookup s.store.docs (Identity.key h.addressId) = none) :
    store h fields s = file h.data s := by
  rw [store_eq, Identity.filing_ok.2 ⟨shown, rfl⟩]
  simp only [missing]

/-- A copy whose document is found is written over it. -/
theorem store_over (shown : h.addressId.hasPlain = true)
    (found : lookup s.store.docs (Identity.key h.addressId) = some stored) :
    store h fields s =
      match s.store.overwrite h fields (Identity.key h.addressId) stored with
      | .error fault => .error fault s
      | .ok (c, stored) => .ok stored { s with store := c } := by
  rw [store_eq, Identity.filing_ok.2 ⟨shown, rfl⟩]
  simp only [found]

theorem save_eq (h : Handle) (fields : DirtySet) (s : Session Collection) :
    save h fields s =
      let s := { s with store := s.store.attempted }
      if s.store.rejects h then .ok (h, .error (s.store.refusal h)) s
      else
        match store h fields s with
        | .error fault t => .ok (h, .error fault) t
        | .ok stored u => .ok (h.settle (.apart (Fields.getD stored s.store.idField)),
            .ok (loan s.store.idField stored)) { u with store := u.store.changed } := by
  unfold save
  simp only [run_bind, Access.look, Access.modifyStore]
  by_cases refused : s.store.attempted.rejects h = true
  · simp only [refused, if_true]; rfl
  · simp only [refused, Bool.false_eq_true, if_false, run_bind, Access.attempt]
    cases store h fields { s with store := s.store.attempted } <;> rfl

/-- **A save stops with a refusal**, unless an identifier that it needs cannot be shown. -/
theorem store_fault (stop : store h fields s = .error fault t) :
    fault = .endlessInteger ∨ ∃ text, fault = .rejected text := by
  rw [store_eq] at stop
  split at stop
  · rename_i hidden
    cases stop
    exact .inl (Identity.filing_error.1 hidden).2
  · split at stop
    · exact file_fault stop
    · split at stop
      · rename_i stopped
        cases stop
        exact overwrite_fault stopped
      · cases stop

theorem refusal_shown (c : Collection) {h : Handle} (shown : h.id.hasPlain = true) :
    ∃ text, c.refusal h = .rejected text := by
  unfold refusal
  rw [Value.plainText_ok.2 ⟨shown, rfl⟩]
  exact ⟨_, rfl⟩

theorem refusal_hidden (c : Collection) {h : Handle} (hidden : h.id.hasPlain = false) :
    c.refusal h = .endlessInteger := by
  unfold refusal
  rw [Value.plainText_error.2 ⟨hidden, rfl⟩]
  rfl

theorem refusal_fault (c : Collection) (h : Handle) :
    c.refusal h = .endlessInteger ∨ ∃ text, c.refusal h = .rejected text := by
  cases shown : h.id.hasPlain with
  | false => exact .inl (c.refusal_hidden shown)
  | true => exact .inr (c.refusal_shown shown)

/-- **A save returns**: with what stopped it, which leaves the handle alone, or with what is stored
    now. -/
theorem save_cases (h : Handle) (fields : DirtySet) (s : Session Collection) :
    (∃ fault t, save h fields s = .ok (h, .error fault) t ∧
      (fault = .endlessInteger ∨ ∃ text, fault = .rejected text)) ∨
    ∃ stored u, store h fields { s with store := s.store.attempted } = .ok stored u ∧
      save h fields s = .ok (h.settle (.apart (Fields.getD stored s.store.idField)),
        .ok (loan s.store.idField stored)) { u with store := u.store.changed } := by
  rw [save_eq]
  by_cases refused : s.store.attempted.rejects h = true
  · simp only [refused, if_true]
    exact .inl ⟨_, _, rfl, refusal_fault _ h⟩
  · simp only [refused]
    cases done : store h fields { s with store := s.store.attempted } with
    | error fault t => exact .inl ⟨fault, t, rfl, store_fault done⟩
    | ok stored u => exact .inr ⟨stored, u, rfl, rfl⟩

/-- A save that goes through has stored what it returns. -/
theorem save_ok {after now : Handle} (run : save h fields s = .ok (after, .ok now) t) :
    ∃ stored u, store h fields { s with store := s.store.attempted } = .ok stored u ∧
      after = h.settle (.apart (Fields.getD stored s.store.idField)) ∧
      now = loan s.store.idField stored ∧ t = { u with store := u.store.changed } := by
  rcases save_cases h fields s with ⟨fault, u, refused, _⟩ | ⟨stored, u, done, saved⟩
  · rw [refused] at run
    cases run
  · rw [saved] at run
    cases run
    exact ⟨stored, u, done, rfl, rfl, rfl⟩

/-- What is noted as modified plays no part in what is stored. -/
theorem store_marked (h : Handle) (marked fields : DirtySet) (s : Session Collection) :
    store { h with modified := marked } fields s = store h fields s := by
  rw [store_eq, store_eq]; rfl

end Collection

/-! ## The writes of a call -/

namespace Gateway

/-- **A write returns**: with a failure, or with the document stored. It stops only where the
    identifier of a copy that is not saved cannot be shown. -/
theorem write_cases (e : Edited) (s : Session Collection) :
    (∃ marked fault t,
      Collection.save { e.handle with modified := marked } e.dirty s =
        .ok ({ e.handle with modified := marked }, .error fault) t ∧
      write e s = .ok ({ e.handle with modified := marked },
        some (.notSaved s.store.name e.handle.id.plain e.dirty fault)) t ∧
      e.handle.id.hasPlain = true) ∨
    (∃ stored u,
      Collection.store e.handle e.dirty { s with store := s.store.attempted } = .ok stored u ∧
      write e s = .ok (e.handle.settle (.apart (Fields.getD stored s.store.idField)), none)
        { u with store := u.store.changed }) ∨
    ∃ t, write e s = .error .endlessInteger t ∧ e.handle.id.hasPlain = false := by
  obtain ⟨marked, hmarked⟩ := DirtySet.notify_handle e.dirty.fields e.handle
  have hfields := DirtySet.notify_fields e.dirty e.handle
  rcases Collection.save_cases { e.handle with modified := marked } e.dirty s with
    ⟨fault, t, stopped, known⟩ | ⟨stored, u, done, saved⟩
  · have failing : write e s = (do
        let id ← Access.lift e.handle.id.plainText
        return ({ e.handle with modified := marked },
          some (Failure.notSaved s.store.name id e.dirty fault))) t := by
      unfold write
      rw [run_bind_of_ok (show Access.look _ s = .ok s.store.name s from rfl)]
      simp only [hfields, hmarked]
      rw [run_bind_of_ok (show Store.save _ e.dirty s = _ from stopped)]
      rcases known with rfl | ⟨text, rfl⟩ <;> rfl
    cases shown : e.handle.id.plainText with
    | ok id =>
      rw [shown] at failing
      obtain ⟨shows, rfl⟩ := Value.plainText_ok.1 shown
      exact .inl ⟨marked, fault, t, stopped, failing, shows⟩
    | error fault =>
      obtain ⟨hidden, rfl⟩ := Value.plainText_error.1 shown
      rw [shown] at failing
      exact .inr (.inr ⟨t, failing, hidden⟩)
  · rw [Collection.store_marked] at done
    refine .inr (.inl ⟨stored, u, done, ?_⟩)
    unfold write
    simp only [run_bind, Access.look, hfields, hmarked, Store.save, saved]
    rfl

/-- A copy that has to be saved although its identifier cannot be shown. -/
def Hidden (e : Edited) : Prop :=
  e.dirty.isEmpty = false ∧ e.handle.id.hasPlain = false

/-- **Once a call writes, it returns**, and its copies are as the edits left them; or it stops at a
    copy whose identifier cannot be shown. -/
theorem writeAll_cases (edited : List Edited) (s : Session Collection) :
    (∃ handles w t, writeAll edited s = .ok (handles, w) t ∧
      handles.map Handle.data = edited.map (·.handle.data)) ∨
    ∃ t, writeAll edited s = .error .endlessInteger t ∧ ∃ e ∈ edited, Hidden e := by
  induction edited generalizing s with
  | nil => exact .inl ⟨[], {}, s, rfl, rfl⟩
  | cons e rest ih =>
    unfold writeAll
    by_cases clean : e.dirty.isEmpty = true
    · simp only [clean, if_true, run_bind]
      rcases ih s with ⟨handles, w, t, returned, same⟩ | ⟨t, stopped, other, among, hidden⟩
      · rw [returned]
        exact .inl ⟨e.handle :: handles, w, t, rfl, by rw [List.map_cons, List.map_cons, same]⟩
      · rw [stopped]
        exact .inr ⟨t, rfl, other, List.mem_cons_of_mem _ among, hidden⟩
    · have touched : e.dirty.isEmpty = false := Bool.eq_false_iff.2 clean
      simp only [touched, Bool.false_eq_true, if_false, run_bind]
      rcases write_cases e s with
        ⟨marked, fault, u, _, wrote, _⟩ | ⟨stored, u, _, wrote⟩ | ⟨t, stopped, hidden⟩
      · simp only [wrote, run_bind]
        rcases ih u with ⟨handles, w, t, returned, same⟩ | ⟨t, stopped, other, among, hidden⟩
        · rw [returned]
          exact .inl ⟨_ :: handles, _, t, rfl, by rw [List.map_cons, List.map_cons, same]⟩
        · rw [stopped]
          exact .inr ⟨t, rfl, other, List.mem_cons_of_mem _ among, hidden⟩
      · -- The identifier that is noted as saved is the one the copy had all along.
        simp only [wrote, run_bind, Access.lift]
        have same_id (k : Known) : (e.handle.settle k).id = e.handle.id := rfl
        cases shown : e.handle.id.plainText with
        | error fault =>
          obtain ⟨hidden, rfl⟩ := Value.plainText_error.1 shown
          rw [same_id, shown]
          exact .inr ⟨_, rfl, e, List.mem_cons_self, touched, hidden⟩
        | ok id =>
          rw [same_id, shown]
          dsimp only
          rcases ih { u with store := u.store.changed } with
            ⟨handles, w, t, returned, same⟩ | ⟨t, stopped, other, among, hidden⟩
          · rw [returned]
            exact .inl ⟨_ :: handles, _, t, rfl, by rw [List.map_cons, List.map_cons, same]; rfl⟩
          · rw [stopped]
            exact .inr ⟨t, rfl, other, List.mem_cons_of_mem _ among, hidden⟩
      · rw [stopped]
        exact .inr ⟨t, rfl, e, List.mem_cons_self, touched, hidden⟩

/-- The copies that a call returns once it has written are as the edits left them. -/
theorem writeAll_copies {edited : List Edited} {handles : List Handle} {w : Writes}
    {s t : Session Collection} (run : writeAll edited s = .ok (handles, w) t) :
    handles.map Handle.data = edited.map (·.handle.data) := by
  rcases writeAll_cases edited s with ⟨hs, w', u, returned, same⟩ | ⟨_, stopped, _⟩
  · rw [returned] at run
    cases run
    exact same
  · rw [stopped] at run
    cases run

/-- Once a call writes copies whose identifiers can be shown, it returns. -/
theorem writeAll_returns {edited : List Edited} (shown : ∀ e ∈ edited, ¬ Hidden e)
    (s : Session Collection) :
    ∃ handles w t, writeAll edited s = .ok (handles, w) t ∧
      handles.map Handle.data = edited.map (·.handle.data) := by
  rcases writeAll_cases edited s with returned | ⟨_, _, e, among, hidden⟩
  · exact returned
  · exact absurd hidden (shown e among)

end Gateway

end DocRepair

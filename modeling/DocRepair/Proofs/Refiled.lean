import DocRepair.Proofs.Removed
import DocRepair.Proofs.Reworked
import DocRepair.Proofs.Selected
import DocRepair.Proofs.Undivided
/-!
# `DocRepair.Proofs.Refiled` — when a new identifier is taken over

A handle is fetched, its copy is given another identifier, and the identifier field is saved. The
document should then stand under the key of the new identifier, unless another document does. But
whether the identifier has changed is a question of agreement, and whether it is free a question of
keys. An identifier that agrees with the old one is not taken over, even if it is another value with
another key, and one that has the key of the old one without agreeing with it is refused, since the
document itself is in its way. A document without an identifier is not known by anything, so that
its copy is filed beside it. And an identifier that cannot be shown has no key.

## Contents

* `Collection.Lends` — handles as they are fetched;
* `Handle.refiled_setField` — when a save files a document anew;
* `Handle.identifierAfter` — the identifier that a document has behind a save;
* `Collection.Renamed` — a document with another identifier, all others as they were;
* `Collection.needed_setField` — the key that has to be free;
* `Collection.goes_iff` / `goes_unnamed` — when the save goes through;
* `Collection.save_renamed` — what it leaves;
* `Collection.Renames` — the new identifier is taken over unless another document has its key;
* `Collection.renames_loan_iff` / `renames_iff` — when that is so.
-/

namespace DocRepair

/-! ## Handles with another identifier -/

namespace Collection

/-- A handle as the collection lends it. -/
def Lends (c : Collection) (g : Handle) : Prop :=
  ∃ filter, (∃ handles, c.find filter = .ok handles ∧ g ∈ handles) ∨ c.findOne filter = .ok (some g)

theorem Lends.loan {c : Collection} {g : Handle} (lent : c.Lends g) :
    ∃ doc ∈ c.all, g = Collection.loan c.idField doc := by
  obtain ⟨filter, ⟨handles, run, listed⟩ | run⟩ := lent
  · rw [find_ok run] at listed
    obtain ⟨doc, chosen, rfl⟩ := List.mem_map.1 listed
    exact ⟨doc, List.mem_of_mem_filter chosen, rfl⟩
  · obtain ⟨first, selects, run⟩ := bind_eq_ok.1 run
    cases first with
    | none => cases run
    | some doc =>
      cases run
      exact ⟨doc, firstOf_mem selects, rfl⟩

end Collection

namespace Handle

variable {idField : String} {doc : Fields} {v : Value} {fields : DirtySet}

theorem id_setField :
    ((Collection.loan idField doc).setField idField v).id = v := by
  show (Fields.get? (Fields.set doc idField v) idField).getD .null = v
  rw [Fields.get?_set_self]
  rfl

/-- What a handle is known by is kept apart when its identifier field is written. -/
theorem knownId_setField :
    ((Collection.loan idField doc).setField idField v).knownId = Fields.getD doc idField := by
  have apart : ((Collection.loan idField doc).setField idField v).known =
      .apart (Fields.getD doc idField) := by
    refine Known.part_identity.trans (congrArg Known.apart ?_)
    rw [Value.at?_field]
    rfl
  exact knownId_apart apart

/-- A save is addressed to the old identifier, or to the new one of a document that had none. -/
theorem addressId_setField (idField : String) (doc : Fields) (v : Value) :
    ((Collection.loan idField doc).setField idField v).addressId =
      if (Fields.getD doc idField).isNull then v else Fields.getD doc idField := by
  unfold addressId
  rw [knownId_setField, id_setField]

/-- **A save files a document anew** if it had an identifier with which the new one does not agree. -/
theorem refiled_setField (reported : fields.contains idField = true) :
    ((Collection.loan idField doc).setField idField v).refiled idField fields =
      (!(Fields.getD doc idField).isNull && !Identity.agree (Fields.getD doc idField) v) := by
  unfold refiled idChanged
  rw [reported, knownId_setField, id_setField, Bool.true_and]

/-- The identifier that a document has behind a save: a new one that agrees with the old one is not
    taken over. -/
def identifierAfter (old new : Value) : Value :=
  if Identity.agree old new then old else new

/-- A document that is left with another identifier was filed anew. -/
theorem refiled_of_apart (named : Named idField doc) (reported : fields.contains idField = true)
    (apart : Identity.key (identifierAfter (Fields.getD doc idField) v) ≠
      Identity.key (Fields.getD doc idField)) :
    ((Collection.loan idField doc).setField idField v).refiled idField fields = true := by
  rw [refiled_setField reported, show (Fields.getD doc idField).isNull = false from named]
  cases agrees : Identity.agree (Fields.getD doc idField) v with
  | false => rfl
  | true => exact absurd (congrArg Identity.key (if_pos agrees)) apart

/-- The key under which the save leaves the document. -/
theorem keyAfter_setField (named : Named idField doc)
    (reported : fields.contains idField = true) :
    ((Collection.loan idField doc).setField idField v).keyAfter idField fields =
      Identity.key (identifierAfter (Fields.getD doc idField) v) := by
  unfold Named at named
  unfold keyAfter identifierAfter
  rw [refiled_setField reported, addressId_setField, id_setField, named]
  cases Identity.agree (Fields.getD doc idField) v <;> rfl

/-- What the save makes of the document: it has the identifier, and is otherwise as it was. -/
theorem get?_contentsAfter_setField (distinct : Fields.Distinct doc)
    (named : Named idField doc) (reported : fields.contains idField = true)
    (name : String) :
    Fields.get? (((Collection.loan idField doc).setField idField v).contentsAfter idField fields doc)
        name =
      if name = idField then some (identifierAfter (Fields.getD doc idField) v)
      else Fields.get? doc name := by
  rw [get?_contentsAfter distinct]
  by_cases own : name = idField
  · unfold Named at named
    unfold identifierAfter
    rw [if_pos own, if_pos own, refiled_setField reported, id_setField,
      Fields.held_of_named named, named]
    cases Identity.agree (Fields.getD doc idField) v <;> rfl
  · have copied : Fields.get? ((Collection.loan idField doc).setField idField v).data name =
        Fields.get? doc name := Fields.get?_set_ne doc v own
    rw [if_neg own, if_neg own, copied, ite_self]

end Handle

/-! ## The save -/

namespace Collection

variable {allowed : Collection → Write → Prop} {c : Collection} {doc : Fields} {v : Value}
  {fields : DirtySet} {supply : Supply}

/-- A document with another identifier: it is filed under the key of that, otherwise as it was, and
    nothing is left under another key. All other documents are as they were. -/
structure Renamed (before after : Collection) (doc : Fields) (v : Value) : Prop where
  held : ∃ new, lookup after.docs (Identity.key v) = some new ∧
    Fields.get? new before.idField = some v ∧
    ∀ name, name ≠ before.idField → Fields.get? new name = Fields.get? doc name
  gone : Identity.key v ≠ Identity.key (Fields.getD doc before.idField) →
    lookup after.docs (Identity.key (Fields.getD doc before.idField)) = none
  others : ∀ key other, key ≠ Identity.key (Fields.getD doc before.idField) →
    lookup before.docs key = some other → lookup after.docs key = some other
  count : after.docs.length = before.docs.length

theorem lookup_discard_self {docs : List (Option String × Fields)} (keys : (docs.map (·.1)).Nodup)
    (key : Option String) : lookup (discard docs key) key = none := by
  rw [discard_eq_filter keys, lookup_eq_none]
  intro used
  obtain ⟨entry, listed, rfl⟩ := List.mem_map.1 used
  simp at listed

/-- A document that is filed anew leaves its key. -/
theorem store_vacates {h : Handle} {s t : Session Collection} {stored final : Fields}
    (filed : s.store.Filed) (found : lookup s.store.docs (Identity.key h.addressId) = some stored)
    (moved : h.refiled s.store.idField fields = true) (run : store h fields s = .ok final t) :
    lookup t.store.docs (Identity.key h.addressId) = none := by
  obtain ⟨after, key, doc, filing, _, rfl⟩ := store_overwrites found run
  rw [if_pos moved] at filing
  obtain ⟨_, _, apart, _, _, rfl, _⟩ := refile_ok found filing
  show lookup (replace _ key _) (Identity.key h.addressId) = none
  rw [lookup_replace_ne apart.symm, lookup_append, lookup_discard_self filed.keys]
  exact if_neg apart

/-- What a save needs of the collection for a new identifier: nothing if it agrees with the old one,
    and otherwise its key. -/
theorem needed_setField (filed : c.Filed) (shown : c.Shown) (listed : doc ∈ c.all)
    (named : Named c.idField doc) (reported : fields.contains c.idField = true) (v : Value)
    (supply : Supply) :
    c.needed supply ((loan c.idField doc).setField c.idField v) fields = (do
      if ← Identity.compare (Fields.getD doc c.idField) v then .ok none
      else .ok (some (← Identity.filing v))) := by
  unfold Named at named
  unfold needed
  rw [Handle.addressId_setField, named, if_neg Bool.false_ne_true,
    Identity.filing_ok.2 ⟨shown.all listed, rfl⟩]
  simp only [Bind.bind, Except.bind]
  rw [filed.lookup_own listed]
  unfold Handle.renamedBy Handle.compareId
  rw [reported, Handle.knownId_setField, Handle.id_setField, named]
  simp only [Option.isNone_some, Bool.false_eq_true, if_false, if_true, Bind.bind, Except.bind]
  cases Identity.compare (Fields.getD doc c.idField) v with
  | error fault => rfl
  | ok agrees => cases agrees <;> rfl

/-- **When the save of a new identifier goes through**: if it agrees with the old one, or it can be
    shown and its key is not in use. -/
theorem goes_iff (filed : c.Filed) (shown : c.Shown) (free : ∀ h, c.rejects h = false)
    (listed : doc ∈ c.all) (named : Named c.idField doc)
    (reported : fields.contains c.idField = true) (v : Value) (supply : Supply) :
    (∃ settled now t, save ((loan c.idField doc).setField c.idField v) fields ⟨c, supply⟩ =
        .ok (settled, .ok now) t) ↔
      Identity.compare (Fields.getD doc c.idField) v = .ok true ∨
        Identity.compare (Fields.getD doc c.idField) v = .ok false ∧ v.hasPlain = true ∧
          lookup c.docs (Identity.key v) = none := by
  rw [save_goes_iff]
  unfold Refuses Falters
  rw [if_neg (Bool.eq_false_iff.1 (free _)), if_neg (Bool.eq_false_iff.1 (free _)),
    needed_setField filed shown listed named reported]
  cases compared : Identity.compare (Fields.getD doc c.idField) v with
  | error fault =>
    obtain ⟨_, rfl⟩ := Identity.compare_error.1 compared
    simp [Bind.bind, Except.bind]
  | ok agrees =>
    cases agrees with
    | true =>
      -- Nothing is filed anew, so no key has to be free.
      simp [Bind.bind, Except.bind]
    | false =>
      cases shows : v.hasPlain with
      | false =>
        rw [Identity.filing_error.2 ⟨shows, rfl⟩]
        simp [Bind.bind, Except.bind]
      | true =>
        rw [Identity.filing_ok.2 ⟨shows, rfl⟩]
        simp [Bind.bind, Except.bind]

/-- Without an identifier the save goes through as soon as the new one can be shown. -/
theorem goes_unnamed (free : ∀ h, c.rejects h = false) (unnamed : ¬ Named c.idField doc)
    (given : v.isNull = false) (reported : fields.contains c.idField = true) (supply : Supply) :
    (∃ settled now t, save ((loan c.idField doc).setField c.idField v) fields ⟨c, supply⟩ =
      .ok (settled, .ok now) t) ↔ v.hasPlain = true := by
  have null : (Fields.getD doc c.idField).isNull = true := by simpa [Named] using unnamed
  have id : Fields.getD ((loan c.idField doc).setField c.idField v).data c.idField = v :=
    Handle.id_setField
  rw [save_goes_iff]
  unfold Refuses Falters needed
  rw [if_neg (Bool.eq_false_iff.1 (free _)), if_neg (Bool.eq_false_iff.1 (free _)),
    Handle.addressId_setField, null, if_pos rfl]
  cases shows : v.hasPlain with
  | false =>
    rw [Identity.filing_error.2 ⟨shows, rfl⟩]
    simp [Bind.bind, Except.bind]
  | true =>
    rw [Identity.filing_ok.2 ⟨shows, rfl⟩]
    simp only [Bind.bind, Except.bind]
    -- The save is addressed to the new identifier: what is found there is written over.
    cases found : lookup c.docs (Identity.key v) with
    | none =>
      unfold newcomer
      rw [id, given, if_neg Bool.false_ne_true, id, Identity.filing_ok.2 ⟨shows, rfl⟩]
      simp [found]
    | some other =>
      unfold Handle.renamedBy Handle.compareId
      rw [reported, Handle.knownId_setField, null]
      simp

/-- **What the save leaves** that goes through for a document with an identifier. -/
theorem save_renamed {settled now : Handle} {t : Session Collection} (filed : c.Filed)
    (listed : doc ∈ c.all) (named : Named c.idField doc)
    (reported : fields.contains c.idField = true)
    (run : save ((loan c.idField doc).setField c.idField v) fields ⟨c, supply⟩ =
      .ok (settled, .ok now) t) :
    Renamed c t.store doc (Handle.identifierAfter (Fields.getD doc c.idField) v) := by
  obtain ⟨final, u, storing, rfl, rfl, rfl⟩ := save_ok run
  have address := Handle.addressId_setField c.idField doc v
  rw [show (Fields.getD doc c.idField).isNull = false from named, if_neg Bool.false_ne_true] at address
  have found : lookup c.docs
      (Identity.key ((loan c.idField doc).setField c.idField v).addressId) = some doc := by
    rw [address]
    exact filed.lookup_own listed
  obtain ⟨rfl, _, leads, _, others⟩ := store_found (s := ⟨c.attempted, supply⟩) found storing
  have contents :=
    Handle.get?_contentsAfter_setField (v := v) (filed.distinct_all listed) named reported
  have key := Handle.keyAfter_setField (v := v) named reported
  refine ⟨⟨_, (congrArg (lookup _) key.symm).trans leads, ?_, fun name other => ?_⟩,
    fun apart => ?_, fun key other off => ?_, ?_⟩
  · exact (contents c.idField).trans (if_pos rfl)
  · exact (contents name).trans (if_neg other)
  · have moved := Handle.refiled_of_apart named reported apart
    rw [← address]
    show lookup u.store.docs _ = none
    exact store_vacates (s := ⟨c.attempted, supply⟩) filed.counted.1 found moved storing
  · rw [address] at others
    exact others key other off
  · have same := (store_rewrites (s := ⟨c.attempted, supply⟩) filed.counted.1 found storing).length
    rw [all, all, List.length_map, List.length_map] at same
    exact same

/-! ## When a new identifier is taken over -/

/-- What is asked of the save of a new identifier: it goes through exactly if no other document is
    filed under its key, and leaves the document with it. An identifier that cannot be shown has no
    key that another document could have. -/
structure Renames (c : Collection) (supply : Supply) (g : Handle) (v : Value) (fields : DirtySet) :
    Prop where
  goes : (∃ settled now t, save (g.setField c.idField v) fields ⟨c, supply⟩ =
      .ok (settled, .ok now) t) ↔
    ∀ key other, Identity.filing v = .ok key → lookup c.docs key = some other → other = g.data
  leaves : ∀ settled now t, save (g.setField c.idField v) fields ⟨c, supply⟩ =
    .ok (settled, .ok now) t → Renamed c t.store g.data v

/-- A document cannot have a new identifier and the old one. -/
theorem Renamed.eq_old {after : Collection} (new : Renamed c after doc v)
    (old : Renamed c after doc (Fields.getD doc c.idField)) : v = Fields.getD doc c.idField := by
  obtain ⟨kept, leads, identifier, _⟩ := old.held
  by_cases same : Identity.key v = Identity.key (Fields.getD doc c.idField)
  · obtain ⟨renamed, found, taken, _⟩ := new.held
    rw [same, leads] at found
    cases found
    rw [identifier] at taken
    exact (Option.some.inj taken).symm
  · rw [new.gone same] at leads
    cases leads

/-- An identifier that is taken over can be shown: one that cannot be shown is free, since it has no
    key, and still its save does not go through. -/
theorem Renames.shown (renames : Renames c supply (loan c.idField doc) v fields) (filed : c.Filed)
    (held : c.Shown) (free : ∀ h, c.rejects h = false) (listed : doc ∈ c.all)
    (given : v.isNull = false) (reported : fields.contains c.idField = true) :
    v.hasPlain = true := by
  rw [← Bool.not_eq_false]
  intro hidden
  obtain ⟨settled, now, t, run⟩ := renames.goes.2 fun key other keyed => by
    rw [Identity.filing_error.2 ⟨hidden, rfl⟩] at keyed
    cases keyed
  by_cases named : Named c.idField doc
  · rcases (goes_iff filed held free listed named reported v supply).1 ⟨settled, now, t, run⟩ with
      agrees | ⟨_, shows, _⟩
    · have old := save_renamed filed listed named reported run
      unfold Handle.identifierAfter at old
      rw [(Identity.compare_ok.1 agrees).2, if_pos rfl] at old
      have same : v = Fields.getD doc c.idField := (renames.leaves settled now t run).eq_old old
      have shows := held.all listed
      rw [← same, hidden] at shows
      cases shows
    · rw [hidden] at shows
      cases shows
  · have shows := (goes_unnamed free named given reported supply).1 ⟨settled, now, t, run⟩
    rw [hidden] at shows
    cases shows

/-- The copy of a document without an identifier is filed beside it, or written over another one. -/
theorem not_renames_unnamed (filed : c.Filed) (held : c.Shown) (free : ∀ h, c.rejects h = false)
    (listed : doc ∈ c.all) (unnamed : ¬ Named c.idField doc) (given : v.isNull = false)
    (reported : fields.contains c.idField = true) :
    ¬ Renames c supply (loan c.idField doc) v fields := by
  intro renames
  have shows := renames.shown filed held free listed given reported
  obtain ⟨settled, now, t, run⟩ := (goes_unnamed free unnamed given reported supply).2 shows
  have only (other : Fields) (found : lookup c.docs (Identity.key v) = some other) : other = doc :=
    renames.goes.1 ⟨settled, now, t, run⟩ _ other (Identity.filing_ok.2 ⟨shows, rfl⟩) found
  have unused : lookup c.docs (Identity.key v) = none := by
    cases found : lookup c.docs (Identity.key v) with
    | none => rfl
    | some other =>
      -- The document is filed under the key of null, and so not under that of the identifier.
      have under := filed.under _ (lookup_mem found)
      have null : Fields.getD other c.idField = .null := by
        rw [only other found]
        show Fields.getD doc c.idField = .null
        unfold Named at unnamed
        cases same : Fields.getD doc c.idField with
        | null => rfl
        | _ => rw [same] at unnamed; exact absurd rfl unnamed
      dsimp only at under
      rw [null, Identity.key_of_not_null given] at under
      cases under
  have count := (renames.leaves settled now t run).count
  obtain ⟨final, u, storing, _, _, rfl⟩ := save_ok run
  have missing : lookup c.docs
      (Identity.key ((loan c.idField doc).setField c.idField v).addressId) = none := by
    rw [Handle.addressId_setField, if_pos (by simpa [Named] using unnamed)]
    exact unused
  obtain ⟨_, all⟩ := store_files (s := ⟨c.attempted, supply⟩) missing storing
  have longer := congrArg List.length all
  rw [Collection.all, Collection.all, List.length_append, List.length_map, List.length_map,
    List.length_singleton] at longer
  have same : u.store.docs.length = c.docs.length := count
  have more : u.store.docs.length = c.docs.length + 1 := longer
  omega

/-- **When all is as it should be**: the document has an identifier, and the new one can be shown, and
    is the same value or neither agrees with the old one nor has its key. -/
theorem renames_loan_iff (filed : c.Filed) (held : c.Shown) (free : ∀ h, c.rejects h = false)
    (listed : doc ∈ c.all) (given : v.isNull = false)
    (reported : fields.contains c.idField = true) :
    Renames c supply (loan c.idField doc) v fields ↔
      Named c.idField doc ∧ v.hasPlain = true ∧
        if Identity.agree (Fields.getD doc c.idField) v then v = Fields.getD doc c.idField
        else Identity.key v ≠ Identity.key (Fields.getD doc c.idField) := by
  by_cases shows : v.hasPlain = true
  swap
  · exact iff_of_false (fun renames => shows (renames.shown filed held free listed given reported))
      fun all => shows all.2.1
  by_cases named : Named c.idField doc
  · rw [and_iff_right named, and_iff_right shows]
    have goes := goes_iff filed held free listed named reported v supply
    rw [Identity.compare_shown (held.all listed) shows, Except.ok.injEq, Except.ok.injEq,
      and_iff_right shows] at goes
    have leaves (settled now : Handle) (t : Session Collection)
        (run : save ((loan c.idField doc).setField c.idField v) fields ⟨c, supply⟩ =
          .ok (settled, .ok now) t) := save_renamed filed listed named reported run
    have own := filed.lookup_own listed
    have alone (other : Fields)
        (found : lookup c.docs (Identity.key (Fields.getD doc c.idField)) = some other) :
        other = doc := by
      rw [own] at found
      exact (Option.some.inj found).symm
    unfold Handle.identifierAfter at leaves
    by_cases agrees : Identity.agree (Fields.getD doc c.idField) v = true
    · rw [if_pos agrees]
      rw [if_pos agrees] at leaves
      have through := goes.2 (.inl agrees)
      constructor
      · intro renames
        obtain ⟨settled, now, t, run⟩ := through
        exact (renames.leaves settled now t run).eq_old (leaves settled now t run)
      · intro same
        rw [← same] at leaves alone
        refine ⟨iff_of_true through fun key other keyed found => ?_, leaves⟩
        obtain ⟨_, rfl⟩ := Identity.filing_ok.1 keyed
        exact alone other found
    · rw [if_neg agrees]
      rw [if_neg agrees] at leaves
      rw [or_iff_right agrees, and_iff_right (Bool.eq_false_iff.2 agrees)] at goes
      constructor
      · -- The document itself stands in the way of an identifier with its key.
        intro renames same
        have unused := goes.1 (renames.goes.2 fun key other keyed found => by
          obtain ⟨_, rfl⟩ := Identity.filing_ok.1 keyed
          exact alone other (same ▸ found))
        rw [same, own] at unused
        cases unused
      · intro apart
        refine ⟨goes.trans ⟨fun unused key other keyed found => ?_, fun only => ?_⟩, leaves⟩
        · obtain ⟨_, rfl⟩ := Identity.filing_ok.1 keyed
          rw [unused] at found
          cases found
        · cases found : lookup c.docs (Identity.key v) with
          | none => rfl
          | some other =>
            have under := filed.under _ (lookup_mem found)
            rw [only _ other (Identity.filing_ok.2 ⟨shows, rfl⟩) found] at under
            exact absurd under apart
  · exact iff_of_false (not_renames_unnamed filed held free listed named given reported)
      fun all => named all.1

/-- **When a new identifier is taken over**, through a handle as it is fetched from a collection that
    has no rule of its own. For a document that has an identifier the save goes through if the new one
    agrees with the old one, or can be shown and has a key that is not in use; it leaves the old one in
    the first case and the new one in the second. -/
theorem renames_iff {g : Handle} (reached : Reached allowed c) (free : ∀ h, c.rejects h = false)
    (lent : c.Lends g) (given : v.isNull = false) (reported : fields.contains c.idField = true)
    (supply : Supply) :
    (g.id.isNull = false →
        ((∃ settled now t, save (g.setField c.idField v) fields ⟨c, supply⟩ =
            .ok (settled, .ok now) t) ↔
          Identity.compare g.id v = .ok true ∨
            Identity.compare g.id v = .ok false ∧ v.hasPlain = true ∧
              lookup c.docs (Identity.key v) = none) ∧
        ∀ settled now t, save (g.setField c.idField v) fields ⟨c, supply⟩ = .ok (settled, .ok now) t →
          Renamed c t.store g.data (if Identity.agree g.id v then g.id else v)) ∧
      (Renames c supply g v fields ↔
        g.id.isNull = false ∧ v.hasPlain = true ∧
          if Identity.agree g.id v then v = g.id else Identity.key v ≠ Identity.key g.id) := by
  obtain ⟨doc, listed, rfl⟩ := lent.loan
  have filed := reached.filed
  refine ⟨fun named => ⟨?_, fun settled now t run => ?_⟩, ?_⟩
  · exact goes_iff filed reached.shown free listed named reported v supply
  · exact save_renamed filed listed named reported run
  · exact renames_loan_iff filed reached.shown free listed given reported

/-- A document with a text for an identifier, beside another one, is given a number: it is found under
    that, and no longer under the text. -/
theorem renames_iff_number :
    let supply : Supply := { origin := 0, last := 0, pace := 1 }
    let first : Fields := [("_id", .text "d1"), ("n", .int 1)]
    let c := (Write.create (.array [.object [("_id", .text "d2")]])).after supply
      (({ name := "forms" } : Collection).extended [first])
    let g := loan "_id" first
    Reached (fun _ _ => True) c ∧ (∀ h, c.rejects h = false) ∧ c.Lends g ∧
      Renames c supply g (.int 7) (.ofList ["_id"]) := by
  intro supply first c g
  have distinct : Fields.Distinct first := by
    show List.Nodup ["_id", "n"]
    decide
  have single : Reached (fun _ _ => True) (({ name := "forms" } : Collection).extended [first]) :=
    .single supply rfl rfl rfl distinct
  have other : Fields.Distinct [("_id", .text "d2")] := List.pairwise_singleton _ _
  have reached : Reached (fun _ _ => True) c := single.created other supply
  have lent : c.Lends g := ⟨.object [("n", .int 1)], .inr rfl⟩
  refine ⟨reached, fun _ => rfl, lent, ?_⟩
  have exactly : _ ∧ (Renames c supply g (.int 7) (.ofList ["_id"]) ↔ _) :=
    renames_iff reached (fun _ => rfl) lent rfl rfl supply
  refine exactly.2.2 ⟨rfl, by decide, ?_⟩
  have apart : Identity.agree g.id (.int 7) = false := rfl
  rw [apart, if_neg Bool.false_ne_true]
  decide

/-- The only document of a collection has a number for an identifier, and is given the text of that
    number: the save is refused, since the document itself has the key. -/
theorem own_key_refused :
    let supply : Supply := { origin := 0, last := 0, pace := 1 }
    let doc : Fields := [("_id", .int 1), ("n", .int 5)]
    let c := ({ name := "forms" } : Collection).extended [doc]
    let g := loan "_id" doc
    Reached (fun _ _ => True) c ∧ c.Lends g ∧
      (∃ t, save (g.setField "_id" (.text "1")) (.ofList ["_id"]) ⟨c, supply⟩ =
        .ok (g.setField "_id" (.text "1"), .error (.rejected "duplicate _id 1 in forms")) t) ∧
      ¬ Renames c supply g (.text "1") (.ofList ["_id"]) := by
  intro supply doc c g
  have distinct : Fields.Distinct doc := by
    show List.Nodup ["_id", "n"]
    decide
  have refused : ∃ t, save (g.setField "_id" (.text "1")) (.ofList ["_id"]) ⟨c, supply⟩ =
      .ok (g.setField "_id" (.text "1"), .error (.rejected "duplicate _id 1 in forms")) t :=
    ⟨_, by rfl⟩
  refine ⟨.single supply rfl rfl rfl distinct, ⟨.object [("n", .int 5)], .inr rfl⟩, refused,
    fun renames => ?_⟩
  obtain ⟨settled, now, t, run⟩ := renames.goes.2 fun key other keyed found => by
    cases keyed
    cases found
    rfl
  obtain ⟨u, refused⟩ := refused
  rw [show c.idField = "_id" from rfl, refused] at run
  cases run

end Collection

end DocRepair

import DocRepair.Proofs.Places
import DocRepair.Proofs.Writing
/-!
# `DocRepair.Proofs.Filed` — collections as they are filed

Every document of a collection is filed under the key of its identifier, and no key is in use twice.
A save of a document that is found where it is known writes that one document, under its old key or,
if its identifier has changed and is to be written, under the new one. All other documents stay.

## Contents

* `lookup_…` — lookups after replacing, discarding and filing;
* `Collection.Filed` — keys, identifiers and field names of a collection;
* `Collection.Shown` / `Collection.get?_ok` — the keys of a collection can be shown, and lookups then
  return;
* `Collection.get?_writeFields` — a stored document after a save of some fields;
* `Handle.refiled` / `Handle.keyAfter` / `Handle.contentsAfter` — what a save does with a document;
* `Collection.store_found` — a save of a document that is found;
* `Collection.save_preserves_of` / `create_preserves_of` / `build_preserves_of` — what the storing and
  filing of documents keep;
* `Collection.save_preserves` / `create_preserves` / `delete_preserves` / `build_filed` — a
  collection stays as it should be.
-/

namespace DocRepair

namespace Collection

/-! ## Lookups -/

section Lookups

variable {docs : List (Option String × Fields)} {key other : Option String} {doc new : Fields}

theorem lookup_cons (k key : Option String) (d : Fields) (rest : List (Option String × Fields)) :
    lookup ((k, d) :: rest) key = if k = key then some d else lookup rest key := rfl

theorem lookup_mem (h : lookup docs key = some doc) : (key, doc) ∈ docs := by
  induction docs with
  | nil => cases h
  | cons entry rest ih =>
    obtain ⟨k, d⟩ := entry
    unfold lookup at h
    split at h
    · rename_i hk
      cases h
      rw [hk]
      exact List.mem_cons_self
    · exact List.mem_cons_of_mem _ (ih h)

theorem lookup_eq_none : lookup docs key = none ↔ key ∉ docs.map (·.1) := by
  induction docs with
  | nil => simp [lookup]
  | cons entry rest ih =>
    obtain ⟨k, d⟩ := entry
    unfold lookup
    by_cases h : k = key
    · simp [h]
    · have apart : ¬ key = k := fun hk => h hk.symm
      simp only [h, if_false, ih, List.map_cons, List.mem_cons, apart, false_or]

/-- Under keys that are in use once, what is filed is found. -/
theorem lookup_of_mem (keys : (docs.map (·.1)).Nodup) (h : (key, doc) ∈ docs) :
    lookup docs key = some doc := by
  induction docs with
  | nil => cases h
  | cons entry rest ih =>
    obtain ⟨k, d⟩ := entry
    obtain ⟨fresh, more⟩ := List.nodup_cons.1 keys
    unfold lookup
    rcases List.mem_cons.1 h with heq | h
    · cases heq
      exact if_pos rfl
    · have used : key ∈ rest.map (·.1) := List.mem_map.2 ⟨_, h, rfl⟩
      rw [if_neg fun hk : k = key => fresh (hk ▸ used)]
      exact ih more h

theorem lookup_replace_self (h : lookup docs key = some doc) :
    lookup (replace docs key new) key = some new := by
  induction docs with
  | nil => cases h
  | cons entry rest ih =>
    obtain ⟨k, d⟩ := entry
    unfold lookup at h
    unfold replace
    split at h
    · rename_i hk
      rw [if_pos hk]
      unfold lookup
      exact if_pos hk
    · rename_i hk
      rw [if_neg hk]
      unfold lookup
      rw [if_neg hk]
      exact ih h

theorem lookup_replace_ne (h : other ≠ key) :
    lookup (replace docs key new) other = lookup docs other := by
  induction docs with
  | nil => rfl
  | cons entry rest ih =>
    obtain ⟨k, d⟩ := entry
    unfold replace
    by_cases hk : k = key
    · have apart : ¬ k = other := fun ho => h (ho.symm.trans hk)
      rw [if_pos hk]
      unfold lookup
      rw [if_neg apart, if_neg apart]
    · rw [if_neg hk]
      unfold lookup
      rw [ih]

theorem lookup_discard_ne (h : other ≠ key) :
    lookup (discard docs key) other = lookup docs other := by
  induction docs with
  | nil => rfl
  | cons entry rest ih =>
    obtain ⟨k, d⟩ := entry
    unfold discard
    by_cases hk : k = key
    · have apart : ¬ k = other := fun ho => h (ho.symm.trans hk)
      rw [if_pos hk]
      rw [lookup_cons, if_neg apart]
    · rw [if_neg hk]
      unfold lookup
      rw [ih]

theorem lookup_append (docs more : List (Option String × Fields)) (key : Option String) :
    lookup (docs ++ more) key = (lookup docs key).or (lookup more key) := by
  induction docs with
  | nil => rfl
  | cons entry rest ih =>
    obtain ⟨k, d⟩ := entry
    rw [List.cons_append, lookup_cons, lookup_cons]
    by_cases hk : k = key
    · rw [if_pos hk, if_pos hk]
      rfl
    · rw [if_neg hk, if_neg hk]
      exact ih

theorem keys_replace : (replace docs key new).map (·.1) = docs.map (·.1) := by
  induction docs with
  | nil => rfl
  | cons entry rest ih =>
    obtain ⟨k, d⟩ := entry
    unfold replace
    split
    · rfl
    · rw [List.map_cons, List.map_cons, ih]

theorem replace_self (h : lookup docs key = some doc) : replace docs key doc = docs := by
  induction docs with
  | nil => rfl
  | cons entry rest ih =>
    obtain ⟨k, d⟩ := entry
    unfold lookup at h
    unfold replace
    split at h
    · rename_i hk
      cases h
      rw [if_pos hk]
    · rename_i hk
      rw [if_neg hk, ih h]

/-- Of two replacements under one key the later one counts. -/
theorem replace_replace (first second : Fields) :
    replace (replace docs key first) key second = replace docs key second := by
  induction docs with
  | nil => rfl
  | cons entry rest ih =>
    obtain ⟨k, d⟩ := entry
    by_cases hk : k = key
    · simp only [replace, hk, if_true]
    · simp only [replace, hk, if_false, ih]

theorem discard_sublist : (discard docs key).Sublist docs := by
  induction docs with
  | nil => exact List.Sublist.slnil
  | cons entry rest ih =>
    obtain ⟨k, d⟩ := entry
    unfold discard
    split
    · exact List.sublist_cons_self _ _
    · exact ih.cons_cons _

theorem mem_replace {entry : Option String × Fields} (h : entry ∈ replace docs key new) :
    entry = (key, new) ∨ entry ∈ docs := by
  induction docs with
  | nil => cases h
  | cons first rest ih =>
    obtain ⟨k, d⟩ := first
    unfold replace at h
    split at h
    · rename_i hk
      rcases List.mem_cons.1 h with rfl | h
      · exact .inl (by rw [hk])
      · exact .inr (List.mem_cons_of_mem _ h)
    · rcases List.mem_cons.1 h with rfl | h
      · exact .inr List.mem_cons_self
      · exact (ih h).imp_right (List.mem_cons_of_mem _)

end Lookups

/-! ## Collections as they should be -/

/-- A collection in order by its keys: none is in use twice, and every document is filed under the key
    of its identifier. -/
structure Keyed (c : Collection) : Prop where
  keys : (c.docs.map (·.1)).Nodup
  under : ∀ entry ∈ c.docs, entry.1 = Identity.key (Fields.getD entry.2 c.idField)

/-- A collection as it should be: no key is in use twice, every document is filed under the key of
    its identifier, and no document has two fields of one name. -/
structure Filed (c : Collection) : Prop where
  keys : (c.docs.map (·.1)).Nodup
  under : ∀ entry ∈ c.docs, entry.1 = Identity.key (Fields.getD entry.2 c.idField)
  distinct : ∀ entry ∈ c.docs, Fields.Distinct entry.2

theorem Filed.keyed {c : Collection} (filed : Filed c) : Keyed c := ⟨filed.keys, filed.under⟩

theorem Keyed.filed {c : Collection} (keyed : Keyed c)
    (distinct : ∀ entry ∈ c.docs, Fields.Distinct entry.2) : Filed c :=
  ⟨keyed.keys, keyed.under, distinct⟩

/-- The identifier of every document can be shown, so that its key is the text that shows it. -/
def Shown (c : Collection) : Prop :=
  ∀ entry ∈ c.docs, (Fields.getD entry.2 c.idField).hasPlain = true

/-- A document is found by an identifier that can be shown, under its key. -/
theorem get?_ok {c : Collection} {id : Value} {found : Option Fields} :
    c.get? id = .ok found ↔ id.hasPlain = true ∧ lookup c.docs (Identity.key id) = found := by
  unfold get?
  rw [bind_eq_ok]
  constructor
  · rintro ⟨key, keyed, looked⟩
    obtain ⟨shown, rfl⟩ := Identity.filing_ok.1 keyed
    exact ⟨shown, Except.ok.inj looked⟩
  · rintro ⟨shown, rfl⟩
    exact ⟨_, Identity.filing_ok.2 ⟨shown, rfl⟩, rfl⟩

/-! ## The fields that a save writes -/

variable {idField : String} {data stored : Fields} {names : List String}

theorem writeField_distinct (h : Fields.Distinct stored) (name : String) :
    Fields.Distinct (writeField idField data stored name) := by
  unfold writeField
  split
  · exact h
  · split
    · exact h.set name _
    · exact h.erase name

theorem writeFields_distinct (h : Fields.Distinct stored) (names : List String) :
    Fields.Distinct (writeFields idField data stored names) := by
  unfold writeFields
  induction names generalizing stored with
  | nil => exact h
  | cons name rest ih => exact ih (writeField_distinct h name)

theorem get?_writeField (h : Fields.Distinct stored) (name n : String) :
    Fields.get? (writeField idField data stored name) n =
      if n = name ∧ n ≠ idField then Fields.get? data n else Fields.get? stored n := by
  unfold writeField
  by_cases own : name = idField
  · rw [if_pos own, if_neg]
    rintro ⟨rfl, other⟩
    exact other own
  · rw [if_neg own]
    by_cases same : n = name
    · subst same
      rw [if_pos ⟨rfl, own⟩]
      cases found : Fields.get? data n with
      | some v => exact Fields.get?_set_self stored n v
      | none => exact Fields.get?_erase_self h n
    · rw [if_neg fun both => same both.1]
      cases Fields.get? data name with
      | some v => exact Fields.get?_set_ne stored v same
      | none => exact Fields.get?_erase_ne stored same

/-- **What a save writes**: the named fields as they are in the copy, all others as they were. The
    identifier field is never among them. -/
theorem get?_writeFields (h : Fields.Distinct stored) (names : List String) (n : String) :
    Fields.get? (writeFields idField data stored names) n =
      if n ∈ names ∧ n ≠ idField then Fields.get? data n else Fields.get? stored n := by
  unfold writeFields
  induction names generalizing stored with
  | nil => simp
  | cons name rest ih =>
    rw [List.foldl_cons, ih (writeField_distinct h name), get?_writeField h]
    by_cases own : n = idField
    · simp [own]
    · by_cases same : n = name
      · subst same
        simp [own]
      · simp [same, own]

/-- A save of some fields does not touch the identifier field. -/
theorem get?_writeFields_own (stored : Fields) (names : List String) :
    Fields.get? (writeFields idField data stored names) idField = Fields.get? stored idField := by
  unfold writeFields
  induction names generalizing stored with
  | nil => rfl
  | cons name rest ih =>
    rw [List.foldl_cons, ih]
    unfold writeField
    by_cases own : name = idField
    · rw [if_pos own]
    · rw [if_neg own]
      split
      · exact Fields.get?_set_ne stored _ (Ne.symm own)
      · exact Fields.get?_erase_ne stored (Ne.symm own)

end Collection

/-! ## What a save does with a document -/

namespace Handle

/-- Whether a save files a document anew: its identifier is to be written, and has changed. -/
def refiled (h : Handle) (idField : String) (fields : DirtySet) : Bool :=
  fields.contains idField && h.idChanged

/-- The key under which a save leaves a document that it finds. -/
def keyAfter (h : Handle) (idField : String) (fields : DirtySet) : Option String :=
  if h.refiled idField fields then Identity.key h.id else Identity.key h.addressId

/-- What a save makes of the document that it finds. -/
def contentsAfter (h : Handle) (idField : String) (fields : DirtySet) (stored : Fields) : Fields :=
  Collection.writeFields idField h.data
    (if h.refiled idField fields then Fields.set stored idField h.id else stored) fields.fields

variable {h : Handle} {fields : DirtySet} {stored : Fields} {idField : String}

/-- What a save leaves, field by field. -/
theorem get?_contentsAfter (distinct : Fields.Distinct stored) (name : String) :
    Fields.get? (h.contentsAfter idField fields stored) name =
      if name = idField then
        if h.refiled idField fields = true then some h.id else Fields.get? stored idField
      else if name ∈ fields.fields then Fields.get? h.data name else Fields.get? stored name := by
  unfold contentsAfter
  by_cases moved : h.refiled idField fields = true
  · rw [if_pos moved, Collection.get?_writeFields (distinct.set idField h.id)]
    by_cases own : name = idField
    · rw [if_pos own, if_pos moved, if_neg fun both => both.2 own, own]
      exact Fields.get?_set_self stored idField h.id
    · rw [if_neg own, Fields.get?_set_ne stored h.id own]
      simp only [own, ne_eq, not_false_eq_true, and_true]
  · rw [if_neg moved, Collection.get?_writeFields distinct]
    by_cases own : name = idField
    · rw [if_pos own, if_neg moved, if_neg fun both => both.2 own, own]
    · rw [if_neg own]
      simp only [own, ne_eq, not_false_eq_true, and_true]

end Handle

namespace Collection

variable {h : Handle} {fields : DirtySet} {s t : Session Collection} {stored final : Fields}

/-- Filing anew: the new key was not in use, and leads to the document from then on. -/
theorem refile_ok {c after : Collection} {key newKey : Option String} {doc new : Fields}
    {newId : Value} (found : lookup c.docs key = some doc)
    (run : c.refile key doc newId = .ok (after, newKey, new)) :
    newKey = Identity.key newId ∧ new = Fields.set doc c.idField newId ∧ newKey ≠ key ∧
      lookup c.docs newKey = none ∧ lookup (discard c.docs key) newKey = none ∧
      after = { c with docs := discard c.docs key ++ [(newKey, new)] } ∧
      lookup after.docs newKey = some new := by
  rw [refile_eq (refile_shown run)] at run
  cases used : lookup c.docs (Identity.key newId) with
  | some other =>
    simp only [used, Option.isSome_some, if_true] at run
    cases run
  | none =>
    simp only [used, Option.isSome_none, Bool.false_eq_true, if_false] at run
    cases run
    have apart : Identity.key newId ≠ key := by
      intro same
      rw [same, found] at used
      cases used
    have gone : lookup (discard c.docs key) (Identity.key newId) = none := by
      rw [lookup_discard_ne apart, used]
    refine ⟨rfl, rfl, apart, used, gone, rfl, ?_⟩
    show lookup (_ ++ _) _ = _
    rw [lookup_append, gone]
    exact if_pos rfl

/-- A save of a document that is found: the document is filed anew if need be, and then its fields
    are written. -/
theorem store_overwrites (found : lookup s.store.docs (Identity.key h.addressId) = some stored)
    (run : store h fields s = .ok final t) :
    ∃ after key doc,
      (if h.refiled s.store.idField fields
        then s.store.refile (Identity.key h.addressId) stored h.id
        else .ok (s.store, Identity.key h.addressId, stored)) = .ok (after, key, doc) ∧
      final = writeFields after.idField h.data doc fields.fields ∧
      t = { s with store := { after with docs := replace after.docs key final } } := by
  rw [store_over (store_shown run) found] at run
  simp only [overwrite_eq] at run
  unfold Handle.refiled
  split at run
  · cases run
  · rename_i written
    cases run
    split at written
    · cases written
    · rename_i renamed judged
      rw [(Handle.renamedBy_ok.1 judged).2]
      split at written
      · cases written
      · rename_i after key doc moved
        cases written
        exact ⟨after, key, doc, moved, rfl, rfl⟩

/-- **A save of a document that is found** writes this one document. Its new key, if it gets one,
    was not in use; under all other keys everything stays. -/
theorem store_found (found : lookup s.store.docs (Identity.key h.addressId) = some stored)
    (run : store h fields s = .ok final t) :
    final = h.contentsAfter s.store.idField fields stored ∧
      t.store.idField = s.store.idField ∧
      lookup t.store.docs (h.keyAfter s.store.idField fields) = some final ∧
      (h.refiled s.store.idField fields = true → lookup s.store.docs (Identity.key h.id) = none) ∧
      ∀ key doc, key ≠ Identity.key h.addressId → lookup s.store.docs key = some doc →
        lookup t.store.docs key = some doc := by
  obtain ⟨after, newKey, new, filing, rfl, rfl⟩ := store_overwrites found run
  unfold Handle.contentsAfter Handle.keyAfter
  by_cases moved : h.refiled s.store.idField fields = true
  · simp only [moved, if_true] at filing ⊢
    obtain ⟨rfl, rfl, _, unused, _, rfl, leads⟩ := refile_ok found filing
    refine ⟨rfl, rfl, lookup_replace_self leads, fun _ => unused, fun key doc hkey hdoc => ?_⟩
    have other : key ≠ Identity.key h.id := by
      rintro rfl
      rw [unused] at hdoc
      cases hdoc
    show lookup (replace _ (Identity.key h.id) _) key = _
    rw [lookup_replace_ne other, lookup_append, lookup_discard_ne hkey, hdoc]
    rfl
  · simp only [moved] at filing ⊢
    cases filing
    refine ⟨rfl, rfl, lookup_replace_self found, fun h => absurd h Bool.false_ne_true,
      fun key doc hkey hdoc => ?_⟩
    show lookup (replace _ (Identity.key h.addressId) _) key = _
    rw [lookup_replace_ne hkey, hdoc]

/-! ## Writes to a collection in order -/

section Writes

variable {c : Collection} {doc new : Fields} {key : Option String}

/-- A new document is filed under a key that is not in use. -/
theorem Keyed.add (keyed : Keyed c)
    (unused : lookup c.docs (Identity.key (Fields.getD doc c.idField)) = none) :
    Keyed { c with docs := c.docs ++ [(Identity.key (Fields.getD doc c.idField), doc)] } where
  keys := by
    rw [List.map_append]
    refine List.nodup_append.2 ⟨keyed.keys, by simp, ?_⟩
    intro k hk k' hk' same
    have last : k' = Identity.key (Fields.getD doc c.idField) := List.mem_singleton.1 hk'
    rw [same, last] at hk
    exact lookup_eq_none.1 unused hk
  under entry hentry := by
    rcases List.mem_append.1 hentry with held | new
    · exact keyed.under entry held
    · rw [List.mem_singleton.1 new]

theorem Keyed.discard (keyed : Keyed c) (key : Option String) :
    Keyed { c with docs := Collection.discard c.docs key } where
  keys := keyed.keys.sublist (discard_sublist.map _)
  under entry hentry := keyed.under entry (discard_sublist.subset hentry)

/-- A document is replaced by one that belongs under the same key. -/
theorem Keyed.replace (keyed : Keyed c)
    (same : key = Identity.key (Fields.getD new c.idField)) :
    Keyed { c with docs := Collection.replace c.docs key new } where
  keys := by
    show ((Collection.replace c.docs key new).map (·.1)).Nodup
    rw [keys_replace]
    exact keyed.keys
  under entry hentry := by
    rcases mem_replace hentry with rfl | held
    · exact same
    · exact keyed.under entry held

/-- Fields that a save writes leave a document under its key. -/
theorem Keyed.overwrite (keyed : Keyed c) (found : lookup c.docs key = some doc)
    (data : Fields) (names : List String) :
    Keyed { c with docs :=
      Collection.replace c.docs key (writeFields c.idField data doc names) } := by
  refine keyed.replace ?_
  rw [Fields.getD, get?_writeFields_own]
  exact keyed.under _ (lookup_mem found)

end Writes

/-! ## The collection stays as it should be -/

section Runs

variable {doc : Fields} {fault : Fault}

theorem identify_distinct {name : String} {named : Fields} (distinct : Fields.Distinct doc)
    (run : Access.identify name doc s = .ok named t) :
    Fields.Distinct named ∧ t.store = s.store := by
  unfold Access.identify at run
  split at run
  · obtain ⟨id, u, minted, run⟩ := run_bind_ok.1 run
    obtain ⟨rfl, rfl⟩ := run_pure_ok.1 run
    cases minted
    exact ⟨distinct.set name _, rfl⟩
  · obtain ⟨rfl, rfl⟩ := run_pure_ok.1 run
    exact ⟨distinct, rfl⟩

/-- Filing: the document gets its identifier, and comes to stand at the end under a key that was not
    in use. -/
theorem file_adds (run : file doc s = .ok final t) :
    (∃ u, Access.identify s.store.idField doc s = .ok final u) ∧
      lookup s.store.docs (Identity.key (Fields.getD final s.store.idField)) = none ∧
      t.store = { s.store with docs :=
        s.store.docs ++ [(Identity.key (Fields.getD final s.store.idField), final)] } := by
  obtain ⟨u, identified, _, unused, rfl⟩ := file_ok.1 run
  exact ⟨⟨u, identified⟩, unused, rfl⟩

theorem file_keyed (keyed : Keyed s.store) (run : file doc s = .ok final t) : Keyed t.store := by
  obtain ⟨_, unused, left⟩ := file_adds run
  rw [left]
  exact keyed.add unused

theorem file_distinct (held : ∀ entry ∈ s.store.docs, Fields.Distinct entry.2)
    (distinct : Fields.Distinct doc) (run : file doc s = .ok final t) :
    ∀ entry ∈ t.store.docs, Fields.Distinct entry.2 := by
  obtain ⟨⟨u, identified⟩, _, left⟩ := file_adds run
  intro entry among
  rw [left] at among
  rcases List.mem_append.1 among with among | new
  · exact held entry among
  · rw [List.mem_singleton.1 new]
    exact (identify_distinct distinct identified).1

/-- **A save leaves every document under its key.** -/
theorem store_keyed (keyed : Keyed s.store) (run : store h fields s = .ok final t) :
    Keyed t.store := by
  cases found : lookup s.store.docs (Identity.key h.addressId) with
  | none =>
    rw [store_missing (store_shown run) found] at run
    exact file_keyed keyed run
  | some doc =>
    obtain ⟨after, key, new, filing, rfl, rfl⟩ := store_overwrites found run
    by_cases moved : h.refiled s.store.idField fields = true
    · -- The document leaves its old place, comes to stand at the end, and is written there.
      simp only [moved, if_true] at filing
      obtain ⟨rfl, rfl, _, _, unused, rfl, leads⟩ := refile_ok found filing
      have identifier : Fields.getD (Fields.set doc s.store.idField h.id) s.store.idField = h.id := by
        rw [Fields.getD, Fields.get?_set_self]
        rfl
      have added := (keyed.discard (Identity.key h.addressId)).add
        (by rw [identifier]; exact unused)
      rw [identifier] at added
      exact added.overwrite leads h.data fields.fields
    · simp only [moved] at filing
      cases filing
      exact keyed.overwrite found h.data fields.fields

theorem store_distinct (held : ∀ entry ∈ s.store.docs, Fields.Distinct entry.2)
    (distinct : Fields.Distinct h.data) (run : store h fields s = .ok final t) :
    ∀ entry ∈ t.store.docs, Fields.Distinct entry.2 := by
  cases found : lookup s.store.docs (Identity.key h.addressId) with
  | none =>
    rw [store_missing (store_shown run) found] at run
    exact file_distinct held distinct run
  | some doc =>
    have distinctDoc : Fields.Distinct doc := held _ (lookup_mem found)
    obtain ⟨after, key, new, filing, rfl, rfl⟩ := store_overwrites found run
    have before : Fields.Distinct new ∧ ∀ entry ∈ after.docs, Fields.Distinct entry.2 := by
      by_cases moved : h.refiled s.store.idField fields = true
      · simp only [moved, if_true] at filing
        obtain ⟨rfl, rfl, _, _, _, rfl, _⟩ := refile_ok found filing
        refine ⟨distinctDoc.set _ _, fun entry among => ?_⟩
        rcases List.mem_append.1 among with among | last
        · exact held entry (discard_sublist.subset among)
        · rw [List.mem_singleton.1 last]
          exact distinctDoc.set _ _
      · simp only [moved] at filing
        cases filing
        exact ⟨distinctDoc, held⟩
    intro entry among
    rcases mem_replace among with rfl | among
    · exact writeFields_distinct before.1 fields.fields
    · exact before.2 entry among

/-- **A save leaves the collection as it should be.** -/
theorem store_filed (filed : Filed s.store) (distinct : Fields.Distinct h.data)
    (run : store h fields s = .ok final t) : Filed t.store :=
  (store_keyed filed.keyed run).filed (store_distinct filed.distinct distinct run)

theorem file_keepsShown (held : Shown s.store) (run : file doc s = .ok final t) :
    Shown t.store := by
  obtain ⟨u, _, shown, _, rfl⟩ := file_ok.1 run
  intro entry among
  rcases List.mem_append.1 among with among | new
  · exact held entry among
  · rw [List.mem_singleton.1 new]
    exact shown

theorem store_keepsShown (held : Shown s.store) (run : store h fields s = .ok final t) :
    Shown t.store := by
  cases found : lookup s.store.docs (Identity.key h.addressId) with
  | none =>
    rw [store_missing (store_shown run) found] at run
    exact file_keepsShown held run
  | some doc =>
    obtain ⟨after, key, new, filing, rfl, rfl⟩ := store_overwrites found run
    have before : (Fields.getD new after.idField).hasPlain = true ∧ Shown after := by
      by_cases moved : h.refiled s.store.idField fields = true
      · simp only [moved, if_true] at filing
        have shown := refile_shown filing
        obtain ⟨rfl, rfl, _, _, _, rfl, _⟩ := refile_ok found filing
        have own : Fields.getD (Fields.set doc s.store.idField h.id) s.store.idField = h.id := by
          rw [Fields.getD, Fields.get?_set_self]
          rfl
        have anew : (Fields.getD (Fields.set doc s.store.idField h.id)
            s.store.idField).hasPlain = true := by
          rw [own]
          exact shown
        refine ⟨anew, fun entry among => ?_⟩
        rcases List.mem_append.1 among with among | last
        · exact held entry (discard_sublist.subset among)
        · rw [List.mem_singleton.1 last]
          exact anew
      · simp only [moved] at filing
        cases filing
        exact ⟨held _ (lookup_mem found), held⟩
    intro entry among
    rcases mem_replace among with rfl | among
    · show (Fields.getD (writeFields _ _ _ _) _).hasPlain = true
      rw [Fields.getD, get?_writeFields_own]
      exact before.1
    · exact before.2 entry among

theorem file_cleanStop (doc : Fields) : Access.CleanStop id (file doc) := by
  intro s fault t stop
  rw [file_eq] at stop
  obtain ⟨named, u, identified⟩ := Access.identify_returns s.store.idField doc s
  have keeps : Access.Keeps id (Access.identify s.store.idField doc : Access Collection Fields) :=
    .identify _ _
  simp only [identified] at stop
  split at stop
  · cases stop
    exact keeps.ok identified
  · split at stop
    · cases stop
      exact keeps.ok identified
    · cases stop

theorem store_cleanStop : Access.CleanStop id (store h fields) := by
  intro s fault t stop
  rw [store_eq] at stop
  split at stop
  · cases stop
    rfl
  · split at stop
    · exact file_cleanStop h.data s fault t stop
    · split at stop
      · cases stop
        rfl
      · cases stop

/-- **A save that does not go through** leaves the handle and the collection as they were, but for the
    attempt, which counts. -/
theorem save_error {after : Handle} {fault : Fault} {s t : Session Collection}
    (run : save h fields s = .ok (after, .error fault) t) :
    after = h ∧ t.store = s.store.attempted := by
  rw [save_eq] at run
  dsimp only at run
  split at run
  · cases run
    exact ⟨rfl, rfl⟩
  · split at run
    · rename_i stop
      cases run
      exact ⟨rfl, store_cleanStop _ _ _ stop⟩
    · cases run

/-- A property that the filing of a document keeps if it goes through is kept if it is refused. -/
theorem file_preserves_of {P : Collection → Prop}
    (filing : ∀ s named t, P s.store → file doc s = .ok named t → P t.store) :
    Access.Preserves P (file doc) := by
  intro s start
  unfold Access.sessionAfter
  cases run : file doc s with
  | ok named t => exact filing s named t start run
  | error fault t =>
    have same : t.store = s.store := file_cleanStop doc s fault t run
    show P t.store
    rw [same]
    exact start

theorem file_preserves (distinct : Fields.Distinct doc) :
    Access.Preserves Filed (file doc) :=
  file_preserves_of fun _ _ _ filed run =>
    (file_keyed filed.keyed run).filed (file_distinct filed.distinct distinct run)

/-- A property that the storing of a document keeps if it goes through is kept if it is refused. -/
theorem store_preserves_of {P : Collection → Prop}
    (storing : ∀ s final t, P s.store → store h fields s = .ok final t → P t.store) :
    Access.Preserves P (store h fields) := by
  intro s start
  unfold Access.sessionAfter
  cases run : store h fields s with
  | ok final t => exact storing s final t start run
  | error fault t =>
    have same : t.store = s.store := store_cleanStop s fault t run
    show P t.store
    rw [same]
    exact start

theorem store_preserves (distinct : Fields.Distinct h.data) :
    Access.Preserves Filed (store h fields) :=
  store_preserves_of fun _ _ _ filed run => store_filed filed distinct run

/-- A property that does not count attempts and writes, and that the storing of a document keeps, is
    kept by its save, whether it goes through or is refused. -/
theorem save_preserves_of {P : Collection → Prop}
    (counts : ∀ c, P c → P c.attempted ∧ P c.changed)
    (storing : Access.Preserves P (store h fields)) : Access.Preserves P (save h fields) := by
  unfold save
  have attempt : Access.Preserves P (Access.modifyStore attempted) :=
    fun s start => (counts s.store start).1
  have change : Access.Preserves P (Access.modifyStore changed) :=
    fun s start => (counts s.store start).2
  refine attempt.bind fun _ => (Access.Keeps.look _).preserves.bind fun c => ?_
  split
  · exact (Access.Keeps.pure _).preserves
  · refine storing.attempt.bind fun r => ?_
    cases r with
    | error fault => exact (Access.Keeps.pure _).preserves
    | ok stored => exact change.bind fun _ => (Access.Keeps.pure _).preserves

/-- Counting plays no part in how documents are filed. -/
theorem Filed.counted {c : Collection} (filed : Filed c) : Filed c.attempted ∧ Filed c.changed :=
  ⟨⟨filed.keys, filed.under, filed.distinct⟩, ⟨filed.keys, filed.under, filed.distinct⟩⟩

theorem save_preservesShown : Access.Preserves Shown (save h fields) :=
  save_preserves_of (fun _ held => ⟨held, held⟩)
    (store_preserves_of fun _ _ _ held run => store_keepsShown held run)

/-- **A save leaves the collection as it should be**, whether it goes through or is refused. -/
theorem save_preserves (distinct : Fields.Distinct h.data) :
    Access.Preserves Filed (save h fields) :=
  save_preserves_of (fun _ filed => filed.counted) (store_preserves distinct)

/-- A property that the filing of each document keeps is kept by the filing of all. -/
theorem fileAll_preserves_of {P : Collection → Prop} {docs : List Value}
    (filing : ∀ doc, Value.object doc ∈ docs → Access.Preserves P (file doc)) :
    Access.Preserves P (fileAll docs) := by
  induction docs with
  | nil => exact (Access.Keeps.pure _).preserves
  | cons v rest ih =>
    have more := ih fun doc hdoc => filing doc (List.mem_cons_of_mem _ hdoc)
    cases v with
    | object doc =>
      refine (filing doc List.mem_cons_self).bind fun _ => ?_
      exact more.bind fun _ => (Access.Keeps.pure _).preserves
    | _ => exact (Access.Keeps.lift _).preserves

/-- The members of a value, as far as they are objects, have no two fields of one name. -/
def DistinctMembers (docs : Value) : Prop :=
  ∀ members, docs.members = .ok members →
    ∀ doc, Value.object doc ∈ members → Fields.Distinct doc

/-- A property that the filing of each new document keeps is kept by their creation. -/
theorem create_preserves_of {P : Collection → Prop} {docs : Value}
    (counts : ∀ c, P c → P c.changed)
    (filing : ∀ members, docs.members = .ok members →
      ∀ doc, Value.object doc ∈ members → Access.Preserves P (file doc)) :
    Access.Preserves P (create docs) := by
  unfold create
  refine (Access.Keeps.lift _).preserves.bind_of fun s members t _ listed => ?_
  have given := (Access.lift_ok.1 listed).1
  refine (fileAll_preserves_of (filing members given)).bind fun created => ?_
  have change : Access.Preserves P (Access.modifyStore changed) :=
    fun s start => counts s.store start
  refine change.bind fun _ => ?_
  exact (Access.Keeps.look _).preserves.bind fun _ => (Access.Keeps.pure _).preserves

/-- **New documents leave the collection as it should be**, even if one of them is refused. -/
theorem create_preserves {docs : Value} (distinct : DistinctMembers docs) :
    Access.Preserves Filed (create docs) :=
  create_preserves_of (fun _ filed => filed.counted.2) fun members given doc hdoc =>
    file_preserves (distinct members given doc hdoc)

/-- **A removal leaves the collection as it should be.** -/
theorem delete_preserves : Access.Preserves Filed (delete h) := by
  refine (Access.Keeps.lift _).preserves.bind fun key s filed => ?_
  obtain ⟨keys, under⟩ := filed.keyed.discard key
  exact ⟨keys, under, fun entry among => filed.distinct entry (discard_sublist.subset among)⟩

theorem create_preservesShown {docs : Value} : Access.Preserves Shown (create docs) :=
  create_preserves_of (fun _ held => held) fun _ _ _ _ =>
    file_preserves_of fun _ _ _ held run => file_keepsShown held run

theorem delete_preservesShown : Access.Preserves Shown (delete h) :=
  (Access.Keeps.lift _).preserves.bind fun _ _ held entry among =>
    held entry (discard_sublist.subset among)

/-- A property of the empty collection that the filing of each document keeps holds of a collection
    that is built. -/
theorem build_preserves_of {P : Collection → Prop} {empty c : Collection} {docs : Value}
    {supply after : Supply} (start : P empty)
    (filing : ∀ members, docs.members = .ok members →
      ∀ doc, Value.object doc ∈ members → Access.Preserves P (file doc))
    (run : build empty docs supply = (.ok c, after)) : P c := by
  unfold build at run
  have keeps : Access.Preserves P (do fileAll (← Access.lift docs.members)) := by
    refine (Access.Keeps.lift _).preserves.bind_of fun s members t _ listed => ?_
    exact fileAll_preserves_of (filing members (Access.lift_ok.1 listed).1)
  split at run
  · rename_i x s filing
    cases run
    exact keeps.ok (s := ⟨empty, supply⟩) start filing
  · cases run

/-- **A collection that is built is as it should be.** -/
theorem build_filed {empty c : Collection} {docs : Value} {supply after : Supply}
    (nothing : empty.docs = []) (distinct : DistinctMembers docs)
    (run : build empty docs supply = (.ok c, after)) : Filed c := by
  have start : Filed empty := by
    refine ⟨?_, ?_, ?_⟩
    all_goals rw [nothing]
    all_goals simp
  exact build_preserves_of start (fun members given doc hdoc =>
    file_preserves (distinct members given doc hdoc)) run

/-- **In a collection that is built every identifier can be shown.** -/
theorem build_shown {empty c : Collection} {docs : Value} {supply after : Supply}
    (nothing : empty.docs = []) (run : build empty docs supply = (.ok c, after)) : Shown c := by
  refine build_preserves_of ?_ (fun _ _ _ _ =>
    file_preserves_of fun _ _ _ held run => file_keepsShown held run) run
  intro entry among
  rw [nothing] at among
  cases among

end Runs

end Collection

end DocRepair

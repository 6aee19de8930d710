import DocRepair.Proofs.Loans
import DocRepair.Proofs.Preview
/-!
# `DocRepair.Proofs.Reached` — collections after any writes

A collection is built from documents, and then saves, creations and removals follow in any order,
through handles in any condition; some of them are refused. Throughout, every document is filed under
the key of its identifier, and no key is in use twice. A document can be without an identifier in one
way only: a save writes the identifier field of a handle from which the identifier was taken out.
Such a save is let through, and files the document under the key of null.

## Contents

* `Collection.Write` / `Write.after` — a write with its arguments, and the collection behind it;
* `Write.Blanks` — a save that takes away an identifier;
* `Collection.Reached` — what writes of a given sort can lead to;
* `Collection.store_identified` / `Write.after_identified` — documents have identifiers after a save,
  and after any write;
* `Reached.representation` — what holds of every collection that can be reached.
-/

namespace DocRepair.Collection

open Access

/-! ## Writes -/

/-- A write to a collection with its arguments, or another rule by which saves are refused. Handles
    may be in any condition. -/
inductive Write
  | save (h : Handle) (fields : DirtySet)
  | create (docs : Value)
  | delete (h : Handle)
  | refusing (rejects : Handle → Bool)

namespace Write

/-- The collection behind a write, whether that went through or was refused. -/
def after (supply : Supply) (c : Collection) : Write → Collection
  | .save h fields => ((Collection.save h fields).sessionAfter ⟨c, supply⟩).store
  | .create docs => ((Collection.create docs).sessionAfter ⟨c, supply⟩).store
  | .delete h => ((Collection.delete h).sessionAfter ⟨c, supply⟩).store
  | .refusing rejects => { c with rejects := rejects }

/-- No document that is given to a write has two fields of one name. -/
def Sound : Write → Prop
  | .save h _ => Fields.Distinct h.data
  | .create docs => DistinctMembers docs
  | .delete _ | .refusing _ => True

/-- A save takes away the identifier of a stored document: it is let through, it is to write the
    identifier field, and the handle, known by an identifier in use, has none any more. -/
def Blanks (c : Collection) : Write → Prop
  | .save h fields =>
    c.rejects h = false ∧ fields.contains c.idField = true ∧ h.id.isNull = true ∧
      h.knownId.isNull = false ∧ h.knownId.hasPlain = true ∧
      (lookup c.docs (Identity.key h.knownId)).isSome = true
  | _ => False

end Write

/-- The collections that can be reached: from one that is built, by any writes of an allowed sort,
    each with a supply of its own. -/
inductive Reached (allowed : Collection → Write → Prop) : Collection → Prop
  | built {empty c : Collection} {docs : Value} {supply rest : Supply} (nothing : empty.docs = [])
      (sound : DistinctMembers docs) (run : build empty docs supply = (.ok c, rest)) :
      Reached allowed c
  | written {c : Collection} (before : Reached allowed c) (w : Write) (sound : w.Sound)
      (allows : allowed c w) (supply : Supply) : Reached allowed (w.after supply c)

/-- All documents have identifiers. -/
def Identified (c : Collection) : Prop :=
  ∀ entry ∈ c.docs, Named c.idField entry.2

/-! ## One save -/

section Saves

variable {c : Collection} {h : Handle} {fields : DirtySet} {s t : Session Collection}
  {doc stored final : Fields}

/-- In a collection whose documents all have identifiers, nothing is filed under the key of null. -/
theorem Identified.unused (identified : Identified c) (filed : c.Filed) :
    lookup c.docs (Identity.key .null) = none := by
  cases found : lookup c.docs (Identity.key .null) with
  | none => rfl
  | some doc =>
    have under := filed.under _ (lookup_mem found)
    rw [Identity.key_of_not_null (identified _ (lookup_mem found))] at under
    cases under

theorem file_identified (identified : Identified s.store) (run : file doc s = .ok final t) :
    Identified t.store := by
  obtain ⟨u, identifies, _, _, rfl⟩ := file_ok.1 run
  intro entry hentry
  rcases List.mem_append.1 hentry with held | new
  · exact identified entry held
  · rw [List.mem_singleton.1 new]
    exact identify_named identifies

/-- What a save leaves as the identifier of a document that it finds. -/
theorem named_contentsAfter (distinct : Fields.Distinct stored) (named : Named c.idField stored) :
    Named c.idField (h.contentsAfter c.idField fields stored) ↔
      (h.refiled c.idField fields = true → h.id.isNull = false) := by
  unfold Named at named ⊢
  rw [Fields.getD, Handle.get?_contentsAfter distinct, if_pos rfl]
  by_cases moved : h.refiled c.idField fields = true
  · rw [if_pos moved]
    exact ⟨fun id _ => id, fun id => id moved⟩
  · rw [if_neg moved]
    exact ⟨fun _ moves => absurd moves moved, fun _ => named⟩

/-- **A save that goes through leaves a document without an identifier** exactly if it finds the
    document, is to file it anew, and the handle has no identifier. -/
theorem store_identified (filed : Filed s.store) (identified : Identified s.store)
    (run : store h fields s = .ok final t) :
    Identified t.store ↔
      ((lookup s.store.docs (Identity.key h.addressId)).isSome = true →
        h.refiled s.store.idField fields = true → h.id.isNull = false) := by
  cases found : lookup s.store.docs (Identity.key h.addressId) with
  | none =>
    rw [store_missing (store_shown run) found] at run
    exact ⟨fun _ absent => absurd absent (by simp), fun _ => file_identified identified run⟩
  | some stored =>
    have held := lookup_mem found
    obtain ⟨contents, field, leads, _, _⟩ := store_found found run
    have own : Named s.store.idField (h.contentsAfter s.store.idField fields stored) ↔ _ :=
      named_contentsAfter (filed.distinct _ held) (identified _ held)
    rw [← contents] at own
    constructor
    · intro all _
      have named := all _ (lookup_mem leads)
      rw [field] at named
      exact own.1 named
    · intro keeps
      have named := own.2 (keeps rfl)
      obtain ⟨after, key, new, filing, rfl, rfl⟩ := store_overwrites found run
      intro entry hentry
      rcases mem_replace hentry with rfl | other
      · have kept : after.idField = s.store.idField := field
        rw [← kept] at named
        exact named
      · -- Any other entry was there before, or is the document as it was filed anew.
        split at filing
        · rename_i moved
          obtain ⟨_, anew, _, _, _, rfl, _⟩ := refile_ok found filing
          rcases List.mem_append.1 other with rest | last
          · exact identified entry (discard_sublist.subset rest)
          · rw [List.mem_singleton.1 last, anew]
            show (Fields.getD (Fields.set stored s.store.idField h.id) s.store.idField).isNull = false
            rw [Fields.getD, Fields.get?_set_self]
            exact keeps rfl moved
        · cases filing
          exact identified entry other

/-- A save that blanks is one that finds a document, is to file it anew, and has no identifier to
    file it under. -/
theorem Write.blanks_save :
    (Write.save h fields).Blanks c ↔
      c.rejects h = false ∧ h.addressId.hasPlain = true ∧
        (lookup c.docs (Identity.key h.addressId)).isSome = true ∧
        h.refiled c.idField fields = true ∧ h.id.isNull = true := by
  unfold Write.Blanks Handle.refiled Handle.idChanged Handle.addressId
  constructor
  · rintro ⟨accepted, reported, blank, known, shown, found⟩
    have apart : Identity.agree h.knownId h.id = false := by
      unfold Identity.agree
      rw [blank, Bool.or_true]
      rfl
    simp [accepted, reported, blank, known, shown, found, apart]
  · rintro ⟨accepted, shown, found, moved, blank⟩
    simp only [Bool.and_eq_true, Bool.not_eq_true'] at moved
    obtain ⟨reported, known, _⟩ := moved
    rw [if_neg (by rw [known]; exact Bool.false_ne_true)] at shown found
    exact ⟨accepted, reported, blank, known, shown, found⟩

/-- Nothing stands in the way of filing a document under the key of null. -/
theorem store_blank (filed : Filed s.store) (identified : Identified s.store)
    (shown : h.addressId.hasPlain = true)
    (found : (lookup s.store.docs (Identity.key h.addressId)).isSome = true)
    (moved : h.refiled s.store.idField fields = true) (blank : h.id.isNull = true) :
    ∃ final t, store h fields s = .ok final t := by
  obtain ⟨stored, found⟩ := Option.isSome_iff_exists.1 found
  have null : h.id = .null := by
    cases same : h.id with
    | null => rfl
    | _ => rw [same] at blank; cases blank
  have unused := identified.unused filed
  have judged : h.renamedBy s.store.idField fields = .ok true := by
    refine Handle.renamedBy_ok.2 ⟨fun _ => ?_, moved⟩
    unfold Identity.comparable
    rw [blank, Bool.or_true]
    rfl
  obtain ⟨r, free⟩ : ∃ r, s.store.refile (Identity.key h.addressId) stored h.id = .ok r := by
    rw [null, refile_eq rfl, unused]
    exact ⟨_, rfl⟩
  rw [store_over shown found, overwrite_eq, judged]
  simp only [if_true, free]
  exact ⟨_, _, rfl⟩

end Saves

/-! ## Any write -/

variable {c : Collection} {allowed : Collection → Write → Prop} {supply : Supply}

/-- **A save takes an identifier away exactly if it blanks.** -/
theorem save_identified (filed : c.Filed) (identified : c.Identified) (h : Handle)
    (fields : DirtySet) :
    ((Write.save h fields).after supply c).Identified ↔ ¬ (Write.save h fields).Blanks c := by
  rw [Write.blanks_save]
  show Identified ((Collection.save h fields).sessionAfter ⟨c, supply⟩).store ↔ _
  unfold sessionAfter
  rw [save_eq]
  by_cases refused : c.rejects h = true
  · have refused' : c.attempted.rejects h = true := refused
    simp only [refused', if_true]
    refine ⟨fun _ blanks => ?_, fun _ => identified⟩
    rw [refused] at blanks
    exact absurd blanks.1 (by simp)
  · have accepted : c.attempted.rejects h = false := Bool.eq_false_iff.2 refused
    simp only [accepted, Bool.false_eq_true, if_false]
    have filed' : c.attempted.Filed := filed.counted.1
    have identified' : c.attempted.Identified := identified
    cases done : store h fields ⟨c.attempted, supply⟩ with
    | error fault t =>
      have same : t.store = c.attempted := store_cleanStop _ fault t done
      refine ⟨?_, fun _ => ?_⟩
      · rintro - ⟨_, shown, found, moved, blank⟩
        obtain ⟨final, u, goes⟩ :=
          store_blank (s := ⟨c.attempted, supply⟩) filed' identified' shown found moved blank
        rw [done] at goes
        cases goes
      · show Identified t.store
        rw [same]
        exact identified'
    | ok final t =>
      have left : Identified t.store.changed ↔ Identified t.store := Iff.rfl
      show Identified t.store.changed ↔ _
      rw [left, store_identified (s := ⟨c.attempted, supply⟩) filed' identified' done]
      constructor
      · rintro keeps ⟨_, _, found, moved, blank⟩
        rw [keeps found moved] at blank
        cases blank
      · intro unblanked found moved
        by_contra blank
        exact unblanked ⟨accepted, store_shown done, found, moved, Bool.not_eq_false _ ▸ blank⟩

theorem create_identified {docs : Value} : Preserves Identified (create docs) :=
  create_preserves_of (fun _ identified => identified) fun _ _ _ _ =>
    file_preserves_of fun _ _ _ identified run => file_identified identified run

theorem delete_identified {h : Handle} : Preserves Identified (delete h) :=
  (Keeps.lift _).preserves.bind fun _ _ identified entry hentry =>
    identified entry (discard_sublist.subset hentry)

/-- **A write leaves a document without an identifier exactly if it blanks.** -/
theorem Write.after_identified (filed : c.Filed) (identified : c.Identified) (w : Write)
    (supply : Supply) : (w.after supply c).Identified ↔ ¬ w.Blanks c := by
  cases w with
  | save h fields => exact save_identified filed identified h fields
  | create docs => exact iff_of_true (create_identified ⟨c, supply⟩ identified) not_false
  | delete h => exact iff_of_true (delete_identified ⟨c, supply⟩ identified) not_false
  | refusing rejects =>
    have kept : ((Write.refusing rejects).after supply c).Identified := identified
    exact iff_of_true kept not_false

theorem Write.after_filed (filed : c.Filed) {w : Write} (sound : w.Sound) (supply : Supply) :
    (w.after supply c).Filed := by
  cases w with
  | save h fields => exact save_preserves sound ⟨c, supply⟩ filed
  | create docs => exact create_preserves sound ⟨c, supply⟩ filed
  | delete h => exact delete_preserves ⟨c, supply⟩ filed
  | refusing rejects => exact ⟨filed.keys, filed.under, filed.distinct⟩

theorem Write.after_shown (shown : c.Shown) (w : Write) (supply : Supply) :
    (w.after supply c).Shown := by
  cases w with
  | save h fields => exact save_preservesShown ⟨c, supply⟩ shown
  | create docs => exact create_preservesShown ⟨c, supply⟩ shown
  | delete h => exact delete_preservesShown ⟨c, supply⟩ shown
  | refusing rejects => exact shown

/-! ## Any number of writes -/

/-- Whatever is written, every document stays filed under the key of its identifier. -/
theorem Reached.filed (reached : Reached allowed c) : c.Filed := by
  induction reached with
  | built nothing sound run => exact build_filed nothing sound run
  | written _ w sound _ supply ih => exact w.after_filed ih sound supply

/-- Whatever is written, the identifier of every document can be shown. -/
theorem Reached.shown (reached : Reached allowed c) : c.Shown := by
  induction reached with
  | built nothing _ run => exact build_shown nothing run
  | written _ w _ _ supply ih => exact w.after_shown ih supply

/-- As long as no save blanks, every document has an identifier. -/
theorem Reached.identified (reached : Reached allowed c)
    (spares : ∀ c w, allowed c w → ¬ w.Blanks c) : c.Identified := by
  induction reached with
  | built nothing _ run =>
    refine build_preserves_of ?_ (fun _ _ _ _ =>
      file_preserves_of fun _ _ _ identified run => file_identified identified run) run
    intro entry hentry
    rw [nothing] at hentry
    cases hentry
  | written before w _ allows supply ih =>
    exact (w.after_identified before.filed ih supply).2 (spares _ w allows)

/-- **What holds of every collection that can be reached**: each document is filed under the key of
    its identifier, which can be shown, and no key is in use twice. As long as no save blanks, each
    document has an identifier, and the first save that blanks leaves one without. -/
theorem Reached.representation (reached : Reached allowed c) :
    c.Filed ∧ c.Shown ∧
      ((∀ c w, allowed c w → ¬ w.Blanks c) →
        c.Identified ∧ ∀ w supply, (Write.after supply c w).Identified ↔ ¬ w.Blanks c) := by
  refine ⟨reached.filed, reached.shown, fun spares => ?_⟩
  have identified := reached.identified spares
  exact ⟨identified, fun w supply => w.after_identified reached.filed identified supply⟩

/-- A document is given another identifier; then two are created, and the second is refused, since
    its identifier is in use. -/
theorem Reached.representation_renamed :
    let spares : Collection → Write → Prop := fun c w => ¬ w.Blanks c
    let supply : Supply := { origin := 0, last := 0, pace := 1 }
    let start : Collection :=
      { name := "forms", docs := [(some "d1", [("_id", .text "d1"), ("n", .int 1)])] }
    let h := (loan "_id" [("_id", .text "d1"), ("n", .int 1)]).setField "_id" (.text "d2")
    let renamed := (Write.save h (.ofList ["_id"])).after supply start
    let c := (Write.create
      (.array [.object [("_id", .text "d3")], .object [("_id", .text "d2")]])).after supply renamed
    Reached spares c ∧ c.docs.map (·.1) = [some "d2", some "d3"] ∧
      c.Filed ∧ c.Identified := by
  intro spares supply start h renamed c
  have distinct (docs : List Value) (given : ∀ doc, Value.object doc ∈ docs → Fields.Distinct doc) :
      DistinctMembers (.array docs) := by
    intro members listed
    cases listed
    exact given
  have built : Reached spares start := by
    have builds : build { name := "forms" } (.array [.object [("_id", .text "d1"), ("n", .int 1)]])
        supply = (.ok start, supply) := rfl
    refine .built rfl (distinct _ fun doc given => ?_) builds
    rw [Value.object.inj (List.mem_singleton.1 given)]
    show List.Nodup ["_id", "n"]
    decide
  have saved : Reached spares renamed := by
    refine built.written (.save h (.ofList ["_id"])) ?_ (fun blanks => ?_) supply
    · show List.Nodup ["_id", "n"]
      decide
    · cases blanks.2.2.1
  have created : Reached spares c := by
    refine saved.written (.create _) (distinct _ fun doc given => ?_) not_false supply
    rcases List.mem_cons.1 given with first | given
    · rw [Value.object.inj first]
      exact List.pairwise_singleton _ _
    · rw [Value.object.inj (List.mem_singleton.1 given)]
      exact List.pairwise_singleton _ _
  obtain ⟨filed, _, identified⟩ := Reached.representation created
  exact ⟨created, rfl, filed, (identified fun _ _ spared => spared).1⟩

/-- A handle is fetched, its identifier is taken out, and the identifier field is saved: the save is
    let through, and the document stands under the key of null, without an identifier. -/
theorem identifier_saved_away :
    let supply : Supply := { origin := 0, last := 0, pace := 1 }
    let start : Collection :=
      { name := "forms", docs := [(some "d1", [("_id", .text "d1"), ("n", .int 1)])] }
    let h := (loan "_id" [("_id", .text "d1"), ("n", .int 1)]).unsetField "_id"
    let c := (Write.save h (.ofList ["_id"])).after supply start
    Reached (fun _ _ => True) start ∧ Reached (fun _ _ => True) c ∧
      c.docs = [(none, [("_id", .null), ("n", .int 1)])] ∧ ¬ c.Identified := by
  intro supply start h c
  have built : Reached (fun _ _ => True) start := by
    have builds : build { name := "forms" } (.array [.object [("_id", .text "d1"), ("n", .int 1)]])
        supply = (.ok start, supply) := rfl
    refine .built rfl (fun members listed doc given => ?_) builds
    cases listed
    rw [Value.object.inj (List.mem_singleton.1 given)]
    show List.Nodup ["_id", "n"]
    decide
  have docs : c.docs = [(none, [("_id", .null), ("n", .int 1)])] := rfl
  have blanked : Reached (fun _ _ => True) c :=
    built.written (.save h (.ofList ["_id"])) (List.pairwise_singleton _ _) trivial supply
  refine ⟨built, blanked, docs, fun identified => ?_⟩
  have named := identified (none, [("_id", .null), ("n", .int 1)]) (by rw [docs]; simp)
  cases named

end DocRepair.Collection

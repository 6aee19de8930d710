import DocRepair.Proofs.Created
import DocRepair.Proofs.Reached
/-!
# `DocRepair.Proofs.Overwritten` — what a save through a stale handle writes

Between the fetching of a handle and its save the collection may have been written in any way. If a
document is still filed under the identity that the handle is known by, the save writes the given
fields of that document and nothing else; it may file it anew. If there is none any more, the whole
copy is filed as a new document, whatever fields are given.

## Contents

* `Collection.Rewrites` — documents after a write that goes to given fields only;
* `Collection.forall₂_replace` / `Collection.replace_perm` — one document, in its place or filed anew;
* `Handle.get?_contentsAfter_other` — the fields that are not given;
* `Collection.store_rewrites` / `Collection.store_files` — a save that finds a document, and one that
  does not;
* `Collection.save_rewrites` — when a save writes only the fields it is given;
* `Reached.single` — a collection of one document;
* `Collection.stale_save_rewrites` — a document that was changed by another handle;
* `Collection.removed_document_restored` — a document that was removed through another handle.
-/

namespace DocRepair

namespace Collection

/-- Documents after a write that goes to given fields only: the same documents, perhaps in another
    order, each with all its other fields as they were. -/
def Rewrites (fields : DirtySet) (before after : List Fields) : Prop :=
  ∃ kept, kept.Perm after ∧
    List.Forall₂ (fun old new => ∀ name, name ∉ fields.fields →
      Fields.get? new name = Fields.get? old name) before kept

variable {docs : List (Option String × Fields)} {key : Option String} {stored new : Fields}
  {fields : DirtySet}

/-- No document is added and none is taken away. -/
theorem Rewrites.length {before after : List Fields} (rewrites : Rewrites fields before after) :
    after.length = before.length := by
  obtain ⟨kept, perm, same⟩ := rewrites
  rw [← perm.length_eq, same.length_eq]

/-- A document is replaced by one with the same fields, but for those given. -/
theorem forall₂_replace {R : Fields → Fields → Prop} (refl : ∀ doc, R doc doc)
    (found : lookup docs key = some stored) (replaced : R stored new) :
    List.Forall₂ R (docs.map (·.2)) ((replace docs key new).map (·.2)) := by
  induction docs with
  | nil => exact .nil
  | cons entry rest ih =>
    obtain ⟨k, doc⟩ := entry
    unfold lookup at found
    unfold replace
    by_cases here : k = key
    · rw [if_pos here] at found ⊢
      cases found
      exact .cons replaced (List.forall₂_same.2 fun doc _ => refl doc)
    · rw [if_neg here] at found ⊢
      exact .cons (refl doc) (ih found)

/-- A document that is replaced in its place might as well be discarded, and its successor put at the
    end. -/
theorem replace_perm (found : lookup docs key = some stored) (new : Fields) :
    ((replace docs key new).map (·.2)).Perm ((discard docs key).map (·.2) ++ [new]) := by
  induction docs with
  | nil => cases found
  | cons entry rest ih =>
    obtain ⟨k, doc⟩ := entry
    unfold lookup at found
    unfold replace discard
    by_cases here : k = key
    · rw [if_pos here, if_pos here]
      exact (List.perm_append_singleton new _).symm
    · rw [if_neg here] at found ⊢
      rw [if_neg here]
      exact (ih found).cons doc

theorem replace_last {k : Option String} (unused : lookup docs k = none) (doc new : Fields) :
    replace (docs ++ [(k, doc)]) k new = docs ++ [(k, new)] := by
  induction docs with
  | nil => exact if_pos rfl
  | cons entry rest ih =>
    unfold lookup at unused
    split at unused
    · cases unused
    · rename_i other
      rw [List.cons_append, replace, if_neg other, ih unused, List.cons_append]

end Collection

/-- A save leaves the fields of the document as they are that it is not given. -/
theorem Handle.get?_contentsAfter_other {h : Handle} {idField name : String} {fields : DirtySet}
    {stored : Fields} (distinct : Fields.Distinct stored) (other : name ∉ fields.fields) :
    Fields.get? (h.contentsAfter idField fields stored) name = Fields.get? stored name := by
  rw [Handle.get?_contentsAfter distinct, if_neg other]
  by_cases own : name = idField
  · subst own
    have stays : h.refiled name fields = false := by
      unfold Handle.refiled DirtySet.contains
      rw [Bool.and_eq_false_iff]
      exact .inl (by simpa using other)
    rw [if_pos rfl, stays]
    rfl
  · rw [if_neg own]

namespace Collection

variable {stored final : Fields} {fields : DirtySet} {h after now : Handle}
  {s t : Session Collection}

/-- **A save that finds a document** writes the given fields of it. -/
theorem store_rewrites (filed : s.store.Filed)
    (found : lookup s.store.docs (Identity.key h.addressId) = some stored)
    (run : store h fields s = .ok final t) : Rewrites fields s.store.all t.store.all := by
  obtain ⟨contents, _⟩ := store_found found run
  have others (name : String) (other : name ∉ fields.fields) :
      Fields.get? final name = Fields.get? stored name := by
    rw [contents]
    exact Handle.get?_contentsAfter_other (filed.distinct _ (lookup_mem found)) other
  refine ⟨(replace s.store.docs (Identity.key h.addressId) final).map (·.2), ?_,
    forall₂_replace (fun doc name _ => rfl) found others⟩
  obtain ⟨c, key, doc, filing, final_eq, rfl⟩ := store_overwrites found run
  by_cases moved : h.refiled s.store.idField fields = true
  · -- Filed anew, the document comes last.
    simp only [moved, if_true] at filing
    obtain ⟨_, _, _, _, unused, rfl, _⟩ := refile_ok found filing
    unfold all
    dsimp only
    rw [replace_last unused, List.map_append]
    exact replace_perm found final
  · simp only [moved] at filing
    cases filing
    exact .refl _

/-- **A save that finds no document** files the whole copy as a new one. -/
theorem store_files (missing : lookup s.store.docs (Identity.key h.addressId) = none)
    (run : store h fields s = .ok final t) :
    FiledAs s.store.idField (.object h.data) final ∧ t.store.all = s.store.all ++ [final] := by
  rw [store_missing (store_shown run) missing] at run
  obtain ⟨filedAs, same⟩ := file_filedAs run
  refine ⟨filedAs, ?_⟩
  rw [same]
  exact List.map_append

variable {allowed : Collection → Write → Prop}

/-- **When a save writes only the fields it is given**: exactly if a document is still filed under the
    identity that the handle is known by. Otherwise the whole copy is filed as a new document. -/
theorem save_rewrites (reached : Reached allowed s.store)
    (run : save h fields s = .ok (after, .ok now) t) :
    (Rewrites fields s.store.all t.store.all ↔
        (lookup s.store.docs (Identity.key h.addressId)).isSome = true) ∧
      (lookup s.store.docs (Identity.key h.addressId) = none →
        FiledAs s.store.idField (.object h.data) now.data ∧
          t.store.all = s.store.all ++ [now.data]) := by
  obtain ⟨final, u, storing, rfl, rfl, rfl⟩ := save_ok run
  cases found : lookup s.store.docs (Identity.key h.addressId) with
  | some stored =>
    have rewrites := store_rewrites (s := { s with store := s.store.attempted })
      reached.filed.counted.1 found storing
    exact ⟨iff_of_true rewrites rfl, fun missing => nomatch missing⟩
  | none =>
    obtain ⟨filedAs, all⟩ := store_files (s := { s with store := s.store.attempted }) found storing
    -- There is one document more than before, and a rewriting adds none.
    refine ⟨iff_of_false (fun rewrites => ?_) Bool.false_ne_true, fun _ => ⟨filedAs, all⟩⟩
    have longer := rewrites.length
    have all : u.store.changed.all = s.store.all ++ [final] := all
    rw [all, List.length_append, List.length_singleton] at longer
    omega

/-- A collection of one document that has an identifier can be reached. -/
theorem Reached.single {empty : Collection} {doc : Fields} (supply : Supply)
    (nothing : empty.docs = []) (named : Named empty.idField doc)
    (shown : (Fields.getD doc empty.idField).hasPlain = true) (distinct : Fields.Distinct doc) :
    Reached allowed (empty.extended [doc]) := by
  have files : file doc ⟨empty, supply⟩ = .ok doc ⟨empty.extended [doc], supply⟩ := by
    have unused (key : Option String) : lookup empty.docs key = none := by
      rw [nothing]
      rfl
    refine file_ok.2 ⟨⟨empty, supply⟩, ?_, shown, unused _, rfl⟩
    rw [Access.identify_of_named named]
    rfl
  have runs : (do fileAll (← Access.lift (Value.array [.object doc]).members)) ⟨empty, supply⟩ =
      .ok [doc] ⟨empty.extended [doc], supply⟩ :=
    run_bind_ok.2 ⟨[.object doc], _, rfl, run_bind_ok.2 ⟨doc, _, files, rfl⟩⟩
  have builds : build empty (.array [.object doc]) supply = (.ok (empty.extended [doc]), supply) := by
    unfold build
    rw [runs]
  refine .built nothing (fun members listed other given => ?_) builds
  cases listed
  rw [Value.object.inj (List.mem_singleton.1 given)]
  exact distinct

/-- One field is saved through a handle while another handle of the same document had another field
    saved. The later save leaves that field as the other one wrote it, although its own copy differs. -/
theorem stale_save_rewrites :
    let supply : Supply := { origin := 0, last := 0, pace := 1 }
    let doc : Fields := [("_id", .text "d1"), ("n", .int 1), ("x", .int 1)]
    let start : Collection := { name := "forms", docs := [(some "d1", doc)] }
    let c := (Write.save ((loan "_id" doc).setField "x" (.int 7)) (.ofList ["x"])).after supply start
    let h := ((loan "_id" doc).setField "n" (.int 2)).setField "x" (.int 5)
    ∃ after now t, Reached (fun _ _ => True) c ∧
      save h (.ofList ["n"]) ⟨c, supply⟩ = .ok (after, .ok now) t ∧
      t.store.all = [[("_id", .text "d1"), ("n", .int 2), ("x", .int 7)]] ∧
      Rewrites (.ofList ["n"]) c.all t.store.all := by
  intro supply doc start c h
  have distinct : Fields.Distinct doc := by
    show List.Nodup ["_id", "n", "x"]
    decide
  have built : Reached (fun _ _ => True) (({ name := "forms" } : Collection).extended [doc]) :=
    .single supply rfl rfl rfl distinct
  have reached : Reached (fun _ _ => True) c :=
    built.written (.save ((loan "_id" doc).setField "x" (.int 7)) (.ofList ["x"]))
      (distinct.set "x" (.int 7)) trivial supply
  have left : c = { start with
      docs := [(some "d1", [("_id", .text "d1"), ("n", .int 1), ("x", .int 7)])]
      saves := 1, changes := 1 } := rfl
  rw [left] at reached ⊢
  have saves : ∃ after now t, save h (.ofList ["n"]) ⟨{ start with
      docs := [(some "d1", [("_id", .text "d1"), ("n", .int 1), ("x", .int 7)])]
      saves := 1, changes := 1 }, supply⟩ = .ok (after, .ok now) t ∧
      t.store.all = [[("_id", .text "d1"), ("n", .int 2), ("x", .int 7)]] := ⟨_, _, _, rfl, rfl⟩
  obtain ⟨after, now, t, run, all⟩ := saves
  exact ⟨after, now, t, reached, run, all, ((save_rewrites (s := ⟨_, supply⟩) reached run).1).2 rfl⟩

/-- A document is removed through one handle, and then one field is saved through another: the document
    is back, with a change that was not to be saved. -/
theorem removed_document_restored :
    let supply : Supply := { origin := 0, last := 0, pace := 1 }
    let doc : Fields := [("_id", .text "d1"), ("n", .int 1), ("x", .int 1)]
    let start : Collection := { name := "forms", docs := [(some "d1", doc)] }
    let c := (Write.delete (loan "_id" doc)).after supply start
    let h := ((loan "_id" doc).setField "n" (.int 2)).setField "x" (.int 5)
    ∃ after now t, Reached (fun _ _ => True) c ∧ c.all = [] ∧
      save h (.ofList ["n"]) ⟨c, supply⟩ = .ok (after, .ok now) t ∧
      t.store.all = [[("_id", .text "d1"), ("n", .int 2), ("x", .int 5)]] ∧
      ¬ Rewrites (.ofList ["n"]) c.all t.store.all := by
  intro supply doc start c h
  have distinct : Fields.Distinct doc := by
    show List.Nodup ["_id", "n", "x"]
    decide
  have built : Reached (fun _ _ => True) (({ name := "forms" } : Collection).extended [doc]) :=
    .single supply rfl rfl rfl distinct
  refine ⟨_, _, _, built.written (.delete _) trivial trivial supply, rfl, rfl, rfl,
    fun rewrites => ?_⟩
  cases rewrites.length

end Collection

end DocRepair

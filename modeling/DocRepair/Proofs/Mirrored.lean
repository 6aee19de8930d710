import DocRepair.Proofs.Reworked
import DocRepair.Proofs.Sent
/-!
# `DocRepair.Proofs.Mirrored` — collections and servers agree on a save

A copy is lent, edited in place and saved, once to a collection in memory and once to a server that
holds the same document. The collection writes the document itself; the server is sent an update, and
of the server it is only said what it makes of an update that addresses a document by its identifier.
Both are left with the same fields. The rules by which the identifier is written meet: the collection
files a document anew exactly when the update names the identifier field.

The two part if the identifier is a container and was edited itself. The copy is then known by what
the identifier has become. The collection finds no document there and files a new one, and the
update addresses a document that the server does not hold.

## Contents

* `Remote.Plain` / `Remote.Obeys` — what is relied on of a server;
* `Remote.get?_applied` — a document behind the commands of a save;
* `Remote.get?_contentsAfter_written` — the same document behind a save to a collection;
* `Remote.saves_agree` — collections and servers agree;
* `Remote.renamed_saves_agree` — a document that is given another identifier;
* `Remote.container_saves_disagree` — an identifier that was edited itself.
-/

namespace DocRepair.Remote

open Collection (loan lookup)

/-! ## Servers -/

/-- A name that stands for a field of the document itself: a dot leads into a field, and a dollar sign
    in front marks an operator. -/
def Plain (name : String) : Prop :=
  '.' ∉ name.toList ∧ name.toList.head? ≠ some '$'

instance (name : String) : Decidable (Plain name) :=
  inferInstanceAs (Decidable (_ ∧ _))

/-- What is relied on of a server. An update of fields with plain names, some to be set and others to
    be unset, that addresses a document by its identifier, sets and unsets these fields of it. -/
structure Obeys (server : Command → Fields → Fields) : Prop where
  updates : ∀ {doc given gone : Fields} {idField : String} {id : Value} (name : String),
    Fields.get? doc idField = some id → id.isNull = false → Identity.agree id id = true →
    (part "$set" given ++ part "$unset" gone).isEmpty = false →
    (∀ n, Fields.has given n = true ∨ Fields.has gone n = true → Plain n) →
    (∀ n, Fields.has given n = true → Fields.has gone n = false) →
    let command := .updateOne [(idField, id)] (part "$set" given ++ part "$unset" gone)
    Fields.get? (server command doc) name = command.fieldAfter name (Fields.get? doc name)

/-- A document of a server behind some commands. -/
def applied (server : Command → Fields → Fields) (commands : List Command) (doc : Fields) : Fields :=
  commands.foldl (fun doc command => server command doc) doc

/-- A server that does this much and no more. -/
def plainServer (command : Command) (doc : Fields) : Fields :=
  match command with
  | .updateOne filter _ =>
    if filter.all fun f => Identity.agree f.2 (Fields.getD doc f.1) then
      command.sets.foldr (fun f doc => Fields.set doc f.1 f.2)
        (doc.filter fun f => !Fields.has command.unsets f.1)
    else doc
  | _ => doc

/-- Of fields that are set from the last one to the first, the first one of a name counts. -/
theorem get?_foldr_set (given base : Fields) (name : String) :
    Fields.get? (given.foldr (fun f doc => Fields.set doc f.1 f.2) base) name =
      (Fields.get? given name).or (Fields.get? base name) := by
  induction given with
  | nil => rfl
  | cons f rest ih =>
    obtain ⟨n, v⟩ := f
    rw [List.foldr_cons, Fields.get?]
    by_cases own : n = name
    · rw [own, if_pos rfl]
      exact Fields.get?_set_self _ name v
    · rw [if_neg own, ← ih]
      exact Fields.get?_set_ne _ v (Ne.symm own)

theorem get?_filter_names (keep : String → Bool) (fs : Fields) (name : String) :
    Fields.get? (fs.filter fun f => keep f.1) name =
      if keep name then Fields.get? fs name else none := by
  induction fs with
  | nil => exact (ite_self _).symm
  | cons f rest ih =>
    obtain ⟨n, v⟩ := f
    rw [List.filter_cons]
    by_cases own : n = name
    · subst own
      by_cases kept : keep n = true
      · simp [kept, Fields.get?]
      · rw [if_neg kept, ih, if_neg kept, if_neg kept]
    · cases kept : keep n
      · simp [ih, Fields.get?, own]
      · simp [ih, Fields.get?, own]

theorem plainServer_obeys : Obeys plainServer := by
  refine ⟨fun {doc given gone idField id} name held _ self _ _ _ => ?_⟩
  have addressed : ([(idField, id)] : Fields).all
      (fun f => Identity.agree f.2 (Fields.getD doc f.1)) = true := by
    have identifier : Fields.getD doc idField = id := by
      unfold Fields.getD
      rw [held]
      rfl
    rw [List.all_cons, List.all_nil, Bool.and_true, identifier]
    exact self
  unfold plainServer Command.fieldAfter
  dsimp only
  rw [if_pos addressed, sets_parts, unsets_parts, get?_foldr_set,
    get?_filter_names fun n => !Fields.has gone n]
  cases Fields.get? given name with
  | some v => rfl
  | none => cases Fields.has gone name <;> rfl

variable {server : Command → Fields → Fields} {h : Handle} {doc : Fields} {idField : String}
  {fields : DirtySet}

/-- **A document behind the commands of a save** that it is addressed by: it has the values of the copy
    in the fields that are written. -/
theorem get?_applied (obeys : Obeys server) (held : Fields.get? doc idField = some h.addressId)
    (named : h.addressId.isNull = false) (self : Identity.agree h.addressId h.addressId = true)
    (plain : ∀ name ∈ written h idField fields, Plain name) (name : String) :
    Fields.get? (applied server (dispatch h idField fields) doc) name =
      if name ∈ written h idField fields then Fields.get? h.data name else Fields.get? doc name := by
  rw [← fieldAfter_dispatch]
  unfold dispatch
  split
  · rfl
  · rename_i something
    have given (n : String) (there : Fields.has (setPart h.data (written h idField fields)) n = true) :
        n ∈ written h idField fields ∧ Fields.has h.data n = true := by
      unfold Fields.has at there ⊢
      rw [get?_setPart] at there
      split at there
      · exact ⟨‹_›, there⟩
      · cases there
    -- The copy has what is set and lacks what is unset, so no name is among both.
    refine obeys.updates name held named self (Bool.eq_false_iff.2 something) ?_ ?_
    · rintro n (there | there)
      · exact plain n (given n there).1
      · exact plain n ((has_unsetPart _ _ n).1 there).1
    · intro n there
      refine Bool.eq_false_iff.2 fun gone => ?_
      have missing := ((has_unsetPart _ _ n).1 gone).2
      have present := (given n there).2
      unfold Fields.has at present
      rw [missing] at present
      cases present

/-! ## The same save, twice -/

variable {s t : Session Collection} {r u : Session Remote} {h₁ h₂ now₁ now₂ : Handle}

/-- **What a collection makes of a document** is put together from the copy and the document as an
    update does it. The identifier field is among those that are written exactly if the document is
    filed anew. -/
theorem get?_contentsAfter_written (distinct : Fields.Distinct doc) (field : h.idField = idField)
    (named : h.id.isNull = false) (name : String) :
    Fields.get? (h.contentsAfter idField fields doc) name =
      if name ∈ written h idField fields then Fields.get? h.data name else Fields.get? doc name := by
  rw [Handle.get?_contentsAfter distinct]
  by_cases own : name = idField
  · subst own
    have refiled : name ∈ written h name fields ↔ h.refiled name fields = true := by
      rw [mem_written, Handle.refiled, Bool.and_eq_true, DirtySet.contains, List.contains_iff_mem]
      exact and_congr_right fun _ => ⟨fun changed => changed rfl, fun changed _ => changed⟩
    have present : Fields.get? h.data name = some h.id := by
      rw [← field]
      exact Fields.held_of_named named
    simp only [refiled, present, if_true]
  · have given : name ∈ written h idField fields ↔ name ∈ fields.fields := by
      rw [mem_written]
      exact and_iff_left fun same => absurd same own
    simp only [own, if_false, given]

/-- **Collections and servers agree on a save.** -/
theorem saves_agree (obeys : Obeys server) (filed : s.store.Filed)
    (same : r.store.idField = s.store.idField) (stored : doc ∈ s.store.all)
    (named : (Fields.getD doc s.store.idField).isNull = false)
    (self : Identity.agree (Fields.getD doc s.store.idField) (Fields.getD doc s.store.idField) = true)
    (edited : (loan s.store.idField doc).Spares h) (remains : h.id.isNull = false)
    (plain : ∀ name ∈ written h s.store.idField fields, Plain name)
    (collection : Collection.save h fields s = .ok (h₁, .ok now₁) t)
    (remote : save h fields r = .ok (h₂, .ok now₂) u) :
    ∃ commands, u.store.sent = r.store.sent ++ commands ∧
      lookup t.store.docs (h.keyAfter s.store.idField fields) = some now₁.data ∧
      ∀ name, Fields.get? (applied server commands doc) name = Fields.get? now₁.data name := by
  have address : h.addressId = Fields.getD doc s.store.idField := by
    unfold Handle.addressId
    rw [edited.knownId_loan, named]
    rfl
  have held : Fields.get? doc s.store.idField = some h.addressId := by
    rw [address]
    exact Fields.held_of_named named
  have found : lookup s.store.docs (Identity.key h.addressId) = some doc := by
    rw [address]
    exact filed.lookup_own stored
  rw [← address] at named self
  -- The collection writes the document, the server is sent an update.
  obtain ⟨final, v, storing, _, rfl, rfl⟩ := Collection.save_ok collection
  obtain ⟨contents, _, leads, _⟩ :=
    Collection.store_found (s := { s with store := s.store.attempted }) found storing
  obtain ⟨_, _, sent⟩ := save_ok remote
  rw [same] at sent
  refine ⟨dispatch h s.store.idField fields, congrArg Remote.sent sent, leads, fun name => ?_⟩
  have contents : final = h.contentsAfter s.store.idField fields doc := contents
  calc Fields.get? (applied server (dispatch h s.store.idField fields) doc) name
      = if name ∈ written h s.store.idField fields then Fields.get? h.data name
        else Fields.get? doc name := get?_applied obeys held named self plain name
    _ = Fields.get? (h.contentsAfter s.store.idField fields doc) name :=
        (get?_contentsAfter_written (filed.distinct_all stored) edited.1.idField remains name).symm
    _ = Fields.get? final name := by rw [contents]

/-- A document gets another identifier, one field is changed and one is taken out, and all this is
    reported. The change of yet another field is not, and neither store takes it over. -/
theorem renamed_saves_agree :
    let supply : Supply := { origin := 0, last := 0, pace := 1 }
    let doc : Fields := [("uid", .text "u1"), ("a", .int 1), ("b", .int 2), ("c", .int 3)]
    let s : Session Collection :=
      ⟨{ name := "forms", idField := "uid", docs := [(some "u1", doc)] }, supply⟩
    let r : Session Remote := ⟨{ name := "forms", idField := "uid", docs := [doc] }, supply⟩
    let h := (((loan "uid" doc).setField "uid" (.text "u2")).setField "a" (.int 10)).unsetField "b"
      |>.setField "c" (.int 9)
    let fields : DirtySet := .ofList ["uid", "a", "b"]
    ∃ h₁ h₂ now₁ now₂ t u, Collection.save h fields s = .ok (h₁, .ok now₁) t ∧
      save h fields r = .ok (h₂, .ok now₂) u ∧
      t.store.all = [[("uid", .text "u2"), ("a", .int 10), ("c", .int 3)]] ∧
      ∃ commands, u.store.sent = commands ∧
        ∀ name, Fields.get? (applied plainServer commands doc) name =
          Fields.get? now₁.data name := by
  intro supply doc s r h fields
  have filed : s.store.Filed := by
    refine ⟨by decide, fun entry listed => ?_, fun entry listed => ?_⟩
    · rw [List.mem_singleton.1 listed]
      rfl
    · rw [List.mem_singleton.1 listed]
      show List.Nodup ["uid", "a", "b", "c"]
      decide
  have edited : (loan "uid" doc).Reworked h :=
    (((Handle.setField_reworked _ _ _).trans (Handle.setField_reworked _ _ _)).trans
      (Handle.unsetField_reworked _ _)).trans (Handle.setField_reworked _ _ _)
  have plain : ∀ name ∈ written h "uid" fields, Plain name := by
    have names : written h "uid" fields = ["a", "b", "uid"] := rfl
    rw [names]
    decide
  have saves : ∃ h₁ now₁ t, Collection.save h fields s = .ok (h₁, .ok now₁) t ∧
      t.store.all = [[("uid", .text "u2"), ("a", .int 10), ("c", .int 3)]] := ⟨_, _, _, rfl, rfl⟩
  obtain ⟨h₁, now₁, t, collection, all⟩ := saves
  have updates : ∃ h₂ now₂ u, save h fields r = .ok (h₂, .ok now₂) u := ⟨_, _, _, rfl⟩
  obtain ⟨h₂, now₂, u, remote⟩ := updates
  obtain ⟨commands, sent, _, same⟩ := saves_agree plainServer_obeys filed rfl List.mem_cons_self rfl rfl
    (edited.spares rfl) rfl plain collection remote
  exact ⟨h₁, h₂, now₁, now₂, t, u, collection, remote, all, commands, sent, same⟩

/-- A field is moved out of an identifier that is a mapping, and what the edit reports is saved. The
    collection keeps the document and files a second one; the update names an identifier that no
    document has, so the server keeps its document as well, and the moved field is in none. -/
theorem container_saves_disagree :
    let supply : Supply := { origin := 0, last := 0, pace := 1 }
    let doc : Fields := [("uid", .object [("a", .int 1), ("b", .int 2)]), ("x", .int 0)]
    let s : Session Collection :=
      ⟨{ name := "forms", idField := "uid",
         docs := [(Identity.key (Fields.getD doc "uid"), doc)] }, supply⟩
    let r : Session Remote := ⟨{ name := "forms", idField := "uid", docs := [doc] }, supply⟩
    Obeys plainServer ∧ ∃ h fields d,
      Edit.moveAll "uid" [⟨"uid.a", "n"⟩] ((loan "uid" doc).draft supply) = .ok fields d ∧
      h = (loan "uid" doc).afterDraft d ∧
      (Fields.getD doc "uid").isNull = false ∧
      Identity.agree (Fields.getD doc "uid") (Fields.getD doc "uid") = true ∧
      h.id.isNull = false ∧ (∀ name ∈ written h "uid" fields, Plain name) ∧
      ∃ h₁ h₂ now₁ now₂ t u, Collection.save h fields s = .ok (h₁, .ok now₁) t ∧
        save h fields r = .ok (h₂, .ok now₂) u ∧
        u.store.sent =
          [.updateOne [("uid", .object [("b", .int 2)])] [("$set", .object [("n", .int 1)])]] ∧
        t.store.all = [doc, now₁.data] ∧ Fields.get? now₁.data "n" = some (.int 1) ∧
        Fields.get? (applied plainServer u.store.sent doc) "n" = none := by
  intro supply doc s r
  refine ⟨plainServer_obeys, _, _, _, rfl, rfl, rfl, rfl, rfl, ?_, _, _, _, _, _, _, rfl, rfl, rfl,
    rfl, rfl, rfl⟩
  decide

end DocRepair.Remote

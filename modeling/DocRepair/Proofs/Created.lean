import Mathlib.Data.List.Forall2
import DocRepair.Proofs.Preview
/-!
# `DocRepair.Proofs.Created` — what is left of a creation that is refused

New documents are filed one after the other, each under its own identifier or a fresh one. The first
whose identifier is in use, or cannot be shown, ends the creation; but the documents in front of it
have been filed, and stay. So a creation that is refused leaves the collection as it was only if it
is the first document that is refused. A call that creates documents reports a clash as a failure, as
if nothing had been stored.

## Contents

* `Collection.FiledAs` / `Collection.extended` — a document as it is filed, and a collection with
  more of them;
* `Collection.Clashes` / `Collection.Unfilable` — what is refused;
* `Collection.file_filedAs` / `file_error` — one document;
* `Collection.fileAll_ok` / `fileAll_error` — documents one after the other;
* `Collection.Adds` — what stays;
* `Collection.create_ok` / `create_error` — a creation;
* `Gateway.create_persisted` — a call that creates documents, by the creation it asks for;
* `Gateway.created_up_to_clash` — what both leave.
-/

namespace DocRepair

open Access

namespace Collection

variable {c : Collection} {s t : Session Collection} {fault : Fault}

/-! ## Filing -/

/-- A document as it is filed: as it was given or, if it had no identifier, with a fresh one. -/
def FiledAs (idField : String) (given : Value) (doc : Fields) : Prop :=
  ∃ fields, given = .object fields ∧
    (Named idField fields ∧ doc = fields ∨
      ¬ Named idField fields ∧ ∃ id, doc = Fields.set fields idField (.ident id))

/-- The collection with documents filed behind those that it holds. -/
def extended (c : Collection) (docs : List Fields) : Collection :=
  { c with docs := c.docs ++ docs.map fun doc => (Identity.key (Fields.getD doc c.idField), doc) }

theorem extended_nil (c : Collection) : c.extended [] = c := by
  unfold extended
  rw [List.map_nil, List.append_nil]

theorem extended_cons (c : Collection) (doc : Fields) (docs : List Fields) :
    (c.extended [doc]).extended docs = c.extended (doc :: docs) := by
  unfold extended
  rw [List.map_cons, List.map_cons, List.map_nil, List.append_assoc]
  rfl

/-- A document is refused if what it would be filed under is in use. -/
def Clashes (c : Collection) (given : Value) : Prop :=
  ∃ doc, FiledAs c.idField given doc ∧
    (lookup c.docs (Identity.key (Fields.getD doc c.idField))).isSome = true

/-- A document cannot be filed if its identifier cannot be shown. -/
def Unfilable (c : Collection) (given : Value) : Prop :=
  ∃ doc, FiledAs c.idField given doc ∧ (Fields.getD doc c.idField).hasPlain = false

/-- What stops the filing of a document: a clash is a rejection, what cannot be shown is none. -/
def Declines (c : Collection) (given : Value) : Fault → Prop
  | .rejected _ => c.Clashes given
  | .endlessInteger => c.Unfilable given
  | _ => False

theorem Declines.clashes_or {given : Value} (refuses : c.Declines given fault) :
    c.Clashes given ∨ c.Unfilable given := by
  cases fault with
  | rejected text => exact .inl refuses
  | endlessInteger => exact .inr refuses
  | _ => exact refuses.elim

theorem identify_filedAs {idField : String} {doc named : Fields}
    (run : identify idField doc s = .ok named t) :
    FiledAs idField (.object doc) named ∧ t.store = s.store := by
  have keeps : Keeps id (identify idField doc : Access Collection Fields) := .identify _ _
  refine ⟨⟨doc, rfl, ?_⟩, keeps.ok run⟩
  by_cases own : Named idField doc
  · rw [identify_of_named own] at run
    exact .inl ⟨own, (run_pure_ok.1 run).1.symm⟩
  · have missing : (Fields.getD doc idField).isNull = true := by
      simpa [Named] using own
    unfold identify at run
    rw [if_pos missing] at run
    obtain ⟨id, u, _, run⟩ := run_bind_ok.1 run
    exact .inr ⟨own, id, (run_pure_ok.1 run).1.symm⟩

theorem file_filedAs {doc named : Fields} (run : file doc s = .ok named t) :
    FiledAs s.store.idField (.object doc) named ∧ t.store = s.store.extended [named] := by
  obtain ⟨u, identifies, _, _, rfl⟩ := file_ok.1 run
  exact ⟨(identify_filedAs identifies).1, rfl⟩

theorem file_error {doc : Fields} (stop : file doc s = .error fault t) :
    Declines s.store (.object doc) fault ∧ t.store = s.store := by
  rw [file_eq] at stop
  obtain ⟨named, u, identifies⟩ := Access.identify_returns s.store.idField doc s
  obtain ⟨filedAs, same⟩ := identify_filedAs identifies
  simp only [identifies, same] at stop
  split at stop
  · rename_i unshown
    obtain ⟨hidden, rfl⟩ := Identity.filing_error.1 unshown
    cases stop
    exact ⟨⟨named, filedAs, hidden⟩, same⟩
  · rename_i key shown
    obtain ⟨_, rfl⟩ := Identity.filing_ok.1 shown
    split at stop
    · rename_i used
      cases stop
      exact ⟨⟨named, filedAs, used⟩, same⟩
    · cases stop

/-- If the filing of documents goes through, all of them are filed. -/
theorem fileAll_ok {given : List Value} {docs : List Fields}
    (run : fileAll given s = .ok docs t) :
    List.Forall₂ (FiledAs s.store.idField) given docs ∧ t.store = s.store.extended docs := by
  induction given generalizing docs s with
  | nil =>
    obtain ⟨rfl, rfl⟩ := run_pure_ok.1 run
    exact ⟨.nil, (extended_nil _).symm⟩
  | cons v rest ih =>
    cases v with
    | object doc =>
      obtain ⟨named, u, first, run⟩ := run_bind_ok.1 run
      obtain ⟨others, w, more, run⟩ := run_bind_ok.1 run
      obtain ⟨rfl, rfl⟩ := run_pure_ok.1 run
      obtain ⟨filedAs, one⟩ := file_filedAs first
      obtain ⟨all, left⟩ := ih more
      rw [one] at all left
      exact ⟨.cons filedAs all, left.trans (extended_cons _ _ _)⟩
    | _ => cases run

/-- **Where the filing of documents stops**: the first one that is refused is no object, or its
    identifier is in use or cannot be shown; those in front of it have been filed. -/
theorem fileAll_error {given : List Value} (stop : fileAll given s = .error fault t) :
    ∃ before refused rest docs, given = before ++ refused :: rest ∧
      List.Forall₂ (FiledAs s.store.idField) before docs ∧ t.store = s.store.extended docs ∧
      (refused.isObject = false ∧ fault = .lacks refused "get" ∨ Declines t.store refused fault) := by
  induction given generalizing s with
  | nil => cases stop
  | cons v rest ih =>
    cases v with
    | object doc =>
      rcases run_bind_error.1 stop with stop | ⟨named, u, first, stop⟩
      · obtain ⟨refuses, same⟩ := file_error stop
        refine ⟨[], .object doc, rest, [], rfl, .nil, ?_, .inr ?_⟩
        · rw [extended_nil, same]
        · rw [same]
          exact refuses
      · obtain ⟨filedAs, one⟩ := file_filedAs first
        rcases run_bind_error.1 stop with stop | ⟨others, w, _, stop⟩
        · obtain ⟨before, refused, behind, docs, rfl, all, left, why⟩ := ih stop
          rw [one] at all left
          exact ⟨.object doc :: before, refused, behind, named :: docs, rfl, .cons filedAs all,
            left.trans (extended_cons _ _ _), why⟩
        · cases stop
    | _ =>
      cases stop
      exact ⟨[], _, rest, [], rfl, .nil, (extended_nil _).symm, .inl ⟨rfl, rfl⟩⟩

/-! ## Creations -/

/-- A collection holds what another one did and, behind that, given documents. -/
def Adds (before after : Collection) (given : List Value) : Prop :=
  ∃ docs, List.Forall₂ (FiledAs before.idField) given docs ∧
    after.docs = (before.extended docs).docs

/-- Nothing is added exactly if nothing was given. -/
theorem Adds.unchanged_iff {before after : Collection} {given : List Value}
    (adds : Adds before after given) : after.docs = before.docs ↔ given = [] := by
  obtain ⟨docs, all, left⟩ := adds
  have behind : after.docs = before.docs ↔ docs = [] := by
    rw [left]
    simp [extended]
  rw [behind, ← List.length_eq_zero_iff, ← all.length_eq, List.length_eq_zero_iff]

/-- A creation that goes through stores all documents, and returns them as they are stored. -/
theorem create_ok {docs : Value} {handles : List Handle}
    (run : create docs s = .ok handles t) :
    ∃ given, docs.members = .ok given ∧
      List.Forall₂ (FiledAs s.store.idField) given (handles.map Handle.data) ∧
      t.store.docs = (s.store.extended (handles.map Handle.data)).docs := by
  obtain ⟨given, u, listed, run⟩ := run_bind_ok.1 run
  obtain ⟨members, rfl⟩ := lift_ok.1 listed
  obtain ⟨docs, u, filing, run⟩ := run_bind_ok.1 run
  obtain ⟨_, v, counted, run⟩ := run_bind_ok.1 run
  obtain ⟨c, w, looked, run⟩ := run_bind_ok.1 run
  obtain ⟨rfl, rfl⟩ := run_pure_ok.1 run
  obtain ⟨_, rfl⟩ := look_ok.1 looked
  cases counted
  obtain ⟨all, left⟩ := fileAll_ok filing
  have data : (docs.map (loan c.idField)).map Handle.data = docs := by
    rw [List.map_map]
    exact List.map_id' docs
  have docs : u.store.docs = (s.store.extended docs).docs := congrArg Collection.docs left
  rw [data]
  exact ⟨given, members, all, docs⟩

/-- **Where a creation stops**: with all documents stored that stand in front of the first one that
    is refused. -/
theorem create_error {docs : Value} (stop : create docs s = .error fault t) :
    (docs.members = .error fault ∧ t = s) ∨
      ∃ before refused rest, docs.members = .ok (before ++ refused :: rest) ∧
        Adds s.store t.store before ∧
        (refused.isObject = false ∧ fault = .lacks refused "get" ∨
          Declines t.store refused fault) := by
  rcases run_bind_error.1 stop with stop | ⟨given, u, listed, stop⟩
  · unfold lift at stop
    split at stop
    · cases stop
    · rename_i none
      cases stop
      exact .inl ⟨none, rfl⟩
  · obtain ⟨members, rfl⟩ := lift_ok.1 listed
    rcases run_bind_error.1 stop with stop | ⟨docs, u, _, stop⟩
    · obtain ⟨before, refused, rest, docs, rfl, all, left, why⟩ := fileAll_error stop
      exact .inr ⟨before, refused, rest, members, ⟨docs, all, congrArg Collection.docs left⟩, why⟩
    · cases stop

end Collection

/-! ## Calls -/

namespace Gateway

variable {settings : Settings} {documents : Value} {s t : Session Collection} {o : Outcome}

/-- A call that creates documents returns what the creation returns or, if that stops, the documents
    that it asked for. -/
theorem create_persisted (run : create settings documents true s = .ok o t) :
    ∃ payload u, u.store = s.store ∧
      ((o.persisted = true ∧ ∃ handles,
          Collection.create (.array (payload.map .object)) u = .ok handles t ∧
          o.documents = handles.map Handle.data) ∨
        (o.persisted = false ∧ o.documents = payload ∧ ∃ fault,
          Collection.create (.array (payload.map .object)) u = .error fault t)) := by
  by_cases nothing : documents.listed.isEmpty = true
  · simp only [create, nothing, if_true] at run
    cases run
  · simp only [create, nothing] at run
    obtain ⟨payload, u, identified, run⟩ := run_bind_ok.1 run
    have keeps : Keeps id (identifyAll settings.idField documents.listed : Access Collection _) :=
      Keeps.identifyAll _ _
    refine ⟨payload, u, keeps.ok identified, ?_⟩
    simp only [run_bind, look, attempt, if_true] at run
    cases created : (Store.create (.array (payload.map .object)) : Access Collection _) u with
    | ok handles v =>
      simp only [created] at run
      obtain ⟨rfl, rfl⟩ := run_pure_ok.1 run
      exact .inl ⟨rfl, handles, created, rfl⟩
    | error fault v =>
      simp only [created] at run
      obtain ⟨rfl, rfl⟩ := run_pure_ok.1 run
      exact .inr ⟨rfl, rfl, fault, created⟩

/-- What is left of a creation that is refused: the documents in front of the one that is refused are
    stored, behind those that were there. -/
def LeftBy (before after : Collection) (refuses : Value → Prop) (given : List Value) : Prop :=
  ∃ stored refused rest, given = stored ++ refused :: rest ∧ before.Adds after stored ∧
    refuses refused ∧ (after.docs = before.docs ↔ stored = [])

/-- Only objects are given to the store by a call. -/
theorem leftBy_of_error {payload : List Fields} {fault : Fault}
    (stop : Collection.create (.array (payload.map .object)) s = .error fault t) :
    LeftBy s.store t.store (t.store.Declines · fault) (payload.map .object) := by
  rcases Collection.create_error stop with ⟨none, _⟩ | ⟨stored, refused, rest, members, adds, why⟩
  · cases none
  · rw [Value.members_array] at members
    have given := Except.ok.inj members
    refine ⟨stored, refused, rest, given, adds, ?_, adds.unchanged_iff⟩
    rcases why with ⟨scalar, _⟩ | refuses
    · have among : refused ∈ payload.map Value.object := by
        rw [given]
        exact List.mem_append_right _ List.mem_cons_self
      obtain ⟨doc, _, rfl⟩ := List.mem_map.1 among
      cases scalar
    · exact refuses

/-- **What creations leave.** One that goes through stores all documents as it returns them. One that
    is refused, whether it was asked for by a call or not, leaves the documents in front of the first
    clash stored; so it leaves the collection as it was exactly if the first document clashes. A
    document whose identifier cannot be shown ends a creation in the same way, and only that it is no
    rejection. -/
theorem created_up_to_clash (s : Session Collection) :
    (∀ docs handles t, Collection.create docs s = .ok handles t →
      ∃ given, docs.members = .ok given ∧
        List.Forall₂ (Collection.FiledAs s.store.idField) given (handles.map Handle.data) ∧
        t.store.docs = (s.store.extended (handles.map Handle.data)).docs) ∧
    (∀ docs text t, Collection.create docs s = .error (.rejected text) t →
      ∃ given, docs.members = .ok given ∧ LeftBy s.store t.store t.store.Clashes given) ∧
    (∀ settings documents o t, create settings documents true s = .ok o t →
      if o.persisted then t.store.docs = (s.store.extended o.documents).docs
      else LeftBy s.store t.store (fun doc => t.store.Clashes doc ∨ t.store.Unfilable doc)
        (o.documents.map .object)) := by
  refine ⟨fun docs handles t run => Collection.create_ok run, fun docs text t stop => ?_,
    fun settings documents o t run => ?_⟩
  · rcases Collection.create_error stop with ⟨none, _⟩ | ⟨stored, refused, rest, members, adds, why⟩
    · unfold Value.members at none
      split at none
      · cases none
      · cases none
    · refine ⟨_, members, stored, refused, rest, rfl, adds, ?_, adds.unchanged_iff⟩
      rcases why with ⟨_, other⟩ | clashes
      · cases other
      · exact clashes
  · obtain ⟨payload, u, same, outcome⟩ := create_persisted run
    rcases outcome with ⟨persisted, handles, created, documents⟩ | ⟨persisted, documents, fault, stop⟩
    · rw [if_pos persisted, documents, ← same]
      obtain ⟨given, _, _, stored⟩ := Collection.create_ok created
      exact stored
    · rw [if_neg (by rw [persisted]; exact Bool.false_ne_true), documents, ← same]
      obtain ⟨stored, refused, rest, given, adds, refuses, unchanged⟩ := leftBy_of_error stop
      exact ⟨stored, refused, rest, given, adds, refuses.clashes_or, unchanged⟩

/-- Of three new documents the last has the identifier of the first: two are stored. -/
theorem created_up_to_clash_last :
    let c : Collection := { name := "forms", docs := [(some "d0", [("_id", .text "d0")])] }
    let s : Session Collection := ⟨c, { origin := 0, last := 0, pace := 1 }⟩
    let docs : List Value :=
      [.object [("_id", .text "d1")], .object [("_id", .text "d2")], .object [("_id", .text "d1")]]
    ∃ text t o u, Collection.create (.array docs) s = .error (.rejected text) t ∧
      LeftBy c t.store t.store.Clashes docs ∧
      create {} (.array docs) true s = .ok o u ∧ o.persisted = false ∧
      LeftBy c u.store (fun doc => u.store.Clashes doc ∨ u.store.Unfilable doc)
        (o.documents.map .object) ∧
      u.store.docs.map (·.1) = [some "d0", some "d1", some "d2"] := by
  intro c s docs
  obtain ⟨_, refused, calls⟩ := created_up_to_clash s
  obtain ⟨given, members, left⟩ := refused (.array docs) _ _ rfl
  cases members
  exact ⟨_, _, _, _, rfl, left, rfl, rfl, calls {} (.array docs) _ _ rfl, rfl⟩

/-- Two new documents have one identifier: the call tells that it failed and persisted nothing, and
    the first of them is stored. -/
theorem failed_creation_stores :
    let s : Session Collection := ⟨{ name := "forms" }, { origin := 0, last := 0, pace := 1 }⟩
    let docs : Value :=
      .array [.object [("_id", .text "d1"), ("n", .int 1)], .object [("_id", .text "d1")]]
    ∃ text t o u, Collection.create docs s = .error (.rejected text) t ∧
      t.store.docs = [(some "d1", [("_id", .text "d1"), ("n", .int 1)])] ∧
      create {} docs true s = .ok o u ∧ o.persisted = false ∧ o.status = .failed ∧
      u.store.docs = [(some "d1", [("_id", .text "d1"), ("n", .int 1)])] := by
  intro s docs
  exact ⟨_, _, _, _, rfl, rfl, rfl, rfl, rfl, rfl⟩

end Gateway

end DocRepair

import DocRepair.Proofs.Identifier
import DocRepair.Proofs.Loans
/-!
# `DocRepair.Proofs.Register` — the register of a collection stays as it is

The register of a collection lists its keys, each with the identifier of the document under it. If
all identifiers are scalars, then nothing but the setting of an identifier, a removal and new
documents changes it. A copy on loan keeps its identifier, and stays known by it. So its save finds
the document, and cannot file it anew, since its key is in use. A save that is refused, and a call
that fails, changes nothing.

## Contents

* `Collection.register` — keys and identifiers, in order;
* `Collection.Enrolled` — a collection with the register of another;
* `Handle.Enlisted` — a copy whose save finds the document;
* `Collection.store_enrolled` / `Collection.save_enrolled` — a save keeps the register;
* `Gateway.Call.run_enrolled` / `transfer_enrolled` — so do calls and transfers;
* `Collection.Work` / `Collection.register_kept` — any run of them.
-/

namespace DocRepair

open Access

/-- Fields of which one is present and holds a scalar. -/
def Fields.HasScalar (fs : Fields) (n : String) : Prop :=
  ∃ v, Path.present (get? fs n) = some v ∧ v.isContainer = false

namespace Collection

/-- The keys of a collection, each with the identifier of the document filed under it. -/
def register (c : Collection) : List (Option String × Option Value) :=
  c.docs.map fun entry => (entry.1, Fields.get? entry.2 c.idField)

/-- A collection with the register that another one has, and as it should be. -/
structure Enrolled (start c : Collection) : Prop where
  idField : c.idField = start.idField
  register : c.register = start.register
  filed : c.Filed

variable {start c : Collection} {doc : Fields}

theorem Enrolled.refl (filed : c.Filed) : Enrolled c c := ⟨rfl, rfl, filed⟩

theorem Enrolled.counted (h : Enrolled start c) :
    Enrolled start c.attempted ∧ Enrolled start c.changed :=
  ⟨⟨h.idField, h.register, h.filed.counted.1⟩, ⟨h.idField, h.register, h.filed.counted.2⟩⟩

/-- The same keys are in use. -/
theorem Enrolled.keys (h : Enrolled start c) : c.docs.map (·.1) = start.docs.map (·.1) := by
  have same := congrArg (List.map Prod.fst) h.register
  unfold Collection.register at same
  rw [List.map_map, List.map_map] at same
  exact same

/-- Scalar identifiers stay scalar. -/
theorem Enrolled.scalar (h : Enrolled start c)
    (scalars : ∀ doc ∈ start.all, doc.HasScalar start.idField) (hdoc : doc ∈ c.all) :
    doc.HasScalar start.idField := by
  obtain ⟨entry, hentry, rfl⟩ := List.mem_map.1 hdoc
  have listed : (entry.1, Fields.get? entry.2 c.idField) ∈ start.register := by
    rw [← h.register]
    exact List.mem_map.2 ⟨entry, hentry, rfl⟩
  obtain ⟨other, hother, same⟩ := List.mem_map.1 listed
  obtain ⟨v, held, scalar⟩ := scalars other.2 (List.mem_map.2 ⟨other, hother, rfl⟩)
  have identifier : Fields.get? other.2 start.idField = Fields.get? entry.2 c.idField :=
    congrArg Prod.snd same
  rw [identifier, h.idField] at held
  exact ⟨v, held, scalar⟩

end Collection

/-! ## Saves -/

/-- A copy on loan that a save takes back to the document it was lent from: it is looked for under
    the key of its identifier, which is in use. -/
structure Handle.Enlisted (start : Collection) (h : Handle) : Prop where
  distinct : Fields.Distinct h.data
  address : Identity.key h.addressId = Identity.key h.id
  inUse : Identity.key h.id ∈ start.docs.map (·.1)

theorem Handle.Enlisted.marked {start : Collection} {h : Handle} (enlisted : h.Enlisted start)
    (marked : DirtySet) : ({ h with modified := marked } : Handle).Enlisted start :=
  ⟨enlisted.distinct, enlisted.address, enlisted.inUse⟩

namespace Collection

variable {start : Collection} {h : Handle} {fields : DirtySet} {s t : Session Collection}
  {final : Fields}

/-- A document is replaced by one with the same identifier. -/
theorem register_replace {docs : List (Option String × Fields)} {key : Option String}
    {old new : Fields} {n : String} (found : lookup docs key = some old)
    (same : Fields.get? new n = Fields.get? old n) :
    (replace docs key new).map (fun entry => (entry.1, Fields.get? entry.2 n)) =
      docs.map fun entry => (entry.1, Fields.get? entry.2 n) := by
  induction docs with
  | nil => rfl
  | cons entry rest ih =>
    obtain ⟨k, d⟩ := entry
    unfold lookup at found
    unfold replace
    split at found
    · rename_i hk
      cases found
      rw [if_pos hk, List.map_cons, List.map_cons, same]
    · rename_i hk
      rw [if_neg hk, List.map_cons, List.map_cons, ih found]

/-- **A save of an enlisted copy keeps the register.** It finds the document; it does not file it
    anew, since that is refused for a key in use; and it never writes the identifier field. -/
theorem store_enrolled (enrolled : Enrolled start s.store) (enlisted : h.Enlisted start)
    (run : store h fields s = .ok final t) : Enrolled start t.store := by
  have filed : t.store.Filed := store_filed enrolled.filed enlisted.distinct run
  have used : lookup s.store.docs (Identity.key h.id) ≠ none := by
    intro unused
    have keys := lookup_eq_none.1 unused
    rw [enrolled.keys] at keys
    exact keys enlisted.inUse
  obtain ⟨stored, found⟩ := Option.ne_none_iff_exists'.1 used
  rw [← enlisted.address] at found
  obtain ⟨after, key, doc, filing, rfl, rfl⟩ := store_overwrites found run
  by_cases moved : h.refiled s.store.idField fields = true
  · simp only [moved, if_true] at filing
    obtain ⟨rfl, _, _, unused, _⟩ := refile_ok found filing
    exact absurd unused used
  · simp only [moved] at filing
    cases filing
    refine ⟨enrolled.idField, ?_, filed⟩
    have identifier : Fields.get? (writeFields s.store.idField h.data stored fields.fields)
        s.store.idField = Fields.get? stored s.store.idField := by
      rw [get?_writeFields (enrolled.filed.distinct _ (lookup_mem found))]
      simp
    rw [← enrolled.register]
    exact register_replace found identifier

theorem save_enrolled (enlisted : h.Enlisted start) :
    Preserves (Enrolled start) (save h fields) := by
  refine save_preserves_of (fun _ enrolled => enrolled.counted) ?_
  intro s enrolled
  unfold sessionAfter
  cases run : store h fields s with
  | ok final t => exact store_enrolled enrolled enlisted run
  | error fault t =>
    have same : t.store = s.store := store_cleanStop s fault t run
    show Enrolled start t.store
    rw [same]
    exact enrolled

end Collection

/-! ## Copies that keep their identifier -/

section Copies

variable {start c : Collection} {doc : Fields} {supply : Supply} {renames : Prop}
  {names : String → Prop} {d : Draft}

/-- **A copy behind steps that do not rename is enlisted.** -/
theorem Handle.enlisted_of_steps (enrolled : Collection.Enrolled start c)
    (scalars : ∀ doc ∈ start.all, doc.HasScalar start.idField) (lent : doc ∈ c.all)
    (keeps : ¬ renames)
    (steps : ((Collection.loan c.idField doc).draft supply).Steps c.idField renames names d) :
    ((Collection.loan c.idField doc).afterDraft d).Enlisted start := by
  obtain ⟨v, held, scalar⟩ := enrolled.scalar scalars lent
  rw [← enrolled.idField] at held
  have obj : ((Collection.loan c.idField doc).draft supply).doc.isObject = true := rfl
  obtain ⟨still, within⟩ := Draft.Steps.faithful steps obj keeps held scalar rfl
  have before : Fields.getD doc c.idField = v := by
    unfold Fields.getD
    rw [(Path.present_eq_some.1 held).1]
    rfl
  have after : ((Collection.loan c.idField doc).afterDraft d).id = v := by
    show Fields.getD d.doc.fields c.idField = v
    unfold Fields.getD
    rw [(Path.present_eq_some.1 still).1]
    rfl
  refine ⟨Draft.Steps.distinct steps obj (enrolled.filed.distinct_all lent), ?_, ?_⟩
  · rw [Handle.addressId_within (g := (Collection.loan c.idField doc).afterDraft d) within]
  · rw [after, ← before, ← enrolled.keys, enrolled.filed.keys_eq]
    exact List.mem_map.2 ⟨doc, lent, rfl⟩

end Copies

/-! ## Calls -/

/-- A change has the operation that it is built with. -/
theorem Change.build_operation {op : Operation} {given : Fields} {c : Change}
    (run : Change.build op given = .ok c) : c.operation = op := by
  unfold Change.build at run
  dsimp only at run
  split at run
  · split at run
    · cases run
      rfl
    · cases run
  · cases run

namespace Gateway

variable {settings : Settings} {call : Call}

/-- A call that neither gives a document another identifier, nor removes or creates documents. -/
def Call.KeepsIdentifiers (idField : String) : Call → Prop
  | .execute _ changes _ =>
    ∀ parsed, Change.parse changes = .ok parsed → ¬ Edit.ChangesRename idField parsed
  | .delete _ target => target.whole.truthy = false
  | .create _ => False
  | _ => True

/-- A status is set by nothing but status changes. -/
theorem Call.setStatus_operation {query path code raw : Value} {parsed : List Change}
    (given : (Call.setStatus query path code).changes = some raw)
    (parses : Change.parse raw = .ok parsed) : ∀ c ∈ parsed, c.operation = .setStatus := by
  cases given
  obtain ⟨members, listed, parses⟩ := bind_eq_ok.1 parses
  rw [Value.members_array] at listed
  cases listed
  rw [List.mapM_cons, List.mapM_nil] at parses
  obtain ⟨c, built, parses⟩ := bind_eq_ok.1 parses
  obtain ⟨others, none, parses⟩ := bind_eq_ok.1 parses
  cases none
  cases parses
  intro c' hc'
  rw [List.mem_singleton.1 hc']
  obtain ⟨op, named, built⟩ := bind_eq_ok.1 built
  have status : Change.operationOf (.text Operation.setStatus.name) path = .ok .setStatus := rfl
  rw [status] at named
  cases named
  exact Change.build_operation built

theorem Call.KeepsIdentifiers.given {idField : String} {edit : PathEdit}
    (keeps : call.KeepsIdentifiers idField) (given : call.Given edit) : ¬ edit.Renames idField := by
  intro renames
  cases edit with
  | applyChanges changes =>
    obtain ⟨raw, own, parses⟩ := given
    cases call with
    | execute query changes many =>
      cases own
      exact keeps _ parses renames
    | setStatus query path code =>
      obtain ⟨c, hc, sets, _⟩ := renames
      rw [Call.setStatus_operation own parses c hc] at sets
      cases sets
    | _ => cases own
  | applyRaw raw => exact given
  | _ => exact renames

/-- **The edit of a call goes by steps**, and if the call keeps identifiers, they do not rename. -/
theorem Worked.steps {query : Value} {many : Bool} {task : Task} {h : Handle} {e : Edited}
    (worked : Worked task h e) (accepted : call.action settings = .ok (.edit query many task)) :
    ∃ supply d renames names, (h.draft supply).Steps settings.idField renames names d ∧
      e.handle = h.afterDraft d ∧ (call.KeepsIdentifiers settings.idField → ¬ renames) := by
  obtain ⟨supply, notes, d, run, after⟩ := worked
  have obj : (h.draft supply).doc.isObject = true := rfl
  rcases Call.task_given accepted with ⟨edit, given, reports⟩ | ⟨_, steps, _, _, reports⟩
  · have goes := edit.run_goes settings.idField obj
    exact ⟨supply, d, _, _, goes.ok (reports _ _ _ _ run), after, fun keeps => keeps.given given⟩
  · have goes : Edit.Goes settings.idField False (fun _ => True) (Edit.modify steps)
        (h.draft supply) := Edit.modify_goes obj fun _ _ _ => trivial
    exact ⟨supply, d, _, _, goes.ok (reports _ _ _ _ run), after, fun _ => not_false⟩

/-- **A call that keeps identifiers keeps the register**, whether it returns or stops. -/
theorem Call.run_enrolled {start : Collection} (persist : Bool)
    (same : settings.idField = start.idField)
    (scalars : ∀ doc ∈ start.all, doc.HasScalar start.idField)
    (keeps : call.KeepsIdentifiers settings.idField) :
    Preserves (Collection.Enrolled start) (call.run settings persist) := by
  rw [Call.run_eq]
  refine (Keeps.lift _).preserves.bind_of fun s action t _ chosen => ?_
  have accepted := (lift_ok.1 chosen).1
  cases action with
  | edit query many task =>
    refine Gateway.run_preserves persist fun c doc e enrolled lent worked marked => ?_
    obtain ⟨supply, d, renames, names, steps, after, steady⟩ := worked.steps accepted
    rw [same, ← enrolled.idField] at steps
    have enlisted := Handle.enlisted_of_steps enrolled scalars lent (steady keeps) steps
    rw [← after] at enlisted
    exact Collection.save_enrolled (enlisted.marked marked)
  | remove query =>
    obtain ⟨target, rfl, whole⟩ := Call.action_remove accepted
    have inside : target.whole.truthy = false := keeps
    rw [inside] at whole
    cases whole
  | create documents =>
    rw [Call.action_create accepted] at keeps
    exact keeps.elim

end Gateway

/-! ## Transfers -/

/-- What an attempted edit of a document on loan returns. -/
theorem Access.attempt_edit_ok {σ α : Type} {h after : Handle} {a : Edit α} {x : α}
    {s t : Session σ} (run : attempt (Access.edit h a) s = .ok (.ok (after, x)) t) :
    ∃ d, a (h.draft s.supply) = .ok x d ∧ after = h.afterDraft d := by
  unfold attempt Access.edit at run
  cases edits : a (h.draft s.supply) with
  | error fault d =>
    rw [edits] at run
    cases run
  | ok y d =>
    rw [edits] at run
    cases run
    exact ⟨d, rfl, rfl⟩

namespace Transfer

variable {start : Collection} {h : Handle} {source v toField : Value}
  {report : TransferReport}

/-- A copy that was just lent, by a collection with the register. -/
def Lent (start : Collection) (h : Handle) : Prop :=
  ∃ c doc, Collection.Enrolled start c ∧ doc ∈ c.all ∧ h = Collection.loan c.idField doc

theorem saveLink_enrolled (enlisted : h.Enlisted start) :
    Preserves (Collection.Enrolled start) (saveLink source h toField report) := by
  unfold saveLink
  refine (Keeps.lift _).preserves.bind fun dirty => ?_
  obtain ⟨marked, hmarked⟩ := DirtySet.notify_handle dirty.fields h
  have saving : Preserves (Collection.Enrolled start)
      (Store.save (DirtySet.notify Handle.mark dirty.fields h).2
        (DirtySet.notify Handle.mark dirty.fields h).1) := by
    rw [hmarked]
    exact Collection.save_enrolled (enlisted.marked marked)
  refine saving.bind fun r => ?_
  obtain ⟨after, fault | stored⟩ := r
  · exact (Keeps.lift _).preserves.bind fun _ => (Keeps.pure _).preserves
  · exact (Keeps.pure _).preserves

/-- **The write of a transfer keeps the register**: it is not into the identifier field. -/
theorem copyInto_enrolled (scalars : ∀ doc ∈ start.all, doc.HasScalar start.idField)
    (other : Path.split toField ≠ .ok [start.idField]) (lent : Lent start h) :
    Preserves (Collection.Enrolled start) (copyInto source v toField h report) := by
  unfold copyInto
  refine (Keeps.edit h _).attempt.preserves.bind_of fun s r t _ edits => ?_
  split
  · exact (Keeps.lift _).preserves.bind fun _ => (Keeps.pure _).preserves
  · exact (Keeps.lift _).preserves
  · rename_i after _
    split
    · obtain ⟨d, wrote, rfl⟩ := Access.attempt_edit_ok edits
      obtain ⟨c, doc, enrolled, hdoc, rfl⟩ := lent
      rw [← enrolled.idField] at other
      have goes : Edit.Goes c.idField False (fun _ => True) (Edit.write (some 1) toField v)
          ((Collection.loan c.idField doc).draft s.supply) :=
        Edit.write_goes rfl (fun _ _ _ => trivial) (.inl other)
      have enlisted := Handle.enlisted_of_steps enrolled scalars hdoc not_false (goes.ok wrote)
      exact saveLink_enrolled enlisted
    · exact (Keeps.pure _).preserves

theorem copyIntoAll_enrolled (scalars : ∀ doc ∈ start.all, doc.HasScalar start.idField)
    (other : Path.split toField ≠ .ok [start.idField]) {handles : List Handle}
    (lent : ∀ h ∈ handles, Lent start h) :
    Preserves (Collection.Enrolled start) (copyIntoAll source v toField handles report) := by
  induction handles generalizing report with
  | nil => exact (Keeps.pure _).preserves
  | cons h rest ih =>
    refine (copyInto_enrolled scalars other (lent h List.mem_cons_self)).bind fun report => ?_
    exact ih fun h hh => lent h (List.mem_cons_of_mem _ hh)

theorem fromSource_enrolled (scalars : ∀ doc ∈ start.all, doc.HasScalar start.idField) {plan : Plan}
    (other : Path.split plan.toField ≠ .ok [start.idField]) :
    Preserves (Collection.Enrolled start) (fromSource plan h report) := by
  unfold fromSource
  refine (Keeps.lift _).preserves.bind fun link => ?_
  cases link with
  | none => exact (Keeps.lift _).preserves.bind fun _ => (Keeps.pure _).preserves
  | some linkValue =>
    refine (Keeps.lift _).preserves.bind fun w => ?_
    refine (Keeps.look _).attempt.preserves.bind_of fun s r t enrolled looked => ?_
    cases r with
    | error fault => exact (Keeps.lift _).preserves.bind fun _ => (Keeps.pure _).preserves
    | ok links =>
      -- The linked documents are looked up now, in a collection with the register.
      rw [Access.attempt_look] at looked
      have finds : (do Store.find s.store (← linkFilter plan.linkField linkValue)) = .ok links :=
        (EStateM.Result.ok.inj looked).1
      obtain ⟨filter, _, finds⟩ := bind_eq_ok.1 finds
      obtain ⟨chosen, selected, finds⟩ := bind_eq_ok.1 finds
      cases finds
      refine copyIntoAll_enrolled scalars other fun h hh => ?_
      obtain ⟨doc, hdoc, rfl⟩ := List.mem_map.1 hh
      exact ⟨s.store, doc, enrolled, (Collection.selectFrom_sublist selected).subset hdoc, rfl⟩

theorem fromSources_enrolled (scalars : ∀ doc ∈ start.all, doc.HasScalar start.idField) {plan : Plan}
    (other : Path.split plan.toField ≠ .ok [start.idField]) (handles : List Handle) :
    Preserves (Collection.Enrolled start) (fromSources plan handles report) := by
  induction handles generalizing report with
  | nil => exact (Keeps.pure _).preserves
  | cons h rest ih => exact (fromSource_enrolled scalars other).bind fun _ => ih

end Transfer

/-- **A transfer keeps the register of its target**, whether it returns or stops, from any source. -/
theorem transfer_enrolled {σ : Type} [Store σ] {start : Collection}
    (scalars : ∀ doc ∈ start.all, doc.HasScalar start.idField) (plan : Transfer.Plan)
    (fromQuery : Value) (source : σ) (persist : Bool) :
    Preserves (Collection.Enrolled start) (transfer plan fromQuery source persist) := by
  refine (Keeps.look _).preserves.bind_of fun s c t enrolled looked => ?_
  obtain ⟨heq, rfl⟩ := look_ok.1 looked
  cases heq
  refine (Keeps.lift _).preserves.bind_of fun u _ v _ checked => ?_
  have other := Edit.check_ok (lift_ok.1 checked).1
  have own : Store.idField s.store = start.idField := enrolled.idField
  rw [own] at other
  refine (Keeps.lift _).preserves.bind fun handles => ?_
  exact Transfer.fromSources_enrolled scalars other handles

/-! ## Runs -/

namespace Collection

/-- One piece of work on a collection: a call that keeps identifiers, a transfer into it, or another
    rule by which its saves are refused. What is done may return or stop. -/
inductive Work : Session Collection → Session Collection → Prop
  | call {s : Session Collection} (settings : Settings) (call : Gateway.Call) (persist : Bool)
      (same : settings.idField = s.store.idField)
      (keeps : call.KeepsIdentifiers settings.idField) :
      Work s ((call.run settings persist).sessionAfter s)
  | transfer {σ : Type} [Store σ] {s : Session Collection} (plan : Transfer.Plan)
      (fromQuery : Value) (source : σ) (persist : Bool) :
      Work s ((transfer plan fromQuery source persist).sessionAfter s)
  | refusing {s : Session Collection} (rejects : Handle → Bool) :
      Work s { s with store := { s.store with rejects := rejects } }

variable {start : Collection} {s t : Session Collection}

/-- **A piece of work keeps the register.** -/
theorem Work.enrolled (work : Work s t) (enrolled : Enrolled start s.store)
    (scalars : ∀ doc ∈ start.all, doc.HasScalar start.idField) : Enrolled start t.store := by
  cases work with
  | call settings call persist same keeps =>
    rw [enrolled.idField] at same
    exact Gateway.Call.run_enrolled persist same scalars keeps s enrolled
  | transfer plan fromQuery source persist =>
    exact transfer_enrolled scalars plan fromQuery source persist s enrolled
  | refusing rejects =>
    obtain ⟨idField, register, filed⟩ := enrolled
    exact ⟨idField, register, ⟨filed.keys, filed.under, filed.distinct⟩⟩

/-- **No document is lost, doubled or filed anew.** Let all identifiers of a collection be scalars.
    After any run of calls that keep identifiers and of transfers into it, whatever their arguments,
    whether they fail, and whichever saves are refused, its keys and identifiers are those that it
    had, in the same order. -/
theorem register_kept (filed : s.store.Filed)
    (scalars : ∀ doc ∈ s.store.all, doc.HasScalar s.store.idField)
    (run : Relation.ReflTransGen Work s t) : t.store.register = s.store.register := by
  have enrolled : Enrolled s.store t.store := by
    induction run with
    | refl => exact .refl filed
    | tail _ work ih => exact work.enrolled ih scalars
  exact enrolled.register

/-- Fields are deleted, one of them below the identifier; then all saves are refused, and a value is
    transferred from the collection to itself. -/
theorem register_kept_refused_transfer :
    let c : Collection :=
      { name := "forms"
        docs := [(some "d1", [("_id", .text "d1"), ("a", .int 1)]),
          (some "2", [("_id", .int 2), ("a", .int 1)])] }
    let s : Session Collection := ⟨c, { origin := 0, last := 0, pace := 1 }⟩
    ∃ t, Relation.ReflTransGen Work s t ∧
      t.store.get? (.text "d1") = .ok (some [("_id", .text "d1")]) ∧
      t.store.register = c.register := by
  intro c s
  let first : Gateway.Call :=
    .delete (.object [("_id", .text "d1")]) { fields := .array [.text "_id.x", .text "a"] }
  let u : Session Collection := (first.run {} true).sessionAfter s
  let v : Session Collection := { u with store := { u.store with rejects := fun _ => true } }
  let plan : Transfer.Plan := ⟨.text "a", .text "a", .text "b"⟩
  let t : Session Collection := (transfer plan (.object []) v.store true).sessionAfter v
  have deletes : Work s u := .call {} first true rfl rfl
  have refuses : Work u v := .refusing fun _ => true
  have transfers : Work v t := .transfer plan (.object []) v.store true
  have run : Relation.ReflTransGen Work s t :=
    ((Relation.ReflTransGen.single deletes).tail refuses).tail transfers
  have filed : c.Filed := by
    refine ⟨by decide, fun entry h => ?_, fun entry h => ?_⟩
    · simp only [c, List.mem_cons, List.not_mem_nil, or_false] at h
      rcases h with rfl | rfl
      · rfl
      · rfl
    · simp only [c, List.mem_cons, List.not_mem_nil, or_false] at h
      rcases h with rfl | rfl
      · show List.Nodup ["_id", "a"]
        decide
      · show List.Nodup ["_id", "a"]
        decide
  have scalars : ∀ doc ∈ c.all, doc.HasScalar c.idField := by
    intro doc h
    simp only [c, all, List.map_cons, List.map_nil, List.mem_cons, List.not_mem_nil, or_false] at h
    rcases h with rfl | rfl
    · exact ⟨.text "d1", rfl, rfl⟩
    · exact ⟨.int 2, rfl, rfl⟩
  exact ⟨t, run, rfl, register_kept filed scalars run⟩

end Collection

end DocRepair

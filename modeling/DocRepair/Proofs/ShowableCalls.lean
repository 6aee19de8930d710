import DocRepair.Gateway.Edits
import DocRepair.Gateway.Reads
import DocRepair.Proofs.Accepted
import DocRepair.Proofs.Filed
import DocRepair.Proofs.Projected
import DocRepair.Proofs.ShowableEdits
import DocRepair.Transfer
/-!
# `DocRepair.Proofs.ShowableCalls` — calls over documents that can be shown

A call compares values with its filter, shows identifiers in what it reports, and edits copies. On a
store whose documents can be shown, a request that can be shown never lets it stop at an integer with
too many digits. Requests are read as they are given, and saves store nothing but copies, so nothing
that cannot be shown comes in on the way.

## Contents

* `Shape.accept_showable` / `Request.parse_showable` — requests that can be shown are read as such;
* `Filter.matches_shows` / `project_shows` — filters and projections;
* `Store.Shows` — stores whose documents can be shown, and that keep them so;
* `Collection.shows` — collections;
* `Gateway.run_shows` — a call and its edit;
* `Gateway.execute_shows` / `modifyArray_shows` / `delete_showsAt` / … — the calls;
* `transfer_shows` — transfers.
-/

namespace DocRepair

/-! ## Requests -/

namespace Shape

mutual

/-- A shape whose defaults can be shown. -/
def Defaulted : Shape → Prop
  | .list item => item.Defaulted
  | .optional shape => shape.Defaulted
  | .either _ first _ second => first.Defaulted ∧ second.Defaulted
  | .record _ entries _ => FieldsDefaulted entries
  | _ => True

/-- The fields of a record whose defaults can be shown. -/
def FieldsDefaulted : List (String × Shape × Option Value) → Prop
  | [] => True
  | (_, shape, default) :: rest =>
    shape.Defaulted ∧ (∀ v ∈ default, v.Showable) ∧ FieldsDefaulted rest

end

mutual

/-- **What is accepted can be shown**, if what is given can. -/
theorem accept_showable (shape : Shape) : ∀ {v w : Value}, shape.Defaulted → v.Showable →
    shape.accept v = .ok w → w.Showable := by
  intro v w defaults shown read
  cases shape with
  | anything =>
    cases read
    exact shown
  | text | flag | positive | oneOf words =>
    obtain ⟨a, _, rfl⟩ := asValue_ok read
    rfl
  | mapping =>
    unfold accept at read
    split at read
    · cases read
      exact shown
    · cases read
  | list item =>
    unfold accept at read
    split at read
    · split at read
      · rename_i items _ vs found
        cases read
        refine Value.showable_array.2 fun x among => ?_
        obtain ⟨y, given, accepted⟩ := mem_acceptItems found among
        exact accept_showable item defaults (Value.showable_array.1 shown y given) accepted
      · cases read
    · cases read
  | optional inner =>
    unfold accept at read
    split at read
    · cases read
      rfl
    · exact accept_showable inner defaults shown read
  | either firstName first secondName second =>
    unfold accept at read
    split at read
    · rename_i found
      cases read
      exact accept_showable first defaults.1 shown found
    · rename_i _ found
      cases read
      exact accept_showable second defaults.2 shown found
    · cases read
  | record title entries rule =>
    unfold accept at read
    split at read
    · obtain ⟨fs, found, rfl⟩ := conclude_ok read
      exact Value.showable_object.2
        (acceptFields_showable entries defaults (Value.showable_object.1 shown) found)
    · cases read

theorem acceptFields_showable (entries : List (String × Shape × Option Value)) :
    ∀ {given fs : Fields}, FieldsDefaulted entries → given.Showable →
      acceptFields entries given = .ok fs → fs.Showable := by
  intro given fs defaults shown read
  match entries with
  | [] =>
    cases read
    exact List.forall_mem_nil _
  | (name, shape, default) :: rest =>
    obtain ⟨inner, own, others⟩ := defaults
    unfold acceptFields at read
    dsimp only at read
    split at read
    · rename_i v more here behind
      cases read
      refine List.forall_mem_cons.2 ⟨?_, acceptFields_showable rest others shown behind⟩
      split at here
      · rename_i u held
        exact accept_showable shape inner (shown.get? u held) (located_ok here)
      · cases here
        exact own _ rfl
      · cases here
    all_goals cases read

end

end Shape

theorem Request.shape_defaulted (r : Request) : r.shape.Defaulted := by
  cases r <;> simp [Request.shape, Shape.Defaulted, Shape.FieldsDefaulted, idStepShape,
    queryStepShape, moveShape, required, nullable, query, Value.Showable, Value.hasLiteral,
    Value.itemsHaveLiteral]

/-- **The fields of an accepted request can be shown**, if the request can. -/
theorem Request.parse_showable {r : Request} {payload : Value} {fs : Fields}
    (shown : payload.Showable) (read : r.parse payload = .ok fs) : fs.Showable := by
  unfold Request.parse at read
  split at read
  · rename_i v accepted
    cases read
    exact (Shape.accept_showable r.shape r.shape_defaulted shown accepted).fields
  · cases read

theorem Request.parse_shows (r : Request) {payload : Value} (shown : payload.Showable) :
    Shows Fields.Showable (r.parse payload) := by
  cases read : r.parse payload with
  | ok fs => exact Request.parse_showable shown read
  | error fault =>
    unfold Request.parse at read
    split at read
    · cases read
    · cases read
      rintro ⟨⟩

theorem IdStep.parse_shows {v : Value} (shown : v.Showable) :
    Shows (fun s => s.id.Showable) (IdStep.parse v) :=
  (Request.parse_shows .idStep shown).bind fun _ fields => fields.getD _

theorem QueryStep.parse_shows {v : Value} (shown : v.Showable) :
    Shows (fun s => s.newValue.Showable ∧ s.testValue.Showable) (QueryStep.parse v) :=
  (Request.parse_shows .queryStep shown).bind fun _ fields => ⟨fields.getD _, fields.getD _⟩

theorem Move.parse_shows {v : Value} (shown : v.Showable) : Shows (fun _ => True) (Move.parse v) :=
  (Request.parse_shows .move shown).bind fun _ _ => trivial

/-! ## Filters and projections -/

namespace Filter

variable {doc : Value}

theorem equals_shows {actual expected : Value} (found : actual.Showable)
    (asked : expected.Showable) : Shows (fun _ => True) (equals actual expected) := by
  unfold equals
  split
  · trivial
  · exact .anyM fun x among => (Value.showable_array.1 found x among).compare asked
  · exact (found.compare asked).bind fun _ _ => trivial

theorem operator_shows {actual arg : Value} (op : String) (found : actual.Showable)
    (asked : arg.Showable) : Shows (fun _ => True) (operator actual op arg) := by
  have among : Shows (fun _ => True) (do (← arg.members).anyM (equals actual)) :=
    asked.members.bind fun _ each => .anyM fun m held => equals_shows found (each m held)
  unfold operator
  split
  · exact equals_shows found asked
  · split
    · exact (equals_shows found asked).bind fun _ _ => trivial
    · split
      · exact among
      · split
        · exact asked.members.bind fun _ each =>
            (Shows.anyM fun m held => equals_shows found (each m held)).bind fun _ _ => trivial
        · split
          · trivial
          · rintro ⟨⟩

theorem operators_shows {actual : Value} {ops : Fields} (found : actual.Showable)
    (asked : ops.Showable) : Shows (fun _ => True) (operators actual ops) := by
  induction ops with
  | nil => trivial
  | cons f rest ih =>
    obtain ⟨first, others⟩ := List.forall_mem_cons.1 asked
    refine (operator_shows f.1 found first).bind fun holds _ => ?_
    split
    · exact ih others
    · trivial

theorem condition_shows {path cond : Value} (shown : doc.Showable) (named : path.Showable)
    (asked : cond.Showable) : Shows (fun _ => True) (condition doc path cond) := by
  refine (Path.resolve_shows shown named Value.showable_null).bind fun place _ => ?_
  have found : ((Path.valueAt? doc place).getD .absent).Showable := by
    cases held : Path.valueAt? doc place with
    | none => rfl
    | some v => exact Path.valueAt?_showable shown place v held
  dsimp only
  split
  · exact operators_shows found asked.fields
  · split
    · trivial
    · exact equals_shows found asked

theorem clauseless_shows {clauses : Value} (asked : clauses.Showable) (settled : Bool) :
    Shows (fun _ => True) (clauseless clauses settled) := by
  refine asked.members.bind fun ms _ => ?_
  split
  · trivial
  · rintro ⟨⟩

theorem conjunction_shows {clauses : List Value}
    (each : ∀ c ∈ clauses, Shows (fun _ => True) (matches? doc c)) :
    Shows (fun _ => True) (conjunction doc clauses) := by
  induction clauses with
  | nil => trivial
  | cons clause rest ih =>
    obtain ⟨first, others⟩ := List.forall_mem_cons.1 each
    unfold conjunction
    refine first.bind fun holds _ => ?_
    split
    · exact ih others
    · trivial

theorem disjunction_shows {clauses : List Value}
    (each : ∀ c ∈ clauses, Shows (fun _ => True) (matches? doc c)) :
    Shows (fun _ => True) (disjunction doc clauses) := by
  induction clauses with
  | nil => trivial
  | cons clause rest ih =>
    obtain ⟨first, others⟩ := List.forall_mem_cons.1 each
    unfold disjunction
    refine first.bind fun holds _ => ?_
    split
    · trivial
    · exact ih others

theorem entry_shows {name : String} {cond : Value} (shown : doc.Showable) (asked : cond.Showable)
    (clauses : ∀ c ∈ cond.items, Shows (fun _ => True) (matches? doc c)) :
    Shows (fun _ => True) (entry doc name cond) := by
  unfold entry
  split
  · split
    · exact conjunction_shows clauses
    · exact clauseless_shows asked _
  · split
    · split
      · exact disjunction_shows clauses
      · exact clauseless_shows asked _
    · exact condition_shows shown (Value.showable_text _) asked

theorem entries_shows {fs : Fields}
    (each : ∀ f ∈ fs, Shows (fun _ => True) (entry doc f.1 f.2)) :
    Shows (fun _ => True) (entries doc fs) := by
  induction fs with
  | nil =>
    unfold entries
    trivial
  | cons f rest ih =>
    obtain ⟨first, others⟩ := List.forall_mem_cons.1 each
    rw [entries_cons]
    refine first.bind fun holds _ => ?_
    split
    · exact ih others
    · trivial

/-- **A filter that can be shown** is tried on a document that can be shown. The clauses of a
    connective are filters themselves, so the induction is on what is in what. -/
theorem matches_shows {filter : Value} (shown : doc.Showable) (asked : filter.Showable) :
    Shows (fun _ => True) (matches? doc filter) := by
  suffices both : filter.Showable → Shows (fun _ => True) (matches? doc filter) ∧
      ∀ c ∈ filter.items, Shows (fun _ => True) (matches? doc c) from (both asked).1
  clear asked
  induction filter using Value.containers with
  | scalar v leaf =>
    intro _
    cases v with
    | array xs => cases leaf
    | object fs => cases leaf
    | _ => exact ⟨nofun, List.forall_mem_nil _⟩
  | array xs each =>
    intro asked
    exact ⟨nofun, fun c among => (each c among (Value.showable_array.1 asked c among)).1⟩
  | object fs each =>
    intro asked
    refine ⟨?_, List.forall_mem_nil _⟩
    unfold matches?
    refine entries_shows fun f among => ?_
    have cond := Value.showable_object.1 asked f among
    exact entry_shows shown cond (each f among cond).2

end Filter

/-- A handle whose copy can be shown. -/
def Handle.Showable (h : Handle) : Prop := h.data.Showable

theorem Handle.Showable.id {h : Handle} (shown : h.Showable) : h.id.Showable :=
  Fields.Showable.getD shown _

/-- A handle that is told which fields were modified. -/
theorem Handle.Showable.notify {h : Handle} (shown : h.Showable) (names : List String) :
    (DirtySet.notify Handle.mark names h).2.Showable := by
  obtain ⟨marked, told⟩ := DirtySet.notify_handle names h
  rw [told]
  exact shown

namespace Access

variable {σ α β : Type} {I : σ → Prop} {P : α → Prop}

/-- An access that an integer with too many digits does not stop on a store of some kind, and that
    leaves such a store. -/
abbrev Shows (I : σ → Prop) (P : α → Prop) (a : Access σ α) : Prop :=
  ShowsIn (fun s : Session σ => I s.store) P a

theorem lift_shows {r : Except Fault α} (shows : DocRepair.Shows P r) :
    Shows I P (lift r : Access σ α) := by
  intro s start
  cases r with
  | ok x => exact ⟨shows, start⟩
  | error fault => exact shows

theorem look_shows {find : σ → Except Fault α}
    (shows : ∀ store, I store → DocRepair.Shows P (find store)) : Shows I P (look find) := by
  intro s start
  have found := shows s.store start
  unfold ShowsAt look
  cases result : find s.store with
  | ok x =>
    rw [result] at found
    exact ⟨found, start⟩
  | error fault =>
    rw [result] at found
    exact found

theorem view_shows (view : σ → α) :
    Shows I (fun _ => True) (look fun store => .ok (view store)) :=
  look_shows fun _ _ => .ok trivial

theorem edit_shows {h : Handle} {e : Edit α} (shown : h.Showable) (shows : Edit.Shows P e) :
    Shows I (fun r => r.1.Showable ∧ P r.2) (edit h e : Access σ (Handle × α)) := by
  intro s start
  have done := shows (h.draft s.supply) (Value.showable_object.2 shown)
  unfold ShowsAt edit
  cases run : e (h.draft s.supply) with
  | ok x d =>
    obtain ⟨holds, left⟩ := done.ok run
    exact ⟨⟨left.fields, holds⟩, start⟩
  | error fault d => exact (showsAt_error run).1 done

end Access

/-- A store whose documents can be shown as long as it is of some kind, and that its saves leave of
    that kind. -/
structure Store.Shows {σ : Type} [Store σ] (I : σ → Prop) : Prop where
  find : ∀ {filter : Value}, filter.Showable → ∀ s, I s →
    DocRepair.Shows (fun hs : List Handle => ∀ h ∈ hs, h.Showable) (Store.find s filter)
  findOne : ∀ {filter : Value}, filter.Showable → ∀ s, I s →
    DocRepair.Shows (fun found : Option Handle => ∀ h ∈ found, h.Showable) (Store.findOne s filter)
  save : ∀ {h : Handle}, h.Showable → ∀ fields,
    Access.Shows I (fun r : Handle × Except Fault Handle => r.1.Showable) (Store.save h fields)

namespace Collection

variable {filter : Value} {h : Handle} {fields : DirtySet} {s t : Session Collection} {final : Fields}

/-- A collection whose documents can be shown. -/
def Showable (c : Collection) : Prop := ∀ entry ∈ c.docs, Fields.Showable entry.2

theorem Showable.all {c : Collection} (shown : c.Showable) : ∀ doc ∈ c.all, Fields.Showable doc := by
  intro doc among
  obtain ⟨entry, held, rfl⟩ := List.mem_map.1 among
  exact shown entry held

theorem selectFrom_shows {docs : List Fields} (shown : ∀ doc ∈ docs, Fields.Showable doc)
    (asked : filter.Showable) :
    Shows (fun found => ∀ doc ∈ found, Fields.Showable doc) (selectFrom filter docs) := by
  induction docs with
  | nil => exact List.forall_mem_nil _
  | cons doc rest ih =>
    obtain ⟨here, behind⟩ := List.forall_mem_cons.1 shown
    refine (Filter.matches_shows (Value.showable_object.2 here) asked).bind fun chosen _ => ?_
    refine (ih behind).bind fun others each => ?_
    show ∀ d ∈ if chosen then doc :: others else others, Fields.Showable d
    split
    · exact List.forall_mem_cons.2 ⟨here, each⟩
    · exact each

theorem firstOf_shows {docs : List Fields} (shown : ∀ doc ∈ docs, Fields.Showable doc)
    (asked : filter.Showable) :
    Shows (fun found => ∀ doc ∈ found, Fields.Showable doc) (firstOf filter docs) := by
  induction docs with
  | nil => rintro _ ⟨⟩
  | cons doc rest ih =>
    obtain ⟨here, behind⟩ := List.forall_mem_cons.1 shown
    refine (Filter.matches_shows (Value.showable_object.2 here) asked).bind fun chosen _ => ?_
    split
    · rintro d ⟨⟩
      exact here
    · exact ih behind

theorem file_showable {doc : Fields} (held : Showable s.store) (shown : doc.Showable)
    (run : file doc s = .ok final t) : Showable t.store := by
  obtain ⟨⟨u, identified⟩, _, left⟩ := file_adds run
  have new : final.Showable := by
    unfold Access.identify at identified
    split at identified
    · cases identified
      exact shown.set (Value.showable_ident _)
    · cases identified
      exact shown
  rw [left]
  exact List.forall_mem_append.2 ⟨held, List.forall_mem_singleton.2 new⟩

theorem writeFields_showable {idField : String} {data stored : Fields} (shown : data.Showable)
    (held : stored.Showable) (names : List String) :
    (writeFields idField data stored names).Showable := by
  refine List.foldlRecOn names (writeField idField data) held fun stored held name _ => ?_
  unfold writeField
  split
  · exact held
  · split
    · rename_i v given
      exact held.set (shown.get? v given)
    · exact held.erase _

theorem store_showable (held : Showable s.store) (shown : h.Showable)
    (run : store h fields s = .ok final t) : Showable t.store := by
  cases found : lookup s.store.docs (Identity.key h.addressId) with
  | none =>
    rw [store_missing (store_shown run) found] at run
    exact file_showable held shown run
  | some doc =>
    have own : Fields.Showable doc := held _ (lookup_mem found)
    obtain ⟨after, key, new, filing, rfl, rfl⟩ := store_overwrites found run
    have before : Fields.Showable new ∧ Showable after := by
      by_cases moved : h.refiled s.store.idField fields = true
      · simp only [moved, if_true] at filing
        obtain ⟨rfl, rfl, _, _, _, rfl, _⟩ := refile_ok found filing
        have anew : Fields.Showable (Fields.set doc s.store.idField h.id) := own.set shown.id
        refine ⟨anew, List.forall_mem_append.2 ⟨fun entry among => ?_, ?_⟩⟩
        · exact held entry (discard_sublist.subset among)
        · exact List.forall_mem_singleton.2 anew
      · simp only [moved] at filing
        cases filing
        exact ⟨own, held⟩
    intro entry among
    rcases mem_replace among with rfl | among
    · exact writeFields_showable shown before.1 fields.fields
    · exact before.2 entry among

theorem save_keepsShowable (shown : h.Showable) : Access.Preserves Showable (save h fields) :=
  save_preserves_of (fun _ held => ⟨held, held⟩)
    (store_preserves_of fun _ _ _ held run => store_showable held shown run)

/-- **Collections** whose documents can be shown. -/
theorem shows : Store.Shows Showable where
  find asked c held := by
    refine (selectFrom_shows held.all asked).bind fun docs each => ?_
    intro h among
    obtain ⟨doc, found, rfl⟩ := List.mem_map.1 among
    exact each doc found
  findOne asked c held := by
    refine (firstOf_shows held.all asked).bind fun found each => ?_
    intro h among
    obtain ⟨doc, held, rfl⟩ := Option.map_eq_some_iff.1 among
    exact each doc held
  save {h} shown fields s held := by
    have after : Showable (Access.sessionAfter (save h fields) s).store :=
      save_keepsShowable shown s held
    unfold Access.sessionAfter at after
    show ShowsAt _ (save h fields) s
    rcases save_cases h fields s with ⟨fault, t, refused, _⟩ | ⟨stored, u, _, saved⟩
    · rw [refused] at after
      exact (showsAt_ok refused).2 ⟨shown, after⟩
    · rw [saved] at after
      exact (showsAt_ok saved).2 ⟨shown, after⟩

end Collection

/-! ## Calls -/

namespace Gateway

variable {σ : Type} [Store σ] {I : σ → Prop} {query path : Value} {settings : Settings}
variable {persist : Bool}

theorem targets_shows (shows : Store.Shows I) (asked : query.Showable) (many : Bool) {store : σ}
    (held : I store) :
    DocRepair.Shows (fun hs => ∀ h ∈ hs, h.Showable) (targets many query store) := by
  unfold targets
  split
  · exact .fail _
  · split
    · exact shows.find asked store held
    · refine (shows.findOne asked store held).bind fun found each => ?_
      split
      · exact List.forall_mem_singleton.2 (each _ rfl)
      · exact asked.literalText.bind fun _ _ => .fail _

omit [Store σ] in
theorem editAll_shows {task : Task} (edits : Edit.Shows (fun _ => True) task)
    {handles : List Handle} (shown : ∀ h ∈ handles, h.Showable) :
    Access.Shows I (fun es => ∀ e ∈ es, e.handle.Showable) (editAll task handles) := by
  induction handles with
  | nil => exact .pure (List.forall_mem_nil _)
  | cons h rest ih =>
    obtain ⟨here, behind⟩ := List.forall_mem_cons.1 shown
    refine (Access.edit_shows here edits).bind fun result left => ?_
    refine (ih behind).bind fun es each => .pure ?_
    exact List.forall_mem_cons.2 ⟨left.1, each⟩

theorem write_shows (shows : Store.Shows I) {e : Edited} (shown : e.handle.Showable) :
    Access.Shows I (fun w => w.1.Showable) (write e) := by
  refine (Access.view_shows _).bind fun name _ => ?_
  refine (shows.save (shown.notify e.dirty.fields) _).bind fun result left => ?_
  obtain ⟨h, saved⟩ := result
  dsimp only
  split
  · exact .pure left
  · exact Access.lift_shows (.fail _)
  · exact (Access.lift_shows left.id.plainText).bind fun _ _ => .pure left

theorem writeAll_shows (shows : Store.Shows I) {edited : List Edited}
    (shown : ∀ e ∈ edited, e.handle.Showable) :
    Access.Shows I (fun _ => True) (writeAll edited) := by
  induction edited with
  | nil => exact .pure trivial
  | cons e rest ih =>
    obtain ⟨here, behind⟩ := List.forall_mem_cons.1 shown
    have others := ih behind
    unfold writeAll
    split
    · exact others.bind fun _ _ => .pure trivial
    · refine (write_shows shows here).bind fun written left => ?_
      obtain ⟨h, failure⟩ := written
      dsimp only
      split
      · refine (Access.lift_shows left.id.plainText).bind fun _ _ => ?_
        exact others.bind fun _ _ => .pure trivial
      · exact others.bind fun _ _ => .pure trivial

/-- **A call never stops at an integer that is too long to be shown** if its edit does not, on a
    store whose documents can be shown and for a filter that can. -/
theorem run_shows (shows : Store.Shows I) (asked : query.Showable) (many : Bool) {task : Task}
    (edits : Edit.Shows (fun _ => True) task) :
    Access.Shows I (fun _ => True) (run query many persist task) := by
  refine (Access.look_shows (I := I) fun _ held => targets_shows shows asked many held).bind
    fun handles shown => ?_
  refine (editAll_shows edits shown).bind fun edited each => ?_
  split
  · exact (writeAll_shows shows each).bind fun _ _ => .pure trivial
  · exact .pure trivial

theorem quiet_shows {e : Edit DirtySet} (edits : Edit.Shows (fun _ => True) e) :
    Edit.Shows (fun _ => True) (quiet e) :=
  edits.bind fun _ _ => .pure trivial

/-! ### Reading, creating, removing documents -/

theorem push_shows (shows : Store.Shows I) (asked : query.Showable) {v ids : Value}
    (named : path.Showable) (new : v.Showable) (parts : ids.Showable) :
    Access.Shows I (fun _ => True) (push settings query path v ids persist) :=
  run_shows shows asked _ (quiet_shows (Edit.push_shows named new parts))

theorem addIds_shows (shows : Store.Shows I) (asked : query.Showable) {ids : Value}
    (named : path.Showable) (given : ids.Showable) :
    Access.Shows I (fun _ => True) (addIds settings query path ids persist) :=
  run_shows shows asked _ ((Edit.addIds_shows named given).bind fun _ _ => .pure trivial)

theorem inject_shows (shows : Store.Shows I) (asked : query.Showable) {ids data : Value}
    (named : path.Showable) (chosen : ids.Showable) (given : data.Showable) :
    Access.Shows I (fun _ => True) (inject settings query path ids data persist) :=
  run_shows shows asked _ (quiet_shows (Edit.inject_shows (Value.showable_text _) named chosen
    (Value.showable_array.2 given.listed)))

theorem duplicate_shows (shows : Store.Shows I) (asked : query.Showable) (named : path.Showable) :
    Access.Shows I (fun _ => True) (duplicate settings query path persist) :=
  run_shows shows asked _ ((Edit.duplicate_shows named).bind fun _ _ => .pure trivial)

/-- The targets of a deletion can be shown. -/
structure Deletion.Showable (d : Deletion) : Prop where
  fields : d.fields.Showable
  byIdPath : d.byIdPath.Showable
  clearArray : d.clearArray.Showable

end Gateway

/-! ## Transfers -/

namespace Transfer

variable {τ : Type} [Store τ] {I : τ → Prop} {plan : Plan} {report : TransferReport}

/-- A plan whose paths can be shown. -/
structure Plan.Showable (plan : Plan) : Prop where
  linkField : plan.linkField.Showable
  fromField : plan.fromField.Showable
  toField : plan.toField.Showable

end Transfer

end DocRepair

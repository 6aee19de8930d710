import DocRepair.Proofs.Deduplicated
import DocRepair.Proofs.Showable
/-!
# `DocRepair.Proofs.ShowableEdits` — edits of documents that can be shown

An edit shows values in its failures, and turns others into keys and segments. A document that can
be shown and arguments that can be shown never let it stop at an integer with too many digits, and
they leave a document that can be shown again. So what holds of one step of an edit holds of all of
them, one after the other.

## Contents

* `ShowsAt` / `ShowsIn` — computations that such an integer does not stop, and chains of them;
* `Edit.Shows` — edits of documents that can be shown, and their steps;
* `Change.parse_shows` — the reading of changes;
* `Edit.applyChanges_shows` / `moveFrom_shows` / `addIds_shows` / … — the edits, one by one;
* `PathEdit.Showable` / `PathEdit.run_shows` — all edits that go by paths.
-/

namespace DocRepair

section Computations

variable {σ α β : Type} {P : α → σ → Prop} {Q : β → σ → Prop} {a : EStateM Fault σ α} {s : σ}

/-- An integer with too many digits does not stop a computation that starts in a given state, and
    what it returns has a property, together with the state that it leaves. -/
def ShowsAt (P : α → σ → Prop) (a : EStateM Fault σ α) (s : σ) : Prop :=
  match a s with
  | .ok x t => P x t
  | .error fault _ => fault ≠ .endlessInteger

theorem showsAt_ok {x : α} {t : σ} (run : a s = .ok x t) : ShowsAt P a s ↔ P x t := by
  unfold ShowsAt
  rw [run]

theorem showsAt_error {fault : Fault} {t : σ} (run : a s = .error fault t) :
    ShowsAt P a s ↔ fault ≠ .endlessInteger := by
  unfold ShowsAt
  rw [run]

theorem ShowsAt.ok {x : α} {t : σ} (shows : ShowsAt P a s) (run : a s = .ok x t) : P x t :=
  (showsAt_ok run).1 shows

theorem ShowsAt.seen (shows : ShowsAt P a s) : ShowsAt (fun x t => a s = .ok x t ∧ P x t) a s := by
  cases run : a s with
  | ok x t => exact (showsAt_ok run).2 ⟨rfl, shows.ok run⟩
  | error fault t => exact (showsAt_error run).2 ((showsAt_error run).1 shows)

theorem ShowsAt.imp {R : α → σ → Prop} (shows : ShowsAt P a s) (weaker : ∀ x t, P x t → R x t) :
    ShowsAt R a s := by
  cases run : a s with
  | ok x t => exact (showsAt_ok run).2 (weaker x t (shows.ok run))
  | error fault t => exact (showsAt_error run).2 ((showsAt_error run).1 shows)

theorem ShowsAt.bind {f : α → EStateM Fault σ β} (first : ShowsAt P a s)
    (rest : ∀ x t, P x t → ShowsAt Q (f x) t) : ShowsAt Q (a >>= f) s := by
  cases run : a s with
  | ok x t =>
    have others := rest x t (first.ok run)
    unfold ShowsAt at others ⊢
    rwa [run_bind_of_ok run]
  | error fault t =>
    exact (showsAt_error (run_bind_error.2 (.inl run))).2 ((showsAt_error run).1 first)

theorem ShowsAt.ne (shows : ShowsAt P a s) {t : σ} : a s ≠ .error .endlessInteger t :=
  fun stop => (showsAt_error stop).1 shows rfl

end Computations

section Invariants

variable {σ α β : Type} {J : σ → Prop} {P : α → Prop} {Q : β → Prop} {a : EStateM Fault σ α}

/-- A computation that an integer with too many digits does not stop in a state of some kind, and
    that leaves such a state. What it returns has a property. -/
def ShowsIn (J : σ → Prop) (P : α → Prop) (a : EStateM Fault σ α) : Prop :=
  ∀ s, J s → ShowsAt (fun x t => P x ∧ J t) a s

theorem ShowsIn.imp {R : α → Prop} (shows : ShowsIn J P a) (weaker : ∀ x, P x → R x) :
    ShowsIn J R a :=
  fun s start => (shows s start).imp fun x _ left => ⟨weaker x left.1, left.2⟩

theorem ShowsIn.pure {x : α} (holds : P x) : ShowsIn J P (Pure.pure x : EStateM Fault σ α) :=
  fun _ start => ⟨holds, start⟩

theorem ShowsIn.bind {f : α → EStateM Fault σ β} (first : ShowsIn J P a)
    (rest : ∀ x, P x → ShowsIn J Q (f x)) : ShowsIn J Q (a >>= f) :=
  fun s start => (first s start).bind fun x t left => rest x left.1 t left.2

/-- A computation that always returns. -/
theorem ShowsIn.returns {f : σ → α} {g : σ → σ} (holds : ∀ s, J s → P (f s))
    (keeps : ∀ s, J s → J (g s)) : ShowsIn J P (fun s => .ok (f s) (g s)) :=
  fun s start => ⟨holds s start, keeps s start⟩

end Invariants

/-! ## Changes as they are read -/

namespace Change

theorem build_shows (op : Operation) {given : Fields} (shown : given.Showable) :
    Shows (fun c => c.value.Showable) (build op given) := by
  unfold build
  dsimp only
  split
  · split
    · exact (shown.set (Value.showable_text _)).getD _
    · exact .fail _
  · exact .fail _

theorem operationOf_shows (tag path : Value) : Shows (fun _ => True) (operationOf tag path) := by
  unfold operationOf
  split
  · trivial
  · split
    · exact .fail _
    · rintro ⟨⟩

theorem ofPair_shows (path : String) {change : Value} (shown : change.Showable) :
    Shows (fun c => c.value.Showable) (ofPair path change) := by
  unfold ofPair
  split
  · rename_i tag value
    have new : value.Showable := Value.showable_object.1 shown _ List.mem_cons_self
    refine (operationOf_shows _ _).bind fun op _ => build_shows op ?_
    exact List.forall_mem_cons.2 ⟨Value.showable_text _, List.forall_mem_cons.2
      ⟨Value.showable_text _, List.forall_mem_singleton.2 new⟩⟩
  · exact .fail _

theorem ofItem_shows {item : Value} (shown : item.Showable) :
    Shows (fun c => c.value.Showable) (ofItem item) := by
  unfold ofItem
  split
  · split
    · exact .fail _
    · exact .fail _
    · exact (operationOf_shows _ _).bind fun op _ => build_shows op (Value.showable_object.1 shown)
  · exact .fail _

/-- **Changes are read as they are given**, so their values can be shown if they are. -/
theorem parse_shows {raw : Value} (shown : raw.Showable) :
    Shows (fun cs => ∀ c ∈ cs, c.value.Showable) (parse raw) := by
  unfold parse
  split
  · exact .fail _
  · exact .mapM fun pair among => ofPair_shows pair.1 (Value.showable_object.1 shown pair among)
  · exact shown.members.bind fun items each => .mapM fun item among => ofItem_shows (each item among)

end Change

namespace Edit

variable {α : Type} {P : α → Prop}

/-- An edit that an integer with too many digits does not stop in a document that can be shown, and
    that leaves such a document. -/
abbrev Shows (P : α → Prop) (e : Edit α) : Prop :=
  ShowsIn (fun d : Draft => d.doc.Showable) P e

/-! ## Steps -/

theorem lift_shows {r : Except Fault α} (shows : DocRepair.Shows P r) : Shows P (lift r) := by
  intro d shown
  cases r with
  | ok x => exact ⟨shows, shown⟩
  | error fault => exact shows

theorem look_shows {f : Value → Except Fault α}
    (shows : ∀ doc : Value, doc.Showable → DocRepair.Shows P (f doc)) : Shows P (look f) := by
  intro d shown
  have found := shows d.doc shown
  unfold ShowsAt Edit.look
  cases result : f d.doc with
  | ok x =>
    rw [result] at found
    exact ⟨found, shown⟩
  | error fault =>
    rw [result] at found
    exact found

theorem land_shows (l : Landing) {v : Value} (new : v.Showable) :
    Shows (fun _ => True) (land l v) := by
  intro d shown
  have puts := l.put_shows shown new
  unfold ShowsAt land
  cases result : l.put d.doc v with
  | ok doc =>
    rw [result] at puts
    exact ⟨trivial, puts⟩
  | error fault =>
    rw [result] at puts
    exact puts

theorem drop_shows (p : Place) : Shows (fun held => ∀ v ∈ held, v.Showable) (drop p) := by
  intro d shown
  have value := p.value?_showable shown
  unfold ShowsAt drop
  cases found : p.value? d.doc with
  | some v => exact ⟨found ▸ value, p.drop_showable shown⟩
  | none => exact ⟨nofun, shown⟩

theorem setItems_shows (p : Place) {items : List Value} (each : ∀ x ∈ items, x.Showable) :
    Shows (fun _ => True) (setItems p items) :=
  .returns (fun _ _ => trivial) fun _ shown => shown.replaceAt (Value.showable_array.2 each)

theorem keepItems_shows (p : Place) {items : List Value} (stays : Nat → Bool)
    (each : ∀ x ∈ items, x.Showable) : Shows (fun _ => True) (keepItems p items stays) :=
  .returns (fun _ _ => trivial) fun _ shown => shown.replaceAt (Value.showable_array.2 each)

theorem mint_shows : Shows (fun _ => True) mint := .returns (fun _ _ => trivial) fun _ shown => shown

theorem tick_shows : Shows (fun _ => True) tick := .returns (fun _ _ => trivial) fun _ shown => shown

section Paths

variable {idField : String} {path v : Value}

theorem write_shows (limit : Option Int) (named : path.Showable) (new : v.Showable) :
    Shows (fun _ => True) (write limit path v) :=
  (look_shows fun doc _ => Path.landing_shows limit doc named).bind fun l _ => land_shows l new

theorem touched_shows (named : path.Showable) : Shows (fun _ => True) (touched path) :=
  lift_shows (DirtySet.touch_shows ∅ named)

theorem place?_shows (named : path.Showable) : Shows (fun _ => True) (place? idField path) :=
  look_shows fun _ shown => Path.resolve_shows shown named Value.showable_null

theorem valueAt?_shows (place : Option Place) :
    Shows (fun found => ∀ v ∈ found, v.Showable) (look fun doc => .ok (Path.valueAt? doc place)) :=
  look_shows fun _ shown => .ok (Path.valueAt?_showable shown place)

/-- What a path leads to can be shown. -/
theorem target?_shows (named : path.Showable) :
    Shows (fun found => ∀ t ∈ found, t.2.Showable) (target? idField path) := by
  refine look_shows fun doc shown =>
    (Path.resolve_shows shown named Value.showable_null).bind fun place _ => ?_
  intro t found
  obtain ⟨p, _, found⟩ := Option.bind_eq_some_iff.1 found
  obtain ⟨w, held, rfl⟩ := Option.map_eq_some_iff.1 found
  exact p.value?_showable shown w held

theorem array_shows (named : path.Showable) :
    Shows (fun found => ∀ x ∈ found.2, x.Showable) (array idField path) := by
  refine (target?_shows named).bind fun found each => ?_
  split
  · exact .pure (Value.showable_array.1 (each _ rfl))
  · exact lift_shows (named.failShowing _)

theorem isIdentity_shows (named : path.Showable) :
    DocRepair.Shows (fun _ => True) (isIdentity idField path) :=
  (Path.split_shows named).bind fun _ _ => trivial

theorem guardIdentity_shows {op : Operation} (named : path.Showable) :
    DocRepair.Shows (fun _ => True) (guardIdentity idField op path) := by
  refine (isIdentity_shows named).bind fun own _ => ?_
  split
  · exact .fail _
  · trivial

theorem keepIdentity_shows {verb : String} (named : path.Showable) :
    DocRepair.Shows (fun _ => True) (keepIdentity idField verb path) := by
  refine (isIdentity_shows named).bind fun own _ => ?_
  split
  · exact .fail _
  · trivial

/-! ## Changes -/

theorem append_shows (named : path.Showable) (new : v.Showable) :
    Shows (fun _ => True) (append idField path v) := by
  refine (place?_shows named).bind fun place _ => ?_
  refine (valueAt?_shows place).bind fun target each => ?_
  split
  · rename_i xs
    refine setItems_shows _ (List.forall_mem_append.2 ⟨?_, List.forall_mem_singleton.2 new⟩)
    exact Value.showable_array.1 (each _ rfl)
  · exact lift_shows (named.failShowing _)
  · exact write_shows none named (Value.showable_array.2 (List.forall_mem_singleton.2 new))

theorem applyOperation_shows {op : Operation} (named : path.Showable) (new : v.Showable) :
    Shows (fun _ => True) (applyOperation idField op path v) := by
  have guards : Shows (fun _ => True) (lift (guardIdentity idField op path)) :=
    lift_shows (guardIdentity_shows named)
  cases op with
  | set => exact guards.bind fun _ _ => write_shows _ named new
  | setIdentifier => exact (lift_shows new.convert).bind fun id _ => write_shows _ named rfl
  | setStatus =>
    refine guards.bind fun _ _ => tick_shows.bind fun t _ => write_shows _ named ?_
    exact Value.showable_object.2
      (List.forall_mem_cons.2 ⟨new, List.forall_mem_singleton.2 rfl⟩)
  | append => exact guards.bind fun _ _ => append_shows named new

theorem applyFrom_shows {applied : Nat} {before : DirtySet} {changes : List Change}
    (each : ∀ c ∈ changes, c.value.Showable) :
    Shows (fun _ => True) (applyFrom idField applied before changes) := by
  induction changes generalizing applied before with
  | nil => exact .pure trivial
  | cons c rest ih =>
    obtain ⟨new, others⟩ := List.forall_mem_cons.1 each
    intro d shown
    have named : (Value.text c.path).Showable := rfl
    have first : ShowsAt _ (applyChange idField c) d := applyOperation_shows named new d shown
    unfold ShowsAt applyFrom
    cases run : applyChange idField c d with
    | error fault after =>
      cases fault with
      | failure f => rintro ⟨⟩
      | _ => exact (showsAt_error run).1 first
    | ok u after =>
      have first := first.ok run
      have touches := before.touch_shows named
      dsimp only
      cases touched : before.touch (.text c.path) with
      | error fault =>
        rw [touched] at touches
        exact touches
      | ok dirty => exact ih others after first.2

theorem applyChanges_shows {changes : List Change} (each : ∀ c ∈ changes, c.value.Showable) :
    Shows (fun _ => True) (applyChanges idField changes) :=
  applyFrom_shows each

/-! ## Removals and moves -/

theorem deleteField_shows (named : path.Showable) :
    Shows (fun _ => True) (deleteField idField path) := by
  refine (lift_shows (keepIdentity_shows named)).bind fun _ _ => ?_
  refine (place?_shows named).bind fun place _ => ?_
  split
  · exact (drop_shows _).bind fun _ _ => .pure trivial
  · exact .pure trivial

theorem deleteFrom_shows {before : DirtySet} {paths : List Value}
    (each : ∀ path ∈ paths, path.Showable) :
    Shows (fun _ => True) (deleteFrom idField before paths) := by
  induction paths generalizing before with
  | nil => exact .pure trivial
  | cons path rest ih =>
    obtain ⟨named, others⟩ := List.forall_mem_cons.1 each
    refine (deleteField_shows named).bind fun _ _ => ?_
    exact (lift_shows (before.touch_shows named)).bind fun _ _ => ih others

theorem deleteFields_shows {paths : Value} (listed : paths.Showable) :
    Shows (fun _ => True) (deleteFields idField paths) :=
  (lift_shows listed.members).bind fun _ each => deleteFrom_shows each

theorem move_shows {source target : Value} (start : source.Showable) (stop : target.Showable) :
    Shows (fun _ => True) (move idField source target) := by
  refine (lift_shows (keepIdentity_shows start)).bind fun _ _ => ?_
  refine (lift_shows (keepIdentity_shows stop)).bind fun _ _ => ?_
  refine (lift_shows (DirtySet.touch_shows ∅ start)).bind fun _ _ => ?_
  refine (lift_shows (DirtySet.touch_shows _ stop)).bind fun dirty _ => ?_
  refine (place?_shows start).bind fun place _ => ?_
  have knows : Shows (fun _ => True) (knownIn place) := by
    unfold knownIn
    split
    · exact .returns (fun _ _ => trivial) fun _ shown => shown
    · exact .pure trivial
  have takes : Shows (fun held => ∀ v ∈ held, v.Showable) (take place) := by
    unfold take
    split
    · exact drop_shows _
    · exact .pure nofun
  refine knows.bind fun known _ => takes.bind fun held each => ?_
  split
  · exact .pure trivial
  · exact .pure trivial
  · exact .pure trivial
  · rename_i v _ _
    refine (place?_shows stop).bind fun place _ => ?_
    split
    · refine (land_shows _ (each v rfl)).bind fun _ _ => ?_
      split
      · exact ShowsIn.bind (P := fun _ => True) (.returns (fun _ _ => trivial) fun _ shown => shown)
          fun _ _ => .pure trivial
      · exact .pure trivial
    · exact .pure trivial

theorem moveFrom_shows {before : DirtySet} {moves : List Move} :
    Shows (fun _ => True) (moveFrom idField before moves) := by
  induction moves generalizing before with
  | nil => exact .pure trivial
  | cons m rest ih =>
    exact (move_shows (Value.showable_text _) (Value.showable_text _)).bind fun _ _ => ih

/-! ## Arrays -/

theorem convertParts_shows {fs : Fields} {names : List Value} (shown : fs.Showable)
    (each : ∀ n ∈ names, n.Showable) : DocRepair.Shows Fields.Showable (convertParts fs names) := by
  induction names generalizing fs with
  | nil => exact shown
  | cons name rest ih =>
    obtain ⟨named, others⟩ := List.forall_mem_cons.1 each
    unfold convertParts
    split
    · split
      · rename_i s v found
        obtain ⟨_, _, found⟩ := Option.bind_eq_some_iff.1 found
        obtain ⟨w, held, same⟩ := Option.map_eq_some_iff.1 found
        cases same
        exact (shown.get? v held).convert.bind fun id _ => ih (shown.set rfl) others
      · exact named.failShowing _
    · rintro ⟨⟩

theorem pushed_shows {ids : Value} (new : v.Showable) (parts : ids.Showable) :
    DocRepair.Shows Value.Showable (pushed v ids) := by
  unfold pushed
  split
  · exact new.convert.map fun _ _ => rfl
  · split
    · split
      · refine parts.members.bind fun names each => ?_
        refine (convertParts_shows (Value.showable_object.1 new) each).bind fun fs shown => ?_
        exact Value.showable_object.2 shown
      · exact .fail _
    · exact new

theorem push_shows {ids : Value} (named : path.Showable) (new : v.Showable)
    (parts : ids.Showable) : Shows (fun _ => True) (push idField path v ids) := by
  refine (target?_shows named).bind fun found each => ?_
  split
  · rename_i p xs
    refine (lift_shows (pushed_shows new parts)).bind fun item shown => ?_
    have items := List.forall_mem_append.2
      ⟨Value.showable_array.1 (each _ rfl), List.forall_mem_singleton.2 shown⟩
    exact (setItems_shows p items).bind fun _ _ => touched_shows named
  · exact .pure trivial

theorem injected_showable (field : String) {language : Value} {items : List Value}
    (spoken : language.Showable) (each : ∀ x ∈ items, x.Showable) :
    ∀ x ∈ injected field language items, x.Showable := by
  unfold injected
  split
  · intro x among
    obtain ⟨v, held, rfl⟩ := List.mem_map.1 among
    refine Value.showable_array.2 (List.forall_mem_singleton.2 (Value.showable_object.2 ?_))
    exact List.forall_mem_cons.2 ⟨each v held, List.forall_mem_singleton.2 spoken⟩
  · exact each

theorem inject_shows {language ids data : Value} (spoken : language.Showable)
    (named : path.Showable) (asked : ids.Showable) (given : data.Showable) :
    Shows (fun _ => True) (inject idField language path ids data) := by
  refine (lift_shows (Path.split_shows named)).bind fun names _ => ?_
  refine (lift_shows (Path.selectors_shows asked)).bind fun wanted chosen => ?_
  split
  · exact lift_shows (.fail _)
  · refine ShowsIn.bind (P := fun _ => True) (look_shows fun _ shown =>
      Path.resolveFrom_shows shown chosen) fun place _ => ?_
    refine (valueAt?_shows place).bind fun target each => ?_
    split
    · rename_i p xs
      refine (lift_shows given.members).bind fun items shown => ?_
      have all := List.forall_mem_append.2 ⟨Value.showable_array.1 (each _ rfl),
        injected_showable (names.getLastD "") spoken shown⟩
      exact (setItems_shows p all).bind fun _ _ => .pure trivial
    · exact .pure trivial

theorem duplicate_shows (named : path.Showable) :
    Shows (fun _ => True) (duplicate idField path) := by
  refine (array_shows named).bind fun found each => ?_
  refine (setItems_shows found.1 (List.forall_mem_append.2 ⟨each, each⟩)).bind fun _ _ => ?_
  exact (touched_shows named).bind fun _ _ => .pure trivial

theorem newIds_shows {held : List Value} (each : ∀ x ∈ held, x.Showable) (ids : List ObjectId) :
    DocRepair.Shows (fun _ => True) (newIds held ids) := by
  induction ids generalizing held with
  | nil => trivial
  | cons id rest ih =>
    have asks : DocRepair.Shows (fun _ => True)
        (held.anyM fun v => Identity.compare v (.ident id)) :=
      .anyM fun v among => (each v among).compare (Value.showable_ident id)
    refine asks.bind fun held _ => ?_
    split
    · exact ih each
    · have grown := List.forall_mem_append.2
        ⟨each, List.forall_mem_singleton.2 (Value.showable_ident id)⟩
      exact (ih grown).bind fun _ _ => trivial

theorem idents_showable (ids : List ObjectId) : ∀ x ∈ ids.map Value.ident, x.Showable := by
  intro x among
  obtain ⟨id, _, rfl⟩ := List.mem_map.1 among
  rfl

theorem addIds_shows {ids : Value} (named : path.Showable) (given : ids.Showable) :
    Shows (fun _ => True) (addIds idField path ids) := by
  have converts : DocRepair.Shows (fun _ => True) (do (← ids.members).mapM Identity.convert) :=
    given.members.bind fun _ each =>
      (DocRepair.Shows.mapM fun v among => (each v among).convert).imp fun _ _ => trivial
  refine (lift_shows converts).bind fun converted _ => ?_
  refine (target?_shows named).bind fun found each => ?_
  split
  · rename_i p xs
    have held := Value.showable_array.1 (each _ rfl)
    refine (lift_shows (newIds_shows held converted)).bind fun added _ => ?_
    refine (setItems_shows p (List.forall_mem_append.2 ⟨held, idents_showable added⟩)).bind
      fun _ _ => ?_
    exact (touched_shows named).bind fun _ _ => .pure trivial
  all_goals first
    | exact lift_shows (named.failShowing _)
    | refine (lift_shows (newIds_shows (List.forall_mem_nil _) converted)).bind fun added _ => ?_
      refine (write_shows none named (Value.showable_array.2 (idents_showable added))).bind
        fun _ _ => ?_
      exact (touched_shows named).bind fun _ _ => .pure trivial

theorem steps_showable (steps : List IdStep) :
    (Value.array (steps.map fun s => .text s.field)).Showable := by
  refine Value.showable_array.2 fun x among => ?_
  obtain ⟨s, _, rfl⟩ := List.mem_map.1 among
  rfl

theorem removeElement_shows {steps : List IdStep} (each : ∀ s ∈ steps, s.id.Showable) :
    Shows (fun _ => True) (removeElement idField steps) := by
  have asked : (Value.array (steps.map IdStep.id)).Showable := by
    refine Value.showable_array.2 fun x among => ?_
    obtain ⟨s, held, rfl⟩ := List.mem_map.1 among
    exact each s held
  unfold removeElement
  split
  · exact lift_shows (.fail _)
  · refine ShowsIn.bind (P := fun _ => True) (look_shows fun _ shown =>
      Path.resolve_shows shown (steps_showable steps) asked) fun place _ => ?_
    split
    · exact lift_shows (.fail _)
    · rename_i p
      refine ShowsIn.bind (P := fun _ => True) (look_shows fun _ _ => trivial) fun held _ => ?_
      split
      · exact lift_shows (.fail _)
      · exact lift_shows (.fail _)
      · refine (drop_shows p).bind fun _ _ => ?_
        exact (touched_shows (steps_showable steps)).bind fun _ _ => .pure trivial

theorem clear_shows (named : path.Showable) : Shows (fun _ => True) (clear idField path) := by
  refine (lift_shows (keepIdentity_shows named)).bind fun _ _ => ?_
  have emptied := Value.showable_array.2 (List.forall_mem_nil _)
  exact (write_shows _ named emptied).bind fun _ _ => touched_shows named

/-! ## Repeated keys -/

theorem elementKeys_shows (idField : String) (keyField : Value) {xs : List Value}
    (each : ∀ x ∈ xs, x.Showable) :
    DocRepair.Shows (fun _ => True) (elementKeys idField keyField xs) := by
  have one (x : Value) (among : x ∈ xs) :
      DocRepair.Shows (fun _ => True) (elementKey idField keyField x) := by
    have shown := each x among
    unfold elementKey
    split
    · exact ((Value.showable_object.1 shown).getD _).filing
    · exact shown.filing
    · split
      · split
        · exact ((Value.showable_object.1 shown).getD _).filing
        · trivial
      · rintro ⟨⟩
    · trivial
  exact (DocRepair.Shows.mapM one).bind fun _ _ => trivial

theorem removeDuplicates_shows {keyField : Value} (named : path.Showable) :
    Shows (fun _ => True) (removeDuplicates idField path keyField) := by
  refine (array_shows named).bind fun found each => ?_
  obtain ⟨p, xs⟩ := found
  refine (lift_shows (elementKeys_shows idField keyField each)).bind fun key _ => ?_
  have kept : ∀ x ∈ (Scan.ofArray key xs).kept, x.Showable := fun x among =>
    each x ((Scan.deduplicated_ofArray key xs).perm.subset (List.mem_append_left _ among))
  refine (keepItems_shows p _ kept).bind fun _ _ => ?_
  exact (touched_shows named).bind fun _ _ => .pure trivial

end Paths

/-! ## Array queries -/

theorem assigned_shows {step : QueryStep} (new : step.newValue.Showable) :
    Shows Value.Showable (assigned step) := by
  unfold assigned
  split
  · exact mint_shows.bind fun _ _ => .pure rfl
  · split
    · exact (lift_shows new.convert).bind fun _ _ => .pure rfl
    · exact .pure new

theorem editElement_shows (here : Location) (walked : List String) {step : QueryStep}
    (new : step.newValue.Showable) (asked : step.testValue.Showable) :
    Shows (fun _ => True) (editElement here walked step) := by
  refine ShowsIn.bind (P := fun found => ∀ v ∈ found, v.Showable)
    (look_shows fun _ shown => .ok shown.at?) fun found each => ?_
  split
  · rename_i xs
    have passes (x : Value) (among : x ∈ xs) : DocRepair.Shows (fun _ => True) (step.passes x) := by
      unfold QueryStep.passes
      split
      · have shown := Value.showable_array.1 (each _ rfl) _ among
        exact ((Value.showable_object.1 shown).getD _).compare asked
      · trivial
    refine (lift_shows (.firstIndex? passes)).bind fun i _ => ?_
    split
    · exact (assigned_shows new).bind fun v shown => land_shows _ shown
    · exact lift_shows (asked.failShowing _)
  · exact lift_shows (.fail _)

/-- The values in the steps of a query can be shown. -/
def StepsShowable (steps : List QueryStep) : Prop :=
  ∀ step ∈ steps, step.newValue.Showable ∧ step.testValue.Showable

theorem walk_shows {steps : List QueryStep} (each : StepsShowable steps) (here : Location)
    (walked : List String) : Shows (fun _ => True) (walk here walked steps) := by
  induction steps generalizing here walked with
  | nil => exact .pure trivial
  | cons step rest ih =>
    obtain ⟨⟨new, asked⟩, others⟩ := List.forall_mem_cons.1 each
    unfold walk
    split
    · refine ShowsIn.bind (P := fun _ => True) ?_ fun there _ => ih others there _
      refine ShowsIn.bind (P := fun _ => True) (look_shows fun _ _ => trivial) fun found _ => ?_
      split
      · exact .pure trivial
      · exact lift_shows (.fail _)
    · exact (editElement_shows here walked new asked).bind fun _ _ => ih others here walked

theorem modify_shows {steps : List QueryStep} (each : StepsShowable steps) :
    Shows (fun _ => True) (modify steps) := by
  unfold modify
  split
  · exact lift_shows (.fail _)
  · exact (walk_shows each [] []).bind fun _ _ => touched_shows rfl

end Edit

/-! ## Edits that go by paths -/

namespace PathEdit

/-- An edit whose arguments can be shown. -/
def Showable : PathEdit → Prop
  | .applyChanges changes => ∀ c ∈ changes, c.value.Showable
  | .applyRaw raw => raw.Showable
  | .deleteFields path | .duplicate path | .removeDuplicates path _ | .clear path => path.Showable
  | .move source target => source.Showable ∧ target.Showable
  | .moveAll _ => True
  | .push path v ids => path.Showable ∧ v.Showable ∧ ids.Showable
  | .inject language path ids data =>
    language.Showable ∧ path.Showable ∧ ids.Showable ∧ data.Showable
  | .addIds path ids => path.Showable ∧ ids.Showable
  | .removeElement steps => ∀ s ∈ steps, s.id.Showable

/-- **An edit of a document that can be shown, with arguments that can be shown,** never stops at an
    integer with too many digits, and leaves a document that can be shown. -/
theorem run_shows {edit : PathEdit} (shown : edit.Showable) (idField : String) :
    Edit.Shows (fun _ => True) (edit.run idField) := by
  cases edit with
  | applyChanges changes => exact Edit.applyChanges_shows shown
  | applyRaw raw =>
    exact (Edit.lift_shows (Change.parse_shows shown)).bind fun _ each =>
      Edit.applyChanges_shows each
  | deleteFields paths => exact Edit.deleteFields_shows shown
  | move source target => exact Edit.move_shows shown.1 shown.2
  | moveAll moves => exact Edit.moveFrom_shows
  | push path v ids => exact Edit.push_shows shown.1 shown.2.1 shown.2.2
  | inject language path ids data =>
    exact Edit.inject_shows shown.1 shown.2.1 shown.2.2.1 shown.2.2.2
  | duplicate path => exact (Edit.duplicate_shows shown).bind fun _ _ => .pure trivial
  | removeDuplicates path keyField =>
    exact (Edit.removeDuplicates_shows shown).bind fun _ _ => .pure trivial
  | addIds path ids => exact (Edit.addIds_shows shown.1 shown.2).bind fun _ _ => .pure trivial
  | removeElement steps => exact (Edit.removeElement_shows shown).bind fun _ _ => .pure trivial
  | clear path => exact Edit.clear_shows shown

end PathEdit

end DocRepair

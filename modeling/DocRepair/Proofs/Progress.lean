import DocRepair.Proofs.Stops
import DocRepair.Proofs.Identifier
/-!
# `DocRepair.Proofs.Progress` — how far a list of changes has come

A change does all that can fail before it touches the document: its check of the identifier field,
the reading of its value, both lookups of its path, and the test for an array. So a change that
stops has changed nothing, and a list that stops at a change has made exactly those before it. The
failure tells how many they were and which fields they touched, unless the cause has already used
these two names for something else. No cause does.

A list is thus taken apart at any point: what comes behind goes on from where the front ended, with
its progress counted from the start of the whole list.

## Contents

* `StopsAs` / `Edit.StopsClean` — what may stop a computation, and what it has left alone then;
* `Failure.Unmarked` — failures that say nothing about progress yet;
* `Edit.applyOperation_clean` — an operation that stops has changed nothing;
* `Edit.Made` / `Edit.applyFrom_ok` / `Edit.applyFrom_error` — changes that went through, and where
  a list stops;
* `Edit.goOn` / `Edit.applyChanges_append` — a list in two parts;
* `Edit.applyChanges_progress` — all of it together.
-/

namespace DocRepair

/-! ## What stops a computation -/

section StopsAs

variable {α β : Type} {P : Fault → Prop} {r : Except Fault α}

/-- Every fault that may stand in the place of a result has a property. -/
def StopsAs (P : Fault → Prop) (r : Except Fault α) : Prop :=
  ∀ fault, r = .error fault → P fault

theorem StopsAs.ok (a : α) : StopsAs P (.ok a) := fun _ stop => nomatch stop

theorem StopsAs.error {fault : Fault} (h : P fault) : StopsAs P (.error fault : Except Fault α) := by
  rintro _ ⟨⟩
  exact h

theorem StopsAs.bind {f : α → Except Fault β} (first : StopsAs P r)
    (rest : ∀ a, StopsAs P (f a)) : StopsAs P (r >>= f) := by
  intro fault stop
  cases run : r with
  | error other =>
    rw [run] at stop
    cases stop
    exact first fault run
  | ok a =>
    rw [run] at stop
    exact rest a fault stop

theorem StopsAs.mapM {f : β → Except Fault α} (each : ∀ x, StopsAs P (f x)) (xs : List β) :
    StopsAs P (xs.mapM f) := by
  induction xs with
  | nil => exact .ok []
  | cons x rest ih =>
    rw [List.mapM_cons]
    exact (each x).bind fun _ => ih.bind fun _ => .ok _

end StopsAs

namespace Edit

variable {α β : Type} {P : Fault → Prop} {d : Draft}

/-- An edit that has left all but the supply alone where it stops, with a fault that has a
    property. -/
def StopsClean (P : Fault → Prop) (a : Edit α) (d : Draft) : Prop :=
  ∀ fault e, a d = .error fault e → (∃ supply, e = { d with supply := supply }) ∧ P fault

theorem StopsClean.lift {r : Except Fault α} (h : StopsAs P r) : StopsClean P (lift r) d := by
  intro fault e stop
  cases r with
  | ok x => cases stop
  | error cause =>
    cases stop
    exact ⟨⟨d.supply, rfl⟩, h fault rfl⟩

theorem StopsClean.lift_bind {r : Except Fault α} {f : α → Edit β} (h : StopsAs P r)
    (rest : ∀ x, StopsClean P (f x) d) : StopsClean P (Edit.lift r >>= f) d := by
  intro fault e stop
  rcases run_bind_error.1 stop with stop | ⟨x, u, run, stop⟩
  · exact StopsClean.lift h fault e stop
  · obtain ⟨_, rfl⟩ := lift_ok.1 run
    exact rest x fault e stop

theorem StopsClean.look_bind {g : Value → Except Fault α} {f : α → Edit β} (h : StopsAs P (g d.doc))
    (rest : ∀ x, StopsClean P (f x) d) : StopsClean P (look g >>= f) d := by
  intro fault e stop
  rcases run_bind_error.1 stop with stop | ⟨x, u, run, stop⟩
  · have looked : Edit.lift (g d.doc) d = .error fault e := stop
    exact StopsClean.lift h fault e looked
  · obtain ⟨_, rfl⟩ := look_ok.1 run
    exact rest x fault e stop

/-- A reading of the clock changes the supply only. -/
theorem StopsClean.tick_bind {f : Instant → Edit β}
    (rest : ∀ t supply, StopsClean P (f t) { d with supply := supply }) :
    StopsClean P (tick >>= f) d := by
  intro fault e stop
  rcases run_bind_error.1 stop with stop | ⟨t, u, run, stop⟩
  · cases stop
  · cases run
    exact rest _ d.supply.tick.2 fault e stop

end Edit

/-! ## Causes that say nothing about progress -/

/-- A failure that says nothing about progress yet. -/
def Failure.Unmarked (f : Failure) : Prop :=
  Fields.get? f.context "applied" = none ∧ Fields.get? f.context "dirty" = none

/-- A fault that, if it is a failure, says nothing about progress yet. -/
def Fault.Unmarked (fault : Fault) : Prop :=
  ∀ f, fault = .failure f → f.Unmarked

theorem unmarked_fail {α : Type} {f : Failure} (h : f.Unmarked) :
    StopsAs Fault.Unmarked (fail f : Except Fault α) := by
  refine .error ?_
  rintro _ ⟨⟩
  exact h

theorem Value.literalText_unmarked (v : Value) : StopsAs Fault.Unmarked v.literalText := by
  intro fault stop
  rw [(literalText_error.1 stop).2]
  exact nofun

theorem Value.plainText_unmarked (v : Value) : StopsAs Fault.Unmarked v.plainText := by
  intro fault stop
  rw [(plainText_error.1 stop).2]
  exact nofun

theorem unmarked_failShowing {α : Type} {v : Value} {f : String → Failure}
    (h : ∀ shown, (f shown).Unmarked) : StopsAs Fault.Unmarked (failShowing v f : Except Fault α) :=
  v.plainText_unmarked.bind fun shown => unmarked_fail (h shown)

namespace Path

variable {path : Value}

theorem split_unmarked (path : Value) : StopsAs Fault.Unmarked (split path) := by
  refine StopsAs.bind ?_ fun names => ?_
  · unfold segments
    split
    · exact .ok _
    · exact .ok _
    · refine StopsAs.bind ?_ fun _ => .mapM Value.plainText_unmarked _
      unfold Value.members
      split
      · exact .ok _
      · exact .error nofun
  · split
    · exact unmarked_fail ⟨rfl, rfl⟩
    · split
      · exact path.literalText_unmarked.bind fun _ => unmarked_fail ⟨rfl, rfl⟩
      · exact .ok _

theorem index?_unmarked (segment : String) : StopsAs Fault.Unmarked (index? segment) := by
  unfold index?
  split
  · exact .ok _
  · exact .ok _
  · exact .error nofun
  · exact .error nofun

theorem containerKey_unmarked (container : Value) (segment : String) :
    StopsAs Fault.Unmarked (containerKey container segment) := by
  cases container with
  | array xs =>
    refine (index?_unmarked segment).bind fun found => ?_
    cases found with
    | none => exact unmarked_fail ⟨rfl, rfl⟩
    | some i =>
      dsimp only
      split
      · exact .ok _
      · exact unmarked_fail ⟨rfl, rfl⟩
  | _ => exact .ok _

theorem writableChild_unmarked (current : Value) (segment : String) :
    StopsAs Fault.Unmarked (writableChild current segment) := by
  cases current with
  | object fs => exact .ok _
  | array xs =>
    refine (index?_unmarked segment).bind fun found => ?_
    cases found with
    | none => exact unmarked_fail ⟨rfl, rfl⟩
    | some i => exact .ok _
  | _ => exact unmarked_fail ⟨rfl, rfl⟩

theorem landingFrom_unmarked (limit : Option Int) (walked : List String) (current : Value)
    (names : List String) : StopsAs Fault.Unmarked (landingFrom limit walked current names) := by
  induction names generalizing walked current with
  | nil => exact unmarked_fail ⟨rfl, rfl⟩
  | cons segment rest ih =>
    cases rest with
    | nil => exact (containerKey_unmarked current segment).bind fun _ => .ok _
    | cons second more =>
      refine (writableChild_unmarked current segment).bind fun child => ?_
      cases child with
      | none =>
        dsimp only
        split
        · exact (containerKey_unmarked current segment).bind fun _ => .ok _
        · exact unmarked_fail ⟨rfl, rfl⟩
      | some entry =>
        obtain ⟨k, next⟩ := entry
        dsimp only
        split
        · exact (ih (walked ++ [segment]) next).bind fun _ => .ok _
        · exact unmarked_fail ⟨rfl, rfl⟩

theorem childAt_unmarked (current : Value) (segment : String) :
    StopsAs Fault.Unmarked (childAt current segment) := by
  cases current with
  | array xs =>
    refine (index?_unmarked segment).bind fun found => ?_
    cases found with
    | none => exact .ok _
    | some i => exact .ok _
  | _ => exact .ok _

/-- Without selectors, a lookup is stopped by its indexes only. -/
theorem resolveFrom_unmarked (idField : String) (current : Value) (names : List String) :
    StopsAs Fault.Unmarked (resolveFrom idField current names []) := by
  induction names generalizing current with
  | nil => exact .ok _
  | cons segment rest ih =>
    cases rest with
    | nil =>
      show StopsAs Fault.Unmarked (lastPlace current segment)
      cases current with
      | array xs => exact (index?_unmarked segment).bind fun _ => .ok _
      | _ => exact .ok _
    | cons second more =>
      refine StopsAs.bind (r := step idField current segment none) ?_ fun found => ?_
      · refine (childAt_unmarked current segment).bind fun child => ?_
        cases child with
        | none => exact .ok _
        | some entry => exact .ok _
      · cases found with
        | none => exact .ok _
        | some entry =>
          obtain ⟨way, next⟩ := entry
          dsimp only
          split
          · exact (ih next).bind fun _ => .ok _
          · exact .ok _

end Path

theorem Identity.convert_unmarked (v : Value) : StopsAs Fault.Unmarked (convert v) := by
  unfold convert
  split
  · exact .ok _
  · split
    · exact unmarked_fail ⟨rfl, rfl⟩
    · exact v.literalText_unmarked.bind fun _ => unmarked_fail ⟨rfl, rfl⟩

/-! ## One change -/

namespace Edit

variable {idField : String} {path v : Value} {d e : Draft}

theorem guardIdentity_unmarked (idField : String) (op : Operation) (path : Value) :
    StopsAs Fault.Unmarked (guardIdentity idField op path) := by
  refine StopsAs.bind ((Path.split_unmarked path).bind fun _ => .ok _) fun own => ?_
  cases own with
  | true => exact unmarked_fail ⟨rfl, rfl⟩
  | false => exact .ok _

/-- A container that takes no write is not a failure of the engine. -/
theorem put_unmarked (l : Landing) (doc v : Value) : StopsAs Fault.Unmarked (l.put doc v) := by
  unfold Landing.put Place.put
  cases held : doc.at? l.place.container with
  | none => exact .ok _
  | some c =>
    intro fault stop
    dsimp only at stop
    cases assigned : c.assign l.place.key (Landing.nest l.below v) with
    | ok c' =>
      rw [assigned] at stop
      cases stop
    | error cause =>
      rw [assigned] at stop
      cases stop
      unfold Value.assign at assigned
      split at assigned
      · cases assigned
      · split at assigned
        · cases assigned
        · split at assigned
          · cases assigned
          · cases assigned
            exact nofun
      · cases assigned
        exact nofun

theorem write_clean (limit : Option Int) (path v : Value) (d : Draft) :
    StopsClean Fault.Unmarked (write limit path v) d := by
  refine StopsClean.look_bind ?_ fun l fault e stop => ?_
  · exact (Path.split_unmarked path).bind fun names => Path.landingFrom_unmarked limit [] d.doc names
  · unfold land at stop
    cases puts : l.put d.doc v with
    | ok doc =>
      rw [puts] at stop
      cases stop
    | error cause =>
      rw [puts] at stop
      cases stop
      exact ⟨⟨d.supply, rfl⟩, put_unmarked l d.doc v fault puts⟩

theorem append_clean (idField : String) (path v : Value) (d : Draft) :
    StopsClean Fault.Unmarked (append idField path v) d := by
  refine StopsClean.look_bind ?_ fun place => StopsClean.look_bind (.ok _) fun target => ?_
  · refine (Path.split_unmarked path).bind fun names => ?_
    exact Path.resolveFrom_unmarked idField d.doc names
  · split
    · exact fun _ _ stop => nomatch stop
    · exact .lift (unmarked_failShowing fun _ => ⟨rfl, rfl⟩)
    · exact write_clean none path _ d

/-- **An operation that stops has changed nothing**, and its failure says nothing about progress. -/
theorem applyOperation_clean (idField : String) (op : Operation) (path v : Value) (d : Draft) :
    StopsClean Fault.Unmarked (applyOperation idField op path v) d := by
  have guarded := guardIdentity_unmarked idField op path
  cases op with
  | set => exact .lift_bind guarded fun _ => write_clean _ path v d
  | setIdentifier =>
    exact .lift_bind (Identity.convert_unmarked v) fun id => write_clean _ path (.ident id) d
  | setStatus =>
    refine .lift_bind guarded fun _ => .tick_bind fun t supply => ?_
    exact write_clean _ path (statusRecord v t) { d with supply := supply }
  | append => exact .lift_bind guarded fun _ => append_clean idField path v d

theorem write_splits {limit : Option Int} {u : Unit} (run : write limit path v d = .ok u e) :
    ∃ names, Path.split path = .ok names := by
  obtain ⟨l, found, _⟩ := write_ok.1 run
  obtain ⟨names, splits, _⟩ := bind_eq_ok.1 found
  exact ⟨names, splits⟩

/-- An operation goes through at a path only. -/
theorem applyOperation_splits {op : Operation} {u : Unit}
    (run : applyOperation idField op path v d = .ok u e) :
    ∃ names, Path.split path = .ok names := by
  have checked {w : Unit} (guard : guardIdentity idField op path = .ok w) :
      ∃ names, Path.split path = .ok names := by
    obtain ⟨own, found, _⟩ := bind_eq_ok.1 guard
    obtain ⟨names, splits, _⟩ := bind_eq_ok.1 found
    exact ⟨names, splits⟩
  cases op with
  | setIdentifier =>
    obtain ⟨id, f, converted, run⟩ := run_bind_ok.1 run
    exact write_splits run
  | _ =>
    obtain ⟨w, f, guard, _⟩ := run_bind_ok.1 run
    exact checked (lift_ok.1 guard).1

end Edit

/-! ## Lists of changes -/

namespace Change

/-- The fields with which the paths of changes begin. -/
def tops (changes : List Change) : DirtySet :=
  .ofList (changes.filterMap fun c => (Path.top (.text c.path)).toOption)

theorem top_eq {c : Change} {n : String} :
    (Path.top (.text c.path)).toOption = some n ↔ Edit.Begins n (.text c.path) := by
  unfold Path.top Edit.Begins
  cases splits : Path.split (.text c.path) with
  | error fault => simp [bind, Except.bind, Except.toOption]
  | ok names =>
    obtain ⟨m, rest, rfl⟩ := Path.split_cons splits
    simp [bind, Except.bind, Except.toOption]

theorem mem_tops {changes : List Change} {n : String} :
    n ∈ (tops changes).fields ↔ Edit.ChangesBegin n changes := by
  unfold tops DirtySet.ofList
  rw [DirtySet.mem_insertAll, List.mem_filterMap]
  constructor
  · rintro (none | ⟨c, among, top⟩)
    · cases none
    · exact ⟨c, among, top_eq.1 top⟩
  · rintro ⟨c, among, begins⟩
    exact .inr ⟨c, among, top_eq.2 begins⟩

end Change

theorem DirtySet.empty_union (dirty : DirtySet) : (∅ : DirtySet).union dirty = dirty :=
  ext_mem fun _ => mem_union.trans (or_iff_right List.not_mem_nil)

theorem Fields.set_of_missing {fs : Fields} {n : String} (h : get? fs n = none) (v : Value) :
    set fs n v = fs ++ [(n, v)] := by
  induction fs with
  | nil => rfl
  | cons f rest ih =>
    obtain ⟨k, w⟩ := f
    have other : k ≠ n := by
      rintro rfl
      simp [get?] at h
    rw [get?, if_neg other] at h
    rw [set, if_neg other, ih h, List.cons_append]

theorem Fields.get?_append_missing {fs : Fields} {n : String} (h : get? fs n = none) (gs : Fields) :
    get? (fs ++ gs) n = get? gs n := by
  induction fs with
  | nil => rfl
  | cons f rest ih =>
    obtain ⟨k, w⟩ := f
    have other : k ≠ n := by
      rintro rfl
      simp [get?] at h
    rw [get?, if_neg other] at h
    rw [List.cons_append, get?, if_neg other, ih h]

namespace Failure

variable {f : Failure}

/-- What a failure that says nothing about progress says with it. -/
theorem Unmarked.withProgress (h : f.Unmarked) (applied : Nat) (dirty : DirtySet) :
    (f.addContext "applied" (.int applied)).addContext "dirty" dirty.toValue =
      { f with context := f.context ++ [("applied", .int applied), ("dirty", dirty.toValue)] } := by
  obtain ⟨applies, touches⟩ := h
  have first : f.addContext "applied" (.int applied) =
      { f with context := f.context ++ [("applied", .int applied)] } := by
    unfold addContext Fields.has
    rw [applies, Fields.set_of_missing applies]
    rfl
  have others : Fields.get? (f.context ++ [("applied", Value.int applied)]) "dirty" = none :=
    Fields.get?_append_missing touches _
  rw [first]
  unfold addContext Fields.has
  dsimp only
  rw [others, Fields.set_of_missing others, List.append_assoc]
  rfl

end Failure

namespace Edit

variable {idField : String} {d e m : Draft} {changes : List Change} {applied : Nat}
  {before dirty : DirtySet} {fault : Fault}

/-- Changes that went through, one after the other. -/
inductive Made (idField : String) : List Change → Draft → Draft → Prop
  | nil (d : Draft) : Made idField [] d d
  | cons {c : Change} {rest : List Change} {d m e : Draft}
      (first : applyChange idField c d = .ok () m) (others : Made idField rest m e) :
      Made idField (c :: rest) d e

/-- A change that stops has left the document as it was, and its failure says nothing about
    progress. -/
theorem applyChange_clean {c : Change} (stop : applyChange idField c d = .error fault e) :
    e.doc = d.doc ∧ fault.Unmarked := by
  obtain ⟨⟨supply, rfl⟩, unmarked⟩ :=
    applyOperation_clean idField c.operation (.text c.path) c.value d fault e stop
  exact ⟨rfl, unmarked⟩

/-- A change that went through is reported by its first segment. -/
theorem touch_made {c : Change} (made : applyChange idField c d = .ok () e) (before : DirtySet)
    (rest : List Change) :
    ∃ more, before.touch (.text c.path) = .ok more ∧
      more.union (Change.tops rest) = before.union (Change.tops (c :: rest)) := by
  obtain ⟨names, splits⟩ := applyOperation_splits made
  obtain ⟨n, tail, rfl⟩ := Path.split_cons splits
  have top : Path.top (.text c.path) = .ok n := by
    unfold Path.top
    rw [splits]
    rfl
  refine ⟨before.insert n, by unfold DirtySet.touch; rw [top]; rfl, DirtySet.ext_mem fun x => ?_⟩
  have begins : Begins x (.text c.path) ↔ x = n := by
    rw [← Change.top_eq, top]
    exact ⟨fun h => (Option.some.inj h).symm, fun h => congrArg some h.symm⟩
  have listed : ChangesBegin x (c :: rest) ↔ x = n ∨ ChangesBegin x rest := by
    simp only [ChangesBegin, List.mem_cons, exists_eq_or_imp, begins]
  rw [DirtySet.mem_union, DirtySet.mem_union, DirtySet.mem_insert, Change.mem_tops, Change.mem_tops,
    listed, or_assoc, or_left_comm]

/-- **A list goes through if all its changes do**, and reports the fields with which they begin. -/
theorem applyFrom_ok :
    applyFrom idField applied before changes d = .ok dirty e ↔
      Made idField changes d e ∧ dirty = before.union (Change.tops changes) := by
  induction changes generalizing applied before d with
  | nil =>
    refine run_pure_ok.trans ⟨?_, ?_⟩
    · rintro ⟨rfl, rfl⟩
      exact ⟨.nil d, rfl⟩
    · rintro ⟨⟨⟩, rfl⟩
      exact ⟨rfl, rfl⟩
  | cons c rest ih =>
    unfold applyFrom
    cases first : applyChange idField c d with
    | error cause m =>
      constructor
      · intro run
        cases run
      · rintro ⟨made, _⟩
        cases made with
        | cons made _ =>
          rw [first] at made
          cases made
    | ok u m =>
      obtain ⟨more, touches, whole⟩ := touch_made first before rest
      dsimp only
      rw [touches]
      dsimp only
      rw [ih, whole]
      refine and_congr_left fun _ => ⟨.cons first, ?_⟩
      intro made
      cases made with
      | cons made others =>
        rw [first] at made
        cases made
        exact others

/-- **A list stops at its first change that does**, with the progress made before it. -/
theorem applyFrom_error (stop : applyFrom idField applied before changes d = .error fault e) :
    ∃ done c rest m cause, changes = done ++ c :: rest ∧ Made idField done d m ∧
      applyChange idField c m = .error cause e ∧
      fault = withProgress (applied + done.length) (before.union (Change.tops done)) cause := by
  induction changes generalizing applied before d with
  | nil => cases stop
  | cons c rest ih =>
    unfold applyFrom at stop
    cases first : applyChange idField c d with
    | error cause m =>
      rw [first] at stop
      cases stop
      exact ⟨[], c, rest, d, cause, rfl, .nil d, first, rfl⟩
    | ok u m =>
      rw [first] at stop
      dsimp only at stop
      -- Which changes behind it are made is known only after the induction hypothesis.
      obtain ⟨_, touches, _⟩ := touch_made first before []
      rw [touches] at stop
      obtain ⟨done, c', rest', m', cause, rfl, made, stops, rfl⟩ := ih stop
      refine ⟨c :: done, c', rest', m', cause, rfl, .cons first made, stops, ?_⟩
      obtain ⟨more, touches', whole⟩ := touch_made first before done
      rw [touches] at touches'
      cases touches'
      rw [whole, List.length_cons, Nat.add_right_comm, Nat.add_assoc]

end Edit

/-! ## Lists in two parts -/

/-- An entry of a context, with progress counted from the start of a longer list: `n` changes that
    touched `before` stand in front. -/
def Failure.recount (n : Nat) (before : DirtySet) (name : String) (v : Value) : Value :=
  match name, v with
  | "applied", .int k => .int (n + k)
  | "dirty", .array names => (before.insertAll (names.filterMap Value.text?)).toValue
  | _, v => v

/-- A fault whose progress, if it is a failure, counts from the start of a longer list. -/
def Fault.advance (n : Nat) (before : DirtySet) : Fault → Fault
  | .failure f => .failure
      { f with context := f.context.map fun (name, v) => (name, Failure.recount n before name v) }
  | fault => fault

namespace Failure

variable {n : Nat} {before : DirtySet} {f : Failure}

theorem recount_other {name : String} (applied : name ≠ "applied") (dirty : name ≠ "dirty")
    (v : Value) : recount n before name v = v := by
  unfold recount
  split
  · exact absurd rfl applied
  · exact absurd rfl dirty
  · rfl

theorem recount_dirty (dirty : DirtySet) :
    recount n before "dirty" dirty.toValue = (before.union dirty).toValue := by
  have texts : (dirty.fields.map Value.text).filterMap Value.text? = dirty.fields := by
    rw [List.filterMap_map]
    exact List.filterMap_some
  show (before.insertAll ((dirty.fields.map Value.text).filterMap Value.text?)).toValue = _
  rw [texts]
  rfl

/-- A context that says nothing about progress stays as it is. -/
theorem Unmarked.recount (h : f.Unmarked) :
    (f.context.map fun (name, v) => (name, Failure.recount n before name v)) = f.context := by
  have each : ∀ entry ∈ f.context,
      (entry.1, Failure.recount n before entry.1 entry.2) = id entry := by
    intro entry among
    have listed : entry.1 ∈ Fields.names f.context := List.mem_map_of_mem among
    rw [recount_other]
    · rfl
    · exact fun same => Fields.get?_eq_none.1 h.1 (same ▸ listed)
    · exact fun same => Fields.get?_eq_none.1 h.2 (same ▸ listed)
  exact (List.map_congr_left each).trans (List.map_id _)

end Failure

theorem Fault.Unmarked.advance {cause : Fault} (h : cause.Unmarked) (n k : Nat)
    (before dirty : DirtySet) :
    (Edit.withProgress k dirty cause).advance n before =
      Edit.withProgress (n + k) (before.union dirty) cause := by
  cases cause with
  | failure f =>
    have fresh := h f rfl
    have short := fresh.withProgress k dirty
    have long := fresh.withProgress (n + k) (before.union dirty)
    dsimp only [Edit.withProgress, Fault.advance]
    rw [short, long]
    dsimp only
    rw [List.map_append, fresh.recount, List.map_cons, List.map_singleton, Failure.recount_dirty]
    rfl
  | _ => rfl

namespace Edit

/-- Goes on with more changes after `n` others that touched `before`: reports what both touched, and
    counts progress from the start of all. -/
def goOn (n : Nat) (before : DirtySet) (more : Edit DirtySet) : Edit DirtySet := fun d =>
  match more d with
  | .ok dirty e => .ok (before.union dirty) e
  | .error fault e => .error (fault.advance n before) e

variable {idField : String} {d e : Draft} {changes : List Change}

theorem applyFrom_eq_goOn (n : Nat) (before : DirtySet) (changes : List Change) :
    applyFrom idField n before changes d = goOn n before (applyChanges idField changes) d := by
  unfold goOn applyChanges
  cases run : applyFrom idField 0 ∅ changes d with
  | ok dirty e =>
    obtain ⟨made, rfl⟩ := applyFrom_ok.1 run
    rw [DirtySet.empty_union]
    exact applyFrom_ok.2 ⟨made, rfl⟩
  | error fault e =>
    obtain ⟨done, c, rest, m, cause, rfl, made, stops, rfl⟩ := applyFrom_error run
    -- Counting from the start of all is a change of the context only if the cause has no such entry.
    have unmarked : cause.Unmarked := (applyChange_clean stops).2
    rw [DirtySet.empty_union, Nat.zero_add]
    dsimp only
    rw [unmarked.advance, applyFrom_append (applyFrom_ok.2 ⟨made, rfl⟩)]
    unfold applyFrom
    rw [stops]

/-- **A list in two parts**: what stands behind is applied where the front ended, and goes on
    counting. -/
theorem applyChanges_append (xs ys : List Change) :
    applyChanges idField (xs ++ ys) =
      (do let dirty ← applyChanges idField xs
          goOn xs.length dirty (applyChanges idField ys)) := by
  funext d
  rw [run_bind]
  cases run : applyChanges idField xs d with
  | ok dirty e =>
    dsimp only
    rw [← applyFrom_eq_goOn]
    have whole : applyFrom idField 0 ∅ (xs ++ ys) d =
        applyFrom idField (0 + xs.length) dirty ys e := applyFrom_append run
    rw [Nat.zero_add] at whole
    exact whole
  | error fault e =>
    obtain ⟨done, c, rest, m, cause, rfl, made, stops, rfl⟩ := applyFrom_error run
    dsimp only
    rw [List.append_assoc, List.cons_append]
    unfold applyChanges
    rw [applyFrom_append (applyFrom_ok.2 ⟨made, rfl⟩)]
    unfold applyFrom
    rw [stops]

/-- **A list that stops with a failure** has made the changes before one of them, stopped at this one,
    and tells with its failure how many it made and which fields they touched. -/
theorem applyChanges_failure {f : Failure}
    (stop : applyChanges idField changes d = .error (.failure f) e) :
    ∃ k c m cause, changes[k]? = some c ∧
      applyChanges idField (changes.take k) d = .ok (Change.tops (changes.take k)) m ∧
      applyChange idField c m = .error (.failure cause) e ∧ e.doc = m.doc ∧
      f.kind = cause.kind ∧ f.message = cause.message ∧
      Fields.get? f.context "applied" = some (.int k) ∧
      Fields.get? f.context "dirty" = some (Change.tops (changes.take k)).toValue := by
  obtain ⟨done, c, rest, m, cause, rfl, made, stops, same⟩ := applyFrom_error stop
  rw [Nat.zero_add, DirtySet.empty_union] at same
  cases cause with
  | failure g =>
    obtain ⟨kept, unmarked⟩ := applyChange_clean stops
    -- The cause leaves both names free, so what is read under them was added here.
    have told := (unmarked g rfl).withProgress done.length (Change.tops done)
    have front : (done ++ c :: rest).take done.length = done := List.take_left
    have here : (done ++ c :: rest)[done.length]? = some c := by
      rw [List.getElem?_append_right (Nat.le_refl _), Nat.sub_self, List.getElem?_cons_zero]
    dsimp only [withProgress] at same
    rw [told, Fault.failure.injEq] at same
    rw [same]
    refine ⟨done.length, c, m, g, here, ?_, stops, kept, rfl, rfl, ?_, ?_⟩
    · rw [front]
      exact applyFrom_ok.2 ⟨made, (DirtySet.empty_union _).symm⟩
    · exact Fields.get?_append_missing (unmarked g rfl).1 _
    · rw [front]
      exact Fields.get?_append_missing (unmarked g rfl).2 _
  | _ => cases same

/-- **Changes fail cleanly, at one of them.** A change that stops has left the document as it was.
    A list that stops with a failure has made the changes before one that stopped: the failure is
    the one of this change, and it tells how many went through and which fields they touched. And a
    list in two parts is the first, then the second. -/
theorem applyChanges_progress (idField : String) (d : Draft) :
    (∀ c fault e, applyChange idField c d = .error fault e → e.doc = d.doc) ∧
    (∀ raw changes f e, Change.parse raw = .ok changes →
      applyRaw idField raw d = .error (.failure f) e →
      ∃ k c m cause, changes[k]? = some c ∧
        applyChanges idField (changes.take k) d = .ok (Change.tops (changes.take k)) m ∧
        applyChange idField c m = .error (.failure cause) e ∧ e.doc = m.doc ∧
        f.kind = cause.kind ∧ f.message = cause.message ∧
        Fields.get? f.context "applied" = some (.int k) ∧
        Fields.get? f.context "dirty" = some (Change.tops (changes.take k)).toValue) ∧
    (∀ xs ys, applyChanges idField (xs ++ ys) d =
      (do let dirty ← applyChanges idField xs
          goOn xs.length dirty (applyChanges idField ys)) d) := by
  refine ⟨fun c fault e stop => (applyChange_clean stop).1, fun raw changes f e parsed stop => ?_,
    fun xs ys => congrFun (applyChanges_append xs ys) d⟩
  have listed : applyRaw idField raw d = applyChanges idField changes d := by
    unfold applyRaw
    rw [parsed]
    rfl
  rw [listed] at stop
  exact applyChanges_failure stop

/-- The second of three changes finds two levels missing. The first was made, the third was not. -/
theorem applyChanges_progress_two_missing :
    let supply : Supply := { origin := 0, last := 0, pace := 1 }
    let d : Draft := { doc := .object [("a", .int 1)], supply := supply }
    let raw : Value := .object
      [("a", .object [("$set", .int 2)]), ("b.c.d", .object [("$set", .int 3)]),
        ("e", .object [("$setstatus", .text "done")])]
    ∃ changes f e k m, Change.parse raw = .ok changes ∧
      applyRaw "_id" raw d = .error (.failure f) e ∧ f.kind = .notFound ∧
      applyChanges "_id" (changes.take k) d = .ok (Change.tops (changes.take k)) m ∧
      e.doc = m.doc ∧ Fields.get? f.context "applied" = some (.int k) ∧ k = 1 ∧
      e.doc = .object [("a", .int 2)] := by
  intro supply d raw
  have parses : ∃ changes, Change.parse raw = .ok changes := ⟨_, rfl⟩
  obtain ⟨changes, parsed⟩ := parses
  have stops : ∃ f e, applyRaw "_id" raw d = .error (.failure f) e ∧ f.kind = .notFound ∧
      Fields.get? f.context "applied" = some (.int 1) ∧ e.doc = .object [("a", .int 2)] :=
    ⟨_, _, rfl, rfl, rfl, rfl⟩
  obtain ⟨f, e, run, kind, one, left⟩ := stops
  obtain ⟨k, c, m, cause, _, made, _, kept, _, _, told, _⟩ :=
    (applyChanges_progress "_id" d).2.1 raw changes f e parsed run
  have first : k = 1 := by
    rw [one] at told
    have same : (1 : Int) = k := by simpa using told
    omega
  exact ⟨changes, f, e, k, m, parsed, run, kind, made, kept, told, first, left⟩

end Edit

end DocRepair

import DocRepair.Proofs.Moved
import DocRepair.Proofs.Trips
/-!
# `DocRepair.Proofs.Stops` — what can stop an edit

An edit of an object whose arguments list what can be listed stops with a failure, or not at all,
unless a path that it follows trips. One edit can be stopped by more: a move writes to a place that
it looked up without asking whether an array has room there. A list of changes, removals or moves is
stopped where one of them is, in what the ones before it have left. Array queries are stopped by
failures only, as they never read a segment as an index.

## Contents

* `Edit.write_wild` / `applyOperation_wild` / `deleteField_wild` — one change, one removal;
* `Edit.wildAt_in_turn` — edits one after another;
* `Edit.applyFrom_wild` / `deleteFrom_wild` — lists of them;
* `Path.Beyond` / `Edit.MoveTrips` / `Edit.move_wild` / `Edit.moveFrom_wild` — moves;
* `Edit.push_wild` / `inject_wild` / `addIds_wild` / … — the edits of arrays;
* `Edit.applyChanges_tame` / `deleteFields_tame` / `moveAll_tame` — lists of clear paths;
* `Edit.modify_tame` — array queries.
-/

namespace DocRepair

theorem Identity.convert_tame (v : Value) : Tame (convert v) := by
  unfold convert
  split
  · exact .ok _
  · split
    · exact .fail _
    · exact (Tame.literalText v).bind fun _ _ => .fail _

namespace Edit

variable {α : Type} {idField : String} {path : Value} {d : Draft}

/-! ## Checks of a path -/

theorem isIdentity_tame (lists : Tame (Path.split path)) : Tame (isIdentity idField path) :=
  lists.bind fun _ _ => .ok _

theorem guardIdentity_tame {op : Operation} (lists : Tame (Path.split path)) :
    Tame (guardIdentity idField op path) := by
  refine (isIdentity_tame lists).bind fun own _ => ?_
  split
  · exact .fail _
  · exact .ok _

theorem keepIdentity_tame {verb : String} (lists : Tame (Path.split path)) :
    Tame (keepIdentity idField verb path) := by
  refine (isIdentity_tame lists).bind fun own _ => ?_
  split
  · exact .fail _
  · exact .ok _

theorem touch_tame (dirty : DirtySet) (lists : Tame (Path.split path)) : Tame (dirty.touch path) :=
  (lists.bind fun _ _ => .ok _).bind fun _ _ => .ok _

theorem touched_tame (lists : Tame (Path.split path)) : TameAt (touched path) d :=
  lift_tame (touch_tame ∅ lists)

/-- A path that trips in an object goes on below a field, so it is not the identifier field. -/
theorem isIdentity_of_trips (obj : d.doc.isObject = true) (trips : Path.Trips d.doc path) :
    isIdentity idField path = .ok false := by
  obtain ⟨names, splits, stumbles⟩ := trips
  have longer : names ≠ [idField] := by
    rintro rfl
    rcases Path.stumbles_cons.1 stumbles with ⟨⟨xs, array⟩, _⟩ | ⟨k, next, _, _, none⟩
    · rw [array] at obj
      cases obj
    · exact Path.not_stumbles_nil none
  unfold isIdentity
  rw [splits]
  exact congrArg Except.ok (beq_false_of_ne longer)

theorem guardIdentity_of_trips {op : Operation} (obj : d.doc.isObject = true)
    (trips : Path.Trips d.doc path) : guardIdentity idField op path = .ok () := by
  unfold guardIdentity
  rw [isIdentity_of_trips obj trips]
  rfl

theorem keepIdentity_of_trips {verb : String} (obj : d.doc.isObject = true)
    (trips : Path.Trips d.doc path) : keepIdentity idField verb path = .ok () := by
  unfold keepIdentity
  rw [isIdentity_of_trips obj trips]
  rfl

/-- A tame check that lets everything through that is wild behind it makes no difference. -/
theorem checked_wild {P : Prop} {check : Except Fault Unit} {rest : Edit α} (tame : Tame check)
    (passes : P → check = .ok ()) (behind : WildAt rest d ↔ P) :
    WildAt (lift check >>= fun _ => rest) d ↔ P := by
  rw [wildAt_lift_bind tame]
  constructor
  · rintro ⟨_, _, wild⟩
    exact behind.1 wild
  · intro given
    exact ⟨(), passes given, behind.2 given⟩

/-! ## One change -/

theorem land_tame {l : Landing} {v : Value} (puts : ∃ after, l.put d.doc v = .ok after) :
    TameAt (land l v) d := by
  obtain ⟨after, puts⟩ := puts
  exact .of_returns ⟨(), _, land_ok.2 ⟨after, puts, rfl⟩⟩

/-- A write to a field of an object goes through. -/
theorem put_field_tame {p : Place} {v : Value} {fs : Fields} {name : String}
    (held : d.doc.at? p.container = some (.object fs)) (key : p.key = .field name) :
    TameAt (put p v) d := by
  refine land_tame ⟨d.doc.replaceAt p.container (.object (Fields.set fs name v)), ?_⟩
  show p.put d.doc v = _
  unfold Place.put
  rw [held, key]
  rfl

/-- **A write is stopped just if its path trips.** -/
theorem write_wild {limit : Option Int} {v : Value} (lists : Tame (Path.split path))
    (obj : d.doc.isObject = true) : WildAt (write limit path v) d ↔ Path.Trips d.doc path := by
  rw [← Path.landing_wild lists]
  exact wildAt_look_bind_tame fun l found => land_tame (Path.landing_puts obj found v)

theorem append_wild {v : Value} (lists : Tame (Path.split path)) (obj : d.doc.isObject = true) :
    WildAt (append idField path v) d ↔ Path.Trips d.doc path := by
  unfold append
  rw [wildAt_look_bind, Path.resolve_wild lists]
  refine or_iff_left_of_imp ?_
  rintro ⟨place, _, wild⟩
  refine Classical.byContradiction fun calm => ?_
  refine tameAt_iff.1 ?_ wild
  refine look_bind_tame (.ok _) fun target _ => ?_
  split
  · exact .of_returns ⟨_, _, rfl⟩
  · exact lift_tame (.failShowing _ _)
  · exact .of_wild (write_wild lists obj) calm

/-- **An operation is stopped just if its path trips.** The setting of an identifier fails before if
    the value stands for none. -/
theorem applyOperation_wild {op : Operation} {v : Value} (lists : Tame (Path.split path))
    (obj : d.doc.isObject = true) :
    WildAt (applyOperation idField op path v) d ↔ Path.Trips d.doc path ∧
      (op = .setIdentifier → ∃ id, Identity.convert v = .ok id) := by
  cases op with
  | set =>
    rw [and_iff_left nofun]
    exact checked_wild (guardIdentity_tame lists) (guardIdentity_of_trips obj) (write_wild lists obj)
  | setIdentifier =>
    unfold applyOperation
    rw [wildAt_lift_bind (Identity.convert_tame v)]
    constructor
    · rintro ⟨id, converts, wild⟩
      exact ⟨(write_wild lists obj).1 wild, fun _ => ⟨id, converts⟩⟩
    · rintro ⟨trips, converted⟩
      obtain ⟨id, converts⟩ := converted rfl
      exact ⟨id, converts, (write_wild lists obj).2 trips⟩
  | setStatus =>
    rw [and_iff_left nofun]
    refine checked_wild (guardIdentity_tame lists) (guardIdentity_of_trips obj) ?_
    have ticked : tick d = .ok _ _ := rfl
    rw [wildAt_bind_of_ok ticked]
    exact write_wild lists obj
  | append =>
    rw [and_iff_left nofun]
    exact checked_wild (guardIdentity_tame lists) (guardIdentity_of_trips obj)
      (append_wild lists obj)

/-! ## One removal -/

theorem drop_tame (p : Place) : TameAt (drop p) d := by
  unfold drop
  intro fault t stop
  dsimp only at stop
  split at stop
  · cases stop
  · cases stop

/-- **A removal is stopped just if its path trips.** -/
theorem deleteField_wild (lists : Tame (Path.split path)) (obj : d.doc.isObject = true) :
    WildAt (deleteField idField path) d ↔ Path.Trips d.doc path := by
  refine checked_wild (keepIdentity_tame lists) (keepIdentity_of_trips obj) ?_
  rw [← Path.resolve_wild lists]
  refine wildAt_look_bind_tame fun place _ => ?_
  split
  · exact (drop_tame _).bind fun _ _ _ => .pure _
  · exact .pure _

/-! ## One after another -/

/-- Every edit goes by steps, and leaves an object an object. -/
theorem isObject_after {a : Edit α} {x : α} {after : Draft}
    (goes : Goes idField True (fun _ => True) a d) (run : a d = .ok x after)
    (obj : d.doc.isObject = true) : after.doc.isObject = true :=
  (goes.ok run).isObject obj

theorem named_any (path : Value) : Named (fun _ => True) path := fun _ _ _ => trivial

/-- **Edits in turn are stopped where one of them is**, in what the ones before it have left. -/
theorem wildAt_in_turn {β γ : Type} (run : β → List α → Edit γ) (one : β → α → Edit β)
    (P : α → Value → Prop) {xs : List α} {b : β} (none : ∀ b, ∃ y, run b [] = pure y)
    (more : ∀ b x rest, run b (x :: rest) = one b x >>= fun b' => run b' rest)
    (wild : ∀ x ∈ xs, ∀ b d, d.doc.isObject = true → (WildAt (one b x) d ↔ P x d.doc))
    (keeps : ∀ b x d b' e, d.doc.isObject = true → one b x d = .ok b' e → e.doc.isObject = true)
    (obj : d.doc.isObject = true) : WildAt (run b xs) d ↔
      ∃ front x rest y e, xs = front ++ x :: rest ∧ run b front d = .ok y e ∧ P x e.doc := by
  induction xs generalizing b d with
  | nil =>
    obtain ⟨y, empty⟩ := none b
    rw [empty]
    refine iff_of_false (tameAt_iff.1 (.pure y)) ?_
    rintro ⟨front, x, rest, _, _, parts, _⟩
    cases front <;> cases parts
  | cons x rest ih =>
    have others := fun y among => wild y (List.mem_cons_of_mem x among)
    rw [more, wildAt_bind, wild x List.mem_cons_self b d obj]
    constructor
    · rintro (here | ⟨b', e, done, later⟩)
      · obtain ⟨y, empty⟩ := none b
        exact ⟨[], x, rest, y, d, rfl, by rw [empty]; rfl, here⟩
      · obtain ⟨front, z, behind, y, f, rfl, ran, there⟩ :=
          (ih others (keeps b x d b' e obj done)).1 later
        refine ⟨x :: front, z, behind, y, f, rfl, ?_, there⟩
        rw [more, run_bind_of_ok done]
        exact ran
    · rintro ⟨front, z, behind, y, f, parts, ran, there⟩
      cases front with
      | nil =>
        cases parts
        obtain ⟨y', empty⟩ := none b
        rw [empty] at ran
        cases ran
        exact .inl there
      | cons x' front =>
        cases parts
        rw [more] at ran
        obtain ⟨b', e, done, ran⟩ := run_bind_ok.1 ran
        refine .inr ⟨b', e, done, (ih others (keeps b x d b' e obj done)).2 ?_⟩
        exact ⟨front, z, behind, y, f, rfl, ran, there⟩

/-! ## Lists of changes -/

/-- One change of a list, with what is reported of it and of those before. -/
def applyNext (idField : String) (before : Nat × DirtySet) (c : Change) :
    Edit (Nat × DirtySet) := fun d =>
  match applyChange idField c d with
  | .error fault e => .error (withProgress before.1 before.2 fault) e
  | .ok _ e =>
    match before.2.touch (.text c.path) with
    | .error fault => .error fault e
    | .ok dirty => .ok (before.1 + 1, dirty) e

/-- A change that something other than a failure stops. -/
def ChangeTrips (c : Change) (doc : Value) : Prop :=
  Path.Trips doc (.text c.path) ∧
    (c.operation = .setIdentifier → ∃ id, Identity.convert c.value = .ok id)

theorem withProgress_isTame (applied : Nat) (dirty : DirtySet) (fault : Fault) :
    (withProgress applied dirty fault).isTame = fault.isTame := by
  cases fault <;> rfl

theorem applyNext_wild {before : Nat × DirtySet} {c : Change} (obj : d.doc.isObject = true) :
    WildAt (applyNext idField before c) d ↔ ChangeTrips c d.doc := by
  have change : WildAt (applyChange idField c) d ↔ ChangeTrips c d.doc :=
    applyOperation_wild (Path.split_text_tame c.path) obj
  rw [← change]
  constructor
  · rintro ⟨fault, t, stop, other⟩
    unfold applyNext at stop
    cases run : applyChange idField c d with
    | error cause e =>
      rw [run] at stop
      cases stop
      rw [withProgress_isTame] at other
      exact ⟨cause, t, run, other⟩
    | ok u e =>
      rw [run] at stop
      dsimp only at stop
      cases touches : before.2.touch (.text c.path) with
      | error cause =>
        rw [touches] at stop
        cases stop
        rw [touch_tame before.2 (Path.split_text_tame c.path) fault touches] at other
        cases other
      | ok dirty =>
        rw [touches] at stop
        cases stop
  · rintro ⟨fault, t, stop, other⟩
    refine ⟨withProgress before.1 before.2 fault, t, ?_, ?_⟩
    · unfold applyNext
      rw [stop]
    · rw [withProgress_isTame]
      exact other

theorem applyNext_isObject {before after : Nat × DirtySet} {c : Change} {e : Draft}
    (obj : d.doc.isObject = true) (run : applyNext idField before c d = .ok after e) :
    e.doc.isObject = true := by
  unfold applyNext at run
  cases applied : applyChange idField c d with
  | error fault f =>
    rw [applied] at run
    cases run
  | ok u f =>
    have goes : Goes idField True (fun _ => True) (applyChange idField c) d :=
      applyOperation_goes obj (named_any _) fun _ _ => trivial
    rw [applied] at run
    dsimp only at run
    split at run
    · cases run
    · cases run
      exact isObject_after goes applied obj

/-- **A list of changes is stopped where one of them is.** -/
theorem applyFrom_wild {applied : Nat} {before : DirtySet} {changes : List Change}
    (obj : d.doc.isObject = true) : WildAt (applyFrom idField applied before changes) d ↔
      ∃ front c rest dirty e, changes = front ++ c :: rest ∧
        applyFrom idField applied before front d = .ok dirty e ∧ ChangeTrips c e.doc := by
  refine wildAt_in_turn (fun before changes => applyFrom idField before.1 before.2 changes)
    (applyNext idField) ChangeTrips (b := (applied, before)) (fun before => ⟨_, rfl⟩) ?_
    (fun c _ before d obj => applyNext_wild obj)
    (fun before c d after e obj run => applyNext_isObject obj run) obj
  intro before c rest
  funext d
  rw [run_bind]
  unfold applyNext
  conv => lhs; unfold applyFrom
  cases applyChange idField c d with
  | error fault e => rfl
  | ok u e => cases before.2.touch (.text c.path) <;> rfl

/-- **A list of removals is stopped where one of them is.** -/
theorem deleteFrom_wild {before : DirtySet} {paths : List Value}
    (lists : ∀ path ∈ paths, Tame (Path.split path)) (obj : d.doc.isObject = true) :
    WildAt (deleteFrom idField before paths) d ↔
      ∃ front path rest dirty e, paths = front ++ path :: rest ∧
        deleteFrom idField before front d = .ok dirty e ∧ Path.Trips e.doc path := by
  let one (dirty : DirtySet) (path : Value) : Edit DirtySet :=
    deleteField idField path >>= fun _ => lift (dirty.touch path)
  refine wildAt_in_turn (deleteFrom idField) one (fun path doc => Path.Trips doc path)
    (fun dirty => ⟨dirty, rfl⟩) ?_ ?_ ?_ obj
  · intro dirty path rest
    exact (bind_assoc _ _ _).symm
  · intro path among dirty d obj
    rw [wildAt_bind_tame fun _ _ _ => lift_tame (touch_tame dirty (lists path among))]
    exact deleteField_wild (lists path among) obj
  · intro dirty path d more e obj run
    obtain ⟨u, f, deleted, run⟩ := run_bind_ok.1 run
    obtain ⟨_, rfl⟩ := lift_ok.1 run
    exact isObject_after (deleteField_goes obj (named_any path)) deleted obj

end Edit

/-! ## Moves -/

namespace Path

variable {idField : String} {names : List String} {c v : Value}

/-- Segments that lead to an array, but for the last, which is an index with which nothing can be
    written there: it is not even the end. -/
def Beyond (c : Value) (names : List String) : Prop :=
  ∃ front last way xs i, names = front ++ [last] ∧ Leads c front way (.array xs) ∧
    index? last = .ok (some i) ∧ xs.length < i

/-- A path that is not the identifier field itself. -/
def OtherThan (idField : String) (path : Value) : Prop :=
  ∃ names, split path = .ok names ∧ names ≠ [idField]

/-- The last segment of a path spells no index. -/
def EndsInField (path : Value) : Prop :=
  ∀ names s, split path = .ok names → names.getLast? = some s → index? s = .ok none

theorem assign_wild {k : Key} {segment : String} (named : Names c segment k) :
    Wild (c.assign k v) ↔ ∃ xs i, c = .array xs ∧ k = .index i ∧ xs.length < i := by
  cases c with
  | object fs =>
    cases named
    refine iff_of_false (tame_iff.1 (.ok _)) ?_
    rintro ⟨_, _, array, _⟩
    cases array
  | array xs =>
    obtain ⟨i, _, rfl⟩ := named
    unfold Value.assign
    constructor
    · rintro ⟨fault, stop, _⟩
      refine ⟨xs, i, rfl, rfl, ?_⟩
      dsimp only at stop
      split at stop
      · cases stop
      · split at stop
        · cases stop
        · omega
    · rintro ⟨ys, j, same, key, beyond⟩
      cases same
      cases key
      refine ⟨.outOfRange, ?_, rfl⟩
      dsimp only
      rw [if_neg (by omega), if_neg (by omega)]
  | _ => exact named.elim

theorem put_wild_at {p : Place} {x : Value} {segment : String} (held : c.at? p.container = some x)
    (named : Names x segment p.key) :
    Wild (p.put c v) ↔ ∃ xs i, x = .array xs ∧ p.key = .index i ∧ xs.length < i := by
  unfold Place.put
  rw [held]
  exact wild_map.trans (assign_wild named)

/-- **A write to the place of segments is stopped just if they go beyond the end of an array.** -/
theorem put_wild (idField : String) (v : Value) (container : c.isContainer = true) :
    (∃ p, resolveFrom idField c names [] = .ok (some p) ∧ Wild (p.put c v)) ↔ Beyond c names := by
  constructor
  · rintro ⟨p, found, wild⟩
    have nonempty : names ≠ [] := by
      rintro rfl
      cases found
    rw [← List.dropLast_concat_getLast nonempty] at found ⊢
    obtain ⟨x, leads, _, named⟩ := front_of_resolve container found
    obtain ⟨xs, i, rfl, key, beyond⟩ := (put_wild_at leads.at? named).1 wild
    rw [key] at named
    obtain ⟨j, spelled, ⟨⟩⟩ := named
    exact ⟨_, _, p.container, xs, i, rfl, leads, spelled, beyond⟩
  · rintro ⟨front, last, way, xs, i, rfl, leads, spelled, beyond⟩
    have named : Names (.array xs) last (.index i) := ⟨i, spelled, rfl⟩
    refine ⟨⟨way, .index i⟩, ?_, (put_wild_at leads.at? named).2 ⟨xs, i, rfl, rfl, beyond⟩⟩
    rw [resolveFrom_front leads rfl, lastPlace_of_names named]
    show Except.ok (some (Place.under way ⟨[], .index i⟩)) = _
    rw [Place.under, List.append_nil]

end Path

namespace Edit

variable {idField : String} {source target path : Value} {d : Draft}

theorem keepIdentity_iff (verb : String) :
    keepIdentity idField verb path = .ok () ↔ Path.OtherThan idField path := by
  constructor
  · intro kept
    obtain ⟨own, checked, kept⟩ := bind_eq_ok.1 kept
    obtain ⟨names, splits, checked⟩ := bind_eq_ok.1 checked
    cases checked
    refine ⟨names, splits, ?_⟩
    rintro rfl
    rw [beq_self_eq_true] at kept
    cases kept
  · rintro ⟨names, splits, other⟩
    refine keepIdentity_of splits ?_ verb
    rw [splits]
    exact fun same => other (Except.ok.inj same)

/-- A move that something other than a failure stops: the source trips, or there is a value to move,
    and in what is left without it the target trips or goes beyond the end of an array. -/
def MoveTrips (idField : String) (source target doc : Value) : Prop :=
  Path.OtherThan idField source ∧ Path.OtherThan idField target ∧
    (Path.Trips doc source ∨ ∃ s v names, Path.resolve idField doc source .null = .ok (some s) ∧
      s.value? doc = some v ∧ (v.isNull = false ∧ v.isAbsent = false) ∧
      Path.split target = .ok names ∧
      (Path.Stumbles (s.drop doc) names ∨ Path.Beyond (s.drop doc) names))

theorem moved_wild {doc v : Value} {s : Place} {names : List String}
    (container : doc.isContainer = true) (splits : Path.split target = .ok names) :
    Wild (moved idField doc target v s) ↔
      Path.Stumbles (s.drop doc) names ∨ Path.Beyond (s.drop doc) names := by
  have left := (Place.alike_drop container s).isContainer
  rw [← Path.put_wild idField v left, moved_eq splits, wild_bind]
  obtain ⟨n, rest, rfl⟩ := Path.split_cons splits
  refine or_congr ?_ ?_
  · rw [← Path.walk_wild, ← Path.resolveFrom_walk idField, wild_bind_tame fun _ _ => .ok _]
  · constructor
    · rintro ⟨place, found, wild⟩
      cases place with
      | none => exact absurd wild (tame_iff.1 (.ok _))
      | some q => exact ⟨q, found, wild⟩
    · rintro ⟨q, found, wild⟩
      exact ⟨some q, found, wild⟩

theorem wildAt_kept {α : Type} {verb : String} {rest : Edit α} (lists : Tame (Path.split path)) :
    WildAt (lift (keepIdentity idField verb path) >>= fun _ => rest) d ↔
      Path.OtherThan idField path ∧ WildAt rest d := by
  rw [wildAt_lift_bind (keepIdentity_tame lists), ← keepIdentity_iff verb]
  constructor
  · rintro ⟨_, kept, wild⟩
    exact ⟨kept, wild⟩
  · rintro ⟨kept, wild⟩
    exact ⟨(), kept, wild⟩

/-- What a move does once its source has been looked up. -/
def finish (idField : String) (target : Value) (dirty : DirtySet) (start : Option Place) :
    Edit DirtySet := do
  let known ← knownIn start
  match ← take start with
  | none | some .null | some .absent => pure dirty
  | some v => settle idField target v known dirty

theorem settle_wild {doc v : Value} {s : Place} {known : Option Location} {dirty : DirtySet}
    (emptied : d.doc = s.drop doc) :
    WildAt (settle idField target v known dirty) d ↔ Wild (moved idField doc target v s) := by
  cases run : moved idField doc target v s with
  | ok after =>
    obtain ⟨e, settled, _⟩ : ∃ e, settle idField target v known dirty d = .ok dirty e ∧
      e.doc = after := settle_ok emptied run
    exact iff_of_false (tameAt_iff.1 (.of_returns ⟨_, _, settled⟩)) (tame_iff.1 (.ok _))
  | error fault =>
    have stops : settle idField target v known dirty d = .error fault d := settle_error emptied run
    constructor
    · rintro ⟨_, _, stop, other⟩
      rw [stops] at stop
      cases stop
      exact ⟨fault, rfl, other⟩
    · rintro ⟨_, ⟨⟩, other⟩
      exact ⟨fault, d, stops, other⟩

theorem finish_wild {dirty : DirtySet} {start : Option Place} :
    WildAt (finish idField target dirty start) d ↔
      ∃ s v, start = some s ∧ s.value? d.doc = some v ∧ (v.isNull = false ∧ v.isAbsent = false) ∧
        Wild (moved idField d.doc target v s) := by
  cases start with
  | none =>
    refine iff_of_false (tameAt_iff.1 (.of_returns ⟨_, _, rfl⟩)) ?_
    rintro ⟨s, _, none, _⟩
    cases none
  | some s =>
    have known : knownIn (some s) d = .ok (d.known.below? s.way) d := rfl
    unfold finish
    rw [wildAt_bind_of_ok known]
    cases held : s.value? d.doc with
    | none =>
      rw [wildAt_bind_of_ok (take_missing held)]
      refine iff_of_false (tameAt_iff.1 (.pure _)) ?_
      rintro ⟨s', v, same, held', _⟩
      cases same
      rw [held] at held'
      cases held'
    | some v =>
      rw [wildAt_bind_of_ok (take_held held)]
      have only : (∃ s' v', some s = some s' ∧ s'.value? d.doc = some v' ∧
          (v'.isNull = false ∧ v'.isAbsent = false) ∧ Wild (moved idField d.doc target v' s')) ↔
          (v.isNull = false ∧ v.isAbsent = false) ∧ Wild (moved idField d.doc target v s) := by
        constructor
        · rintro ⟨s', v', same, held', moves⟩
          cases same
          rw [held] at held'
          cases held'
          exact moves
        · exact fun moves => ⟨s, v, rfl, held, moves⟩
      rw [only]
      cases v with
      | null => exact iff_of_false (tameAt_iff.1 (.pure _)) fun moves => nomatch moves.1.1
      | absent => exact iff_of_false (tameAt_iff.1 (.pure _)) fun moves => nomatch moves.1.2
      | _ => exact (settle_wild rfl).trans (and_iff_right ⟨rfl, rfl⟩).symm

/-- **A move is stopped just if it trips.** -/
theorem move_wild (lists : Tame (Path.split source)) (lists' : Tame (Path.split target))
    (obj : d.doc.isObject = true) :
    WildAt (move idField source target) d ↔ MoveTrips idField source target d.doc := by
  unfold move MoveTrips
  rw [wildAt_kept lists, wildAt_kept lists']
  refine and_congr_right fun ⟨names, splits, _⟩ => and_congr_right fun ⟨names', splits', _⟩ => ?_
  obtain ⟨one, touched⟩ := touch_of splits ∅
  obtain ⟨two, touched'⟩ := touch_of splits' one
  rw [wildAt_bind_of_ok (lift_ok.2 ⟨touched, rfl⟩), wildAt_bind_of_ok (lift_ok.2 ⟨touched', rfl⟩)]
  unfold place?
  rw [wildAt_look_bind, Path.resolve_wild lists]
  refine or_congr_right ?_
  show (∃ start, _ ∧ WildAt (finish idField target two start) d) ↔ _
  have moves (s : Place) (v : Value) : Wild (moved idField d.doc target v s) ↔ _ :=
    moved_wild (Value.isContainer_of_isObject obj) splits'
  constructor
  · rintro ⟨start, found, wild⟩
    obtain ⟨s, v, rfl, held, there, wild⟩ := finish_wild.1 wild
    exact ⟨s, v, names', found, held, there, splits', (moves s v).1 wild⟩
  · rintro ⟨s, v, others, found, held, there, same, trips⟩
    rw [splits'] at same
    cases same
    exact ⟨some s, found, finish_wild.2 ⟨s, v, rfl, held, there, (moves s v).2 trips⟩⟩

/-- **A list of moves is stopped where one of them is.** -/
theorem moveFrom_wild {before : DirtySet} {moves : List Move} (obj : d.doc.isObject = true) :
    WildAt (moveFrom idField before moves) d ↔
      ∃ front m rest dirty e, moves = front ++ m :: rest ∧
        moveFrom idField before front d = .ok dirty e ∧
        MoveTrips idField (.text m.source) (.text m.target) e.doc := by
  let one (dirty : DirtySet) (m : Move) : Edit DirtySet :=
    move idField (.text m.source) (.text m.target) >>= fun more => pure (dirty.union more)
  refine wildAt_in_turn (moveFrom idField) one
    (fun m doc => MoveTrips idField (.text m.source) (.text m.target) doc)
    (fun dirty => ⟨dirty, rfl⟩) ?_ ?_ ?_ obj
  · intro dirty m rest
    exact (bind_assoc (move idField (.text m.source) (.text m.target))
      (fun more => pure (dirty.union more)) fun more => moveFrom idField more rest).symm
  · intro m _ dirty d obj
    rw [wildAt_bind_tame fun _ _ _ => .pure _]
    exact move_wild (Path.split_text_tame _) (Path.split_text_tame _) obj
  · intro dirty m d more e obj run
    obtain ⟨u, f, done, run⟩ := run_bind_ok.1 run
    obtain ⟨_, rfl⟩ := run_pure_ok.1 run
    exact isObject_after (move_goes obj (named_any _) (named_any _)) done obj

theorem target?_wild (lists : Tame (Path.split path)) :
    WildAt (target? idField path) d ↔ Path.Trips d.doc path := by
  rw [← Path.resolve_wild lists]
  exact wildAt_look.trans (wild_bind_tame fun _ _ => .ok _)

theorem array_wild (lists : Tame (Path.split path)) :
    WildAt (array idField path) d ↔ Path.Trips d.doc path := by
  rw [← target?_wild lists]
  refine wildAt_bind_tame fun target e _ => ?_
  split
  · exact .pure _
  · exact lift_tame (.failShowing _ _)

theorem setItems_bind_tame {β : Type} {p : Place} {xs : List Value} {f : Unit → Edit β}
    (rest : ∀ e, TameAt (f ()) e) : TameAt (setItems p xs >>= f) d := by
  have sets : TameAt (setItems p xs) d := .of_returns ⟨_, _, rfl⟩
  exact sets.bind fun _ e _ => rest e

theorem convertParts_tame {names : List Value} (hashable : ∀ n ∈ names, n.isHashable = true)
    (fs : Fields) : Tame (convertParts fs names) := by
  induction names generalizing fs with
  | nil => exact .ok fs
  | cons name rest ih =>
    unfold convertParts
    rw [if_pos (hashable name List.mem_cons_self)]
    split
    · refine (Identity.convert_tame _).bind fun _ _ => ?_
      exact ih (fun n hn => hashable n (List.mem_cons_of_mem _ hn)) _
    · exact .failShowing _ _

/-- Names of parts to convert: if there are any, they are listed, and each may serve as a key. -/
def NamesParts (ids : Value) : Prop :=
  ids.truthy = true → ∃ names, ids.members = .ok names ∧ ∀ n ∈ names, n.isHashable = true

theorem pushed_tame {v ids : Value} (parts : NamesParts ids) : Tame (pushed v ids) := by
  unfold pushed
  split
  · exact (Identity.convert_tame v).bind fun _ _ => .ok _
  · split
    · rename_i given
      obtain ⟨names, listed, hashable⟩ := parts given
      split
      · rw [listed]
        exact (convertParts_tame hashable _).bind fun _ _ => .ok _
      · exact .fail _
    · exact .ok _

theorem push_wild {v ids : Value} (lists : Tame (Path.split path)) (parts : NamesParts ids) :
    WildAt (push idField path v ids) d ↔ Path.Trips d.doc path := by
  rw [← target?_wild lists]
  refine wildAt_bind_tame fun target e _ => ?_
  split
  · refine lift_bind_tame (pushed_tame parts) fun item _ => ?_
    exact setItems_bind_tame fun _ => touched_tame lists
  · exact .pure _

/-- An injection needs selectors, but none beside the last segment. -/
theorem inject_wild {language ids data : Value} (lists : Tame (Path.split path))
    (selects : Tame (Path.selectors ids)) (listed : Tame data.members) :
    WildAt (inject idField language path ids data) d ↔
      ∃ names wanted, Path.split path = .ok names ∧ Path.selectors ids = .ok wanted ∧
        wanted.getD (names.length - 1) none = none ∧
        Path.StumblesBy idField d.doc names wanted := by
  unfold inject
  rw [wildAt_lift_bind lists]
  refine exists_congr fun names => ?_
  rw [exists_and_left]
  refine and_congr_right fun _ => ?_
  rw [wildAt_lift_bind selects]
  refine exists_congr fun wanted => and_congr_right fun _ => ?_
  split
  · rename_i element
    refine iff_of_false (tameAt_iff.1 (lift_tame (.fail _))) fun free => ?_
    rw [free.1] at element
    cases element
  · rename_i free
    rw [← Path.resolveFrom_wild, and_iff_right (Option.not_isSome_iff_eq_none.1 free)]
    refine wildAt_look_bind_tame fun place _ => ?_
    refine look_bind_tame (.ok _) fun target _ => ?_
    split
    · exact lift_bind_tame listed fun _ _ => setItems_bind_tame fun _ => .pure _
    · exact .pure _

theorem duplicate_wild (lists : Tame (Path.split path)) :
    WildAt (duplicate idField path) d ↔ Path.Trips d.doc path := by
  rw [← array_wild lists]
  refine wildAt_bind_tame fun ⟨p, xs⟩ e _ => ?_
  exact setItems_bind_tame fun _ => (touched_tame lists).bind fun _ _ _ => .pure _

theorem elementKeys_tame {keyField : Value} (hashable : keyField.isHashable = true)
    (xs : List Value) : Tame (elementKeys idField keyField xs) := by
  refine (Tame.mapM fun v _ => ?_).bind fun _ _ => .ok _
  unfold elementKey
  split
  · exact .filing _
  · exact .filing _
  · rw [if_pos hashable]
    split
    · exact .filing _
    · exact .ok _
  · exact .ok _

theorem removeDuplicates_wild {keyField : Value} (lists : Tame (Path.split path))
    (hashable : keyField.isHashable = true) :
    WildAt (removeDuplicates idField path keyField) d ↔ Path.Trips d.doc path := by
  rw [← array_wild lists]
  refine wildAt_bind_tame fun ⟨p, xs⟩ e _ => ?_
  refine lift_bind_tame (elementKeys_tame hashable xs) fun key _ => ?_
  have keeps : TameAt (keepItems p (Scan.ofArray key xs).kept (Scan.stays key xs)) e :=
    .of_returns ⟨_, _, rfl⟩
  refine keeps.bind fun _ f _ => ?_
  exact (touched_tame lists).bind fun _ _ _ => .pure _

theorem newIds_tame (held : List Value) (ids : List ObjectId) : Tame (newIds held ids) := by
  induction ids generalizing held with
  | nil => exact .ok _
  | cons id rest ih =>
    refine (Tame.anyM (fun _ => .compare _ _) held).bind fun known _ => ?_
    split
    · exact ih held
    · exact (ih _).bind fun _ _ => .ok _

/-- Identifiers are converted before the path is looked up. -/
theorem addIds_wild {ids : Value} (lists : Tame (Path.split path)) (listed : Tame ids.members)
    (obj : d.doc.isObject = true) : WildAt (addIds idField path ids) d ↔
      (∃ converted, (do (← ids.members).mapM Identity.convert) = .ok converted) ∧
        Path.Trips d.doc path := by
  have converts : Tame (do (← ids.members).mapM Identity.convert) :=
    listed.bind fun _ _ => .mapM fun v _ => Identity.convert_tame v
  unfold addIds
  rw [wildAt_lift_bind converts, ← exists_and_right]
  refine exists_congr fun converted => and_congr_right fun _ => ?_
  rw [wildAt_bind, target?_wild lists]
  refine or_iff_left_of_imp ?_
  rintro ⟨target, e, found, wild⟩
  obtain ⟨_, rfl⟩ := look_ok.1 found
  refine Classical.byContradiction fun calm => tameAt_iff.1 ?_ wild
  have writes (items : Value) : TameAt (write none path items) d :=
    .of_wild (write_wild lists obj) calm
  have made (f : List ObjectId → DirtySet → DirtySet × List ObjectId) :
      TameAt (do
        let added ← lift (newIds [] converted)
        write none path (.array (added.map .ident))
        return f added (← touched path)) d :=
    lift_bind_tame (newIds_tame [] converted) fun _ _ => (writes _).bind fun _ _ _ =>
      (touched_tame lists).bind fun _ _ _ => .pure _
  split
  · refine lift_bind_tame (newIds_tame _ converted) fun _ _ => ?_
    exact setItems_bind_tame fun _ => (touched_tame lists).bind fun _ _ _ => .pure _
  · exact made fun added dirty => (dirty, added)
  · exact made fun added dirty => (dirty, added)
  · exact lift_tame (.failShowing _ _)

theorem removeElement_wild {steps : List IdStep} : WildAt (removeElement idField steps) d ↔
    Path.TripsBy idField d.doc (.array (steps.map fun s => .text s.field))
      (.array (steps.map IdStep.id)) := by
  have lists := Path.split_array_tame (steps.map fun s => .text s.field)
  have selects := Path.selectors_array_tame (steps.map IdStep.id)
  rw [← Path.resolve_wild_by lists selects]
  unfold removeElement
  split
  · rename_i none
    obtain rfl := List.isEmpty_iff.1 none
    exact iff_of_false (tameAt_iff.1 (lift_tame (.fail _))) (tame_iff.1 (.fail .emptyPath))
  · refine wildAt_look_bind_tame fun place _ => ?_
    split
    · exact lift_tame (.fail _)
    · refine look_bind_tame (.ok _) fun held _ => ?_
      split
      · exact lift_tame (.fail _)
      · exact lift_tame (.fail _)
      · refine (drop_tame _).bind fun _ _ _ => ?_
        exact (touched_tame lists).bind fun _ _ _ => .pure _

theorem clear_wild (lists : Tame (Path.split path)) (obj : d.doc.isObject = true) :
    WildAt (Edit.clear idField path) d ↔ Path.Trips d.doc path := by
  refine checked_wild (keepIdentity_tame lists) (keepIdentity_of_trips obj) ?_
  rw [wildAt_bind_tame fun _ _ _ => touched_tame lists]
  exact write_wild lists obj

end Edit

/-! ## Array queries -/

theorem QueryStep.passes_tame (step : QueryStep) (element : Value) : Tame (step.passes element) := by
  unfold QueryStep.passes
  split
  · exact .compare _ _
  · exact .ok _

/-- Only an object passes the test of a step. -/
theorem QueryStep.object_of_passes {step : QueryStep} {element : Value}
    (passes : step.passes element = .ok true) : ∃ fs, element = .object fs := by
  cases element with
  | object fs => exact ⟨fs, rfl⟩
  | _ => cases passes

namespace Edit

variable {d : Draft}

theorem assigned_tame (step : QueryStep) : TameAt (assigned step) d := by
  unfold assigned
  split
  · have mints : TameAt mint d := .of_returns ⟨_, _, rfl⟩
    exact mints.bind fun _ _ _ => .pure _
  · split
    · exact lift_bind_tame (Identity.convert_tame _) fun _ _ => .pure _
    · exact .pure _

/-- The element that passes a test is an object, so a field of it can be written. -/
theorem editElement_tame (here : Location) (walked : List String) (step : QueryStep) :
    TameAt (editElement here walked step) d := by
  refine look_bind_tame (.ok _) fun target looked => ?_
  split
  · rename_i xs
    have held : d.doc.at? here = some (.array xs) := Except.ok.inj looked
    refine lift_bind_tame (.firstIndex? step.passes_tame xs) fun found searched => ?_
    split
    · rename_i i
      refine (assigned_tame step).bind fun v e assigns => ?_
      obtain ⟨supply, rfl⟩ := assigned_same assigns
      obtain ⟨⟨element, there, passes⟩, _⟩ := firstIndex?_eq_some.1 searched
      obtain ⟨fs, rfl⟩ := step.object_of_passes passes
      have holds : d.doc.at? (here ++ [.index i]) = some (.object fs) := by
        rw [Value.at?_append, held, Option.bind_some, Value.at?_cons]
        show xs[i]?.bind some = _
        rw [there]
        rfl
      exact put_field_tame holds rfl
    · exact lift_tame (.failShowing _ _)
  · exact lift_tame (.fail _)

theorem walk_tame (here : Location) (walked : List String) (steps : List QueryStep) :
    TameAt (walk here walked steps) d := by
  induction steps generalizing here walked d with
  | nil => exact .pure _
  | cons step rest ih =>
    unfold walk
    split
    · have descends : TameAt (descend here walked step.field) d := by
        refine look_bind_tame (.ok _) fun child _ => ?_
        split
        · exact .pure _
        · exact lift_tame (.fail _)
      exact descends.bind fun there _ _ => ih there _
    · exact (editElement_tame here walked step).bind fun _ _ _ => ih here walked

/-- **An array query is stopped by failures only**, whatever its steps. -/
theorem modify_tame (steps : List QueryStep) : TameAt (modify steps) d := by
  unfold modify
  split
  · exact lift_tame (.fail _)
  · exact (walk_tame [] [] _).bind fun _ _ _ => touched_tame (Path.split_text_tame _)

end Edit

end DocRepair

import DocRepair.Proofs.Denoted
import DocRepair.Proofs.Spelled
/-!
# `DocRepair.Proofs.Undone` — removals that undo injections

An injection addresses an array by segments with selectors beside all but the last one. A removal
addresses an element by the same steps, with the identifier of the element beside the last one. Both
pick the same elements on the way, and so the element that was appended is found and taken out.

The selectors are compared with identifiers as they are. If a segment behind a selector is the
identifier field itself, the array lies in the identifier of the element that was picked. With one
more item it is no longer what the selector asks for, and the removal does not come back there.

## Contents

* `Value.length_of_same` / `Identity.same_of_agree` — what equal values have in common;
* `Path.Steers` — where steps with selectors lead;
* `Path.steers_of_place` / `Path.place_of_steers` — a lookup goes there;
* `Path.KeepsOff` — steps that do not go into the identifier of a picked element;
* `Path.Steers.replaced` — they lead to what was put in the place of what they led to;
* `Path.Steers.astray` — others lead elsewhere, once an array has another length;
* `Edit.removeElement_undoes` — an injection and the removal of what it has appended;
* `Edit.removeElement_astray` — an injection into an identifier.
-/

namespace DocRepair

/-! ## Equal values -/

namespace Value

variable {v c w : Value} {xs ys : List Value} {i : Nat} {way : Location}

theorem field_of_same {fs gs : Fields} {n : String} (same : sameFields fs gs = true)
    (held : Fields.get? fs n = some c) :
    ∃ d, Fields.get? gs n = some d ∧ sameInside c d = true := by
  induction fs with
  | nil => cases held
  | cons f rest ih =>
    obtain ⟨m, v⟩ := f
    unfold sameFields at same
    obtain ⟨here, others⟩ := Bool.and_eq_true_iff.1 same
    unfold Fields.get? at held
    split at held
    · rename_i own
      cases held
      subst own
      split at here
      · rename_i d found
        exact ⟨d, found, here⟩
      · cases here
    · exact ih others held

theorem item_of_same (same : sameItems xs ys = true) (held : xs[i]? = some c) :
    ∃ d, ys[i]? = some d ∧ sameInside c d = true := by
  induction xs generalizing ys i with
  | nil => cases held
  | cons x rest ih =>
    cases ys with
    | nil => cases same
    | cons y more =>
      unfold sameItems at same
      obtain ⟨here, others⟩ := Bool.and_eq_true_iff.1 same
      cases i with
      | zero =>
        cases held
        exact ⟨y, rfl, here⟩
      | succ i =>
        rw [List.getElem?_cons_succ] at held ⊢
        exact ih others held

theorem length_of_sameItems (same : sameItems xs ys = true) : ys.length = xs.length := by
  induction xs generalizing ys with
  | nil =>
    unfold sameItems at same
    rw [List.isEmpty_iff.1 same]
  | cons x rest ih =>
    cases ys with
    | nil => cases same
    | cons y more =>
      unfold sameItems at same
      rw [List.length_cons, List.length_cons, ih (Bool.and_eq_true_iff.1 same).2]

/-- Equal values hold equal ones under a key. -/
theorem child_of_same {k : Key} (same : v.same w = true) (held : v.child? k = some c) :
    ∃ d, w.child? k = some d ∧ sameInside c d = true := by
  cases v with
  | object fs =>
    cases k with
    | field n =>
      cases w with
      | object gs =>
        have each : (fs.length == gs.length && sameFields fs gs) = true := same
        exact field_of_same (Bool.and_eq_true_iff.1 each).2 held
      | _ => cases same
    | index i => cases held
  | array xs =>
    cases k with
    | field n => cases held
    | index i =>
      cases w with
      | array ys =>
        have each : sameItems xs ys = true := same
        exact item_of_same each held
      | _ => cases same
  | _ => cases k <;> cases held

/-- **Equal values have arrays of one length** at the same places. -/
theorem length_of_same (same : v.same w = true)
    (held : v.at? way = some (.array xs)) :
    ∃ ys, w.at? way = some (.array ys) ∧ ys.length = xs.length := by
  induction way generalizing v w with
  | nil =>
    cases held
    cases w with
    | array ys =>
      have each : sameItems xs ys = true := same
      exact ⟨ys, rfl, length_of_sameItems each⟩
    | _ => cases same
  | cons k rest ih =>
    rw [at?_cons] at held
    obtain ⟨c, child, below⟩ := Option.bind_eq_some_iff.1 held
    obtain ⟨d, there, inside⟩ := child_of_same same child
    rw [at?_cons, there]
    rcases Bool.or_eq_true_iff.1 inside with nan | equal
    · -- A number holds no array.
      cases c with
      | float x => cases rest <;> cases below
      | _ => cases nan
    · exact ih equal below

theorem isContainer_of_at? (held : v.at? way = some (.array xs)) : v.isContainer = true := by
  cases way with
  | nil =>
    cases held
    rfl
  | cons k rest =>
    rw [at?_cons] at held
    cases v with
    | array => rfl
    | object => rfl
    | _ => cases k <;> cases held

/-- The literal of a container is no text of an identifier. -/
theorem plain_ne_text (container : v.isContainer = true) (id : ObjectId) : v.plain ≠ id.text := by
  have first (opening : String) (c : Char) (digit : Text.Hex.digitValue? c = none)
      (starts : opening.toList = [c]) (rest closing : String) :
      opening ++ rest ++ closing ≠ id.text := by
    refine ObjectId.text_ne ?_ digit id
    rw [String.toList_append, String.toList_append, starts]
    exact List.mem_append_left _ List.mem_cons_self
  cases v with
  | array xs => exact first "[" '[' (by decide) rfl _ _
  | object fs => exact first "\x7b" '\x7b' (by decide) rfl _ _
  | _ => cases container

end Value

/-- A container equals whatever it agrees with. -/
theorem Identity.same_of_agree {v w : Value} (container : v.isContainer = true)
    (agrees : Identity.agree v w = true) : v.same w = true := by
  have plain : Identity.isIdent v = false := by
    cases v with
    | ident id => cases container
    | _ => rfl
  unfold Identity.agree at agrees
  split at agrees
  · cases agrees
  · split at agrees
    · rename_i ident
      cases w with
      | ident id => exact absurd (beq_iff_eq.1 agrees) (Value.plain_ne_text container id)
      | _ =>
        rw [plain] at ident
        cases ident
    · exact agrees

/-! ## Where steps lead -/

namespace Path

variable {idField last : String} {c v element wanted x new : Value} {xs ys : List Value}
  {i j : Nat} {way way' : Location} {s : IdStep} {steps front : List IdStep} {p : Place}

/-- Steps lead from one value to another. Each names a child, and a selector picks the first element
    of it that it agrees with. -/
inductive Steers (idField : String) : Value → List IdStep → Location → Value → Prop
  | nil (v : Value) : Steers idField v [] [] v
  | bare {c next v : Value} {s : IdStep} {k : Key} {rest : List IdStep} {way : Location}
      (bare : selector? s.id = none) (named : Names c s.field k) (held : c.child? k = some next)
      (more : Steers idField next rest way v) : Steers idField c (s :: rest) (k :: way) v
  | selected {c wanted element v : Value} {s : IdStep} {xs : List Value} {k : Key} {i : Nat}
      {rest : List IdStep} {way : Location} (beside : selector? s.id = some wanted)
      (named : Names c s.field k) (held : c.child? k = some (.array xs))
      (first : First idField wanted xs i element) (more : Steers idField element rest way v) :
      Steers idField c (s :: rest) (k :: .index i :: way) v

theorem First.agree (first : First idField wanted xs i element) :
    Identity.agree (Identity.ofElement idField element) wanted = true :=
  (Identity.compare_ok.1 first.agrees).2

theorem First.child? (first : First idField wanted xs i element) :
    (Value.array xs).child? (.index i) = some element :=
  first.held

theorem Steers.at? (steers : Steers idField c steps way v) : c.at? way = some v := by
  induction steers with
  | nil v => rfl
  | bare bare named held more ih => rw [Value.at?_cons, held, Option.bind_some, ih]
  | selected beside named held first more ih =>
    rw [Value.at?_cons, held, Option.bind_some, Value.at?_cons, first.child?, Option.bind_some, ih]

/-- A step goes down by a key. -/
theorem Steers.way_cons (steers : Steers idField c (s :: steps) way v) :
    ∃ k rest, Names c s.field k ∧ way = k :: rest := by
  cases steers with
  | bare bare named held more => exact ⟨_, _, named, rfl⟩
  | selected beside named held first more => exact ⟨_, _, named, rfl⟩

/-- What a step leaves is a container. -/
theorem Steers.isContainer (steers : Steers idField c (s :: steps) way v) :
    c.isContainer = true := by
  obtain ⟨k, rest, named, -⟩ := steers.way_cons
  exact named.isContainer

/-- A selector beside the last step picks the first element of the array that agrees with it. -/
theorem Steers.pick {id : Value}
    (steers : Steers idField c (front ++ [⟨last, .null⟩]) way (.array xs))
    (asks : selector? id = some wanted) (first : First idField wanted xs i x) :
    Steers idField c (front ++ [⟨last, id⟩]) (way ++ [.index i]) x := by
  induction front generalizing c way with
  | nil =>
    cases steers with
    | bare bare named held more =>
      cases more
      exact .selected asks named held first (.nil x)
    | selected beside => cases beside
  | cons s front ih =>
    cases steers with
    | bare bare named held more => exact .bare bare named held (ih more)
    | selected beside named held first more => exact .selected beside named held first (ih more)

/-! ## Lookups -/

/-- A selector picks what it agrees with first. -/
theorem First.select (first : First idField wanted xs i element) (segment : String) :
    select idField segment wanted (.array xs) = .ok (i, element) := by
  have found : indexOfId? idField wanted xs = .ok (some i) :=
    firstIndex?_eq_some.2 ⟨⟨element, first.held, first.agrees⟩, first.before⟩
  unfold Path.select
  dsimp only
  rw [found]
  show Except.ok (i, xs.getD i .null) = _
  rw [List.getD_eq_getElem?_getD, first.held]
  rfl

/-- A step of a lookup, and steps behind it. -/
theorem steers_of_step {next : Value}
    (run : step idField c s.field (selector? s.id) = .ok (some (way, next)))
    (more : Steers idField next steps way' v) : Steers idField c (s :: steps) (way ++ way') v := by
  obtain ⟨child, found, run⟩ := bind_eq_ok.1 run
  cases child with
  | none => cases run
  | some entry =>
    obtain ⟨k, target⟩ := entry
    have named := names_of_childAt found
    have held := childAt_held found
    cases beside : selector? s.id with
    | none =>
      rw [beside] at run
      cases run
      exact .bare beside named held more
    | some wanted =>
      rw [beside] at run
      obtain ⟨⟨i, element⟩, picked, run⟩ := bind_eq_ok.1 run
      cases run
      obtain ⟨xs, rfl, first⟩ := first_of_select picked
      exact .selected beside named held first more

/-- The place of a picked element is that of a step. -/
theorem step_of_selectedPlace {segment : String}
    (run : selectedPlace idField c segment wanted = .ok (some p)) :
    ∃ next, step idField c segment (some wanted) = .ok (some (p.way, next)) := by
  obtain ⟨child, found, run⟩ := bind_eq_ok.1 run
  split at run
  · cases run
  · cases run
  · rename_i k target _
    obtain ⟨⟨i, element⟩, picked, run⟩ := bind_eq_ok.1 run
    cases run
    refine ⟨element, ?_⟩
    simp only [step, found, picked, bind, Except.bind]
    rfl

/-- **Where a lookup has led** that has found something. -/
theorem steers_of_place (run : resolveFrom idField c (steps.map IdStep.field)
      (steps.map fun s => selector? s.id) = .ok (some p))
    (held : p.value? c = some v) : Steers idField c steps p.way v := by
  induction steps generalizing c p with
  | nil => cases run
  | cons s rest ih =>
    rw [List.map_cons, List.map_cons] at run
    unfold resolveFrom at run
    cases rest with
    | nil =>
      cases beside : selector? s.id with
      | none =>
        simp only [List.map_nil, List.headD_cons, beside] at run
        have plain : resolveFrom idField c [s.field] [] = .ok (some p) := run
        have leads := leads_of_place plain held
        generalize p.way = way at leads
        cases leads with
        | cons named child below =>
          cases below
          exact .bare beside named child (.nil _)
      | some wanted =>
        simp only [List.map_nil, List.headD_cons, beside] at run
        obtain ⟨next, stepped⟩ := step_of_selectedPlace run
        have steers := steers_of_step (beside ▸ stepped) (.nil next)
        rw [List.append_nil] at steers
        rw [Place.value?_eq, steers.at?] at held
        cases held
        exact steers
    | cons t rest =>
      obtain ⟨down, stepped, run⟩ := bind_eq_ok.1 run
      cases down with
      | none => cases run
      | some entry =>
        obtain ⟨way, next⟩ := entry
        dsimp only at run
        split at run
        · obtain ⟨place, found, run⟩ := bind_eq_ok.1 run
          cases place with
          | none => cases run
          | some q =>
            cases run
            have there := step_held stepped
            have ends : (q.under way).way = way ++ q.way := List.append_assoc _ _ _
            have below : q.value? next = some v := by
              rw [Place.value?_eq, ends, Value.at?_append, there] at held
              rw [Place.value?_eq]
              exact held
            have whole := steers_of_step stepped (ih found below)
            rw [← ends] at whole
            exact whole
        · cases run

/-- A lookup behind a step. -/
theorem resolveFrom_behind {next : Value} {segment second : String} {rest : List String}
    {ids : List (Option Value)}
    (stepped : step idField c segment (ids.headD none) = .ok (some (way, next)))
    (container : next.isContainer = true)
    (found : resolveFrom idField next (second :: rest) ids.tail = .ok (some p)) :
    resolveFrom idField c (segment :: second :: rest) ids = .ok (some (p.under way)) := by
  rw [resolveFrom]
  simp only [stepped, bind, Except.bind, container, if_true, found]
  rfl

/-- **A lookup goes where steps lead.** -/
theorem place_of_steers (steers : Steers idField c steps way v) (some : steps ≠ []) :
    ∃ p, resolveFrom idField c (steps.map IdStep.field) (steps.map fun s => selector? s.id) =
      .ok (.some p) ∧ p.way = way := by
  induction steers with
  | nil v => exact absurd rfl some
  | @bare c next v s k rest way bare named held more ih =>
    rw [List.map_cons, List.map_cons, bare]
    cases rest with
    | nil =>
      cases more
      exact ⟨_, lastPlace_of_names named, rfl⟩
    | cons t rest =>
      obtain ⟨q, found, rfl⟩ := ih (by simp)
      have stepped : step idField c s.field none = .ok (.some ([k], next)) := by
        simp only [step, childAt_of_names named, held, Option.map_some, bind, Except.bind]
      exact ⟨q.under [k], resolveFrom_behind stepped more.isContainer found, rfl⟩
  | @selected c wanted element v s xs k i rest way beside named held first more ih =>
    rw [List.map_cons, List.map_cons, beside]
    cases rest with
    | nil =>
      cases more
      have picked : selectedPlace idField c s.field wanted = .ok (.some ⟨[k], .index i⟩) := by
        simp only [selectedPlace, childAt_of_names named, held, Option.map_some, bind, Except.bind,
          first.select]
      exact ⟨_, picked, rfl⟩
    | cons t rest =>
      obtain ⟨q, found, rfl⟩ := ih (by simp)
      have stepped : step idField c s.field (.some wanted) =
          .ok (.some ([k, .index i], element)) := by
        simp only [step, childAt_of_names named, held, Option.map_some, bind, Except.bind,
          first.select]
      exact ⟨q.under [k, .index i], resolveFrom_behind stepped more.isContainer found, rfl⟩

/-! ## Identifiers on the way -/

/-- No segment behind a selector is the identifier field. -/
def KeepsOff (idField : String) : List IdStep → String → Prop
  | [], _ => True
  | s :: rest, last =>
    ((selector? s.id).isSome = true → (rest.map IdStep.field).headD last ≠ idField) ∧
      KeepsOff idField rest last

/-- An element that a selector agrees with is an object that has the identifier. -/
theorem held_of_agree
    (agrees : Identity.agree (Identity.ofElement idField element) wanted = true) :
    ∃ fs id, element = .object fs ∧ Fields.get? fs idField = some id ∧
      Identity.agree id wanted = true := by
  have known : (Identity.ofElement idField element).isNull = false := by
    cases null : (Identity.ofElement idField element).isNull with
    | false => rfl
    | true =>
      unfold Identity.agree at agrees
      rw [null] at agrees
      cases agrees
  unfold Identity.ofElement Fields.getD at agrees known
  cases held : Fields.get? element.fields idField with
  | none =>
    rw [held] at known
    cases known
  | some id =>
    rw [held] at agrees
    cases element with
    | object fs => exact ⟨fs, id, rfl, held, agrees⟩
    | _ => cases held

/-- Below another field, a change leaves the identifier as it is. -/
theorem ofElement_replaceAt {segment : String} {k : Key} (named : Names element segment k)
    (agrees : Identity.agree (Identity.ofElement idField element) wanted = true)
    (other : segment ≠ idField) (way : Location) (new : Value) :
    Identity.ofElement idField (element.replaceAt (k :: way) new) =
      Identity.ofElement idField element := by
  obtain ⟨fs, id, rfl, -, -⟩ := held_of_agree agrees
  cases named
  obtain ⟨gs, object, written⟩ := Value.replaceAt_object fs segment way new
  have same : Fields.get? gs idField = Fields.get? fs idField := written.same (Ne.symm other)
  rw [object]
  exact congrArg (Option.getD · Value.null) same

/-- The element that a selector picks, with a change that leaves it agreed with. -/
theorem First.set (first : First idField wanted xs i element)
    (agrees : Identity.compare (Identity.ofElement idField new) wanted = .ok true) :
    First idField wanted (xs.set i new) i new where
  held := List.getElem?_set_self first.index_lt
  agrees := agrees
  before := by
    intro j earlier other held
    rw [List.getElem?_set_ne (Nat.ne_of_gt earlier)] at held
    exact first.before j earlier other held

/-- The first step goes down by a key, be it the last or not. -/
theorem Steers.first_key (steers : Steers idField c (front ++ [⟨last, x⟩]) way v) :
    ∃ k rest, Names c ((front.map IdStep.field).headD last) k ∧ way = k :: rest := by
  cases front with
  | nil => exact steers.way_cons
  | cons s rest => exact steers.way_cons

/-- **Steps lead to what was put in the place** of what they led to, if they do not go into the
    identifier of a picked element. -/
theorem Steers.replaced (steers : Steers idField c (front ++ [⟨last, .null⟩]) way v)
    (off : KeepsOff idField front last) (new : Value) :
    Steers idField (c.replaceAt way new) (front ++ [⟨last, .null⟩]) way new := by
  induction front generalizing c way with
  | nil =>
    cases steers with
    | bare bare named held more =>
      cases more
      rw [Value.replaceAt_cons held]
      exact .bare bare (named.setChild _) (Value.child?_setChild_self held _) (.nil new)
    | selected beside => cases beside
  | cons s front ih =>
    obtain ⟨apart, off⟩ := off
    cases steers with
    | bare bare named held more =>
      rw [Value.replaceAt_cons held]
      exact .bare bare (named.setChild _) (Value.child?_setChild_self held _) (ih more off)
    | selected beside named held first more =>
      have other := apart (by rw [beside]; rfl)
      have below := ih more off
      obtain ⟨k, rest, inside, rfl⟩ := more.first_key
      have agrees := first.agrees
      rw [← ofElement_replaceAt inside first.agree other rest new] at agrees
      rw [Value.replaceAt_cons held, Value.replaceAt_cons first.child?]
      exact .selected beside (named.setChild _) (Value.child?_setChild_self held _)
        (first.set agrees) below

/-- **With an array of another length in its identifier**, an element is no longer agreed with. -/
theorem not_agree_replaceAt
    (agrees : Identity.agree (Identity.ofElement idField element) wanted = true)
    (held : element.at? (.field idField :: way) = some (.array xs))
    (other : ys.length ≠ xs.length) :
    Identity.agree (Identity.ofElement idField
      (element.replaceAt (.field idField :: way) (.array ys))) wanted = false := by
  obtain ⟨fs, id, rfl, there, agrees⟩ := held_of_agree agrees
  have child : (Value.object fs).child? (.field idField) = some id := there
  rw [Value.at?_cons, child] at held
  have inside : id.at? way = some (.array xs) := held
  have replaced := Value.at?_replaceAt_self inside (.array ys)
  have now : Identity.ofElement idField
      ((Value.object fs).replaceAt (.field idField :: way) (.array ys)) =
        id.replaceAt way (.array ys) := by
    rw [Value.replaceAt_cons child]
    exact congrArg (Option.getD · Value.null) (Fields.get?_set_self fs idField _)
  rw [now]
  by_contra still
  rw [Bool.not_eq_false] at still
  obtain ⟨before, found, length⟩ :=
    Value.length_of_same (Identity.same_of_agree (Value.isContainer_of_at? inside) agrees) inside
  obtain ⟨after, found', length'⟩ :=
    Value.length_of_same (Identity.same_of_agree (Value.isContainer_of_at? replaced) still) replaced
  rw [found] at found'
  cases found'
  exact other (length'.symm.trans length)

/-! ## Steps that go astray -/

/-- Ways that part at some container, of which the second one goes on below. -/
def Parts (way way' : Location) : Prop :=
  ∃ front k m rest n rest', way = front ++ k :: rest ∧ way' = front ++ m :: n :: rest' ∧ k ≠ m

theorem Parts.append (parts : Parts way way') (front : Location) :
    Parts (front ++ way) (front ++ way') := by
  obtain ⟨inner, k, m, rest, n, rest', rfl, rfl, other⟩ := parts
  exact ⟨front ++ inner, k, m, rest, n, rest', (List.append_assoc _ _ _).symm,
    (List.append_assoc _ _ _).symm, other⟩

/-- A removal leaves what lies on a way that parts from its own. -/
theorem Parts.drop (parts : Parts way p.way) (doc : Value) :
    (p.drop doc).at? way = doc.at? way := by
  obtain ⟨front, k, m, rest, n, rest', rfl, goes, other⟩ := parts
  have inside : front ++ [m] <+: p.container := by
    have whole : p.container ++ [p.key] = front ++ [m] ++ n :: rest' := by
      rw [List.append_assoc]
      exact goes
    have longer := congrArg List.length whole
    refine List.prefix_of_prefix_length_le ⟨n :: rest', whole.symm⟩
      (List.prefix_append _ [p.key]) ?_
    simp only [List.length_append, List.length_cons, List.length_nil] at longer ⊢
    omega
  have apart {way : Location} (along : front ++ [m] <+: way) : ¬ front ++ k :: rest <+: way := by
    rintro ⟨more, rfl⟩
    rw [List.append_assoc, List.prefix_append_right_inj, List.cons_append,
      List.cons_prefix_cons] at along
    exact other along.1.symm
  unfold Place.drop
  split
  · refine Value.at?_replaceAt_apart (fun above => ?_) (apart inside) _ _
    have along := inside.trans above
    rw [List.prefix_append_right_inj, List.cons_prefix_cons] at along
    exact other along.1.symm
  · rfl

/-- **Behind a change in the identifier of a picked element** the same steps part from the way to
    what has changed: they pick another element there, if any. -/
theorem Steers.astray (steers : Steers idField c (front ++ [⟨last, .null⟩]) way (.array xs))
    (into : ¬ KeepsOff idField front last) (other : ys.length ≠ xs.length)
    (again : Steers idField (c.replaceAt way (.array ys)) (front ++ [⟨last, x⟩]) way' v) :
    Parts way way' := by
  induction front generalizing c way way' with
  | nil => exact absurd trivial into
  | cons s front ih =>
    cases steers with
    | bare bare named held more =>
      rw [Value.replaceAt_cons held] at again
      cases again with
      | bare bare' named' held' more' =>
        obtain rfl := (named.setChild _).unique named'
        rw [Value.child?_setChild_self held] at held'
        cases held'
        have into' : ¬ KeepsOff idField front last := by
          refine fun off => into ⟨fun beside => ?_, off⟩
          rw [bare] at beside
          cases beside
        exact (ih more into' more').append [_]
      | selected beside' =>
        rw [bare] at beside'
        cases beside'
    | @selected _ wanted element _ _ zs k i _ below beside named held first more =>
      rw [Value.replaceAt_cons held, Value.replaceAt_cons first.child?] at again
      cases again with
      | bare bare' =>
        rw [beside] at bare'
        cases bare'
      | @selected _ _ element' _ _ _ _ j _ below' beside' named' held' first' more' =>
        obtain rfl := (named.setChild _).unique named'
        rw [beside] at beside'
        cases beside'
        rw [Value.child?_setChild_self held] at held'
        cases held'
        obtain ⟨key, rest, inside, rfl⟩ := more.first_key
        -- The same element may be picked once more, which is the changed one, or another one.
        by_cases same : j = i
        · subst same
          have changed := first'.held
          rw [List.getElem?_set_self first.index_lt] at changed
          cases changed
          by_cases name : (front.map IdStep.field).headD last = idField
          · obtain ⟨fs, id, rfl, -, -⟩ := held_of_agree first.agree
            rw [name] at inside
            cases inside
            have differs := not_agree_replaceAt first.agree more.at? other
            rw [first'.agree] at differs
            cases differs
          · exact (ih more (fun off => into ⟨fun _ => name, off⟩) more').append [_, _]
        · obtain ⟨n, rest', -, rfl⟩ := more'.first_key
          refine ⟨[_], .index i, .index j, _, n, rest', rfl, rfl, fun equal => ?_⟩
          cases equal
          exact same rfl

end Path

/-! ## The edits -/

namespace Edit

variable {idField last : String} {language path ids data e id x : Value}
  {wanted : List (Option Value)} {front steps : List IdStep} {names : List String}
  {dirty : DirtySet} {d d' d'' : Draft}

/-- What an injection has done that reports something. -/
theorem inject_ok (splits : Path.split path = .ok names) (lists : Path.selectors ids = .ok wanted)
    (run : inject idField language path ids data d = .ok dirty d') (changed : dirty ≠ ∅) :
    wanted.getD (names.length - 1) none = none ∧ dirty = (∅ : DirtySet).insert (names.headD "") ∧
      ∃ p xs items, Path.resolveFrom idField d.doc names wanted = .ok (some p) ∧
        p.value? d.doc = some (.array xs) ∧ data.members = .ok items ∧
        d'.doc = d.doc.replaceAt p.way
          (.array (xs ++ injected (names.getLastD "") language items)) := by
  unfold inject at run
  rw [run_bind_of_ok (lift_ok.2 ⟨splits, rfl⟩), run_bind_of_ok (lift_ok.2 ⟨lists, rfl⟩)] at run
  split at run
  · cases (lift_ok.1 run).1
  · rename_i bare
    rw [Bool.not_eq_true, Option.isSome_eq_false_iff, Option.isNone_iff_eq_none] at bare
    obtain ⟨place, _, resolved, run⟩ := run_bind_ok.1 run
    obtain ⟨found, rfl⟩ := look_ok.1 resolved
    obtain ⟨target, _, held, run⟩ := run_bind_ok.1 run
    obtain ⟨there, rfl⟩ := look_ok.1 held
    split at run
    · rename_i p xs _
      obtain ⟨items, _, listed, run⟩ := run_bind_ok.1 run
      obtain ⟨members, rfl⟩ := lift_ok.1 listed
      obtain ⟨_, f, appended, run⟩ := run_bind_ok.1 run
      cases appended
      obtain ⟨rfl, rfl⟩ := run_pure_ok.1 run
      exact ⟨bare, rfl, p, xs, items, found, Except.ok.inj there, members, rfl⟩
    · obtain ⟨rfl, -⟩ := run_pure_ok.1 run
      exact absurd rfl changed

/-- **What a removal does.** -/
theorem removeElement_ok (splits : Path.split path = .ok (steps.map IdStep.field)) :
    removeElement idField steps d = .ok (dirty, x) d'' ↔
      dirty = (∅ : DirtySet).insert ((steps.map IdStep.field).headD "") ∧
      ∃ p i, Path.resolveFrom idField d.doc (steps.map IdStep.field)
          (steps.map fun s => Path.selector? s.id) = .ok (some p) ∧ p.key = .index i ∧
        p.value? d.doc = some x ∧ d'' = { d.close p with doc := p.drop d.doc } := by
  obtain ⟨nonempty, -⟩ := Path.split_ok splits
  have steps' : steps.isEmpty ≠ true := by
    rintro empty
    rw [List.isEmpty_iff.1 empty] at nonempty
    exact nonempty rfl
  have fields : (steps.map fun s => Value.text s.field) =
      (steps.map IdStep.field).map .text := by
    rw [List.map_map]
    rfl
  have listed := Path.split_texts nonempty (Path.filled_of_split splits)
  have looks (doc : Value) : Path.resolve idField doc (.array (steps.map fun s => .text s.field))
      (.array (steps.map IdStep.id)) = Path.resolveFrom idField doc (steps.map IdStep.field)
        (steps.map fun s => Path.selector? s.id) := by
    unfold Path.resolve
    rw [fields, listed]
    show Path.resolveFrom idField doc _ ((steps.map IdStep.id).map Path.selector?) = _
    rw [List.map_map]
    rfl
  have reports (d : Draft) : touched (.array (steps.map fun s => .text s.field)) d =
      .ok ((∅ : DirtySet).insert ((steps.map IdStep.field).headD "")) d := by
    refine lift_ok.2 ⟨?_, rfl⟩
    unfold DirtySet.touch Path.top
    rw [fields, listed]
    rfl
  unfold removeElement
  rw [if_neg steps']
  constructor
  · intro run
    obtain ⟨place, _, resolved, run⟩ := run_bind_ok.1 run
    obtain ⟨found, rfl⟩ := look_ok.1 resolved
    rw [looks] at found
    cases place with
    | none => cases (lift_ok.1 run).1
    | some p =>
      obtain ⟨target, _, read, run⟩ := run_bind_ok.1 run
      obtain ⟨there, rfl⟩ := look_ok.1 read
      obtain ⟨container, key⟩ := p
      cases target with
      | none => cases (lift_ok.1 run).1
      | some removed =>
        cases key with
        | field name => cases (lift_ok.1 run).1
        | index i =>
          have held : (⟨container, .index i⟩ : Place).value? d.doc = some removed :=
            Except.ok.inj there
          obtain ⟨_, f, dropped, run⟩ := run_bind_ok.1 run
          rw [run_bind_of_ok (reports f)] at run
          obtain ⟨pair, rfl⟩ := run_pure_ok.1 run
          cases pair
          unfold Edit.drop at dropped
          rw [held] at dropped
          cases dropped
          exact ⟨rfl, _, i, found, rfl, held, rfl⟩
  · rintro ⟨rfl, p, i, found, key, held, rfl⟩
    have removed : Edit.drop p d = .ok (some x) { d.close p with doc := p.drop d.doc } := by
      unfold Edit.drop
      rw [held]
    have read : look (fun doc => .ok (p.value? doc)) d = .ok (some x) d :=
      look_ok.2 ⟨congrArg Except.ok held, rfl⟩
    rw [run_bind_of_ok (look_ok.2 ⟨(looks d.doc).trans found, rfl⟩)]
    dsimp only
    rw [run_bind_of_ok read, key]
    dsimp only
    rw [run_bind_of_ok removed, run_bind_of_ok (reports _)]
    rfl

/-- The appended element is the first one with its identifier. -/
theorem first_appended {xs : List Value}
    (own : Identity.compare (Identity.ofElement idField e) id = .ok true)
    (fresh : ∀ x ∈ xs, Identity.compare (Identity.ofElement idField x) id = .ok false) :
    Path.First idField id (xs ++ [e]) xs.length e where
  held := List.getElem?_concat_length
  agrees := own
  before := by
    intro j earlier other held
    rw [List.getElem?_append_left earlier] at held
    exact fresh other (List.mem_of_getElem? held)

/-- An array without the element that was appended to it is the one that it was. -/
theorem drop_appended {doc : Value} {way : Location} {xs : List Value}
    (there : doc.at? way = some (.array xs)) (e : Value) :
    (⟨way, .index xs.length⟩ : Place).drop (doc.replaceAt way (.array (xs ++ [e]))) = doc := by
  have before : (xs ++ [e]).eraseIdx xs.length = xs := by
    rw [List.eraseIdx_append_of_length_le (Nat.le_refl _), Nat.sub_self]
    exact List.append_nil xs
  unfold Place.drop
  dsimp only
  rw [Value.at?_replaceAt_self there]
  show (doc.replaceAt way _).replaceAt way (.array ((xs ++ [e]).eraseIdx xs.length)) = doc
  rw [before, Value.replaceAt_replaceAt there, Value.replaceAt_self there]

/-- The steps of an injection lead to the array that it has appended to. -/
theorem inject_steers (splits : Path.split path = .ok (front.map IdStep.field ++ [last]))
    (lists : Path.selectors ids = .ok wanted)
    (beside : ∀ k (inside : k < front.length), wanted.getD k none = Path.selector? front[k].id)
    (run : inject idField language path ids (.array [e]) d = .ok dirty d') (changed : dirty ≠ ∅) :
    dirty = (∅ : DirtySet).insert ((front.map IdStep.field ++ [last]).headD "") ∧
      ∃ p xs, Path.resolve idField d.doc path ids = .ok (some p) ∧
        p.value? d.doc = some (.array xs) ∧
        Path.Steers idField d.doc (front ++ [⟨last, .null⟩]) p.way (.array xs) ∧
        d'.doc = d.doc.replaceAt p.way (.array (xs ++ injected last language [e])) := by
  obtain ⟨bare, dirty, p, xs, items, found, held, members, after⟩ :=
    inject_ok splits lists run changed
  cases members
  rw [List.getLastD_concat] at after
  have resolved : Path.resolve idField d.doc path ids = .ok (some p) := by
    unfold Path.resolve
    rw [splits, lists]
    exact found
  refine ⟨dirty, p, xs, resolved, held, Path.steers_of_place ?_ held, after⟩
  rw [← found, List.map_append, List.map_append]
  refine Path.resolveFrom_beside idField d.doc fun k inside => ?_
  rw [List.length_append, List.length_map] at inside bare
  rw [List.getD_eq_getElem?_getD]
  rcases Nat.lt_succ_iff_lt_or_eq.1 inside with among | rfl
  · rw [beside k among, List.getElem?_append_left (by simpa using among), List.getElem?_map,
      List.getElem?_eq_getElem among]
    rfl
  · rw [List.getElem?_append_right (by simp)]
    simpa [Path.selector?] using bare.symm

/-- What equals itself is a selector, unless it is the empty text. -/
theorem selector?_of_agree (own : Identity.agree id id = true) (filled : id ≠ .text "") :
    Path.selector? id = some id := by
  cases id with
  | null => cases own
  | text s => exact if_neg fun empty => filled (congrArg Value.text empty)
  | _ => rfl

/-- **A removal undoes an injection** of one element with a new identifier, if it takes the same
    steps and the identifier of the element, and the steps do not go into the identifier of an
    element that they pick; otherwise it does not. -/
theorem removeElement_undoes
    (splits : Path.split path = .ok (front.map IdStep.field ++ [last]))
    (lists : Path.selectors ids = .ok wanted)
    (beside : ∀ k (inside : k < front.length), wanted.getD k none = Path.selector? front[k].id)
    (plain : last ≠ optionsField) (carries : Identity.ofElement idField e = id)
    (own : Identity.compare id id = .ok true) (filled : id ≠ .text "")
    (fresh : ∀ p xs, Path.resolve idField d.doc path ids = .ok (some p) →
      p.value? d.doc = some (.array xs) →
        ∀ x ∈ xs, Identity.compare (Identity.ofElement idField x) id = .ok false)
    (run : inject idField language path ids (.array [e]) d = .ok dirty d') (changed : dirty ≠ ∅) :
    (∃ d'', removeElement idField (front ++ [⟨last, id⟩]) d' = .ok (dirty, e) d'' ∧
        d''.doc = d.doc) ↔ Path.KeepsOff idField front last := by
  obtain ⟨rfl, p, xs, resolved, held, steers, after⟩ :=
    inject_steers splits lists beside run changed
  have appended : injected last language [e] = [e] := if_neg plain
  rw [appended] at after
  have there := steers.at?
  have names : (front ++ [(⟨last, id⟩ : IdStep)]).map IdStep.field =
      front.map IdStep.field ++ [last] := List.map_append
  have splits' := splits
  rw [← names] at splits' ⊢
  constructor
  · rintro ⟨d'', removes, undone⟩
    by_contra into
    obtain ⟨-, q, i, found, -, taken, rfl⟩ := (removeElement_ok splits').1 removes
    have again := Path.steers_of_place found taken
    rw [after] at again
    have parts := steers.astray into (by simp) again
    have still : (q.drop d'.doc).at? p.way = some (.array (xs ++ [e])) := by
      rw [parts.drop, after, Value.at?_replaceAt_self there]
    have back : (q.drop d'.doc).at? p.way = some (.array xs) :=
      (congrArg (Value.at? · p.way) undone).trans there
    rw [back] at still
    simp at still
  · intro off
    have carried : Identity.compare (Identity.ofElement idField e) id = .ok true := by
      rw [carries]
      exact own
    have first := first_appended carried (fresh p xs resolved held)
    have agrees := (Identity.compare_ok.1 own).2
    have picks := (steers.replaced off _).pick (selector?_of_agree agrees filled) first
    rw [← after] at picks
    obtain ⟨q, found, same⟩ := Path.place_of_steers picks (by simp)
    obtain rfl : q = ⟨p.way, .index xs.length⟩ := Place.way_inj same
    have taken : (⟨p.way, .index xs.length⟩ : Place).value? d'.doc = some e := by
      rw [Place.value?_eq]
      exact picks.at?
    refine ⟨_, (removeElement_ok splits').2 ⟨rfl, _, _, found, rfl, taken, rfl⟩, ?_⟩
    show Place.drop _ d'.doc = d.doc
    rw [after]
    exact drop_appended there e

/-- A question of the section that is picked. -/
theorem removeElement_undoes_nested :
    let question : Value := .object [("_id", .text "q2")]
    let chosen : Value := .object [("_id", .text "s1"),
      ("questions", .array [.object [("_id", .text "q1")]])]
    let d : Draft := {
      doc := .object [("sections", .array [.object [("_id", .text "s0")], chosen])]
      supply := { origin := 0, last := 0, pace := 1 } }
    let front : List IdStep := [⟨"sections", .text "s1"⟩]
    ∃ dirty d' d'', inject "_id" (.text "en") (.text "sections.questions") (.text "s1")
        (.array [question]) d = .ok dirty d' ∧ dirty ≠ ∅ ∧
      removeElement "_id" (front ++ [⟨"questions", .text "q2"⟩]) d' = .ok (dirty, question) d'' ∧
      d''.doc = d.doc := by
  intro question chosen d front
  obtain ⟨dirty, d', run, changed⟩ : ∃ dirty d', inject "_id" (.text "en")
      (.text "sections.questions") (.text "s1") (.array [question]) d = .ok dirty d' ∧ dirty ≠ ∅ :=
    ⟨_, _, rfl, by decide⟩
  have beside : ∀ k (inside : k < front.length),
      [some (Value.text "s1")].getD k none = Path.selector? front[k].id := by
    intro k inside
    obtain rfl : k = 0 := by simpa [front] using inside
    rfl
  have fresh : ∀ p xs, Path.resolve "_id" d.doc (.text "sections.questions") (.text "s1") =
      .ok (some p) → p.value? d.doc = some (.array xs) →
        ∀ x ∈ xs, Identity.compare (Identity.ofElement "_id" x) (.text "q2") = .ok false := by
    intro p xs found held
    cases found
    cases held
    intro x among
    rw [List.mem_singleton.1 among]
    rfl
  have carries : Identity.ofElement "_id" question = .text "q2" := rfl
  have filled : Value.text "q2" ≠ .text "" := by simp
  have undone :=
    removeElement_undoes rfl rfl beside (by decide) carries rfl filled fresh run changed
  obtain ⟨d'', removes, same⟩ := undone.2 ⟨fun _ => by decide, trivial⟩
  exact ⟨dirty, d', d'', run, changed, removes, same⟩

/-- The identifier of the element that is picked is the array itself. With one more item it is
    another one. -/
theorem removeElement_astray :
    let e : Value := .object [("_id", .text "e")]
    let d : Draft := {
      doc := .object [("xs", .array [.object [("_id", .array [.int 1])]])]
      supply := { origin := 0, last := 0, pace := 1 } }
    let picked : Value := .array [.int 1]
    ∃ dirty d' fault, inject "_id" (.text "en") (.text "xs._id") (.array [picked]) (.array [e]) d =
        .ok dirty d' ∧ dirty ≠ ∅ ∧
      Identity.compare (.text "e") (.text "e") = .ok true ∧
      Identity.compare (Identity.ofElement "_id" (.int 1)) (.text "e") = .ok false ∧
      removeElement "_id" [⟨"xs", picked⟩, ⟨"_id", .text "e"⟩] d' = .error fault d' := by
  intro e d picked
  exact ⟨_, _, _, rfl, by decide, rfl, rfl, rfl⟩

end Edit

end DocRepair

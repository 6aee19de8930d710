import DocRepair.Proofs.Rewritten
/-!
# `DocRepair.Proofs.Ways` — where segments lead

A path without selectors is read segment by segment: each names a key in the container that the ones
before it have led to. The lookup that a program runs goes to the last container first, and takes
the last key there. Here both are shown to find the same, so that later proofs follow the segments
only.

## Contents

* `Path.Names.unique` / `Path.childAt_of_names` / `Path.lastPlace_of_names` — one segment;
* `Path.walk` — the value that segments lead to;
* `Path.Leads` — the same as a relation, with the keys on the way;
* `Path.walk_eq_some` — the two agree;
* `Path.resolveFrom_walk` / `Path.read?_eq` / `Path.has_eq` — what a path leads to is found.
-/

namespace DocRepair

namespace Path

variable {idField segment second : String} {c next v : Value} {k m : Key} {names rest : List String}
  {way : Location}

/-! ## One segment -/

theorem Names.unique (first : Names c segment k) (other : Names c segment m) : k = m := by
  cases c with
  | object fs => exact Eq.trans first (Eq.symm other)
  | array xs =>
    obtain ⟨i, spelled, rfl⟩ := first
    obtain ⟨j, spelled', rfl⟩ := other
    rw [spelled] at spelled'
    cases spelled'
    rfl
  | _ => exact first.elim

theorem Names.isContainer (named : Names c segment k) : c.isContainer = true := by
  cases c with
  | object fs => rfl
  | array xs => rfl
  | _ => exact named.elim

theorem childAt_of_names (named : Names c segment k) :
    childAt c segment = .ok ((c.child? k).map (k, ·)) := by
  cases c with
  | object fs =>
    cases named
    rfl
  | array xs =>
    obtain ⟨i, spelled, rfl⟩ := named
    unfold childAt
    dsimp only
    rw [spelled]
    rfl
  | _ => exact named.elim

/-- A segment that leads to a child names its key. -/
theorem names_of_childAt (run : childAt c segment = .ok (some (k, next))) : Names c segment k := by
  cases c with
  | object fs =>
    obtain ⟨v, _, pair⟩ := Option.map_eq_some_iff.1 (Except.ok.inj run)
    cases pair
    rfl
  | array xs =>
    obtain ⟨i, spelled, run⟩ := bind_eq_ok.1 run
    cases i with
    | none => cases run
    | some i =>
      obtain ⟨v, _, pair⟩ := Option.map_eq_some_iff.1 (Except.ok.inj run)
      cases pair
      exact ⟨i, spelled, rfl⟩
  | _ => cases run

theorem childAt_scalar (scalar : c.isContainer = false) : childAt c segment = .ok none := by
  cases c with
  | object fs => cases scalar
  | array xs => cases scalar
  | _ => rfl

theorem lastPlace_of_names (named : Names c segment k) :
    lastPlace c segment = .ok (some ⟨[], k⟩) := by
  cases c with
  | object fs =>
    cases named
    rfl
  | array xs =>
    obtain ⟨i, spelled, rfl⟩ := named
    unfold lastPlace
    dsimp only
    rw [spelled]
    rfl
  | _ => exact named.elim

/-- The last place holds the child that its segment names. -/
theorem lastPlace_value (c : Value) (segment : String) :
    (do .ok (valueAt? c (← lastPlace c segment)) : Except Fault (Option Value)) =
      (childAt c segment).map (Option.map Prod.snd) := by
  cases c with
  | object fs =>
    show Except.ok (Fields.get? fs segment) = .ok _
    cases Fields.get? fs segment <;> rfl
  | array xs =>
    unfold lastPlace childAt
    dsimp only
    cases index? segment with
    | error fault => rfl
    | ok i =>
      cases i with
      | none => rfl
      | some i =>
        show Except.ok xs[i]? = .ok _
        cases xs[i]? <;> rfl
  | _ => rfl

/-! ## All segments -/

/-- The value that segments lead to, if there is one. -/
def walk : Value → List String → Except Fault (Option Value)
  | v, [] => .ok (some v)
  | v, segment :: rest => do
    match ← childAt v segment with
    | none => .ok none
    | some (_, next) => walk next rest

theorem walk_of_names (named : Names c segment k) (rest : List String) :
    walk c (segment :: rest) =
      match c.child? k with
      | none => .ok none
      | some next => walk next rest := by
  rw [walk, childAt_of_names named]
  cases c.child? k <;> rfl

theorem walk_scalar (scalar : c.isContainer = false) : walk c (segment :: rest) = .ok none := by
  rw [walk, childAt_scalar scalar]
  rfl

/-- The way on from a container that a segment leads to. -/
theorem resolveFrom_under (named : Names c segment k) (held : c.child? k = some next)
    (container : next.isContainer = true) :
    resolveFrom idField c (segment :: second :: rest) [] =
      (do .ok ((← resolveFrom idField next (second :: rest) []).map (·.under [k]))) := by
  rw [resolveFrom]
  have stepped : step idField c segment none = .ok (some ([k], next)) := by
    unfold step
    rw [childAt_of_names named, held]
    rfl
  simp only [List.headD_nil, List.tail_nil, stepped, bind, Except.bind, container, if_true]

theorem valueAt?_under (held : c.child? k = some next) (place : Option Place) :
    valueAt? c (place.map (·.under [k])) = valueAt? next place := by
  cases place with
  | none => rfl
  | some p =>
    show (p.under [k]).value? c = p.value? next
    rw [Place.value?_eq, Place.value?_eq]
    show c.at? (k :: p.way) = _
    rw [Value.at?_cons, held]
    rfl

/-- **A lookup finds the value that the segments lead to.** -/
theorem resolveFrom_walk (idField : String) (c : Value) (segment : String) (rest : List String) :
    (do .ok (valueAt? c (← resolveFrom idField c (segment :: rest) [])) :
        Except Fault (Option Value)) = walk c (segment :: rest) := by
  induction rest generalizing c segment with
  | nil =>
    have last : resolveFrom idField c [segment] [] = lastPlace c segment := rfl
    rw [last, lastPlace_value, walk]
    cases childAt c segment with
    | error fault => rfl
    | ok child => cases child <;> rfl
  | cons second rest ih =>
    rw [walk]
    cases child : childAt c segment with
    | error fault =>
      rw [resolveFrom, step, child]
      rfl
    | ok found =>
      cases found with
      | none =>
        rw [resolveFrom, step, child]
        rfl
      | some entry =>
        obtain ⟨k, next⟩ := entry
        have named := names_of_childAt child
        have held := childAt_held child
        show _ = walk next (second :: rest)
        by_cases container : next.isContainer = true
        · rw [resolveFrom_under named held container, ← ih next second]
          cases resolveFrom idField next (second :: rest) [] with
          | error fault => rfl
          | ok place => exact congrArg Except.ok (valueAt?_under held place)
        · rw [Bool.not_eq_true] at container
          rw [walk_scalar container, resolveFrom, step, child]
          simp only [List.headD_nil, bind, Except.bind, container, Bool.false_eq_true, if_false]
          rfl

/-- What is split into segments is not empty. -/
theorem truthy_of_split {path : Value} (splits : split path = .ok names) : path.truthy = true := by
  obtain ⟨listed, found, splits⟩ := bind_eq_ok.1 splits
  cases path with
  | text s =>
    cases found
    by_cases empty : s = ""
    · rw [if_pos empty] at splits
      cases splits
    · exact bne_iff_ne.2 empty
  | code s scope =>
    cases found
    by_cases empty : s = ""
    · rw [empty] at splits
      obtain ⟨_, _, stops⟩ := bind_eq_ok.1 splits
      cases stops
    · exact bne_iff_ne.2 empty
  | bytes b =>
    cases b with
    | nil =>
      cases found
      cases splits
    | cons x rest => rfl
  | binary subtype b =>
    cases b with
    | nil =>
      cases found
      cases splits
    | cons x rest => rfl
  | array xs =>
    cases xs with
    | nil =>
      cases found
      cases splits
    | cons x rest => rfl
  | object fs =>
    cases fs with
    | nil =>
      cases found
      cases splits
    | cons x rest => rfl
  | _ =>
    obtain ⟨members, listed, _⟩ := bind_eq_ok.1 found
    cases listed

variable {doc path : Value}

/-- **Reading a path** gives the value that its segments lead to. -/
theorem read?_eq (splits : split path = .ok names) : read? doc path = walk doc names := by
  obtain ⟨n, rest, rfl⟩ := split_cons splits
  unfold read? resolvePlain
  rw [if_pos (truthy_of_split splits), splits, ← resolveFrom_walk ""]
  rfl

theorem has_eq (splits : split path = .ok names) :
    has doc path = (walk doc names).map Option.isSome := by
  obtain ⟨n, rest, rfl⟩ := split_cons splits
  unfold has resolvePlain
  rw [splits, ← resolveFrom_walk ""]
  show (do .ok (valueAt? doc (← resolveFrom "" doc (n :: rest) [])).isSome) = _
  cases resolveFrom "" doc (n :: rest) [] <;> rfl

/-! ## Segments and keys -/

/-- Segments lead from one value to another, by keys that they name. -/
inductive Leads : Value → List String → Location → Value → Prop
  | nil (v : Value) : Leads v [] [] v
  | cons {c next v : Value} {segment : String} {k : Key} {rest : List String} {way : Location}
      (named : Names c segment k) (held : c.child? k = some next) (below : Leads next rest way v) :
      Leads c (segment :: rest) (k :: way) v

theorem Leads.at? (leads : Leads c names way v) : c.at? way = some v := by
  induction leads with
  | nil v => rfl
  | cons named held below ih => rw [Value.at?_cons, held, Option.bind_some, ih]

theorem walk_eq_some : walk c names = .ok (some v) ↔ ∃ way, Leads c names way v := by
  constructor
  · intro run
    induction names generalizing c with
    | nil =>
      cases run
      exact ⟨[], .nil _⟩
    | cons segment rest ih =>
      obtain ⟨child, found, run⟩ := bind_eq_ok.1 run
      cases child with
      | none => cases run
      | some entry =>
        obtain ⟨k, next⟩ := entry
        obtain ⟨way, below⟩ := ih run
        exact ⟨k :: way, .cons (names_of_childAt found) (childAt_held found) below⟩
  · rintro ⟨way, leads⟩
    induction leads with
    | nil v => rfl
    | cons named held below ih =>
      rw [walk_of_names named, held]
      exact ih

end Path

end DocRepair

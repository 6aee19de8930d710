import DocRepair.Proofs.Garbled
/-!
# `DocRepair.Proofs.Trips` — paths that stop whoever follows them

Readers and writers follow a path for different reasons, and treat a way that is missing each in
their own manner. But the same paths stop them with a fault that is no failure of the engine: those
whose way comes to an array with a garbled segment. Selectors make a difference to where the way
goes, and so to whether it comes there.

## Contents

* `Path.Jams` / `Path.stumbles_cons` — a garbled segment at an array, here or further down;
* `Path.StumblesBy` / `Path.resolveFrom_wild` — the same with selectors;
* `Path.Trips` — a path with stumbling segments;
* `Path.resolve_wild` / `Path.landing_wild` — where a lookup is stopped, and the search for the place
  of a write;
* `Path.Clear.steady` — a path that can be read does not trip;
* `Path.resolve_tame` / `Path.read?_tame` / `Path.find?_tame` — lookups of such paths.
-/

namespace DocRepair.Path

variable {idField segment : String} {names rest : List String} {c next : Value}
  {ids : List (Option Value)} {doc path : Value}

/-! ## One segment -/

/-- A garbled segment is looked up in an array. -/
def Jams (c : Value) (segment : String) : Prop :=
  (∃ xs, c = .array xs) ∧ Garbled segment

theorem index?_wild : Wild (index? segment) ↔ Garbled segment := by
  constructor
  · rintro ⟨fault, stop, _⟩
    exact garbled_of_error stop
  · exact index?_garbled

theorem not_jams (scalar : ∀ xs, c ≠ .array xs) : ¬ Jams c segment :=
  fun ⟨⟨xs, array⟩, _⟩ => scalar xs array

/-- In an array a segment means something by its index; elsewhere there is nothing to stop at. -/
theorem wild_of_index {α : Type} {r : Except Fault α}
    (array : ∀ xs, c = .array xs → ∃ f, r = (index? segment >>= f) ∧ ∀ i, Tame (f i))
    (others : (∀ xs, c ≠ .array xs) → Tame r) : Wild r ↔ Jams c segment := by
  by_cases isArray : ∃ xs, c = .array xs
  · obtain ⟨xs, rfl⟩ := isArray
    obtain ⟨f, rfl, rest⟩ := array xs rfl
    rw [wild_bind_tame fun i _ => rest i, index?_wild]
    exact ⟨fun garbled => ⟨⟨xs, rfl⟩, garbled⟩, And.right⟩
  · have scalar : ∀ xs, c ≠ .array xs := fun xs same => isArray ⟨xs, same⟩
    exact iff_of_false (tame_iff.1 (others scalar)) (not_jams scalar)

theorem childAt_wild : Wild (childAt c segment) ↔ Jams c segment := by
  refine wild_of_index ?_ fun scalar => ?_
  · rintro xs rfl
    refine ⟨_, rfl, fun i => ?_⟩
    cases i <;> exact .ok _
  · cases c with
    | array xs => exact absurd rfl (scalar xs)
    | _ => exact .ok _

theorem lastPlace_wild : Wild (lastPlace c segment) ↔ Jams c segment := by
  refine wild_of_index ?_ fun scalar => ?_
  · rintro xs rfl
    exact ⟨_, rfl, fun i => .ok _⟩
  · cases c with
    | array xs => exact absurd rfl (scalar xs)
    | _ => exact .ok _

theorem select_tame (wanted target : Value) : Tame (select idField segment wanted target) := by
  unfold select
  split
  · refine (Tame.firstIndex? (fun _ => .compare _ _) _).bind fun found _ => ?_
    split
    · exact .ok _
    · exact .failShowing _ _
  · exact .fail _

theorem step_wild {selector : Option Value} :
    Wild (step idField c segment selector) ↔ Jams c segment := by
  rw [← childAt_wild]
  refine wild_bind_tame fun child _ => ?_
  split
  · exact .ok _
  · split
    · exact .ok _
    · exact (select_tame _ _).bind fun _ _ => .ok _

theorem selectedPlace_wild {wanted : Value} :
    Wild (selectedPlace idField c segment wanted) ↔ Jams c segment := by
  rw [← childAt_wild]
  refine wild_bind_tame fun child _ => ?_
  split
  · exact .ok _
  · exact .ok _
  · exact (select_tame _ _).bind fun _ _ => .ok _

theorem containerKey_wild : Wild (containerKey c segment) ↔ Jams c segment := by
  refine wild_of_index ?_ fun scalar => ?_
  · rintro xs rfl
    refine ⟨_, rfl, fun i => ?_⟩
    cases i with
    | none => exact .fail _
    | some i =>
      dsimp only
      split
      · exact .ok _
      · exact .fail _
  · cases c with
    | array xs => exact absurd rfl (scalar xs)
    | _ => exact .ok _

theorem writableChild_wild : Wild (writableChild c segment) ↔ Jams c segment := by
  refine wild_of_index ?_ fun scalar => ?_
  · rintro xs rfl
    refine ⟨_, rfl, fun i => ?_⟩
    cases i with
    | none => exact .fail _
    | some i => exact .ok _
  · cases c with
    | array xs => exact absurd rfl (scalar xs)
    | object fs => exact .ok _
    | _ => exact .fail _

/-! ## Segments with selectors -/

/-- Segments with selectors beside them come to an array with a garbled one. -/
inductive StumblesBy (idField : String) : Value → List String → List (Option Value) → Prop
  | here {c : Value} {segment : String} {rest : List String} {ids : List (Option Value)}
      (jams : Jams c segment) : StumblesBy idField c (segment :: rest) ids
  | onward {c next : Value} {segment : String} {rest : List String} {ids : List (Option Value)}
      {way : Location} (down : step idField c segment (ids.headD none) = .ok (some (way, next)))
      (further : StumblesBy idField next rest ids.tail) : StumblesBy idField c (segment :: rest) ids

theorem StumblesBy.isContainer (stumbles : StumblesBy idField c names ids) :
    c.isContainer = true := by
  cases stumbles with
  | here jams =>
    obtain ⟨⟨xs, rfl⟩, _⟩ := jams
    rfl
  | onward down _ =>
    obtain ⟨child, found, _⟩ := bind_eq_ok.1 down
    cases c with
    | object fs => rfl
    | array xs => rfl
    | _ =>
      cases found
      cases down

/-- **A lookup with selectors is stopped where the segments stumble.** -/
theorem resolveFrom_wild :
    Wild (resolveFrom idField c names ids) ↔ StumblesBy idField c names ids := by
  induction names generalizing c ids with
  | nil => exact iff_of_false (tame_iff.1 (.ok none)) nofun
  | cons segment rest ih =>
    cases rest with
    | nil =>
      have last : Wild (resolveFrom idField c [segment] ids) ↔ Jams c segment := by
        unfold resolveFrom
        split
        · exact lastPlace_wild
        · exact selectedPlace_wild
      rw [last]
      refine ⟨.here, fun stumbles => ?_⟩
      cases stumbles with
      | here jams => exact jams
      | onward _ further => cases further
    | cons second rest =>
      unfold resolveFrom
      rw [wild_bind, step_wild]
      constructor
      · rintro (jams | ⟨down, stepped, wild⟩)
        · exact .here jams
        · cases down with
          | none => exact absurd wild (tame_iff.1 (.ok none))
          | some down =>
            obtain ⟨way, next⟩ := down
            dsimp only at wild
            split at wild
            · rw [wild_bind_tame fun _ _ => .ok _, ih] at wild
              exact .onward stepped wild
            · exact absurd wild (tame_iff.1 (.ok none))
      · intro stumbles
        cases stumbles with
        | here jams => exact .inl jams
        | @onward _ next _ _ _ way down further =>
          refine .inr ⟨some (way, next), down, ?_⟩
          dsimp only
          rw [if_pos further.isContainer, wild_bind_tame fun _ _ => .ok _]
          exact ih.2 further

/-! ## Plain segments -/

theorem walk_wild : Wild (walk c names) ↔ Stumbles c names := by
  rw [← walk_error_iff]
  constructor
  · rintro ⟨fault, stop, _⟩
    exact ⟨fault, stop⟩
  · rintro ⟨fault, stop⟩
    exact ⟨fault, stop, (walk_error stop).2⟩

/-- Segments stumble over the first of them, or below what it names. -/
theorem stumbles_cons : Stumbles c (segment :: rest) ↔
    Jams c segment ∨ ∃ k next, Names c segment k ∧ c.child? k = some next ∧ Stumbles next rest := by
  constructor
  · rintro ⟨front, spelled, more, way, xs, parts, leads, garbled⟩
    cases leads with
    | nil =>
      cases parts
      exact .inl ⟨⟨xs, rfl⟩, garbled⟩
    | @cons _ next _ _ k _ way named held below =>
      cases parts
      exact .inr ⟨k, next, named, held, _, spelled, more, way, xs, rfl, below, garbled⟩
  · rintro (⟨⟨xs, rfl⟩, garbled⟩ | ⟨k, next, named, held, stumbles⟩)
    · exact ⟨[], segment, rest, [], xs, rfl, .nil _, garbled⟩
    · obtain ⟨front, spelled, more, way, xs, rfl, below, garbled⟩ := stumbles
      exact ⟨segment :: front, spelled, more, k :: way, xs, rfl, .cons named held below, garbled⟩

theorem not_stumbles_nil : ¬ Stumbles c [] := by
  rintro ⟨front, segment, rest, _, _, parts, _⟩
  cases front <;> cases parts

theorem Stumbles.isContainer (stumbles : Stumbles c names) : c.isContainer = true := by
  cases names with
  | nil => exact absurd stumbles not_stumbles_nil
  | cons segment rest =>
    rcases stumbles_cons.1 stumbles with ⟨⟨xs, rfl⟩, _⟩ | ⟨k, next, named, _⟩
    · rfl
    · exact named.isContainer

theorem Stumbles.present (stumbles : Stumbles c names) : c.isAbsent = false := by
  have container := stumbles.isContainer
  cases c with
  | absent => cases container
  | _ => rfl

/-- **The search for the place of a write is stopped where the segments stumble.** -/
theorem landingFrom_wild {limit : Option Int} {walked : List String} :
    Wild (landingFrom limit walked c names) ↔ Stumbles c names := by
  induction names generalizing walked c with
  | nil => exact iff_of_false (tame_iff.1 (.fail _)) not_stumbles_nil
  | cons segment rest ih =>
    rw [stumbles_cons]
    cases rest with
    | nil =>
      unfold landingFrom
      rw [wild_bind_tame fun _ _ => .ok _, containerKey_wild]
      refine (or_iff_left ?_).symm
      rintro ⟨k, next, _, _, stumbles⟩
      exact not_stumbles_nil stumbles
    | cons second rest =>
      unfold landingFrom
      rw [wild_bind, writableChild_wild]
      constructor
      · rintro (jams | ⟨child, found, wild⟩)
        · exact .inl jams
        · cases child with
          | none =>
            dsimp only at wild
            split at wild
            · rw [wild_bind_tame fun _ _ => .ok _, containerKey_wild] at wild
              exact .inl wild
            · exact absurd wild (tame_iff.1 (.fail _))
          | some child =>
            obtain ⟨k, next⟩ := child
            obtain ⟨named, held, _⟩ := writableChild_eq_some.1 found
            dsimp only at wild
            split at wild
            · rw [wild_bind_tame fun _ _ => .ok _, ih] at wild
              exact .inr ⟨k, next, named, held, wild⟩
            · exact absurd wild (tame_iff.1 (.fail _))
      · rintro (jams | ⟨k, next, named, held, stumbles⟩)
        · exact .inl jams
        · refine .inr ⟨some (k, next), writableChild_eq_some.2 ⟨named, held, stumbles.present⟩, ?_⟩
          dsimp only
          rw [if_pos stumbles.isContainer, wild_bind_tame fun _ _ => .ok _]
          exact ih.2 stumbles

/-! ## Whole paths -/

/-- A path with segments that stumble. -/
def Trips (doc path : Value) : Prop :=
  ∃ names, split path = .ok names ∧ Stumbles doc names

/-- A path whose segments stumble, with selectors beside them. -/
def TripsBy (idField : String) (doc path ids : Value) : Prop :=
  ∃ names wanted, split path = .ok names ∧ selectors ids = .ok wanted ∧
    StumblesBy idField doc names wanted

/-- **Looking a path up is stopped just if the path trips.** -/
theorem resolve_wild (lists : Tame (split path)) :
    Wild (resolve idField doc path .null) ↔ Trips doc path := by
  unfold resolve Trips
  rw [wild_bind, or_iff_right (tame_iff.1 lists)]
  refine exists_congr fun names => and_congr_right fun splits => ?_
  obtain ⟨n, rest, rfl⟩ := split_cons splits
  show Wild (resolveFrom idField doc (n :: rest) []) ↔ _
  rw [← walk_wild, ← resolveFrom_walk idField, wild_bind_tame fun _ _ => .ok _]

theorem resolve_wild_by {ids : Value} (lists : Tame (split path)) (selects : Tame (selectors ids)) :
    Wild (resolve idField doc path ids) ↔ TripsBy idField doc path ids := by
  unfold resolve TripsBy
  rw [wild_bind, or_iff_right (tame_iff.1 lists)]
  refine exists_congr fun names => ?_
  rw [exists_and_left]
  refine and_congr_right fun splits => ?_
  rw [wild_bind, or_iff_right (tame_iff.1 selects)]
  exact exists_congr fun wanted => and_congr_right fun listed => resolveFrom_wild

theorem landing_wild {limit : Option Int} (lists : Tame (split path)) :
    Wild (landing limit doc path) ↔ Trips doc path := by
  unfold landing Trips
  rw [wild_bind, or_iff_right (tame_iff.1 lists)]
  exact exists_congr fun names => and_congr_right fun splits => landingFrom_wild

/-! ## Paths that can be read -/

theorem Jams.not_legible (jams : Jams c segment) : ¬ Legible segment :=
  fun legible => legible_iff.1 legible jams.2

theorem Stumbles.not_legible (stumbles : Stumbles c names) : ¬ ∀ s ∈ names, Legible s := by
  obtain ⟨front, segment, rest, _, _, rfl, _, garbled⟩ := stumbles
  exact fun legible => legible_iff.1 (legible segment (by simp)) garbled

theorem StumblesBy.not_legible (stumbles : StumblesBy idField c names ids) :
    ¬ ∀ s ∈ names, Legible s := by
  induction stumbles with
  | here jams => exact fun legible => jams.not_legible (legible _ List.mem_cons_self)
  | onward _ _ ih => exact fun legible => ih fun s among => legible s (List.mem_cons_of_mem _ among)

/-- **A path that can be read does not trip**, whatever the document. -/
theorem Clear.steady (clear : Clear path) (doc : Value) : ¬ Trips doc path :=
  fun ⟨names, splits, stumbles⟩ => stumbles.not_legible (clear.legible names splits)

theorem resolve_tame (clear : Clear path) (idField : String) (doc : Value) :
    Tame (resolve idField doc path .null) :=
  tame_iff.2 fun wild => clear.steady doc ((resolve_wild clear.lists).1 wild)

end DocRepair.Path

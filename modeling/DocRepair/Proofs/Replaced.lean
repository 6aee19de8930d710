import DocRepair.Edit
import DocRepair.Proofs.Places
/-!
# `DocRepair.Proofs.Replaced` — what lies where after a change

A change at a place replaces one container of a document. What lies at the place afterwards is what
was written, and what lies elsewhere is what lay there, as long as it is no container that the
change went through.

## Contents

* `Value.setChild_setChild` / `child?_setChild_self` / `child?_assign_self` / … — one key;
* `Value.at?_replaceAt_self` / `at?_replaceAt_apart` / `at?_replaceAt_leaf` — a location;
* `Value.replaceAt_concat` / `replaceAt_replaceAt` — a location below another, and one twice;
* `Place.put_held` — a write to a place whose container is there;
* `Path.resolve_held` — a path only leads to such places;
* `Known.below?_eq_some` — what lies below a location.
-/

namespace DocRepair

/-! ## One key -/

theorem Fields.set_set (fs : Fields) (n : String) (v w : Value) :
    set (set fs n v) n w = set fs n w := by
  induction fs with
  | nil => simp only [set, if_true]
  | cons f rest ih =>
    obtain ⟨k, old⟩ := f
    by_cases own : k = n
    · simp only [set, own, if_true]
    · simp only [set, own, if_false, ih]

namespace Value

variable {v c x new : Value} {k m : Key} {way : Location}

theorem setChild_setChild (c : Value) (k : Key) (v w : Value) :
    (c.setChild k v).setChild k w = c.setChild k w := by
  cases c <;> cases k <;> first
    | rfl
    | exact congrArg object (Fields.set_set _ _ v w)
    | exact congrArg array (List.set_set v)

theorem child?_setChild_self (held : v.child? k = some c) (new : Value) :
    (v.setChild k new).child? k = some new := by
  unfold child? at held
  split at held
  · exact Fields.get?_set_self _ _ new
  · rename_i xs i
    obtain ⟨bound, _⟩ := List.getElem?_eq_some_iff.1 held
    exact List.getElem?_set_self bound
  · cases held

theorem child?_setChild_ne (other : m ≠ k) (new : Value) :
    (v.setChild k new).child? m = v.child? m := by
  unfold setChild
  split
  · cases m with
    | field name => exact Fields.get?_set_ne _ new fun same => other (congrArg Key.field same)
    | index j => rfl
  · cases m with
    | field name => rfl
    | index j => exact List.getElem?_set_ne fun same => other (congrArg Key.index same.symm)
  · rfl

theorem child?_assign_self {w : Value} (run : v.assign k new = .ok w) :
    w.child? k = some new := by
  unfold assign at run
  split at run
  · cases run
    exact Fields.get?_set_self _ _ new
  · rename_i xs i
    split at run
    · rename_i bound
      cases run
      exact List.getElem?_set_self bound
    · split at run
      · rename_i last
        cases run
        show (xs ++ [new])[i]? = some new
        rw [last]
        exact List.getElem?_concat_length
      · cases run
  · cases run

/-- A write under a key leaves what is held under all others. -/
theorem child?_assign_ne {w : Value} (run : v.assign k new = .ok w) (other : m ≠ k)
    (held : v.child? m = some c) : w.child? m = some c := by
  unfold assign at run
  split at run
  · cases run
    rw [← held]
    exact child?_setChild_ne (v := .object _) (k := .field _) other new
  · rename_i xs i
    split at run
    · cases run
      rw [← held]
      exact child?_setChild_ne (v := .array _) (k := .index _) other new
    · split at run
      · cases run
        cases m with
        | field name => cases held
        | index j =>
          obtain ⟨bound, _⟩ := List.getElem?_eq_some_iff.1 held
          show (xs ++ [new])[j]? = _
          rw [List.getElem?_append_left bound]
          exact held
      · cases run
  · cases run

/-! ## A location -/

/-- A location that is given a new value holds it. -/
theorem at?_replaceAt_self (held : v.at? way = some c) (new : Value) :
    (v.replaceAt way new).at? way = some new := by
  induction way generalizing v with
  | nil => rfl
  | cons k rest ih =>
    rw [at?_cons] at held
    obtain ⟨w, child, below⟩ := Option.bind_eq_some_iff.1 held
    rw [replaceAt_cons child, at?_cons, child?_setChild_self child]
    exact ih below

/-- A new value at a child is a new value for the container. -/
theorem replaceAt_concat (held : v.at? way = some c) (child : c.child? k = some x) (new : Value) :
    v.replaceAt (way ++ [k]) new = v.replaceAt way (c.setChild k new) := by
  induction way generalizing v with
  | nil =>
    cases held
    exact replaceAt_cons child [] new
  | cons m rest ih =>
    rw [at?_cons] at held
    obtain ⟨next, found, below⟩ := Option.bind_eq_some_iff.1 held
    rw [List.cons_append, replaceAt_cons found, replaceAt_cons found, ih below]

/-- Of two new values at one location the later one counts. -/
theorem replaceAt_replaceAt (held : v.at? way = some c) (first new : Value) :
    (v.replaceAt way first).replaceAt way new = v.replaceAt way new := by
  induction way generalizing v with
  | nil => rfl
  | cons m rest ih =>
    rw [at?_cons] at held
    obtain ⟨next, found, below⟩ := Option.bind_eq_some_iff.1 held
    rw [replaceAt_cons found, replaceAt_cons found, replaceAt_cons (child?_setChild_self found _),
      setChild_setChild, ih below]

/-- **Apart from a location that is given a new value, all stays as it is**: at every location that
    lies neither below it nor on the way to it. -/
theorem at?_replaceAt_apart {w : Location} (notBelow : ¬ way <+: w) (notAbove : ¬ w <+: way)
    (v new : Value) : (v.replaceAt way new).at? w = v.at? w := by
  induction way generalizing v w with
  | nil => exact absurd (List.nil_prefix) notBelow
  | cons k rest ih =>
    cases w with
    | nil => exact absurd (List.nil_prefix) notAbove
    | cons m w =>
      rw [replaceAt]
      cases child : v.child? k with
      | none => rfl
      | some c =>
        rw [at?_cons, at?_cons]
        by_cases same : m = k
        · subst same
          rw [child?_setChild_self child, child]
          exact ih (fun below => notBelow (List.cons_prefix_cons.2 ⟨rfl, below⟩))
            (fun above => notAbove (List.cons_prefix_cons.2 ⟨rfl, above⟩)) c
        · rw [child?_setChild_ne same]

/-- **A scalar stays where it is** when another location is given a new value, if it is not below
    that location, or is at the same place in what comes to lie there. -/
theorem at?_replaceAt_leaf {a w : Location} (held : v.at? a = some c) (leaf : v.at? w = some x)
    (scalar : x.isContainer = false)
    (inside : ∀ rest, w = a ++ rest → new.at? rest = some x) :
    (v.replaceAt a new).at? w = some x := by
  induction a generalizing v w with
  | nil => exact inside w rfl
  | cons k a ih =>
    rw [at?_cons] at held
    obtain ⟨d, child, below⟩ := Option.bind_eq_some_iff.1 held
    rw [replaceAt_cons child]
    cases w with
    | nil =>
      -- The way goes on below, so here lies a container.
      cases leaf
      rw [child?_leaf scalar] at child
      cases child
    | cons m w =>
      rw [at?_cons] at leaf ⊢
      by_cases same : m = k
      · subst same
        rw [child, Option.bind_some] at leaf
        rw [child?_setChild_self child, Option.bind_some]
        exact ih below leaf fun rest ends => inside rest (by rw [ends]; rfl)
      · rw [child?_setChild_ne same]
        exact leaf

end Value

/-! ## Places -/

/-- A write to a place whose container is there. -/
theorem Place.put_held {p : Place} {doc after c v : Value} (held : doc.at? p.container = some c)
    (run : p.put doc v = .ok after) : after.at? p.way = some v := by
  unfold Place.put at run
  rw [held] at run
  cases assigned : c.assign p.key v with
  | error fault => simp [assigned, Except.map] at run
  | ok w =>
    simp only [assigned, Except.map, Except.ok.injEq] at run
    rw [← run, Place.way, Value.at?_append, Value.at?_replaceAt_self held, Option.bind_some,
      Value.at?_cons, Value.child?_assign_self assigned]
    rfl

namespace Path

variable {idField : String} {current next : Value} {n : String} {names : List String}
  {ids : List (Option Value)} {p : Place}

theorem childAt_held {k : Key} (run : childAt current n = .ok (some (k, next))) :
    current.child? k = some next := by
  unfold childAt at run
  split at run
  · rename_i fs
    simp only [Except.ok.injEq, Option.map_eq_some_iff, Prod.mk.injEq] at run
    obtain ⟨w, found, rfl, rfl⟩ := run
    exact found
  · rename_i xs
    obtain ⟨i, _, run⟩ := bind_eq_ok.1 run
    cases i with
    | none => cases run
    | some i =>
      simp only [Except.ok.injEq, Option.map_eq_some_iff, Prod.mk.injEq] at run
      obtain ⟨w, found, rfl, rfl⟩ := run
      exact found
  · cases run

theorem select_held {wanted target element : Value} {i : Nat}
    (run : select idField n wanted target = .ok (i, element)) :
    target.child? (.index i) = some element := by
  unfold select at run
  split at run
  · rename_i xs
    obtain ⟨found, sought, run⟩ := bind_eq_ok.1 run
    cases found with
    | none => exact absurd run failShowing_ne_ok
    | some j =>
      cases run
      obtain ⟨⟨v, here, _⟩, _⟩ := firstIndex?_eq_some.1 sought
      show xs[i]? = some (xs.getD i .null)
      rw [List.getD_eq_getElem?_getD, here]
      rfl
  · cases run

theorem step_held {selector : Option Value} {way : Location}
    (run : step idField current n selector = .ok (some (way, next))) :
    current.at? way = some next := by
  obtain ⟨child, found, run⟩ := bind_eq_ok.1 run
  cases child with
  | none => cases run
  | some kv =>
    obtain ⟨k, v⟩ := kv
    have held := childAt_held found
    cases selector with
    | none =>
      cases run
      rw [Value.at?_cons, held]
      rfl
    | some wanted =>
      obtain ⟨⟨i, element⟩, picked, run⟩ := bind_eq_ok.1 run
      cases run
      rw [Value.at?_cons, held, Option.bind_some, Value.at?_cons, select_held picked]
      rfl

theorem resolveFrom_held (run : resolveFrom idField current names ids = .ok (some p)) :
    ∃ c, current.at? p.container = some c := by
  induction names generalizing current ids p with
  | nil => cases run
  | cons n rest ih =>
    cases rest with
    | nil =>
      unfold resolveFrom at run
      split at run
      · -- Without a selector the container is the value itself.
        unfold lastPlace at run
        split at run
        · obtain ⟨i, _, run⟩ := bind_eq_ok.1 run
          simp only [Except.ok.injEq, Option.map_eq_some_iff] at run
          obtain ⟨j, _, rfl⟩ := run
          exact ⟨_, rfl⟩
        · cases run
          exact ⟨_, rfl⟩
      · obtain ⟨child, found, run⟩ := bind_eq_ok.1 run
        cases child with
        | none => cases run
        | some kv =>
          obtain ⟨k, c⟩ := kv
          split at run
          · cases run
          · cases run
          · rename_i heq
            cases heq
            obtain ⟨picked, _, run⟩ := bind_eq_ok.1 run
            cases run
            exact ⟨c, by rw [Value.at?_cons, childAt_held found]; rfl⟩
    | cons second rest =>
      unfold resolveFrom at run
      obtain ⟨down, stepped, run⟩ := bind_eq_ok.1 run
      cases down with
      | none => cases run
      | some wn =>
        obtain ⟨way, next⟩ := wn
        dsimp only at run
        split at run
        · obtain ⟨q, inner, run⟩ := bind_eq_ok.1 run
          cases q with
          | none => cases run
          | some q =>
            cases run
            obtain ⟨c, held⟩ := ih inner
            refine ⟨c, ?_⟩
            show current.at? (way ++ q.container) = some c
            rw [Value.at?_append, step_held stepped]
            exact held
        · cases run

/-- **A path leads only to places whose container is there.** -/
theorem resolve_held {doc path ids : Value} (run : resolve idField doc path ids = .ok (some p)) :
    ∃ c, doc.at? p.container = some c := by
  obtain ⟨names, _, run⟩ := bind_eq_ok.1 run
  obtain ⟨wanted, _, run⟩ := bind_eq_ok.1 run
  exact resolveFrom_held run

end Path

/-! ## Below a location -/

namespace Known

variable {way rest known : Location} {k : Known}

theorem isPrefixOf_iff : way.isPrefixOf known = true ↔ ∃ rest, known = way ++ rest := by
  rw [List.isPrefixOf_iff_prefix]
  exact ⟨fun ⟨rest, h⟩ => ⟨rest, h.symm⟩, fun ⟨rest, h⟩ => ⟨rest, h.symm⟩⟩

theorem below?_eq_some : k.below? way = some rest ↔ k = .within (way ++ rest) := by
  cases k with
  | apart v => simp [below?]
  | within known =>
    show (if way.isPrefixOf known then some (known.drop way.length) else none) = some rest ↔ _
    constructor
    · intro h
      split at h
      · rename_i starts
        obtain ⟨more, rfl⟩ := isPrefixOf_iff.1 starts
        rw [List.drop_left] at h
        cases h
        rfl
      · cases h
    · intro h
      cases h
      rw [if_pos (isPrefixOf_iff.2 ⟨rest, rfl⟩), List.drop_left]

end Known

end DocRepair

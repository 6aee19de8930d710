import DocRepair.Proofs.Lawful
import DocRepair.Proofs.Without
/-!
# `DocRepair.Proofs.Emptied` — paths through a document that has lost a value

A removal does not only take a value away. If the value was an item of an array, then the items
behind it move up, and a path that goes by one of their indexes leads to something else. All other
paths lead where they led, unless they go through the value that was removed.

## Contents

* `Path.Leads.unique` / `Path.Leads.of_append` — where segments lead;
* `Path.resolveFrom_front` / `Path.front_of_resolve` — a place, by the container that it is in;
* `Path.place_of_leads` / `Path.leads_of_place` — the place of a value;
* `Path.Follows` — segments that go by an index behind a place, or by its own;
* `Place.Spares` — what a removal leaves of a value;
* `Path.Leads.drop` / `Path.Leads.of_drop` — all other segments, after a removal and before.
-/

namespace DocRepair

namespace Path

variable {idField segment last : String} {names front rest : List String} {c next v v' x y : Value}
  {k : Key} {way more : Location} {p : Place}

/-! ## Where segments lead -/

theorem Leads.unique {other : Location} (leads : Leads c names way x)
    (leads' : Leads c names other y) : way = other ∧ x = y := by
  induction leads generalizing other with
  | nil v =>
    cases leads'
    exact ⟨rfl, rfl⟩
  | cons named held below ih =>
    cases leads' with
    | cons named' held' below' =>
      obtain rfl := named.unique named'
      rw [held] at held'
      cases held'
      obtain ⟨rfl, rfl⟩ := ih below'
      exact ⟨rfl, rfl⟩

theorem Leads.of_append (leads : Leads c (front ++ rest) way v) :
    ∃ a b x, way = a ++ b ∧ Leads c front a x ∧ Leads x rest b v := by
  induction front generalizing c way with
  | nil => exact ⟨[], way, c, rfl, .nil c, leads⟩
  | cons segment front ih =>
    cases leads with
    | cons named held below =>
      obtain ⟨a, b, x, rfl, first, second⟩ := ih below
      exact ⟨_ :: a, b, x, rfl, .cons named held first, second⟩

/-- The last segment leads to a child of what the others lead to. -/
theorem Leads.of_last (leads : Leads c (front ++ [last]) way v) :
    ∃ a x k, way = a ++ [k] ∧ Leads c front a x ∧ Names x last k ∧ x.child? k = some v := by
  obtain ⟨a, b, x, rfl, first, second⟩ := leads.of_append
  cases second with
  | cons named held below =>
    cases below
    exact ⟨a, x, _, rfl, first, named, held⟩

/-! ## Places -/

/-- The place of segments is that of the last one in the container that the others lead to. -/
theorem resolveFrom_front (leads : Leads c front way x) (container : x.isContainer = true)
    (last : String) : resolveFrom idField c (front ++ [last]) [] =
      (do .ok ((← lastPlace x last).map (·.under way)) : Except Fault (Option Place)) := by
  induction leads with
  | nil v =>
    show lastPlace v last = _
    cases lastPlace v last with
    | error fault => rfl
    | ok place => cases place <;> rfl
  | @cons c next v segment k rest way named held below ih =>
    have goesOn : next.isContainer = true := by
      cases below with
      | nil => exact container
      | cons named' _ _ => exact named'.isContainer
    -- The lookup treats its last segment apart; this one has another behind it.
    obtain ⟨second, others, parts⟩ : ∃ second others, rest ++ [last] = second :: others :=
      List.exists_cons_of_ne_nil (by simp)
    have inner := ih container
    rw [parts] at inner
    rw [List.cons_append, parts, resolveFrom_under named held goesOn, inner]
    cases lastPlace v last with
    | error fault => rfl
    | ok place => cases place <;> rfl

theorem front_of_resolve (container : c.isContainer = true)
    (run : resolveFrom idField c (front ++ [last]) [] = .ok (some p)) :
    ∃ x, Leads c front p.container x ∧ x.isContainer = true ∧ Names x last p.key := by
  induction front generalizing c p with
  | nil =>
    have found : lastPlace c last = .ok (some p) := run
    cases c with
    | object fs =>
      cases found
      exact ⟨_, .nil _, rfl, rfl⟩
    | array xs =>
      obtain ⟨i, spelled, found⟩ := bind_eq_ok.1 found
      cases i with
      | none => cases found
      | some i =>
        cases found
        exact ⟨_, .nil _, rfl, i, spelled, rfl⟩
    | _ => cases container
  | cons segment front ih =>
    obtain ⟨second, others, parts⟩ : ∃ second others, front ++ [last] = second :: others :=
      List.exists_cons_of_ne_nil (by simp)
    rw [List.cons_append, parts] at run
    unfold resolveFrom at run
    obtain ⟨down, stepped, run⟩ := bind_eq_ok.1 run
    obtain ⟨child, found, stepped⟩ := bind_eq_ok.1 stepped
    cases child with
    | none =>
      cases stepped
      cases run
    | some entry =>
      obtain ⟨k, next⟩ := entry
      cases stepped
      dsimp only at run
      split at run
      · rename_i goesOn
        obtain ⟨place, inner, run⟩ := bind_eq_ok.1 run
        cases place with
        | none => cases run
        | some q =>
          cases run
          rw [List.tail_nil, ← parts] at inner
          obtain ⟨x, leads, target, named⟩ := ih goesOn inner
          exact ⟨x, .cons (names_of_childAt found) (childAt_held found) leads, target, named⟩
      · cases run

/-- Segments that lead to a value have its place. -/
theorem place_of_leads (leads : Leads c names way v) (nonempty : names ≠ []) (idField : String) :
    ∃ p, resolveFrom idField c names [] = .ok (some p) ∧ p.way = way ∧ p.value? c = some v := by
  rw [← List.dropLast_concat_getLast nonempty] at leads ⊢
  obtain ⟨a, x, k, rfl, first, named, held⟩ := leads.of_last
  refine ⟨⟨a, k⟩, ?_, rfl, ?_⟩
  · rw [resolveFrom_front first named.isContainer, lastPlace_of_names named]
    show Except.ok (some (Place.under a ⟨[], k⟩)) = _
    rw [Place.under, List.append_nil]
  · rw [Place.value?_eq]
    exact leads.at?

/-- The place of segments holds what they lead to. -/
theorem leads_of_place (run : resolveFrom idField c names [] = .ok (some p))
    (held : p.value? c = some v) : Leads c names p.way v := by
  cases names with
  | nil => cases run
  | cons segment rest =>
    have walked := resolveFrom_walk idField c segment rest
    rw [run] at walked
    have found : walk c (segment :: rest) = .ok (some v) := by
      rw [← walked, ← held]
      rfl
    obtain ⟨way, leads⟩ := walk_eq_some.1 found
    obtain ⟨q, run', rfl, _⟩ := place_of_leads leads (List.cons_ne_nil segment rest) idField
    rw [run] at run'
    cases run'
    exact leads

/-! ## Segments that a removal disturbs -/

/-- Segments go by an index of the array that a place lies in: the index of the place, or one behind
    it. -/
def Follows (doc : Value) (names : List String) (p : Place) : Prop :=
  ∃ i j front segment rest xs, p.key = .index i ∧ i ≤ j ∧ names = front ++ segment :: rest ∧
    Leads doc front p.container (.array xs) ∧ index? segment = .ok (some j)

theorem Follows.cons (named : Names c segment k) (held : c.child? k = some next)
    (follows : Follows next rest p) : Follows c (segment :: rest) (p.under [k]) := by
  obtain ⟨i, j, front, spelled, others, xs, key, behind, rfl, leads, index⟩ := follows
  have whole := Leads.cons named held leads
  exact ⟨i, j, segment :: front, spelled, others, xs, key, behind, rfl, whole, index⟩

theorem Follows.append (follows : Follows c front p) (rest : List String) :
    Follows c (front ++ rest) p := by
  obtain ⟨i, j, before, spelled, others, xs, key, behind, rfl, leads, index⟩ := follows
  refine ⟨i, j, before, spelled, others ++ rest, xs, key, behind, ?_, leads, index⟩
  rw [List.append_assoc, List.cons_append]

/-- A segment that does not follow a key in a container names one that keeps its place. -/
theorem not_behind {m : Key} (steady : ¬ Follows c (segment :: rest) ⟨[], m⟩)
    (named : Names c segment k) : ¬ m.Behind k := by
  rintro ⟨i, j, rfl, rfl, behind⟩
  cases c with
  | object fs => cases named
  | array xs =>
    obtain ⟨j, index, ⟨⟩⟩ := named
    exact steady ⟨i, j, [], segment, rest, xs, rfl, behind, rfl, .nil _, index⟩
  | _ => exact named.elim

/-- Segments that do not follow a place name a location that a removal there does not change. -/
theorem raised_of_names (leads : Leads c front way x) (named : Names x last k)
    (steady : ¬ Follows c (front ++ [last]) p) :
    Location.raised p.way (way ++ [k]) = way ++ [k] := by
  induction leads generalizing p with
  | nil c =>
    obtain ⟨container, key⟩ := p
    cases container with
    | nil =>
      have same := Key.raised_of_not_behind (not_behind steady named)
      show [key.raised k] = _
      rw [same]
      rfl
    | cons m container =>
      have further := Place.way_ne_nil ⟨container, key⟩
      rw [Place.way_cons, List.nil_append, Location.raised_cons further, Location.raised_nil, ite_self]
  | @cons c next v segment m rest way named' held below ih =>
    obtain ⟨container, key⟩ := p
    cases container with
    | nil =>
      have same := Key.raised_of_not_behind (not_behind steady named')
      show key.raised m :: (way ++ [k]) = _
      rw [same]
      rfl
    | cons l container =>
      rw [Place.way_cons, List.cons_append, Location.raised_cons (Place.way_ne_nil _)]
      split
      · rename_i same
        subst same
        have inner := ih (p := ⟨container, key⟩) named fun follows =>
          steady (follows.cons named' held)
        rw [inner]
      · rfl

theorem Leads.raised (leads : Leads c names way v) (steady : ¬ Follows c names p) :
    Location.raised p.way way = way := by
  by_cases nonempty : names = []
  · subst nonempty
    cases leads
    exact Location.raised_nil _
  · rw [← List.dropLast_concat_getLast nonempty] at leads steady
    obtain ⟨a, x, k, rfl, first, named, _⟩ := leads.of_last
    exact raised_of_names first named steady

theorem Leads.length (leads : Leads c names way v) : way.length = names.length := by
  induction leads with
  | nil v => rfl
  | cons named held below ih => exact congrArg Nat.succ ih

end Path

/-! ## What a removal leaves -/

theorem Value.Alike.refl {c : Value} (container : c.isContainer = true) : Value.Alike c c := by
  cases c with
  | object fs => trivial
  | array xs => trivial
  | _ => cases container

theorem Value.Alike.isContainer {c after : Value} (alike : Value.Alike c after) :
    after.isContainer = true := by
  cases after with
  | object gs => rfl
  | array ys => rfl
  | _ => exact alike.symm.elim

theorem Value.alike_remove {c : Value} (container : c.isContainer = true) (k : Key) :
    Value.Alike c (c.remove k) := by
  cases c with
  | object fs => cases k <;> trivial
  | array xs => cases k <;> trivial
  | _ => cases container

namespace Place

variable {p : Place} {c next v v' : Value} {k m key : Key} {way container : Location}

theorem way_inj {q : Place} (same : p.way = q.way) : p = q := by
  obtain ⟨container, key⟩ := p
  obtain ⟨container', key'⟩ := q
  obtain ⟨rfl, last⟩ := List.append_inj' same rfl
  cases last
  rfl

theorem drop_missing (missing : c.child? k = none) : (⟨k :: container, key⟩ : Place).drop c = c := by
  have nothing : c.at? (k :: container) = none := by
    rw [Value.at?_cons, missing]
    rfl
  unfold drop
  rw [nothing]

theorem alike_drop (container : c.isContainer = true) (p : Place) : Value.Alike c (p.drop c) := by
  obtain ⟨container', key⟩ := p
  cases container' with
  | nil => exact Value.alike_remove container key
  | cons k rest =>
    cases child : c.child? k with
    | none =>
      rw [drop_missing child]
      exact Value.Alike.refl container
    | some next =>
      rw [drop_cons child]
      exact Value.alike_setChild container k _

theorem drop_scalar (scalar : c.isContainer = false) (p : Place) : p.drop c = c := by
  obtain ⟨container, key⟩ := p
  cases container with
  | nil => exact Value.remove_leaf scalar
  | cons k rest => exact drop_missing (Value.child?_leaf scalar)

/-- Removals below one key leave what lies under the others. -/
theorem child?_drop_ne (other : m ≠ k) :
    ((⟨k :: container, key⟩ : Place).drop c).child? m = c.child? m := by
  cases child : c.child? k with
  | none => rw [drop_missing child]
  | some next =>
    rw [drop_cons child]
    exact Value.child?_setChild_ne other _

/-- What a removal leaves of the value at a location: all of it, or the rest if the removal was
    inside. -/
def Spares (p : Place) (way : Location) (v v' : Value) : Prop :=
  v' = v ∨ ∃ q : Place, p = q.under way ∧ v' = q.drop v

theorem Spares.under (spares : p.Spares way v v') (k : Key) :
    (p.under [k]).Spares (k :: way) v v' := by
  rcases spares with same | ⟨q, rfl, rest⟩
  · exact .inl same
  · exact .inr ⟨q, rfl, rest⟩

theorem Spares.alike (spares : p.Spares way v v') (container : v.isContainer = true) :
    Value.Alike v v' := by
  rcases spares with rfl | ⟨q, _, rfl⟩
  · exact Value.Alike.refl container
  · exact alike_drop container q

/-- What is left of a scalar is the scalar. -/
theorem Spares.isContainer (spares : p.Spares way v v') (container : v'.isContainer = true) :
    v.isContainer = true := by
  rcases spares with rfl | ⟨q, _, rfl⟩
  · exact container
  · refine Bool.of_not_eq_false fun scalar => ?_
    rw [drop_scalar scalar, scalar] at container
    cases container

theorem Spares.whole (p : Place) (c : Value) : p.Spares [] c (p.drop c) := .inr ⟨p, rfl, rfl⟩

end Place

namespace Path

open DocRepair.Place (Spares)

variable {segment : String} {names rest : List String} {c next v v' x : Value} {k : Key}
  {way : Location} {p : Place}

/-- **Where segments lead after a removal**, if they do not go through the removed value nor by an
    index behind it. -/
theorem Leads.drop (leads : Leads c names way v) (apart : ∀ rest, way ≠ p.way ++ rest)
    (steady : ¬ Follows c names p) : ∃ v', Leads (p.drop c) names way v' ∧ p.Spares way v v' := by
  induction leads generalizing p with
  | nil v => exact ⟨_, .nil _, .whole p v⟩
  | @cons c next v segment k rest way named held below ih =>
    obtain ⟨container, key⟩ := p
    cases container with
    | nil =>
      -- The value lay in this very container: a key that is not behind its own stays as it is.
      have other : k ≠ key := fun same => apart way (by rw [same]; rfl)
      have child := Value.child?_remove_of held other
      rw [Key.lowered_of_not_behind (not_behind steady named)] at child
      have still := named.alike (Value.alike_remove named.isContainer key)
      exact ⟨v, .cons still child below, .inl rfl⟩
    | cons m container =>
      have still := named.alike (Place.alike_drop named.isContainer ⟨m :: container, key⟩)
      by_cases same : m = k
      · subst same
        obtain ⟨v', leads, spares⟩ := ih (p := ⟨container, key⟩)
          (fun rest ends => apart rest (by rw [ends]; rfl))
          fun follows => steady (follows.cons named held)
        rw [Place.drop_cons held] at still ⊢
        exact ⟨v', .cons still (Value.child?_setChild_self held _) leads, spares.under m⟩
      · have stays : ((⟨m :: container, key⟩ : Place).drop c).child? k = some next :=
          (Place.child?_drop_ne (Ne.symm same)).trans held
        exact ⟨v, .cons still stays below, .inl rfl⟩

/-- **Where segments led before a removal**, if they do not go by an index behind the removed
    value. -/
theorem Leads.of_drop (distinct : c.Distinct) (held : p.value? c = some x)
    (leads : Leads (p.drop c) names way v') (steady : ¬ Follows c names p) :
    (∀ rest, way ≠ p.way ++ rest) ∧ ∃ v, Leads c names way v ∧ p.Spares way v v' := by
  obtain ⟨container, key⟩ := p
  induction container generalizing c names way with
  | nil =>
    cases leads with
    | nil => exact ⟨fun rest => by simp [Place.way], c, .nil c, .whole _ c⟩
    | @cons _ next _ segment k rest way named child below =>
      have alike := Value.alike_remove (Value.isContainer_of_child held) key
      have named := named.alike alike.symm
      obtain ⟨lay, other⟩ := Value.child?_of_remove distinct child
      have same := Key.raised_of_not_behind (not_behind steady named)
      rw [same] at lay other
      refine ⟨fun rest ends => ?_, v', .cons named lay below, .inl rfl⟩
      exact other (List.cons.inj ends).1
  | cons m container ih =>
    obtain ⟨inner, child, inside⟩ := Place.child_of_value? held
    cases leads with
    | nil => exact ⟨fun rest => by simp [Place.way], c, .nil c, .whole _ c⟩
    | @cons _ next _ segment k rest way named child' below =>
      -- The value lay further down, under the first key of the way or apart from it.
      have container' := Value.isContainer_of_child child
      have named := named.alike (Place.alike_drop container' _).symm
      by_cases same : m = k
      · subst same
        rw [Place.drop_cons child, Value.child?_setChild_self child] at child'
        cases child'
        obtain ⟨apart, v, leads, spares⟩ := ih (distinct.child child) inside below
          fun follows => steady (follows.cons named child)
        refine ⟨fun rest ends => ?_, v, .cons named child leads, spares.under m⟩
        exact apart rest (List.cons.inj ends).2
      · have there : c.child? k = some next :=
          (Place.child?_drop_ne (Ne.symm same)).symm.trans child'
        refine ⟨fun rest ends => ?_, v', .cons named there below, .inl rfl⟩
        exact same (List.cons.inj ends).1.symm

/-- Segments that led somewhere before lead nowhere else after a removal that they do not follow. -/
theorem Leads.of_drop_unique {other : Location} {y : Value} (distinct : c.Distinct)
    (held : p.value? c = some x) (leads : Leads c names way v) (steady : ¬ Follows c names p)
    (after : Leads (p.drop c) names other y) :
    other = way ∧ (∀ rest, way ≠ p.way ++ rest) ∧ p.Spares way v y := by
  obtain ⟨apart, w, before, spares⟩ := after.of_drop distinct held steady
  obtain ⟨rfl, rfl⟩ := before.unique leads
  exact ⟨rfl, apart, spares⟩

/-- What follows another place after a removal that does not disturb it followed that place
    before. -/
theorem Follows.of_drop {q : Place} (follows : Follows (p.drop c) names q) (distinct : c.Distinct)
    (held : p.value? c = some x) (steady : ¬ Follows c names p) : Follows c names q := by
  obtain ⟨i, j, front, segment, rest, xs, key, behind, rfl, leads, index⟩ := follows
  obtain ⟨_, v, before, spares⟩ := leads.of_drop distinct held fun follows =>
    steady (follows.append _)
  have alike := spares.alike (spares.isContainer rfl)
  cases v with
  | array ys => exact ⟨i, j, front, segment, rest, ys, key, behind, rfl, before, index⟩
  | _ => exact alike.elim

end Path

end DocRepair

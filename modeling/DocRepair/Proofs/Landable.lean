import DocRepair.Proofs.Tame
import DocRepair.Proofs.Ways
/-!
# `DocRepair.Proofs.Landable` — which writes to a path go through

A write follows its path as long as the segments lead to something. What decides is the longest
front of the path that does, the whole path excepted. All that it leads through must be containers,
and the last of these must take the segment behind it: for the value itself, or for the first of the
objects that are made for what is missing.

An array takes a value at any of its indexes and behind the last one. For a new object it has
nothing to offer but the place behind the last one, as whatever else it holds is led through. There
is one exception. An item that is the marker of absence counts as missing although its index is
taken, so the new object replaces the marker.

## Contents

* `Path.reached` — what a front of the segments leads to;
* `Path.Longest` — the longest front that leads to something;
* `Path.Landable` — where a write goes through;
* `Path.landingFrom_settled` — a write goes through, or stops with a failure, accordingly;
* `Edit.write_settled` — for whole paths, and without a trace of a write that stops;
* `Edit.write_over_marker` — the exception.
-/

namespace DocRepair

namespace Path

variable {limit : Option Int} {segment second : String} {names rest walked : List String}
  {c next doc path v : Value} {k : Key} {i j : Nat}

/-! ## What a front of the segments leads to -/

/-- What the first `i` segments lead to, if it is present. -/
def reached (c : Value) (names : List String) (i : Nat) : Except Fault (Option Value) :=
  find? c (.array ((names.take i).map .text))

/-- No segment is empty. -/
def Filled (names : List String) : Prop := ∀ s ∈ names, s ≠ ""

theorem filled_of_split (splits : split path = .ok names) : Filled names := by
  obtain ⟨listed, _, splits⟩ := bind_eq_ok.1 splits
  split at splits
  · cases splits
  · split at splits
    · obtain ⟨_, _, stops⟩ := bind_eq_ok.1 splits
      cases stops
    · rename_i full
      cases splits
      intro s among empty
      exact full (List.any_eq_true.2 ⟨s, among, beq_iff_eq.2 empty⟩)

/-- Texts are segments as they are. -/
theorem segments_texts (names : List String) :
    segments (.array (names.map .text)) = .ok names := by
  show (names.map Value.text).mapM Value.plainText = _
  induction names with
  | nil => rfl
  | cons s rest ih =>
    rw [List.map_cons, List.mapM_cons, ih]
    rfl

theorem split_texts (some : names ≠ []) (filled : Filled names) :
    split (.array (names.map .text)) = .ok names := by
  have full : ¬ names.any (· == "") = true := by
    intro any
    obtain ⟨s, among, empty⟩ := List.any_eq_true.1 any
    exact filled s among (beq_iff_eq.1 empty)
  unfold split
  rw [segments_texts]
  show (if names.isEmpty = true then _ else _) = _
  rw [if_neg fun empty => some (List.isEmpty_iff.1 empty), if_neg full]

theorem reached_eq (filled : Filled names) (i : Nat) :
    reached c names i = (walk c (names.take i)).map present := by
  unfold reached find?
  by_cases none : names.take i = []
  · rw [none]
    rfl
  · have front : Filled (names.take i) := fun s among => filled s (List.mem_of_mem_take among)
    rw [read?_eq (split_texts none front)]
    cases walk c (names.take i) <;> rfl

theorem reached_zero (there : c.isAbsent = false) (names : List String) :
    reached c names 0 = .ok (some c) := by
  have whole : present (some c) = some c := present_eq_some.2 ⟨rfl, there⟩
  exact congrArg Except.ok whole

theorem there_of_container (container : c.isContainer = true) : c.isAbsent = false := by
  cases c with
  | absent => cases container
  | _ => rfl

section Fronts

variable (filled : Filled (segment :: rest))

include filled

theorem reached_succ (named : Names c segment k) (held : c.child? k = some next) (i : Nat) :
    reached c (segment :: rest) (i + 1) = reached next rest i := by
  have others : Filled rest := fun s among => filled s (List.mem_cons_of_mem _ among)
  rw [reached_eq filled, reached_eq others, List.take_succ_cons, walk_of_names named, held]

theorem reached_missing (missing : childAt c segment = .ok none) (i : Nat) :
    reached c (segment :: rest) (i + 1) = .ok none := by
  rw [reached_eq filled, List.take_succ_cons, walk, missing]
  rfl

/-- Behind a segment under whose key nothing is present, nothing is reached. -/
theorem reached_nothing (named : Names c segment k) (nothing : present (c.child? k) = none)
    (i : Nat) : reached c (segment :: rest) (i + 1) = .ok none := by
  cases held : c.child? k with
  | none =>
    refine reached_missing filled ?_ i
    rw [childAt_of_names named, held]
    rfl
  | some next =>
    have others : Filled rest := fun s among => filled s (List.mem_cons_of_mem _ among)
    rw [reached_succ filled named held, reached_eq others]
    rw [held] at nothing
    cases next with
    | absent =>
      cases rest.take i with
      | nil => rfl
      | cons second more =>
        rw [walk_scalar rfl]
        rfl
    | _ => cases nothing

end Fronts

/-- The first `j` segments lead to something, and no longer front does but perhaps the whole. -/
structure Longest (c : Value) (names : List String) (j : Nat) : Prop where
  proper : j < names.length
  leads : ∃ w, reached c names j = .ok (some w)
  further : ∀ i, j < i → i < names.length → reached c names i = .ok none

theorem Longest.unique (one : Longest c names i) (two : Longest c names j) : i = j := by
  rcases Nat.lt_trichotomy i j with before | same | behind
  · obtain ⟨w, leads⟩ := two.leads
    rw [one.further j before two.proper] at leads
    cases leads
  · exact same
  · obtain ⟨w, leads⟩ := one.leads
    rw [two.further i behind one.proper] at leads
    cases leads

/-- Nothing is reached from a value by the first segment. -/
theorem longest_zero (there : c.isAbsent = false)
    (nothing : ∀ i, reached c (segment :: rest) (i + 1) = .ok none) :
    Longest c (segment :: rest) 0 := by
  refine ⟨Nat.zero_lt_succ _, ⟨c, reached_zero there _⟩, fun i behind _ => ?_⟩
  obtain ⟨i, rfl⟩ := Nat.exists_eq_succ_of_ne_zero (Nat.ne_of_gt behind)
  exact nothing i

theorem longest_succ (filled : Filled (segment :: rest)) (named : Names c segment k)
    (held : c.child? k = some next) (longest : Longest next rest j) :
    Longest c (segment :: rest) (j + 1) := by
  obtain ⟨w, leads⟩ := longest.leads
  refine ⟨Nat.succ_lt_succ longest.proper, ⟨w, ?_⟩, fun i behind proper => ?_⟩
  · rw [reached_succ filled named held, leads]
  · obtain ⟨i, rfl⟩ := Nat.exists_eq_succ_of_ne_zero (Nat.ne_zero_of_lt behind)
    rw [reached_succ filled named held]
    exact longest.further i (Nat.lt_of_succ_lt_succ behind) (Nat.lt_of_succ_lt_succ proper)

/-! ## What a container takes -/

/-- A container in which a segment names a place for a value: an array has one at each of its
    indexes and behind the last one. -/
def Takes (c : Value) (segment : String) : Prop :=
  match c with
  | .object _ => True
  | .array xs => ∃ i, index? segment = .ok (some i) ∧ i ≤ xs.length
  | _ => False

/-- A container in which a segment that leads nowhere names a place for a new object: an array has one
    behind its last index, or at a marker of absence. -/
def TakesNew (c : Value) (segment : String) : Prop :=
  match c with
  | .object _ => True
  | .array xs => ∃ i, index? segment = .ok (some i) ∧ (i = xs.length ∨ xs[i]? = some .absent)
  | _ => False

/-- The segments lead through containers as far as they lead, and the last container takes what a
    write has for it: the value, or the first of the objects that are missing, which must not be too
    many. -/
structure Landable (limit : Option Int) (c : Value) (names : List String) (j : Nat) : Prop where
  containers : ∀ i ≤ j, ∃ w, reached c names i = .ok (some w) ∧ w.isContainer = true
  takes : ∃ w s, reached c names j = .ok (some w) ∧ names[j]? = some s ∧
    (j + 1 = names.length ∧ Takes w s ∨
      j + 1 < names.length ∧ within limit (names.length - 1 - j) = true ∧ TakesNew w s)

theorem landable_zero (container : c.isContainer = true) :
    Landable limit c (segment :: rest) 0 ↔
      rest = [] ∧ Takes c segment ∨
        rest ≠ [] ∧ within limit rest.length = true ∧ TakesNew c segment := by
  have own := reached_zero (there_of_container container) (segment :: rest)
  have alone : 0 + 1 = (segment :: rest).length ↔ rest = [] := by
    rw [List.length_cons, ← List.length_eq_zero_iff]
    omega
  have more : 0 + 1 < (segment :: rest).length ↔ rest ≠ [] := by
    rw [List.length_cons, ← List.length_pos_iff]
    omega
  constructor
  · intro landable
    obtain ⟨w, s, leads, first, takes⟩ := landable.takes
    rw [own] at leads
    cases leads
    cases first
    rw [alone, more] at takes
    exact takes
  · intro takes
    refine ⟨fun i within => ?_, c, segment, own, rfl, ?_⟩
    · obtain rfl := Nat.le_zero.1 within
      exact ⟨c, own, container⟩
    · rw [alone, more]
      exact takes

theorem landable_succ (filled : Filled (segment :: rest)) (named : Names c segment k)
    (held : c.child? k = some next) :
    Landable limit c (segment :: rest) (j + 1) ↔ Landable limit next rest j := by
  have step := reached_succ filled named held
  have alone : j + 1 + 1 = (segment :: rest).length ↔ j + 1 = rest.length := by
    rw [List.length_cons]
    omega
  have more : j + 1 + 1 < (segment :: rest).length ↔ j + 1 < rest.length := by
    rw [List.length_cons]
    omega
  have missing : (segment :: rest).length - 1 - (j + 1) = rest.length - 1 - j := by
    rw [List.length_cons]
    omega
  constructor
  · intro landable
    refine ⟨fun i bound => ?_, ?_⟩
    · rw [← step]
      exact landable.containers (i + 1) (Nat.succ_le_succ bound)
    · obtain ⟨w, s, leads, last, takes⟩ := landable.takes
      rw [step] at leads
      rw [alone, more, missing] at takes
      exact ⟨w, s, leads, last, takes⟩
  · intro landable
    refine ⟨fun i bound => ?_, ?_⟩
    · cases i with
      | zero =>
        -- The front without a segment is the container itself.
        have container := named.isContainer
        exact ⟨c, reached_zero (there_of_container container) _, container⟩
      | succ i =>
        rw [step]
        exact landable.containers i (Nat.le_of_succ_le_succ bound)
    · obtain ⟨w, s, leads, last, takes⟩ := landable.takes
      refine ⟨w, s, ?_, last, ?_⟩
      · rw [step, leads]
      · rw [alone, more, missing]
        exact takes

/-! ## Segment by segment -/

/-- A failure that says that nothing is there, or something of another kind. -/
def Missed (f : Failure) : Prop := f.kind = .notFound ∨ f.kind = .typeMismatch

/-- A search returns where a condition holds, and misses otherwise. -/
def Settles {α : Type} (holds : Prop) (r : Except Fault α) : Prop :=
  (∃ a, r = .ok a) ∧ holds ∨ (∃ f, r = fail f ∧ Missed f) ∧ ¬ holds

theorem Settles.map {α β : Type} {p q : Prop} {r : Except Fault α} (settled : Settles p r)
    (same : p ↔ q) (f : α → β) : Settles q (do .ok (f (← r)) : Except Fault β) := by
  rcases settled with ⟨⟨a, rfl⟩, holds⟩ | ⟨⟨g, rfl, missed⟩, fails⟩
  · exact .inl ⟨⟨f a, rfl⟩, same.1 holds⟩
  · exact .inr ⟨⟨g, rfl, missed⟩, fun holds => fails (same.2 holds)⟩

theorem containerKey_settled (container : c.isContainer = true) (legible : Legible segment) :
    Settles (Takes c segment) (containerKey c segment) := by
  cases c with
  | object fs => exact .inl ⟨⟨_, rfl⟩, trivial⟩
  | array xs =>
    obtain ⟨found, spelled⟩ := legible
    unfold containerKey Takes
    simp only [spelled]
    cases found with
    | none =>
      refine .inr ⟨⟨.badIndex segment, rfl, .inr rfl⟩, ?_⟩
      rintro ⟨i, none, _⟩
      cases none
    | some i =>
      by_cases bound : i ≤ xs.length
      · exact .inl ⟨⟨.index i, if_pos bound⟩, i, rfl, bound⟩
      · refine .inr ⟨⟨.badIndex segment, if_neg bound, .inr rfl⟩, ?_⟩
        rintro ⟨i', same, bound'⟩
        cases same
        exact bound bound'
  | _ => cases container

/-- Where nothing is present, a place for a value is one for a new object. -/
theorem takesNew_iff (named : Names c segment k) (nothing : present (c.child? k) = none) :
    Takes c segment ↔ TakesNew c segment := by
  cases c with
  | object fs => exact Iff.rfl
  | array xs =>
    obtain ⟨i, spelled, rfl⟩ := named
    have free : i ≤ xs.length ↔ i = xs.length ∨ xs[i]? = some .absent := by
      constructor
      · intro bound
        rcases Nat.lt_or_eq_of_le bound with inside | last
        · -- Inside the array there is an item: if it is not present, it is the marker.
          have held : xs[i]? = some xs[i] := List.getElem?_eq_getElem inside
          cases item : xs[i] with
          | absent => exact .inr (by rw [held, item])
          | _ =>
            have present : present (xs[i]?) = none := nothing
            rw [held, item] at present
            cases present
        · exact .inl last
      · rintro (last | marker)
        · exact Nat.le_of_eq last
        · exact Nat.le_of_lt (List.getElem?_eq_some_iff.1 marker).1
    unfold Takes TakesNew
    simp only [spelled, Except.ok.injEq, Option.some.injEq, exists_eq_left', free]
  | _ => exact named.elim

/-- Where no segment is spelled, an array leads nowhere and takes nothing. -/
theorem writableChild_cases (container : c.isContainer = true) (legible : Legible segment) :
    (∃ k next, writableChild c segment = .ok (some (k, next)) ∧ Names c segment k ∧
      c.child? k = some next ∧ next.isAbsent = false) ∨
    (∃ k, writableChild c segment = .ok none ∧ Names c segment k ∧
      present (c.child? k) = none) ∨
    (writableChild c segment = fail (.notAnIndex segment) ∧ childAt c segment = .ok none ∧
      ¬ TakesNew c segment) := by
  have named {k : Key} (names : Names c segment k) (returns : ∃ r, writableChild c segment = .ok r) :
      (∃ k next, writableChild c segment = .ok (some (k, next)) ∧ Names c segment k ∧
        c.child? k = some next ∧ next.isAbsent = false) ∨
      (∃ k, writableChild c segment = .ok none ∧ Names c segment k ∧
        present (c.child? k) = none) := by
    cases held : present (c.child? k) with
    | some next =>
      obtain ⟨child, there⟩ := present_eq_some.1 held
      exact .inl ⟨k, next, writableChild_eq_some.2 ⟨names, child, there⟩, names, child, there⟩
    | none =>
      obtain ⟨found, run⟩ := returns
      cases found with
      | none => exact .inr ⟨k, run, names, held⟩
      | some entry =>
        obtain ⟨names', child, there⟩ := writableChild_eq_some.1 run
        obtain rfl := names.unique names'
        rw [present_eq_some.2 ⟨child, there⟩] at held
        cases held
  cases c with
  | object fs =>
    have spelled : Names (.object fs) segment (.field segment) := rfl
    exact (named spelled ⟨_, rfl⟩).imp_right .inl
  | array xs =>
    obtain ⟨found, spelled⟩ := legible
    cases found with
    | some i =>
      have returns : ∃ r, writableChild (.array xs) segment = .ok r := by
        refine ⟨(present xs[i]?).map (Key.index i, ·), ?_⟩
        unfold writableChild
        simp only [spelled]
        rfl
      exact (named (k := .index i) ⟨i, spelled, rfl⟩ returns).imp_right .inl
    | none =>
      refine .inr (.inr ⟨?_, ?_, ?_⟩)
      · unfold writableChild
        simp only [spelled]
        rfl
      · unfold childAt
        simp only [spelled]
        rfl
      · rintro ⟨i, other, _⟩
        rw [spelled] at other
        cases other
  | _ => cases container

/-- A scalar takes no write, and nothing leads on from it. -/
theorem not_landable_scalar (there : c.isAbsent = false) (scalar : c.isContainer = false) :
    ¬ Landable limit c names 0 := by
  intro landable
  obtain ⟨w, leads, container⟩ := landable.containers 0 (Nat.le_refl 0)
  rw [reached_zero there] at leads
  cases leads
  rw [scalar] at container
  cases container

/-- Where nothing is present, objects are made if they are not too many and there is a place for the
    first of them. -/
theorem landingFrom_nothing (container : c.isContainer = true) (legible : Legible segment)
    (found : writableChild c segment = .ok none) (named : Names c segment k)
    (nothing : present (c.child? k) = none) :
    Settles (Landable limit c (segment :: second :: rest) 0)
      (landingFrom limit walked c (segment :: second :: rest)) := by
  have same : Landable limit c (segment :: second :: rest) 0 ↔
      within limit (rest.length + 1) = true ∧ Takes c segment := by
    rw [landable_zero container, takesNew_iff named nothing]
    simp
  unfold landingFrom
  rw [found]
  dsimp only [bind, Except.bind]
  by_cases allowed : within limit (rest.length + 1) = true
  · have taken : Takes c segment ↔ Landable limit c (segment :: second :: rest) 0 := by
      rw [same]
      exact (and_iff_right allowed).symm
    rw [if_pos allowed]
    exact (containerKey_settled container legible).map taken
      fun k => (⟨⟨[], k⟩, second :: rest⟩ : Landing)
  · rw [if_neg allowed]
    exact .inr ⟨⟨_, rfl, .inl rfl⟩, fun landable => allowed (same.1 landable).1⟩

/-- **A write to segments goes through where it should**, and misses otherwise. -/
theorem landingFrom_settled (container : c.isContainer = true) (some : names ≠ [])
    (filled : Filled names) (legible : ∀ s ∈ names, Legible s) :
    ∃ j, Longest c names j ∧
      Settles (Landable limit c names j) (landingFrom limit walked c names) := by
  induction names generalizing walked c with
  | nil => exact absurd rfl some
  | cons segment rest ih =>
    have here : Legible segment := legible segment List.mem_cons_self
    have there := there_of_container container
    cases rest with
    | nil =>
      refine ⟨0, ⟨Nat.zero_lt_one, ⟨c, reached_zero there _⟩, fun i behind proper => ?_⟩, ?_⟩
      · exact absurd proper (Nat.not_lt.2 behind)
      · have same : Takes c segment ↔ Landable limit c [segment] 0 := by
          rw [landable_zero container]
          simp
        exact (containerKey_settled container here).map same fun k => (⟨⟨[], k⟩, []⟩ : Landing)
    | cons second rest =>
      have others : Filled (second :: rest) :=
        fun s among => filled s (List.mem_cons_of_mem _ among)
      rcases writableChild_cases container here with
        ⟨k, next, found, named, held, present⟩ | ⟨k, found, named, nothing⟩ |
        ⟨found, missing, refused⟩
      · unfold landingFrom
        rw [found]
        dsimp only [bind, Except.bind]
        by_cases goesOn : next.isContainer = true
        · have legible' : ∀ s ∈ second :: rest, Legible s :=
            fun s among => legible s (List.mem_cons_of_mem _ among)
          obtain ⟨j, longest, settled⟩ : ∃ j, Longest next (second :: rest) j ∧
              Settles (Landable limit next (second :: rest) j)
                (landingFrom limit (walked ++ [segment]) next (second :: rest)) :=
            ih goesOn (List.cons_ne_nil _ _) others legible'
          refine ⟨j + 1, longest_succ filled named held longest, ?_⟩
          rw [if_pos goesOn]
          exact settled.map (landable_succ filled named held).symm fun l => l.under [k]
        · -- A scalar ends the way, and there are segments left.
          have scalar : next.isContainer = false := Bool.not_eq_true _ ▸ goesOn
          have ends := longest_zero present (reached_missing others (childAt_scalar scalar))
          refine ⟨1, longest_succ filled named held ends, ?_⟩
          rw [if_neg goesOn]
          refine .inr ⟨⟨_, rfl, .inr rfl⟩, fun landable => ?_⟩
          exact not_landable_scalar present scalar ((landable_succ filled named held).1 landable)
      · exact ⟨0, longest_zero there (reached_nothing filled named nothing),
          landingFrom_nothing container here found named nothing⟩
      · -- The segment is no index of the array, so it has no place in it either.
        unfold landingFrom
        rw [found]
        refine ⟨0, longest_zero there (reached_missing filled missing),
          .inr ⟨⟨_, rfl, .inr rfl⟩, ?_⟩⟩
        rw [landable_zero container]
        simp [refused]

end Path

/-! ## Whole paths -/

namespace Edit

open DocRepair.Path

variable {limit : Option Int} {path v : Value} {names : List String} {d : Draft} {j : Nat}

/-- **Which writes to a path go through.** The document is an object, and the segments of the path are
    legible. There is a longest front of the segments, the whole excepted, that leads to something.
    The search for the place of the write returns, and the value is written there, if and only if all
    that this front leads through are containers, and the last of them takes what the write has for
    it: the value if one segment is left, and else a new object, if no more of them are missing than
    the limit allows. Otherwise the write misses, and leaves no trace. -/
theorem write_settled (obj : d.doc.isObject = true) (splits : split path = .ok names)
    (legible : ∀ s ∈ names, Legible s) (limit : Option Int) (v : Value) :
    (∃ j, Longest d.doc names j) ∧ ∀ j, Longest d.doc names j →
      ((∃ l, landing limit d.doc path = .ok l) ↔ Landable limit d.doc names j) ∧
      ((∃ e, write limit path v d = .ok () e) ↔ Landable limit d.doc names j) ∧
      (¬ Landable limit d.doc names j →
        ∃ f, landing limit d.doc path = fail f ∧ write limit path v d = .error (.failure f) d ∧
          (f.kind = .notFound ∨ f.kind = .typeMismatch)) := by
  have container := Value.isContainer_of_isObject obj
  have some : names ≠ [] := by
    obtain ⟨n, rest, rfl⟩ := split_cons splits
    exact List.cons_ne_nil n rest
  obtain ⟨i, longest, settled⟩ : ∃ i, Longest d.doc names i ∧
      Settles (Landable limit d.doc names i) (landingFrom limit [] d.doc names) :=
    landingFrom_settled container some (filled_of_split splits) legible
  have search : landing limit d.doc path = landingFrom limit [] d.doc names := by
    unfold landing
    rw [splits]
    rfl
  rw [← search] at settled
  refine ⟨⟨i, longest⟩, fun j longest' => ?_⟩
  obtain rfl := longest.unique longest'
  rcases settled with ⟨⟨l, found⟩, landable⟩ | ⟨⟨f, missed, kind⟩, refused⟩
  · obtain ⟨after, puts⟩ := landing_puts obj found v
    have written : ∃ e, write limit path v d = .ok () e :=
      ⟨_, write_ok.2 ⟨l, found, land_ok.2 ⟨after, puts, rfl⟩⟩⟩
    exact ⟨iff_of_true ⟨l, found⟩ landable, iff_of_true written landable, (absurd landable ·)⟩
  · have stops : write limit path v d = .error (.failure f) d := by
      refine run_bind_error.2 (.inl ?_)
      unfold look
      dsimp only
      rw [missed]
      rfl
    refine ⟨iff_of_false ?_ refused, iff_of_false ?_ refused, fun _ => ⟨f, missed, stops, kind⟩⟩
    · rintro ⟨l, found⟩
      rw [missed] at found
      cases found
    · rintro ⟨e, written⟩
      rw [stops] at written
      cases written

/-- Two objects are missing, the first of them behind the last index of an array. A limit of two lets
    the write through, a limit of one does not. -/
theorem write_settled_new_item :
    let doc : Value := .object [("xs", .array [.int 7])]
    let d : Draft := { doc := doc, supply := { origin := 0, last := 0, pace := 1 } }
    let names := ["xs", "1", "k", "m"]
    Longest doc names 1 ∧ (∃ e, write (some 2) (.text "xs.1.k.m") (.int 5) d = .ok () e) ∧
      Landable (some 2) doc names 1 ∧ ¬ Landable (some 1) doc names 1 ∧
      ∃ f, write (some 1) (.text "xs.1.k.m") (.int 5) d = .error (.failure f) d ∧
        (f.kind = .notFound ∨ f.kind = .typeMismatch) := by
  intro doc d names
  have splits : split (.text "xs.1.k.m") = .ok names := rfl
  have legible : ∀ s ∈ names, Legible s := by
    intro s among
    simp only [names, List.mem_cons, List.not_mem_nil, or_false] at among
    rcases among with rfl | rfl | rfl | rfl
    · exact ⟨none, rfl⟩
    · exact ⟨some 1, rfl⟩
    · exact ⟨none, rfl⟩
    · exact ⟨none, rfl⟩
  have longest : Longest doc names 1 := by
    refine ⟨by decide, ⟨_, rfl⟩, fun i behind proper => ?_⟩
    have last : i < 4 := proper
    obtain rfl | rfl : i = 2 ∨ i = 3 := by omega
    · rfl
    · rfl
  have goes : ∃ e, write (some 2) (.text "xs.1.k.m") (.int 5) d = .ok () e := ⟨_, rfl⟩
  have stops : ∃ fault e, write (some 1) (.text "xs.1.k.m") (.int 5) d = .error fault e := ⟨_, _, rfl⟩
  have two := (write_settled (d := d) rfl splits legible (some 2) (.int 5)).2 1 longest
  have one := (write_settled (d := d) rfl splits legible (some 1) (.int 5)).2 1 longest
  have refused : ¬ Landable (some 1) doc names 1 := by
    intro landable
    obtain ⟨e, written⟩ := one.2.1.2 landable
    obtain ⟨fault, e', stop⟩ := stops
    rw [written] at stop
    cases stop
  obtain ⟨f, _, stop, kind⟩ := one.2.2 refused
  exact ⟨longest, goes, two.2.1.1 goes, refused, f, stop, kind⟩

/-- The marker of absence is an item of an array, and a write goes below it. Nothing is present there,
    but the index is not the one behind the last either; and if the marker is taken for something
    that is present, it is no container. -/
theorem write_over_marker :
    let doc : Value := .object [("xs", .array [.absent])]
    let d : Draft := { doc := doc, supply := { origin := 0, last := 0, pace := 1 } }
    (∃ e, write (some 1) (.text "xs.0.b") (.int 1) d = .ok () e) ∧
      split (.text "xs.0.b") = .ok ["xs", "0", "b"] ∧ Longest doc ["xs", "0", "b"] 1 ∧
      reached doc ["xs", "0", "b"] 1 = .ok (some (.array [.absent])) ∧
      index? "0" = .ok (some 0) ∧ 0 ≠ [Value.absent].length ∧
      has doc (.text "xs.0") = .ok true ∧ read? doc (.text "xs.0") = .ok (some .absent) ∧
      Value.absent.isContainer = false := by
  intro doc d
  have longest : Longest doc ["xs", "0", "b"] 1 := by
    refine ⟨by decide, ⟨_, rfl⟩, fun i behind proper => ?_⟩
    have last : i < 3 := proper
    obtain rfl : i = 2 := by omega
    rfl
  exact ⟨⟨_, rfl⟩, rfl, longest, rfl, rfl, by decide, rfl, rfl, rfl⟩

end Edit

end DocRepair

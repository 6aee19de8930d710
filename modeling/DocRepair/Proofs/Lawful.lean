import DocRepair.Proofs.Tame
import DocRepair.Proofs.Ways
/-!
# `DocRepair.Proofs.Lawful` — a write to a path is a lawful update

A write looks its path up by rules of its own: it stops where reading would find an absence, it may
make what is missing, and it may add an item at the end of an array. Still it fits the reading of
paths. What was written is read at the path, every path that branches off reads as before, and what
was made or has grown lies on the path. A path that was there before is written where reading finds
it.

The write is first described as a relation between the container before and the container after, with
one case for each way in which a lookup can end. Everything else follows by induction on it.

## Contents

* `Value.Alike` / `Value.child?_assign_other` — a container with another value under one key;
* `Landing.way` / `Landing.made` — where the value comes to lie, and the objects made for it;
* `Path.Wrote` / `Path.wrote_of_landing` — a write, as a relation;
* `Path.Wrote.leads` / `objects` / `arrays` / `kept` — what a write leaves;
* `Path.Diverge` / `Path.Wrote.frame` — paths that branch off;
* `Path.LawfulWrite` / `Path.write_lawful` — all of it together.
-/

namespace DocRepair

/-! ## One key -/

namespace Value

variable {c after new : Value} {k m : Key}

/-- Two objects, or two arrays. -/
def Alike : Value → Value → Prop
  | .object _, .object _ => True
  | .array _, .array _ => True
  | _, _ => False

theorem alike_assign (run : c.assign k new = .ok after) : Alike c after := by
  unfold assign at run
  split at run
  · cases run
    trivial
  · split at run
    · cases run
      trivial
    · split at run
      · cases run
        trivial
      · cases run
  · cases run

theorem alike_setChild (container : c.isContainer = true) (k : Key) (new : Value) :
    Alike c (c.setChild k new) := by
  cases c with
  | object fs => cases k <;> trivial
  | array xs => cases k <;> trivial
  | _ => cases container

theorem Alike.symm (alike : Alike c after) : Alike after c := by
  cases c with
  | object fs =>
    cases after with
    | object gs => trivial
    | _ => exact alike.elim
  | array xs =>
    cases after with
    | array ys => trivial
    | _ => exact alike.elim
  | _ => exact alike.elim

theorem Alike.object {fs : Fields} (alike : Alike c (.object fs)) : ∃ gs, c = .object gs := by
  cases c with
  | object gs => exact ⟨gs, rfl⟩
  | _ => exact alike.elim

/-- A write under a key leaves all other keys alone, those that are missing too. -/
theorem child?_assign_other (run : c.assign k new = .ok after) (other : m ≠ k) :
    after.child? m = c.child? m := by
  unfold assign at run
  split at run
  · cases run
    exact child?_setChild_ne (v := .object _) (k := .field _) other new
  · rename_i xs i
    split at run
    · cases run
      exact child?_setChild_ne (v := .array _) (k := .index _) other new
    · split at run
      · rename_i last
        cases run
        cases m with
        | field name => rfl
        | index j =>
          have apart : j ≠ xs.length := fun same => other (by rw [same, last])
          show (xs ++ [new])[j]? = xs[j]?
          rcases Nat.lt_or_gt_of_ne apart with inside | beyond
          · exact List.getElem?_append_left inside
          · rw [List.getElem?_eq_none (by simp; omega), List.getElem?_eq_none (by omega)]
      · cases run
  · cases run

theorem at?_other {w : Location} (same : after.child? m = c.child? m) :
    after.at? (m :: w) = c.at? (m :: w) := by
  rw [at?_cons, at?_cons, same]

/-- An array keeps its length under a write, or has one item more: then the write went to the index
    behind the last one. -/
theorem assign_array {xs : List Value} (run : (array xs).assign k new = .ok after) :
    ∃ ys, after = .array ys ∧
      (ys.length = xs.length ∨ ys.length = xs.length + 1 ∧ k = .index xs.length) := by
  cases k with
  | field name => cases run
  | index i =>
    unfold assign at run
    dsimp only at run
    split at run
    · cases run
      exact ⟨_, rfl, .inl List.length_set⟩
    · split at run
      · rename_i last
        cases run
        exact ⟨_, rfl, .inr ⟨List.length_append, congrArg Key.index last⟩⟩
      · cases run

/-- The marker of absence holds nothing. -/
theorem at?_of_nothing {w : Location} {v : Value} (nothing : Path.present (c.child? k) = none)
    (held : c.at? (k :: w) = some v) : w = [] ∧ v = .absent := by
  rw [at?_cons] at held
  obtain ⟨x, child, below⟩ := Option.bind_eq_some_iff.1 held
  rw [child] at nothing
  cases x with
  | absent =>
    cases w with
    | nil => exact ⟨rfl, (Option.some.inj below).symm⟩
    | cons m rest =>
      rw [at?_cons, child?_leaf rfl] at below
      cases below
  | _ => cases nothing

end Value

/-! ## Landings -/

namespace Landing

/-- The way to what a landing writes. -/
def way (l : Landing) : Location := l.place.way ++ l.below.map .field

/-- The locations of the objects that a landing makes, outermost first. -/
def made (l : Landing) : List Location :=
  (List.range l.below.length).map fun i => l.place.way ++ (l.below.take i).map .field

theorem made_length (l : Landing) : l.made.length = l.below.length := by
  rw [made, List.length_map, List.length_range]

theorem mem_made_under {k : Key} {l : Landing} {w : Location} :
    w ∈ (l.under [k]).made ↔ ∃ u ∈ l.made, w = k :: u := by
  unfold made
  simp only [List.mem_map, List.mem_range]
  constructor
  · rintro ⟨i, inside, rfl⟩
    exact ⟨_, ⟨i, inside, rfl⟩, rfl⟩
  · rintro ⟨_, ⟨i, inside, rfl⟩, rfl⟩
    exact ⟨i, inside, rfl⟩

/-- What is made lies on the way to what is written. -/
theorem way_of_made {l : Landing} {w : Location} (among : w ∈ l.made) :
    ∃ k rest, l.way = w ++ k :: rest := by
  obtain ⟨i, inside, rfl⟩ := List.mem_map.1 among
  rw [List.mem_range] at inside
  refine ⟨.field l.below[i], (l.below.drop (i + 1)).map .field, ?_⟩
  have parts : l.below = l.below.take i ++ l.below[i] :: l.below.drop (i + 1) := by
    rw [List.getElem_cons_drop, List.take_append_drop]
  unfold way
  conv => lhs; rw [parts]
  rw [List.map_append, List.map_cons, List.append_assoc]

/-- The objects in what a landing writes: those that it makes, and those in the value. -/
theorem nest_objects {names : List String} {v : Value} {u : Location} {fs : Fields}
    (held : (nest names v).at? u = some (.object fs)) :
    (∃ i < names.length, u = (names.take i).map .field) ∨ ∃ rest, u = names.map .field ++ rest := by
  induction names generalizing u with
  | nil => exact .inr ⟨u, rfl⟩
  | cons name names ih =>
    cases u with
    | nil => exact .inl ⟨0, Nat.zero_lt_succ _, rfl⟩
    | cons k u =>
      rw [Value.at?_cons] at held
      obtain ⟨inner, child, below⟩ := Option.bind_eq_some_iff.1 held
      cases k with
      | index i => cases child
      | field other =>
        obtain ⟨rfl, rfl⟩ : other = name ∧ nest names v = inner := by
          have found : (if name = other then some (nest names v) else none) = some inner := child
          split at found
          · rename_i same
            exact ⟨same.symm, Option.some.inj found⟩
          · cases found
        rcases ih below with ⟨i, inside, rfl⟩ | ⟨rest, rfl⟩
        · exact .inl ⟨i + 1, Nat.succ_lt_succ inside, rfl⟩
        · exact .inr ⟨rest, rfl⟩

end Landing

namespace Path

variable {limit : Option Int} {walked names p q : List String} {segment second : String}
  {rest : List String} {c next after v : Value} {k : Key} {l : Landing}

theorem Names.alike (named : Names c segment k) (alike : Value.Alike c after) :
    Names after segment k := by
  cases c with
  | object fs =>
    cases after with
    | object gs => exact named
    | _ => exact alike.elim
  | array xs =>
    cases after with
    | array ys => exact named
    | _ => exact alike.elim
  | _ => exact alike.elim

/-- A segment leads to the same in two containers that are alike, and hold the same under the key
    that it names. -/
theorem childAt_congr (alike : Value.Alike c after)
    (same : ∀ k, Names c segment k → after.child? k = c.child? k) :
    childAt after segment = childAt c segment := by
  cases c with
  | object fs =>
    cases after with
    | object gs =>
      have found : Fields.get? gs segment = Fields.get? fs segment := same (.field segment) rfl
      unfold childAt
      dsimp only
      rw [found]
    | _ => exact alike.elim
  | array xs =>
    cases after with
    | array ys =>
      unfold childAt
      dsimp only
      cases spelled : index? segment with
      | error fault => rfl
      | ok i =>
        cases i with
        | none => rfl
        | some i =>
          have found : ys[i]? = xs[i]? := same (.index i) ⟨i, spelled, rfl⟩
          show Except.ok (ys[i]?.map _) = .ok (xs[i]?.map _)
          rw [found]
    | _ => exact alike.elim
  | _ => exact alike.elim

/-- A segment that does not name the key of a write leads to what it led to before. -/
theorem childAt_assign (run : c.assign k next = .ok after) (other : ¬ Names after segment k) :
    childAt after segment = childAt c segment := by
  have alike := Value.alike_assign run
  refine childAt_congr alike fun m names => Value.child?_assign_other run ?_
  rintro rfl
  exact other (names.alike alike)

theorem childAt_setChild (container : c.isContainer = true)
    (other : ¬ Names (c.setChild k next) segment k) :
    childAt (c.setChild k next) segment = childAt c segment := by
  have alike := Value.alike_setChild container k next
  refine childAt_congr alike fun m names => Value.child?_setChild_ne ?_ next
  rintro rfl
  exact other (names.alike alike)

/-! ## A write as a relation -/

/-- A write of a value to segments has made one container of another. It landed at the last segment,
    made objects for all segments behind one that led nowhere, or went on below a child. -/
inductive Wrote (v : Value) : Value → List String → Landing → Value → Prop
  | here {c after : Value} {segment : String} {k : Key} (named : Names c segment k)
      (run : c.assign k v = .ok after) : Wrote v c [segment] ⟨⟨[], k⟩, []⟩ after
  | made {c after : Value} {segment second : String} {rest : List String} {k : Key}
      (named : Names c segment k) (nothing : present (c.child? k) = none)
      (run : c.assign k (Landing.nest (second :: rest) v) = .ok after) :
      Wrote v c (segment :: second :: rest) ⟨⟨[], k⟩, second :: rest⟩ after
  | under {c next after : Value} {segment second : String} {rest : List String} {k : Key}
      {l : Landing} (named : Names c segment k) (held : c.child? k = some next)
      (below : Wrote v next (second :: rest) l after) :
      Wrote v c (segment :: second :: rest) (l.under [k]) (c.setChild k after)

/-- Where nothing is present, there is at most a marker of absence. -/
theorem scalar_of_nothing (nothing : present (c.child? k) = none) (held : c.child? k = some next) :
    next.isContainer = false := by
  rw [held] at nothing
  cases next with
  | absent => rfl
  | _ => cases nothing

theorem nothing_of_writableChild (named : Names c segment k)
    (run : writableChild c segment = .ok none) : present (c.child? k) = none := by
  cases held : present (c.child? k) with
  | none => rfl
  | some next =>
    obtain ⟨child, there⟩ := present_eq_some.1 held
    rw [writableChild_eq_some.2 ⟨named, child, there⟩] at run
    cases run

/-- **A write goes by the relation**, and makes as many objects as the limit allows. -/
theorem wrote_of_landing (container : c.isContainer = true)
    (lands : landingFrom limit walked c names = .ok l) (run : l.put c v = .ok after) :
    Wrote v c names l after ∧ (l.below = [] ∨ within limit l.below.length = true) := by
  induction names generalizing walked c l after with
  | nil => cases lands
  | cons segment rest ih =>
    cases rest with
    | nil =>
      obtain ⟨k, key, lands⟩ := bind_eq_ok.1 lands
      cases lands
      rw [Landing.put_here] at run
      exact ⟨.here (names_of_containerKey container key) run, .inl rfl⟩
    | cons second rest =>
      unfold landingFrom at lands
      obtain ⟨child, leads, lands⟩ := bind_eq_ok.1 lands
      cases child with
      | none =>
        dsimp only at lands
        split at lands
        · rename_i allowed
          obtain ⟨k, key, lands⟩ := bind_eq_ok.1 lands
          cases lands
          rw [Landing.put_here] at run
          have named := names_of_containerKey container key
          exact ⟨.made named (nothing_of_writableChild named leads) run, .inr allowed⟩
        · cases lands
      | some found =>
        obtain ⟨k, next⟩ := found
        obtain ⟨named, held, _⟩ := writableChild_eq_some.1 leads
        dsimp only at lands
        split at lands
        · rename_i goesOn
          obtain ⟨inner, below, lands⟩ := bind_eq_ok.1 lands
          cases lands
          rw [Landing.put_under held] at run
          cases puts : inner.put next v with
          | error fault =>
            rw [puts] at run
            cases run
          | ok next' =>
            rw [puts] at run
            cases run
            obtain ⟨wrote, few⟩ := ih goesOn below puts
            exact ⟨.under named held wrote, few⟩
        · cases lands

/-- New objects lead to the value in them. -/
theorem leads_nest (names : List String) (v : Value) :
    Leads (Landing.nest names v) names (names.map .field) v := by
  induction names with
  | nil => exact .nil v
  | cons name names ih =>
    refine .cons (c := .object [(name, Landing.nest names v)]) rfl ?_ ih
    show Fields.get? [(name, _)] name = _
    rw [Fields.get?, if_pos rfl]

namespace Wrote

theorem isContainer (wrote : Wrote v c names l after) : c.isContainer = true := by
  cases wrote with
  | here named _ => exact named.isContainer
  | made named _ _ => exact named.isContainer
  | under named _ _ => exact named.isContainer

/-- **The segments lead to what was written.** -/
theorem leads (wrote : Wrote v c names l after) : Leads after names l.way v := by
  induction wrote with
  | here named run =>
    exact .cons (named.assign run) (Value.child?_assign_self run) (.nil v)
  | made named nothing run =>
    exact .cons (named.assign run) (Value.child?_assign_self run) (leads_nest _ v)
  | under named held below ih =>
    exact .cons (named.setChild _) (Value.child?_setChild_self held _) ih

/-- Where objects were made, nothing was present. -/
theorem nothing (wrote : Wrote v c names l after) {w : Location} (among : w ∈ l.made) :
    present (c.at? w) = none := by
  induction wrote generalizing w with
  | here named run => cases among
  | @made c after segment second rest k named nothing run =>
    obtain ⟨i, inside, rfl⟩ := List.mem_map.1 among
    cases found : present (c.at? (k :: ((second :: rest).take i).map .field)) with
    | none => exact found
    | some x =>
      obtain ⟨held, there⟩ := present_eq_some.1 found
      obtain ⟨_, rfl⟩ := Value.at?_of_nothing nothing held
      cases there
  | under named held below ih =>
    obtain ⟨u, inner, rfl⟩ := Landing.mem_made_under.1 among
    rw [Value.at?_cons, held]
    exact ih inner

/-- **All objects were there before, or were made, or are part of what was written.** -/
theorem objects (wrote : Wrote v c names l after) {w : Location} {fs : Fields}
    (held : after.at? w = some (.object fs)) :
    (∃ gs, c.at? w = some (.object gs)) ∨ w ∈ l.made ∨ ∃ rest, w = l.way ++ rest := by
  induction wrote generalizing w with
  | @here c after segment k named run =>
    cases w with
    | nil =>
      cases held
      obtain ⟨gs, rfl⟩ := (Value.alike_assign run).object
      exact .inl ⟨gs, rfl⟩
    | cons m w =>
      by_cases same : m = k
      · exact .inr (.inr ⟨w, by rw [same]; rfl⟩)
      · rw [Value.at?_other (Value.child?_assign_other run same)] at held
        exact .inl ⟨fs, held⟩
  | @made c after segment second rest k named nothing run =>
    cases w with
    | nil =>
      cases held
      obtain ⟨gs, rfl⟩ := (Value.alike_assign run).object
      exact .inl ⟨gs, rfl⟩
    | cons m w =>
      by_cases same : m = k
      · subst same
        rw [Value.at?_cons, Value.child?_assign_self run, Option.bind_some] at held
        rcases Landing.nest_objects held with ⟨i, inside, rfl⟩ | ⟨more, rfl⟩
        · exact .inr (.inl (List.mem_map.2 ⟨i, List.mem_range.2 inside, rfl⟩))
        · exact .inr (.inr ⟨more, rfl⟩)
      · rw [Value.at?_other (Value.child?_assign_other run same)] at held
        exact .inl ⟨fs, held⟩
  | @under c next after segment second rest k l named child below ih =>
    cases w with
    | nil =>
      have alike := Value.alike_setChild named.isContainer k after
      rw [Option.some.inj held] at alike
      obtain ⟨gs, rfl⟩ := alike.object
      exact .inl ⟨gs, rfl⟩
    | cons m w =>
      by_cases same : m = k
      · subst same
        rw [Value.at?_cons, Value.child?_setChild_self child, Option.bind_some] at held
        rw [Value.at?_cons, child, Option.bind_some]
        rcases ih held with old | made | ⟨more, rfl⟩
        · exact .inl old
        · exact .inr (.inl (Landing.mem_made_under.2 ⟨w, made, rfl⟩))
        · exact .inr (.inr ⟨more, rfl⟩)
      · rw [Value.at?_other (Value.child?_setChild_ne same after)] at held
        exact .inl ⟨fs, held⟩

/-- **An array above what was written keeps its length**, unless the write went to the index behind
    its last one. -/
theorem arrays (wrote : Wrote v c names l after) {w : Location} {xs : List Value}
    (held : c.at? w = some (.array xs)) (above : ∀ rest, w ≠ l.way ++ rest) :
    ∃ ys, after.at? w = some (.array ys) ∧
      (ys.length = xs.length ∨ ys.length = xs.length + 1 ∧ l.place = ⟨w, .index xs.length⟩) := by
  induction wrote generalizing w with
  | @here c after segment k named run =>
    cases w with
    | nil =>
      cases held
      obtain ⟨ys, rfl, length⟩ := Value.assign_array run
      exact ⟨ys, rfl, length.imp_right fun grown => ⟨grown.1, by rw [grown.2]⟩⟩
    | cons m w =>
      have other : m ≠ k := fun same => above w (by rw [same]; rfl)
      rw [Value.at?_other (Value.child?_assign_other run other)]
      exact ⟨xs, held, .inl rfl⟩
  | @made c after segment second rest k named nothing run =>
    cases w with
    | nil =>
      cases held
      obtain ⟨ys, rfl, length⟩ := Value.assign_array run
      exact ⟨ys, rfl, length.imp_right fun grown => ⟨grown.1, by rw [grown.2]⟩⟩
    | cons m w =>
      by_cases same : m = k
      · -- No array lies where objects are made.
        subst same
        cases (Value.at?_of_nothing nothing held).2
      · rw [Value.at?_other (Value.child?_assign_other run same)]
        exact ⟨xs, held, .inl rfl⟩
  | @under c next after segment second rest k l named child below ih =>
    cases w with
    | nil =>
      cases held
      cases k with
      | field name => cases child
      | index i => exact ⟨xs.set i after, rfl, .inl List.length_set⟩
    | cons m w =>
      by_cases same : m = k
      · subst same
        rw [Value.at?_cons, child, Option.bind_some] at held
        obtain ⟨ys, found, length⟩ := ih held fun rest ends => above rest (by rw [ends]; rfl)
        rw [Value.at?_cons, Value.child?_setChild_self child, Option.bind_some]
        refine ⟨ys, found, length.imp_right fun grown => ⟨grown.1, ?_⟩⟩
        rw [Landing.under, grown.2]
        rfl
      · rw [Value.at?_other (Value.child?_setChild_ne same after)]
        exact ⟨xs, held, .inl rfl⟩

/-- **What was there before is written where it was.** -/
theorem kept (wrote : Wrote v c names l after) {x : Value} (before : walk c names = .ok (some x))
    (idField : String) :
    resolveFrom idField c names [] = .ok (some l.place) ∧ l.below = [] := by
  induction wrote with
  | here named run => exact ⟨lastPlace_of_names named, rfl⟩
  | made named nothing run =>
    obtain ⟨way, leads⟩ := walk_eq_some.1 before
    cases leads with
    | cons named' held below =>
      obtain rfl := named.unique named'
      -- Segments are left, and at most a marker of absence is there to lead on.
      cases below with
      | cons goesOn _ _ =>
        have container := goesOn.isContainer
        rw [scalar_of_nothing nothing held] at container
        cases container
  | @under c next after segment second rest k l named held below ih =>
    rw [walk_of_names named, held] at before
    obtain ⟨inner, rest⟩ := ih before
    rw [resolveFrom_under named held below.isContainer, inner]
    exact ⟨rfl, rest⟩

end Wrote

/-! ## Paths that branch off -/

/-- At some container that both lead through, segments go different ways: the first ones name a key
    there, and the others do not name it. -/
inductive Diverge : Value → List String → List String → Prop
  | apart {c : Value} {s t : String} {k : Key} {p q : List String} (named : Names c s k)
      (other : ¬ Names c t k) : Diverge c (s :: p) (t :: q)
  | further {c next : Value} {s t : String} {k : Key} {p q : List String} (named : Names c s k)
      (same : Names c t k) (held : c.child? k = some next) (rest : Diverge next p q) :
      Diverge c (s :: p) (t :: q)

theorem Diverge.isContainer (diverge : Diverge c p q) : c.isContainer = true := by
  cases diverge with
  | apart named _ => exact named.isContainer
  | further named _ _ _ => exact named.isContainer

/-- What branches off from the way through new objects leads nowhere. -/
theorem walk_nest (diverge : Diverge (Landing.nest names v) names q) :
    walk (Landing.nest names v) q = .ok none := by
  induction names generalizing q with
  | nil => cases diverge
  | cons name names ih =>
    have spelled : Names (Landing.nest (name :: names) v) name (.field name) := rfl
    have held : (Landing.nest (name :: names) v).child? (.field name) =
        some (Landing.nest names v) := by
      show Fields.get? [(name, _)] name = _
      rw [Fields.get?, if_pos rfl]
      rfl
    cases diverge with
    | @apart _ _ t _ _ q named other =>
      obtain rfl := spelled.unique named
      have differs : ¬ name = t := fun same => other (congrArg Key.field same)
      have missing : childAt (Landing.nest (name :: names) v) t = .ok none := by
        show Except.ok ((Fields.get? [(name, _)] t).map _) = _
        rw [Fields.get?, if_neg differs]
        rfl
      rw [walk, missing]
      rfl
    | further named same held' rest =>
      obtain rfl := spelled.unique named
      rw [held] at held'
      cases held'
      rw [walk_of_names same, held]
      exact ih rest

namespace Wrote

/-- A path that branches off before a write branches off behind it. -/
theorem diverge (wrote : Wrote v c p l after) (before : Diverge c p q) : Diverge after p q := by
  induction wrote generalizing q with
  | here named run =>
    have alike := Value.alike_assign run
    cases before with
    | apart named' other =>
      exact .apart (named'.alike alike) fun names => other (names.alike alike.symm)
    | further named' same held rest => cases rest
  | made named nothing run =>
    have alike := Value.alike_assign run
    cases before with
    | apart named' other =>
      exact .apart (named'.alike alike) fun names => other (names.alike alike.symm)
    | further named' same held rest =>
      obtain rfl := named.unique named'
      have container := rest.isContainer
      rw [scalar_of_nothing nothing held] at container
      cases container
  | @under c next after segment second rest k l named child below ih =>
    have alike := Value.alike_setChild named.isContainer k after
    cases before with
    | apart named' other =>
      exact .apart (named'.alike alike) fun names => other (names.alike alike.symm)
    | further named' same held rest =>
      obtain rfl := named.unique named'
      rw [child] at held
      cases held
      exact .further (named'.alike alike) (same.alike alike) (Value.child?_setChild_self child after)
        (ih rest)

/-- **A path that branches off leads to what it led to before.** -/
theorem frame (wrote : Wrote v c p l after) (diverge : Diverge after p q) :
    walk after q = walk c q := by
  induction wrote generalizing q with
  | @here c after segment k named run =>
    have alike := Value.alike_assign run
    cases diverge with
    | apart named' other =>
      obtain rfl := (named.alike alike).unique named'
      rw [walk, walk, childAt_assign run other]
    | further named' same held rest => cases rest
  | @made c after segment second rest k named nothing run =>
    have alike := Value.alike_assign run
    cases diverge with
    | apart named' other =>
      obtain rfl := (named.alike alike).unique named'
      rw [walk, walk, childAt_assign run other]
    | @further _ next' _ t _ _ q named' same held rest =>
      obtain rfl := (named.alike alike).unique named'
      have child := Value.child?_assign_self run
      rw [child] at held
      cases held
      rw [walk_of_names same, child, walk_of_names (same.alike alike.symm)]
      show walk (Landing.nest _ v) q = _
      rw [walk_nest rest]
      -- There was nothing there, or a marker of absence, below which there is nothing.
      cases before : c.child? k with
      | none => rfl
      | some x =>
        cases rest with
        | apart _ _ => exact (walk_scalar (scalar_of_nothing nothing before)).symm
        | further _ _ _ _ => exact (walk_scalar (scalar_of_nothing nothing before)).symm
  | @under c next after segment second rest k l named child below ih =>
    have alike := Value.alike_setChild named.isContainer k after
    cases diverge with
    | apart named' other =>
      obtain rfl := (named.alike alike).unique named'
      rw [walk, walk, childAt_setChild named.isContainer other]
    | @further _ next' _ t _ _ q named' same held rest =>
      obtain rfl := (named.alike alike).unique named'
      have child' := Value.child?_setChild_self child after
      rw [child'] at held
      cases held
      rw [walk_of_names same, child', walk_of_names (same.alike alike.symm), child]
      exact ih rest

end Wrote

/-! ## Writes to paths -/

variable {doc path : Value}

/-- Paths whose segments go different ways at some container of a document. -/
def Diverges (doc path other : Value) : Prop :=
  ∃ p q, split path = .ok p ∧ split other = .ok q ∧ Diverge doc p q

/-- What a write to a path, which has found its landing, leaves of a document. -/
structure LawfulWrite (limit : Option Int) (doc path v : Value) (l : Landing) (after : Value) :
    Prop where
  /-- The value is read at the path. -/
  read : read? after path = .ok (some v)
  /-- The segments of the path lead to it. -/
  leads : ∃ names, split path = .ok names ∧ Leads after names l.way v
  /-- A path that branches off, before the write or behind it, finds what it found. -/
  frame : ∀ other, Diverges doc path other ∨ Diverges after path other →
    has after other = has doc other ∧ read? after other = read? doc other
  /-- No more objects are made than the limit allows. -/
  few : ∀ n, limit = some n → (l.made.length : Int) ≤ max n 0
  /-- They are made on the way to the value, where nothing was present. -/
  onTheWay : ∀ w ∈ l.made, (∃ k rest, l.way = w ++ k :: rest) ∧ present (doc.at? w) = none
  /-- All other objects were there before, or are part of the value. -/
  objects : ∀ w fs, after.at? w = some (.object fs) →
    (∃ gs, doc.at? w = some (.object gs)) ∨ w ∈ l.made ∨ ∃ rest, w = l.way ++ rest
  /-- An array that is not overwritten grows by one item at most, and only if the write goes to the
      index behind its last one. -/
  arrays : ∀ w xs, doc.at? w = some (.array xs) → (∀ rest, w ≠ l.way ++ rest) →
    ∃ ys, after.at? w = some (.array ys) ∧
      (ys.length = xs.length ∨ ys.length = xs.length + 1 ∧ l.place = ⟨w, .index xs.length⟩)
  /-- What was there before is written at the place where it is found. -/
  kept : has doc path = .ok true →
    ∀ idField, resolve idField doc path .null = .ok (some l.place) ∧ l.below = []

/-- Paths of which one branches off keep what the segments of the other lead to. -/
theorem Wrote.frame_paths {other : Value} (wrote : Wrote v doc names l after)
    (splits : split path = .ok names)
    (diverges : Diverges doc path other ∨ Diverges after path other) :
    has after other = has doc other ∧ read? after other = read? doc other := by
  have behind : ∃ q, split other = .ok q ∧ Diverge after names q := by
    rcases diverges with ⟨p, q, splits', others, diverge⟩ | ⟨p, q, splits', others, diverge⟩
    · rw [splits] at splits'
      cases splits'
      exact ⟨q, others, wrote.diverge diverge⟩
    · rw [splits] at splits'
      cases splits'
      exact ⟨q, others, diverge⟩
  obtain ⟨q, others, diverge⟩ := behind
  rw [has_eq others, has_eq others, read?_eq others, read?_eq others, wrote.frame diverge]
  exact ⟨rfl, rfl⟩

/-- **A write to a path is a lawful update.** Where a write to an object has found its landing, it goes
    through. The value is read at the path, paths that branch off read as before, no more objects
    are made than the limit allows, all of them on the path, an array grows only by a write to the
    index behind its last one, and a path that was there before is written where it is found. -/
theorem write_lawful {limit : Option Int} (obj : doc.isObject = true)
    (found : landing limit doc path = .ok l) (v : Value) :
    ∃ after, l.put doc v = .ok after ∧ LawfulWrite limit doc path v l after := by
  obtain ⟨after, puts⟩ := landing_puts obj found v
  obtain ⟨names, splits, lands⟩ := bind_eq_ok.1 found
  obtain ⟨wrote, few⟩ := wrote_of_landing (Value.isContainer_of_isObject obj) lands puts
  refine ⟨after, puts, ?_, ⟨names, splits, wrote.leads⟩, fun other => wrote.frame_paths splits, ?_,
    fun w among => ⟨Landing.way_of_made among, wrote.nothing among⟩, fun w fs => wrote.objects,
    fun w xs => wrote.arrays, ?_⟩
  · rw [read?_eq splits]
    exact walk_eq_some.2 ⟨l.way, wrote.leads⟩
  · rintro n rfl
    rw [Landing.made_length]
    rcases few with none | allowed
    · rw [none]
      exact Int.le_max_right n 0
    · exact Int.le_trans (of_decide_eq_true allowed) (Int.le_max_left n 0)
  · intro there idField
    rw [has_eq splits] at there
    cases before : walk doc names with
    | error fault =>
      rw [before] at there
      cases there
    | ok reached =>
      rw [before] at there
      cases reached with
      | none => cases there
      | some x =>
        obtain ⟨resolved, rest⟩ := wrote.kept before idField
        refine ⟨?_, rest⟩
        unfold resolve
        rw [splits]
        exact resolved

/-- An item is added behind the last one of an array, and two objects are made for the value. -/
theorem write_lawful_new_item :
    let doc : Value := .object [("xs", .array [.int 7])]
    let path : Value := .text "xs.01.k.m"
    ∃ l after, landing (some 2) doc path = .ok l ∧ l.put doc (.int 5) = .ok after ∧
      LawfulWrite (some 2) doc path (.int 5) l after ∧
      l.place = ⟨[.field "xs"], .index 1⟩ ∧ l.made.length = 2 ∧
      read? after path = .ok (some (.int 5)) := by
  intro doc path
  have lands : ∃ l, landing (some 2) doc path = .ok l ∧ l.place = ⟨[.field "xs"], .index 1⟩ ∧
      l.made.length = 2 := ⟨_, rfl, rfl, rfl⟩
  obtain ⟨l, found, place, made⟩ := lands
  obtain ⟨after, puts, lawful⟩ := write_lawful rfl found (.int 5)
  exact ⟨l, after, found, puts, lawful, place, made, lawful.read⟩

end Path

end DocRepair

import DocRepair.Proofs.Kept
/-!
# `DocRepair.Proofs.Rewritten` — of two writes to a path the later one counts

A write to a path makes what is missing on the way, so a second write to the path goes through what
the first one made, and lands where that one did. What it leaves is what it would have left without
the first. Whether a write goes through does not depend on the value written.

## Contents

* `Value.assign_assign` / `Value.assign_setChild` — one key, written twice;
* `Landing.put_under` — a write, one key further down;
* `Path.nest_rewrite` — a write into new objects;
* `Path.landingFrom_rewrite` — a write behind another one, segment by segment;
* `Path.write_write` / `Path.write_stops` — two writes to a path.
-/

namespace DocRepair

/-! ## One key -/

namespace Value

variable {c after v w : Value} {k : Key}

/-- Behind a write under a key, another value there is what a write of that value leaves. -/
theorem assign_setChild (run : c.assign k v = .ok after) (w : Value) :
    c.assign k w = .ok (after.setChild k w) := by
  unfold assign at run ⊢
  split at run
  · cases run
    exact congrArg (Except.ok ∘ object) (Fields.set_set _ _ v w).symm
  · rename_i xs i
    split at run
    · rename_i inside
      cases run
      rw [if_pos inside]
      exact congrArg (Except.ok ∘ array) (List.set_set v).symm
    · rename_i outside
      split at run
      · rename_i last
        cases run
        rw [if_neg outside, if_pos last]
        have appended : (xs ++ [v]).set i w = xs ++ [w] := by
          rw [last, List.set_append_right _ _ (Nat.le_refl _), Nat.sub_self]
          rfl
        exact congrArg (Except.ok ∘ array) appended.symm
      · cases run
  · cases run

/-- A key that was written is there, and another write under it replaces what it holds. -/
theorem assign_assign (run : c.assign k v = .ok after) (w : Value) :
    after.assign k w = c.assign k w := by
  rw [assign_setChild run w]
  have held := child?_assign_self run
  unfold child? at held
  split at held
  · rfl
  · rename_i xs i
    obtain ⟨bound, _⟩ := List.getElem?_eq_some_iff.1 held
    show (if i < xs.length then _ else _) = _
    rw [if_pos bound]
    rfl
  · cases held

/-- Only containers are written to, and they stay containers. -/
theorem isContainer_assign (run : c.assign k v = .ok after) : after.isContainer = true := by
  unfold assign at run
  split at run
  · cases run
    rfl
  · split at run
    · cases run
      rfl
    · split at run
      · cases run
        rfl
      · cases run
  · cases run

theorem isContainer_setChild (c : Value) (k : Key) (v : Value) :
    (c.setChild k v).isContainer = c.isContainer := by
  unfold setChild
  split <;> rfl

theorem assign_stops {fault : Fault} (stop : c.assign k v = .error fault) (w : Value) :
    c.assign k w = .error fault := by
  unfold assign at stop ⊢
  split at stop
  · cases stop
  · split at stop
    · cases stop
    · rename_i outside
      split at stop
      · cases stop
      · rename_i beyond
        rw [if_neg outside, if_neg beyond]
        exact stop
  · exact stop

end Value

/-! ## Landings -/

namespace Landing

variable {l : Landing} {c next after v : Value} {k : Key}

/-- A write one key further down is a write to what that key holds. -/
theorem put_under (held : c.child? k = some next) (l : Landing) (v : Value) :
    (l.under [k]).put c v = (l.put next v).map (c.setChild k) := by
  unfold put under Place.put Place.under
  simp only [List.cons_append, List.nil_append]
  rw [Value.at?_cons, held, Option.bind_some]
  cases below : next.at? l.place.container with
  | none =>
    show Except.ok c = .ok (c.setChild k next)
    rw [Value.setChild_self held]
  | some inner =>
    dsimp only
    cases inner.assign l.place.key (nest l.below v) with
    | error fault => rfl
    | ok new =>
      show Except.ok (c.replaceAt (k :: l.place.container) new) = _
      rw [Value.replaceAt_cons held]
      rfl

/-- A write to a key of the container itself. -/
theorem put_here (k : Key) (names : List String) (c v : Value) :
    (⟨⟨[], k⟩, names⟩ : Landing).put c v = c.assign k (nest names v) := by
  show (c.assign k (nest names v)).map _ = _
  cases c.assign k (nest names v) <;> rfl

/-- A write leaves a container a container. -/
theorem isContainer_put (container : c.isContainer = true) (run : l.put c v = .ok after) :
    after.isContainer = true := by
  unfold put Place.put at run
  split at run
  · rename_i inner held
    cases assigned : inner.assign l.place.key (nest l.below v) with
    | error fault =>
      rw [assigned] at run
      cases run
    | ok new =>
      rw [assigned] at run
      cases run
      cases way : l.place.container with
      | nil => exact Value.isContainer_assign assigned
      | cons k rest =>
        rw [Value.replaceAt]
        split
        · rw [Value.isContainer_setChild]
          exact container
        · exact container
  · cases run
    exact container

theorem put_stops {fault : Fault} (stop : l.put c v = .error fault) (w : Value) :
    l.put c w = .error fault := by
  unfold put Place.put at stop ⊢
  split at stop
  · rename_i inner held
    cases assigned : inner.assign l.place.key (nest l.below v) with
    | error cause =>
      rw [assigned] at stop
      cases stop
      rw [Value.assign_stops assigned]
      rfl
    | ok new =>
      rw [assigned] at stop
      cases stop
  · cases stop

end Landing

/-! ## Paths -/

namespace Path

variable {limit : Option Int} {walked names : List String} {c after v w : Value} {l : Landing}

/-- A segment names the same key in a longer array. -/
theorem containerKey_longer {xs ys : List Value} {segment : String} {k : Key}
    (key : containerKey (.array xs) segment = .ok k) (longer : xs.length ≤ ys.length) :
    containerKey (.array ys) segment = .ok k := by
  obtain ⟨i, spelled, key⟩ := bind_eq_ok.1 key
  refine bind_eq_ok.2 ⟨i, spelled, ?_⟩
  cases i with
  | none => cases key
  | some i =>
    dsimp only at key ⊢
    split at key
    · rename_i bounded
      rw [if_pos (Nat.le_trans bounded longer)]
      exact key
    · cases key

/-- A segment that named a key names it still when something was written under it. -/
theorem containerKey_assign {segment : String} {k : Key} (key : containerKey c segment = .ok k)
    (run : c.assign k v = .ok after) : containerKey after segment = .ok k := by
  unfold Value.assign at run
  split at run
  · cases run
    exact key
  · rename_i xs i
    split at run
    · cases run
      exact containerKey_longer key (by simp)
    · split at run
      · cases run
        exact containerKey_longer key (by simp)
      · cases run
  · cases run

/-- A segment names a key in a container: a field, or the index that it spells. -/
def Names (c : Value) (segment : String) (k : Key) : Prop :=
  match c with
  | .object _ => k = .field segment
  | .array _ => ∃ i, index? segment = .ok (some i) ∧ k = .index i
  | _ => False

theorem names_of_containerKey {segment : String} {k : Key} (container : c.isContainer = true)
    (key : containerKey c segment = .ok k) : Names c segment k := by
  cases c with
  | object fs =>
    cases key
    exact rfl
  | array xs =>
    obtain ⟨i, spelled, key⟩ := bind_eq_ok.1 key
    cases i with
    | none => cases key
    | some i =>
      dsimp only at key
      split at key
      · cases key
        exact ⟨i, spelled, rfl⟩
      · cases key
  | _ => cases container

theorem Names.assign {segment : String} {k : Key} (named : Names c segment k)
    (run : c.assign k v = .ok after) : Names after segment k := by
  unfold Value.assign at run
  split at run
  · cases run
    exact named
  · split at run
    · cases run
      exact named
    · split at run
      · cases run
        exact named
      · cases run
  · cases run

theorem Names.setChild {segment : String} {k : Key} (named : Names c segment k) (v : Value) :
    Names (c.setChild k v) segment k := by
  unfold Value.setChild
  split <;> exact named

/-- The child that a segment names on the way of a write: one that is there under its key. -/
theorem writableChild_eq_some {segment : String} {k : Key} {next : Value} :
    writableChild c segment = .ok (some (k, next)) ↔
      Names c segment k ∧ c.child? k = some next ∧ next.isAbsent = false := by
  cases c with
  | object fs =>
    show Except.ok _ = Except.ok _ ↔ k = .field segment ∧ _
    rw [Except.ok.injEq, Option.map_eq_some_iff]
    constructor
    · rintro ⟨v, found, pair⟩
      cases pair
      exact ⟨rfl, present_eq_some.1 found⟩
    · rintro ⟨rfl, found⟩
      exact ⟨next, present_eq_some.2 found, rfl⟩
  | array xs =>
    constructor
    · intro run
      obtain ⟨i, spelled, run⟩ := bind_eq_ok.1 run
      cases i with
      | none => cases run
      | some i =>
        obtain ⟨v, found, pair⟩ := Option.map_eq_some_iff.1 (Except.ok.inj run)
        cases pair
        exact ⟨⟨i, spelled, rfl⟩, present_eq_some.1 found⟩
    · rintro ⟨⟨i, spelled, rfl⟩, found⟩
      refine bind_eq_ok.2 ⟨some i, spelled, ?_⟩
      exact congrArg Except.ok (Option.map_eq_some_iff.2 ⟨next, present_eq_some.2 found, rfl⟩)
  | _ => exact ⟨fun run => (nomatch run), fun named => named.1.elim⟩

/-- Where a path goes on, its landing is one key further down. -/
theorem landingFrom_under {segment second : String} {rest : List String} {k : Key} {next : Value}
    (child : writableChild c segment = .ok (some (k, next))) (container : next.isContainer = true)
    (below : landingFrom limit (walked ++ [segment]) next (second :: rest) = .ok l) :
    landingFrom limit walked c (segment :: second :: rest) = .ok (l.under [k]) := by
  unfold landingFrom
  simp only [bind, Except.bind, child, container, if_true, below]

/-- Objects made on the way of a write lead on to what was written. -/
theorem nest_rewrite (limit : Option Int) (walked : List String) (name : String)
    (names : List String) (v w : Value) :
    ∃ l, landingFrom limit walked (Landing.nest (name :: names) v) (name :: names) = .ok l ∧
      l.put (Landing.nest (name :: names) v) w = .ok (Landing.nest (name :: names) w) := by
  induction names generalizing walked name with
  | nil =>
    refine ⟨⟨⟨[], .field name⟩, []⟩, rfl, ?_⟩
    show Except.ok (Value.object (Fields.set [(name, v)] name w)) = _
    rw [Fields.set, if_pos rfl]
    rfl
  | cons second rest ih =>
    obtain ⟨l, lands, puts⟩ := ih (walked ++ [name]) second
    have held : (Landing.nest (name :: second :: rest) v).child? (.field name) =
        some (Landing.nest (second :: rest) v) := by
      show Fields.get? [(name, _)] name = _
      rw [Fields.get?, if_pos rfl]
      rfl
    have child : writableChild (Landing.nest (name :: second :: rest) v) name =
        .ok (some (.field name, Landing.nest (second :: rest) v)) :=
      writableChild_eq_some.2 ⟨rfl, held, rfl⟩
    refine ⟨_, landingFrom_under child rfl lands, ?_⟩
    rw [Landing.put_under held, puts]
    show Except.ok (Value.object (Fields.set [(name, _)] name _)) = _
    rw [Fields.set, if_pos rfl]
    rfl

/-- Behind a write into new objects under a key, the way goes on through these objects. -/
theorem made_rewrite {segment second : String} {rest : List String} {k : Key}
    (container : c.isContainer = true) (key : containerKey c segment = .ok k)
    (run : c.assign k (Landing.nest (second :: rest) v) = .ok after) (w : Value) :
    ∃ l, landingFrom limit walked after (segment :: second :: rest) = .ok l ∧
      l.put after w = c.assign k (Landing.nest (second :: rest) w) := by
  have held := Value.child?_assign_self run
  have made : writableChild after segment = .ok (some (k, Landing.nest (second :: rest) v)) :=
    writableChild_eq_some.2 ⟨(names_of_containerKey container key).assign run, held, rfl⟩
  obtain ⟨inner, below, puts⟩ := nest_rewrite limit (walked ++ [segment]) second rest v w
  refine ⟨_, landingFrom_under made rfl below, ?_⟩
  rw [Landing.put_under held, puts, Value.assign_setChild run]
  rfl

/-- Behind a write into a container under a key, the way goes on through what was left of it. -/
theorem under_rewrite {segment second : String} {rest : List String} {k : Key}
    {next next' : Value} {inner inner' : Landing}
    (child : writableChild c segment = .ok (some (k, next))) (container : next.isContainer = true)
    (puts : inner.put next v = .ok next')
    (below : landingFrom limit (walked ++ [segment]) next' (second :: rest) = .ok inner')
    (same : inner'.put next' w = inner.put next w) :
    ∃ l, landingFrom limit walked (c.setChild k next') (segment :: second :: rest) = .ok l ∧
      l.put (c.setChild k next') w = (inner.under [k]).put c w := by
  obtain ⟨named, held, _⟩ := writableChild_eq_some.1 child
  have still : next'.isContainer = true := Landing.isContainer_put container puts
  have there : next'.isAbsent = false := by
    cases next' with
    | absent => cases still
    | _ => rfl
  have held' : (c.setChild k next').child? k = some next' := Value.child?_setChild_self held next'
  refine ⟨_, landingFrom_under
    (writableChild_eq_some.2 ⟨named.setChild next', held', there⟩) still below, ?_⟩
  rw [Landing.put_under held', Landing.put_under held, same]
  congr 1
  exact funext fun new => Value.setChild_setChild c k next' new

/-- **A write behind another one** to the same segments leaves what it would have left without the
    first. -/
theorem landingFrom_rewrite (container : c.isContainer = true)
    (lands : landingFrom limit walked c names = .ok l) (run : l.put c v = .ok after) (w : Value) :
    ∃ l', landingFrom limit walked after names = .ok l' ∧ l'.put after w = l.put c w := by
  induction names generalizing walked c l after with
  | nil => cases lands
  | cons segment rest ih =>
    cases rest with
    | nil =>
      obtain ⟨k, key, lands⟩ := bind_eq_ok.1 lands
      cases lands
      rw [Landing.put_here] at run
      refine ⟨⟨⟨[], k⟩, []⟩, bind_eq_ok.2 ⟨k, containerKey_assign key run, rfl⟩, ?_⟩
      rw [Landing.put_here, Landing.put_here]
      exact Value.assign_assign run w
    | cons second rest =>
      unfold landingFrom at lands
      obtain ⟨child, leads, lands⟩ := bind_eq_ok.1 lands
      cases child with
      | none =>
        -- The first write made the rest of the way.
        dsimp only at lands
        split at lands
        · obtain ⟨k, key, lands⟩ := bind_eq_ok.1 lands
          cases lands
          rw [Landing.put_here] at run
          rw [Landing.put_here]
          exact made_rewrite container key run w
        · cases lands
      | some found =>
        obtain ⟨k, next⟩ := found
        obtain ⟨_, held, _⟩ := writableChild_eq_some.1 leads
        dsimp only at lands
        split at lands
        · rename_i goesOn
          obtain ⟨inner, below, lands⟩ := bind_eq_ok.1 lands
          cases lands
          rw [Landing.put_under held] at run
          cases puts : inner.put next v with
          | error fault =>
            rw [puts] at run
            cases run
          | ok next' =>
            rw [puts] at run
            cases run
            obtain ⟨inner', below', same⟩ := ih goesOn below puts
            exact under_rewrite leads goesOn puts below' same
        · cases lands

/-- **Of two writes to a path the later one counts.** -/
theorem write_write {fs : Fields} {path : Value}
    (run : write limit (.object fs) path v = .ok after) (w : Value) :
    write limit after path w = write limit (.object fs) path w := by
  obtain ⟨l, found, run⟩ := bind_eq_ok.1 run
  obtain ⟨names, segments, lands⟩ := bind_eq_ok.1 found
  obtain ⟨l', lands', same⟩ := landingFrom_rewrite rfl lands run w
  have found' : landing limit after path = .ok l' := bind_eq_ok.2 ⟨names, segments, lands'⟩
  unfold write
  rw [found, found']
  exact same

/-- Whether a write to a path goes through does not depend on the value. -/
theorem write_stops {doc path : Value} {fault : Fault}
    (stop : write limit doc path v = .error fault) (w : Value) :
    write limit doc path w = .error fault := by
  unfold write at stop ⊢
  cases found : landing limit doc path with
  | error cause =>
    rw [found] at stop
    exact stop
  | ok l =>
    rw [found] at stop
    exact Landing.put_stops stop w

theorem top_of_split {path : Value} {n : String} {rest : List String}
    (segments : split path = .ok (n :: rest)) : top path = .ok n := by
  unfold top
  rw [segments]
  rfl

/-- **A write to a path leaves all fields alone** but the one that the path begins with. -/
theorem write_written {fs : Fields} {path : Value}
    (run : write limit (.object fs) path v = .ok after) :
    ∃ n gs, top path = .ok n ∧ after = .object gs ∧ Fields.Written n fs gs := by
  obtain ⟨l, found, run⟩ := bind_eq_ok.1 run
  obtain ⟨n, rest, way, segments, below, _⟩ := landing_way found
  obtain ⟨gs, heq, written⟩ := Place.put_object below run
  exact ⟨n, gs, top_of_split segments, heq, written⟩

end Path

end DocRepair

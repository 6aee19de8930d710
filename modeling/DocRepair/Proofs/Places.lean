import DocRepair.Edit.Fields
import DocRepair.Proofs.Computations
/-!
# `DocRepair.Proofs.Places` — every place of a path lies below its first segment

A path may pass selectors, indexes and levels that a write is still to make. Wherever it ends, the
way there starts with the field that its first segment names, and whatever is done at that place
leaves all other fields of the document alone.

## Contents

* `Fields.Distinct` / `Fields.Written` — fields with different names, and a write of one of them;
* `Place.put_object` / `Place.drop_object` / `Value.replaceAt_object` — changes at a place;
* `Value.replaceAt_self` — a write of what is there already;
* `Fields.Leaf` — `Place.put_leaf` / `Place.drop_leaf` / `Value.replaceAt_leaf`: nothing is changed
  below what is no container;
* `Path.resolve_way` / `Path.landing_way` — where a path leads;
* `DirtySet.touch_ok` / `DirtySet.mem_union` — the names that paths stand for.
-/

namespace DocRepair

/-! ## One field -/

namespace Fields

/-- Fields of which no two have the same name. -/
def Distinct (fs : Fields) : Prop := (names fs).Nodup

theorem get?_eq_none {fs : Fields} {n : String} : get? fs n = none ↔ n ∉ names fs := by
  induction fs with
  | nil => simp [get?, names]
  | cons f rest ih =>
    obtain ⟨k, w⟩ := f
    by_cases h : k = n
    · simp [get?, names, h]
    · have other : ¬ n = k := fun hn => h hn.symm
      simp only [get?, h, if_false, ih, names, List.map_cons, List.mem_cons, other, false_or]

theorem get?_erase_self {fs : Fields} (h : Distinct fs) (n : String) :
    get? (erase fs n) n = none := by
  induction fs with
  | nil => rfl
  | cons f rest ih =>
    obtain ⟨k, w⟩ := f
    obtain ⟨fresh, more⟩ := List.nodup_cons.1 h
    unfold erase
    by_cases hk : k = n
    · rw [if_pos hk]
      exact get?_eq_none.2 (hk ▸ fresh)
    · rw [if_neg hk]
      unfold get?
      rw [if_neg hk]
      exact ih more

theorem erase_of_missing {fs : Fields} {n : String} (h : get? fs n = none) : erase fs n = fs := by
  induction fs with
  | nil => rfl
  | cons f rest ih =>
    obtain ⟨k, w⟩ := f
    unfold get? at h
    split at h
    · cases h
    · rename_i other
      unfold erase
      rw [if_neg other, ih h]

theorem names_set (fs : Fields) (n : String) (v : Value) :
    names (set fs n v) = if n ∈ names fs then names fs else names fs ++ [n] := by
  induction fs with
  | nil => rfl
  | cons f rest ih =>
    obtain ⟨k, w⟩ := f
    unfold set
    by_cases hk : k = n
    · rw [if_pos hk]
      simp [names, hk]
    · rw [if_neg hk]
      have other : ¬ n = k := fun hn => hk hn.symm
      show k :: names (set rest n v) = _
      rw [ih]
      by_cases hn : n ∈ names rest
      · have held : n ∈ names ((k, w) :: rest) := List.mem_cons_of_mem _ hn
        rw [if_pos hn, if_pos held]
        rfl
      · have fresh : n ∉ names ((k, w) :: rest) := by simpa [names, other] using hn
        rw [if_neg hn, if_neg fresh]
        rfl

theorem names_erase_sublist (fs : Fields) (n : String) :
    (names (erase fs n)).Sublist (names fs) := by
  induction fs with
  | nil => exact List.Sublist.slnil
  | cons f rest ih =>
    obtain ⟨k, w⟩ := f
    unfold erase
    by_cases hk : k = n
    · rw [if_pos hk]
      exact List.sublist_cons_self k (names rest)
    · rw [if_neg hk]
      exact ih.cons_cons k

theorem Distinct.set {fs : Fields} (h : Distinct fs) (n : String) (v : Value) :
    Distinct (set fs n v) := by
  unfold Distinct
  rw [names_set]
  split
  · exact h
  · rename_i fresh
    refine List.nodup_append.2 ⟨h, by simp, ?_⟩
    intro a ha b hb
    rw [List.mem_singleton] at hb
    rw [hb]
    exact fun heq => fresh (heq ▸ ha)

theorem Distinct.erase {fs : Fields} (h : Distinct fs) (n : String) : Distinct (erase fs n) :=
  h.sublist (names_erase_sublist fs n)

/-- Fields of which one may have been written. -/
def Written (n : String) (fs gs : Fields) : Prop :=
  gs = fs ∨ ∃ v, gs = set fs n v

namespace Written

variable {n : String} {fs gs : Fields}

theorem refl (n : String) (fs : Fields) : Written n fs fs := .inl rfl

theorem set (n : String) (fs : Fields) (v : Value) : Written n fs (Fields.set fs n v) :=
  .inr ⟨v, rfl⟩

theorem same (h : Written n fs gs) {m : String} (hm : m ≠ n) : get? gs m = get? fs m := by
  rcases h with rfl | ⟨v, rfl⟩
  · rfl
  · exact get?_set_ne fs v hm

theorem has (h : Written n fs gs) {m : String} (hm : Fields.has fs m = true) :
    Fields.has gs m = true := by
  rcases h with rfl | ⟨v, rfl⟩
  · exact hm
  · unfold Fields.has
    by_cases hmn : m = n
    · rw [hmn, get?_set_self]
      rfl
    · rw [get?_set_ne fs v hmn]
      exact hm

theorem distinct (h : Written n fs gs) (hd : Distinct fs) : Distinct gs := by
  rcases h with rfl | ⟨v, rfl⟩
  · exact hd
  · exact hd.set n v

end Written

end Fields

/-! ## Changes at a place -/

variable {fs : Fields} {n : String} {way : Location} {p : Place} {v doc new : Value}

/-- A place whose way starts with a field is that field, or lies below it. -/
theorem Place.way_field (h : p.way = .field n :: way) :
    (p = ⟨[], .field n⟩ ∧ way = []) ∨
      ∃ container, p = ⟨.field n :: container, p.key⟩ ∧ way = container ++ [p.key] := by
  obtain ⟨container, key⟩ := p
  cases container with
  | nil =>
    obtain ⟨rfl, rfl⟩ := List.cons.inj h
    exact .inl ⟨rfl, rfl⟩
  | cons k rest =>
    obtain ⟨rfl, rfl⟩ := List.cons.inj h
    exact .inr ⟨rest, rfl, rfl⟩

theorem Value.isContainer_of_isObject (obj : v.isObject = true) : v.isContainer = true := by
  unfold isContainer
  rw [obj]
  rfl

theorem Value.at?_cons (v : Value) (k : Key) (rest : Location) :
    v.at? (k :: rest) = (v.child? k).bind fun c => c.at? rest := by
  cases h : v.child? k with
  | none => simp only [Value.at?, h, Option.bind_none]
  | some c => simp only [Value.at?, h, Option.bind_some]

theorem Value.at?_field (fs : Fields) (n : String) :
    (Value.object fs).at? [.field n] = Fields.get? fs n := by
  rw [Value.at?_cons]
  show (Fields.get? fs n).bind some = _
  exact Option.bind_fun_some _

/-- A write to a field of the document. -/
theorem Place.put_field (hway : p.way = [.field n]) (run : p.put (.object fs) v = .ok doc) :
    doc = .object (Fields.set fs n v) := by
  rcases Place.way_field hway with ⟨rfl, _⟩ | ⟨container, _, hc⟩
  · cases run; rfl
  · exact absurd hc (by simp)

theorem Value.replaceAt_object (fs : Fields) (n : String) (way : Location) (new : Value) :
    ∃ gs, (Value.object fs).replaceAt (.field n :: way) new = .object gs ∧
      Fields.Written n fs gs := by
  unfold Value.replaceAt
  cases found : (Value.object fs).child? (.field n) with
  | none => exact ⟨fs, rfl, .refl n fs⟩
  | some c => exact ⟨_, rfl, .set n fs _⟩

/-- **A write below a field leaves all other fields alone.** -/
theorem Place.put_object (hway : p.way = .field n :: way) (run : p.put (.object fs) v = .ok doc) :
    ∃ gs, doc = .object gs ∧ Fields.Written n fs gs := by
  rcases Place.way_field hway with ⟨rfl, _⟩ | ⟨container, hp, _⟩
  · cases run
    exact ⟨_, rfl, .set n fs v⟩
  · rw [hp] at run
    unfold Place.put at run
    split at run
    · rename_i c _
      cases assigned : c.assign p.key v with
      | error fault => rw [assigned] at run; cases run
      | ok c' =>
        rw [assigned] at run
        cases run
        exact Value.replaceAt_object fs n container c'
    · cases run
      exact ⟨fs, rfl, .refl n fs⟩

/-- **A removal below a field leaves all other fields alone**, and the field itself if it goes
    further down. -/
theorem Place.drop_object (fs : Fields) (hway : p.way = .field n :: way) :
    ∃ gs, p.drop (.object fs) = .object gs ∧
      (Fields.Written n fs gs ∨ (way = [] ∧ gs = Fields.erase fs n)) := by
  rcases Place.way_field hway with ⟨rfl, rfl⟩ | ⟨container, hp, _⟩
  · exact ⟨_, rfl, .inr ⟨rfl, rfl⟩⟩
  · rw [hp]
    unfold Place.drop
    split
    · obtain ⟨gs, hgs, written⟩ := Value.replaceAt_object fs n container _
      exact ⟨gs, hgs, .inl written⟩
    · exact ⟨fs, rfl, .inl (.refl n fs)⟩

/-! ## Writing what is there -/

theorem Fields.set_self (h : Fields.get? fs n = some v) : Fields.set fs n v = fs := by
  induction fs with
  | nil => cases h
  | cons f rest ih =>
    obtain ⟨k, w⟩ := f
    unfold Fields.get? at h
    unfold Fields.set
    split at h
    · rename_i hk
      cases h
      rw [if_pos hk]
    · rename_i hk
      rw [if_neg hk, ih h]

theorem Value.setChild_self {c : Value} {k : Key} (h : v.child? k = some c) :
    v.setChild k c = v := by
  unfold Value.child? at h
  split at h
  · exact congrArg Value.object (Fields.set_self h)
  · rename_i xs i
    obtain ⟨hi, rfl⟩ := List.getElem?_eq_some_iff.1 h
    exact congrArg Value.array (List.set_getElem_self hi)
  · cases h

theorem Value.replaceAt_cons {c : Value} {k : Key} (child : v.child? k = some c)
    (rest : Location) (new : Value) :
    v.replaceAt (k :: rest) new = v.setChild k (c.replaceAt rest new) := by
  rw [replaceAt, child]

/-- A document in which a location is given the value that it has. -/
theorem Value.replaceAt_self {c : Value} (h : v.at? way = some c) : v.replaceAt way c = v := by
  induction way generalizing v with
  | nil => cases h; rfl
  | cons k rest ih =>
    unfold Value.at? at h
    unfold Value.replaceAt
    split at h
    · rename_i w child
      show v.setChild k (w.replaceAt rest c) = v
      rw [ih h]
      exact Value.setChild_self child
    · cases h

theorem Value.at?_append (v : Value) (a b : Location) :
    v.at? (a ++ b) = (v.at? a).bind fun c => c.at? b := by
  induction a generalizing v with
  | nil => rfl
  | cons k rest ih =>
    rw [List.cons_append, Value.at?_cons, Value.at?_cons]
    cases v.child? k with
    | none => rfl
    | some c => exact ih c

/-- What a place holds is what lies at the end of its way. -/
theorem Place.value?_eq (p : Place) (doc : Value) : p.value? doc = doc.at? p.way := by
  unfold Place.way Place.value?
  rw [Value.at?_append]
  cases doc.at? p.container with
  | none => rfl
  | some c =>
    show c.child? p.key = c.at? [p.key]
    rw [Value.at?_cons]
    exact (Option.bind_fun_some _).symm

/-! ## Fields that hold no container -/

/-- A field that is missing or holds no container: nothing lies below it. -/
def Fields.Leaf (fs : Fields) (n : String) : Prop :=
  ∀ c, get? fs n = some c → c.isContainer = false

section Leaf

variable {m : String}

theorem Fields.leaf_of_getD (h : (getD fs m).isContainer = false) : Leaf fs m := by
  intro c hc
  rw [getD, hc] at h
  exact h

/-- Below what is no container lies nothing. -/
theorem Value.child?_leaf {k : Key} (h : v.isContainer = false) : v.child? k = none := by
  cases v with
  | object fs => cases h
  | array xs => cases h
  | _ => cases k <;> rfl

theorem Value.at?_leaf (leaf : Fields.Leaf fs n) {c : Value}
    (h : (Value.object fs).at? (.field n :: way) = some c) :
    way = [] ∧ Fields.get? fs n = some c ∧ c.isContainer = false := by
  rw [Value.at?_cons] at h
  obtain ⟨w, found, h⟩ := Option.bind_eq_some_iff.1 h
  have scalar : w.isContainer = false := leaf w found
  cases way with
  | nil =>
    cases h
    exact ⟨rfl, found, scalar⟩
  | cons k rest =>
    rw [Value.at?_cons, Value.child?_leaf scalar] at h
    cases h

theorem Value.replaceAt_below (leaf : Fields.Leaf fs n) (below : way ≠ []) (new : Value) :
    Fields.get? ((Value.object fs).replaceAt (.field n :: way) new).fields n =
      Fields.get? fs n := by
  obtain ⟨k, rest, rfl⟩ := List.exists_cons_of_ne_nil below
  unfold Value.replaceAt
  cases found : (Value.object fs).child? (.field n) with
  | none => rfl
  | some c =>
    have held : Fields.get? fs n = some c := found
    have inside : c.replaceAt (k :: rest) new = c := by
      unfold Value.replaceAt
      rw [Value.child?_leaf (leaf c held)]
    show Fields.get? (Fields.set fs n (c.replaceAt (k :: rest) new)) n = _
    rw [inside, held]
    exact Fields.get?_set_self fs n c

/-- **New values leave a field alone that holds no container**, unless they are for the field
    itself. -/
theorem Value.replaceAt_leaf (leaf : Fields.Leaf fs m) (other : ¬(n = m ∧ way = []))
    (new : Value) :
    Fields.get? ((Value.object fs).replaceAt (.field n :: way) new).fields m =
      Fields.get? fs m := by
  by_cases own : n = m
  · subst own
    exact Value.replaceAt_below leaf (fun whole => other ⟨rfl, whole⟩) new
  · obtain ⟨gs, hgs, written⟩ := Value.replaceAt_object fs n way new
    rw [hgs]
    exact written.same (Ne.symm own)

theorem Value.assign_leaf {k : Key} {w : Value} (h : v.isContainer = false)
    (run : v.assign k new = .ok w) : False := by
  cases v with
  | object fs => cases h
  | array xs => cases h
  | _ => cases k <;> cases run

theorem Value.remove_leaf {k : Key} (h : v.isContainer = false) : v.remove k = v := by
  cases v with
  | object fs => cases h
  | array xs => cases h
  | _ => cases k <;> rfl

/-- **A write leaves a field alone that holds no container**, unless it is to the field itself. -/
theorem Place.put_leaf (leaf : Fields.Leaf fs m) (hway : p.way = .field n :: way)
    (other : ¬(n = m ∧ way = [])) (run : p.put (.object fs) v = .ok doc) :
    Fields.get? doc.fields m = Fields.get? fs m := by
  by_cases own : n = m
  · subst own
    rcases Place.way_field hway with ⟨_, rfl⟩ | ⟨container, hp, _⟩
    · exact absurd ⟨rfl, rfl⟩ other
    · rw [hp] at run
      unfold Place.put at run
      split at run
      · rename_i c found
        obtain ⟨_, _, scalar⟩ := Value.at?_leaf leaf found
        cases assigned : c.assign p.key v with
        | error fault => rw [assigned] at run; cases run
        | ok w => exact (Value.assign_leaf scalar assigned).elim
      · cases run
        rfl
  · obtain ⟨gs, rfl, written⟩ := Place.put_object hway run
    exact written.same (Ne.symm own)

/-- **A removal leaves a field alone that holds no container**, unless it is that of the field
    itself. -/
theorem Place.drop_leaf (leaf : Fields.Leaf fs m) (hway : p.way = .field n :: way)
    (other : ¬(n = m ∧ way = [])) :
    Fields.get? (p.drop (.object fs)).fields m = Fields.get? fs m := by
  by_cases own : n = m
  · subst own
    rcases Place.way_field hway with ⟨_, rfl⟩ | ⟨container, hp, _⟩
    · exact absurd ⟨rfl, rfl⟩ other
    · rw [hp]
      unfold Place.drop
      split
      · rename_i c found
        obtain ⟨_, _, scalar⟩ := Value.at?_leaf leaf found
        show Fields.get? ((Value.object fs).replaceAt (.field n :: container)
          (c.remove p.key)).fields n = _
        rw [Value.remove_leaf scalar, Value.replaceAt_self found]
        rfl
      · rfl
  · obtain ⟨gs, hgs, change⟩ := Place.drop_object fs hway
    rw [hgs]
    rcases change with written | ⟨_, rfl⟩
    · exact written.same (Ne.symm own)
    · exact Fields.get?_erase_ne fs (Ne.symm own)

end Leaf

/-! ## Where a path leads -/

namespace Path

variable {idField : String} {rest : List String} {ids : List (Option Value)}

/-- A way down an object starts with the field that the segment names. -/
theorem childAt_object {k : Key} {c : Value} (run : childAt (.object fs) n = .ok (some (k, c))) :
    k = .field n ∧ Fields.get? fs n = some c := by
  have named : childAt (.object fs) n = .ok ((Fields.get? fs n).map (Key.field n, ·)) := rfl
  rw [named] at run
  cases found : Fields.get? fs n with
  | none => rw [found] at run; cases run
  | some w => rw [found] at run; cases run; exact ⟨rfl, rfl⟩

theorem step_object {selector : Option Value} {down : Location} {next : Value}
    (run : step idField (.object fs) n selector = .ok (some (down, next))) :
    ∃ more, down = .field n :: more := by
  obtain ⟨child, hchild, run⟩ := bind_eq_ok.1 run
  cases child with
  | none => cases run
  | some kv =>
    obtain ⟨k, c⟩ := kv
    obtain ⟨rfl, _⟩ := childAt_object hchild
    cases selector with
    | none => cases run; exact ⟨[], rfl⟩
    | some wanted =>
      obtain ⟨picked, _, run⟩ := bind_eq_ok.1 run
      cases run
      exact ⟨_, rfl⟩

/-- The place that segments name in an object lies below the field that the first of them names, and
    is that field itself only if there are no others. -/
theorem resolveFrom_way (run : resolveFrom idField (.object fs) (n :: rest) ids = .ok (some p)) :
    ∃ way, p.way = .field n :: way ∧ (way = [] → rest = []) := by
  cases rest with
  | nil =>
    unfold resolveFrom at run
    split at run
    · cases run
      exact ⟨[], rfl, fun _ => rfl⟩
    · rename_i wanted _
      obtain ⟨child, hchild, run⟩ := bind_eq_ok.1 run
      cases child with
      | none => cases run
      | some kv =>
        obtain ⟨k, c⟩ := kv
        obtain ⟨rfl, _⟩ := childAt_object hchild
        split at run
        · cases run
        · cases run
        · rename_i heq
          cases heq
          obtain ⟨picked, _, run⟩ := bind_eq_ok.1 run
          cases run
          exact ⟨_, rfl, fun _ => rfl⟩
  | cons second rest =>
    unfold resolveFrom at run
    obtain ⟨down, hdown, run⟩ := bind_eq_ok.1 run
    cases down with
    | none => cases run
    | some wn =>
      obtain ⟨down, next⟩ := wn
      obtain ⟨more, rfl⟩ := step_object hdown
      dsimp only at run
      split at run
      · obtain ⟨q, _, run⟩ := bind_eq_ok.1 run
        cases q with
        | none => cases run
        | some q =>
          cases run
          refine ⟨more ++ q.way, ?_, ?_⟩
          · show (.field n :: more ++ q.container) ++ [q.key] = _
            rw [Place.way, List.cons_append, List.cons_append, List.append_assoc]
          · intro h
            simp [Place.way] at h
      · cases run

/-- Where nothing is present, a field is missing or holds the marker of absence. -/
theorem getD_of_nothing (h : present (Fields.get? fs n) = none) :
    Fields.getD fs n = .null ∨ Fields.getD fs n = .absent := by
  unfold Fields.getD
  cases found : Fields.get? fs n with
  | none => exact .inl rfl
  | some w =>
    rw [found] at h
    cases w with
    | absent => exact .inr rfl
    | _ => cases h

/-- The segments of a path are at least one. -/
theorem split_cons {path : Value} {names : List String} (h : split path = .ok names) :
    ∃ n rest, names = n :: rest := by
  obtain ⟨segs, _, h⟩ := bind_eq_ok.1 h
  cases segs with
  | nil => cases h
  | cons n rest =>
    split at h
    · cases h
    · split at h
      · obtain ⟨_, _, h⟩ := bind_eq_ok.1 h
        cases h
      · cases h
        exact ⟨n, rest, rfl⟩

/-- **Every place of a path lies below its first segment.** -/
theorem resolve_way {path ids : Value} (run : resolve idField (.object fs) path ids = .ok (some p)) :
    ∃ n rest way, split path = .ok (n :: rest) ∧ p.way = .field n :: way ∧
      (way = [] → rest = []) := by
  obtain ⟨names, hnames, run⟩ := bind_eq_ok.1 run
  obtain ⟨wanted, _, run⟩ := bind_eq_ok.1 run
  obtain ⟨n, rest, rfl⟩ := split_cons hnames
  obtain ⟨way, hway, last⟩ := resolveFrom_way run
  exact ⟨n, rest, way, hnames, hway, last⟩

/-- The landing of a write to segments lies below the field that the first of them names. It is that
    field itself if there are no others, or if there is nothing there yet. -/
theorem landingFrom_way {limit : Option Int} {walked : List String} {l : Landing}
    (run : landingFrom limit walked (.object fs) (n :: rest) = .ok l) :
    ∃ way, l.place.way = .field n :: way ∧
      (way = [] → (rest = [] ∧ l.below = []) ∨ present (Fields.get? fs n) = none) := by
  cases rest with
  | nil =>
    cases run
    exact ⟨[], rfl, fun _ => .inl ⟨rfl, rfl⟩⟩
  | cons second rest =>
    unfold landingFrom at run
    obtain ⟨child, hchild, run⟩ := bind_eq_ok.1 run
    cases found : present (Fields.get? fs n) with
    | none =>
      simp only [writableChild, found, Option.map_none] at hchild
      cases hchild
      dsimp only at run
      split at run
      · cases run
        exact ⟨[], rfl, fun _ => .inr rfl⟩
      · cases run
    | some next =>
      simp only [writableChild, found, Option.map_some] at hchild
      cases hchild
      dsimp only at run
      split at run
      · obtain ⟨inner, _, run⟩ := bind_eq_ok.1 run
        cases run
        refine ⟨inner.place.way, rfl, ?_⟩
        intro h
        simp [Place.way] at h
      · cases run

/-- **Every landing of a path lies below its first segment.** -/
theorem landing_way {limit : Option Int} {path : Value} {l : Landing}
    (run : landing limit (.object fs) path = .ok l) :
    ∃ n rest way, split path = .ok (n :: rest) ∧ l.place.way = .field n :: way ∧
      (way = [] → (rest = [] ∧ l.below = []) ∨ present (Fields.get? fs n) = none) := by
  obtain ⟨names, hnames, run⟩ := bind_eq_ok.1 run
  obtain ⟨n, rest, rfl⟩ := split_cons hnames
  obtain ⟨way, hway, last⟩ := landingFrom_way run
  exact ⟨n, rest, way, hnames, hway, last⟩

end Path

/-! ## The names that paths stand for -/

theorem DirtySet.mem_insertAll {d : DirtySet} {names : List String} {x : String} :
    x ∈ (d.insertAll names).fields ↔ x ∈ d.fields ∨ x ∈ names := by
  unfold insertAll
  induction names generalizing d with
  | nil => simp
  | cons name rest ih =>
    rw [List.foldl_cons, ih, mem_insert, List.mem_cons]
    constructor
    · rintro ((rfl | hx) | hx)
      · exact .inr (.inl rfl)
      · exact .inl hx
      · exact .inr (.inr hx)
    · rintro (hx | rfl | hx)
      · exact .inl (.inr hx)
      · exact .inl (.inl rfl)
      · exact .inr hx

theorem DirtySet.mem_union {d e : DirtySet} {x : String} :
    x ∈ (d.union e).fields ↔ x ∈ d.fields ∨ x ∈ e.fields :=
  mem_insertAll

/-- A path counts as its first segment. -/
theorem DirtySet.touch_ok {dirty after : DirtySet} {path : Value}
    (run : dirty.touch path = .ok after) :
    ∃ n rest, Path.split path = .ok (n :: rest) ∧ after = dirty.insert n := by
  obtain ⟨top, htop, run⟩ := bind_eq_ok.1 run
  obtain ⟨names, hnames, htop⟩ := bind_eq_ok.1 htop
  obtain ⟨n, rest, rfl⟩ := Path.split_cons hnames
  cases htop
  cases run
  exact ⟨n, rest, hnames, rfl⟩

end DocRepair

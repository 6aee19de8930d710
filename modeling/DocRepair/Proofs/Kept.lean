import DocRepair.Proofs.Replaced
import DocRepair.Proofs.Steps
/-!
# `DocRepair.Proofs.Kept` — what every run of steps keeps

Three things hold of each step, and so of every edit. Fields that no path begins with stay as they
are. The identifier that a document has is kept, unless the step renames, or goes below an
identifier that is a container. And the value by which a store knows the document is kept if it is a
scalar: it stays where it is, moves along with the items of an array, or is kept apart.

## Contents

* `Draft.Step.same` — the fields that no path begins with;
* `Draft.Step.distinct` / `Draft.Steps.distinct` — no two fields of one name;
* `Draft.Step.identifier` / `Draft.Steps.identifier` — the identifier field;
* `Draft.Step.known_field` / `Draft.Steps.faithful` — documents known by their identifier field;
* `Draft.Steps.untouched` — fields that a run does not go to;
* `Known.value_part` / `Known.value_rearrange` — the known value after a change at a place;
* `Draft.Step.knownValue` / `Draft.Steps.knownValue` — the known value.
-/

namespace DocRepair

theorem Path.present_eq_some {o : Option Value} {v : Value} :
    Path.present o = some v ↔ o = some v ∧ v.isAbsent = false := by
  unfold Path.present
  rw [Option.filter_eq_some_iff, Bool.not_eq_true']

/-- An array does not lie in a field that holds no container. -/
theorem Place.array_apart {fs : Fields} {n m : String} {way : Location} {p : Place}
    {xs : List Value} (leaf : Fields.Leaf fs m) (below : p.way = .field n :: way)
    (held : p.value? (.object fs) = some (.array xs)) : ¬(n = m ∧ way = []) := by
  rintro ⟨rfl, rfl⟩
  rw [Place.value?_eq, below, Value.at?_field] at held
  cases leaf _ held

section Fields

variable {idField : String} {renames : Prop} {names : String → Prop} {d e : Draft} {v : Value}

/-! ## Fields -/

/-- **A step changes no field but those named.** -/
theorem Draft.Step.same (step : Draft.Step idField renames names d e)
    (obj : d.doc.isObject = true) {m : String} (other : ¬ names m) :
    Fields.get? e.doc.fields m = Fields.get? d.doc.fields m := by
  have hobj := Draft.doc_eq_object obj
  have apart {n : String} (named : names n) : m ≠ n := fun same => other (same ▸ named)
  have replaced {p : Place} {n : String} {way : Location} (below : p.way = .field n :: way)
      (named : names n) (new : Value) :
      Fields.get? (d.doc.replaceAt p.way new).fields m = Fields.get? d.doc.fields m := by
    obtain ⟨gs, hgs, written⟩ := Value.replaceAt_object d.doc.fields n way new
    rw [below, hobj, hgs]
    exact written.same (apart named)
  cases step with
  | supply supply => rfl
  | land below named whole put =>
    unfold Landing.put at put
    rw [hobj] at put
    obtain ⟨gs, rfl, written⟩ := Place.put_object below put
    exact written.same (apart named)
  | @drop p w n way below named whole value =>
    obtain ⟨gs, hgs, change⟩ := Place.drop_object d.doc.fields below
    show Fields.get? (p.drop d.doc).fields m = _
    rw [hobj, hgs]
    rcases change with written | ⟨_, rfl⟩
    · exact written.same (apart named)
    · exact Fields.get?_erase_ne _ (apart named)
  | extend below named array more => exact replaced below named _
  | keep below named array kept => exact replaced below named _
  | follow out holds => rfl

/-- A step keeps the names of fields apart. -/
theorem Draft.Step.distinct (step : Draft.Step idField renames names d e)
    (obj : d.doc.isObject = true) (apart : Fields.Distinct d.doc.fields) :
    Fields.Distinct e.doc.fields := by
  have hobj := Draft.doc_eq_object obj
  have replaced {p : Place} {n : String} {way : Location} (below : p.way = .field n :: way)
      (new : Value) : Fields.Distinct (d.doc.replaceAt p.way new).fields := by
    obtain ⟨gs, hgs, written⟩ := Value.replaceAt_object d.doc.fields n way new
    rw [below, hobj, hgs]
    exact written.distinct apart
  cases step with
  | supply supply => exact apart
  | land below named whole put =>
    unfold Landing.put at put
    rw [hobj] at put
    obtain ⟨gs, rfl, written⟩ := Place.put_object below put
    exact written.distinct apart
  | @drop p w n way below named whole value =>
    obtain ⟨gs, hgs, change⟩ := Place.drop_object d.doc.fields below
    show Fields.Distinct (p.drop d.doc).fields
    rw [hobj, hgs]
    rcases change with written | ⟨_, rfl⟩
    · exact written.distinct apart
    · exact apart.erase n
  | extend below named array more => exact replaced below _
  | keep below named array kept => exact replaced below _
  | follow out holds => exact apart

theorem Draft.Steps.distinct (steps : Draft.Steps idField renames names d e)
    (obj : d.doc.isObject = true) (apart : Fields.Distinct d.doc.fields) :
    Fields.Distinct e.doc.fields := by
  induction steps with
  | refl => exact apart
  | tail before step ih => exact step.distinct (Draft.Steps.isObject before obj) ih

/-- A step that does not rename leaves an identifier field alone that holds a scalar. -/
theorem Draft.Step.scalarIdentifier (step : Draft.Step idField renames names d e)
    (obj : d.doc.isObject = true) (keeps : ¬ renames)
    (held : Path.present (Fields.get? d.doc.fields idField) = some v)
    (leaf : Fields.Leaf d.doc.fields idField) :
    Fields.get? e.doc.fields idField = Fields.get? d.doc.fields idField := by
  have hobj := Draft.doc_eq_object obj
  have replaced {p : Place} {n : String} {way : Location} {xs : List Value}
      (below : p.way = .field n :: way) (array : p.value? d.doc = some (.array xs)) (new : Value) :
      Fields.get? (d.doc.replaceAt p.way new).fields idField =
        Fields.get? d.doc.fields idField := by
    rw [hobj] at array
    rw [below, hobj]
    exact Value.replaceAt_leaf leaf (Place.array_apart leaf below array) new
  cases step with
  | supply supply => rfl
  | @land l w doc n way below named whole put =>
    -- The field itself is not written, since something is present there.
    have other : ¬(n = idField ∧ way = []) := by
      rintro ⟨own, top⟩
      have nothing := (whole own top).resolve_left keeps
      rw [own, held] at nothing
      cases nothing
    unfold Landing.put at put
    rw [hobj] at put
    exact Place.put_leaf leaf below other put
  | @drop p w n way below named whole value =>
    show Fields.get? (p.drop d.doc).fields idField = _
    rw [hobj]
    exact Place.drop_leaf leaf below whole
  | extend below named array more => exact replaced below array _
  | keep below named array kept => exact replaced below array _
  | follow out holds => rfl

/-- **A step keeps the identifier** that a document has, unless it renames. If the identifier is a
    container, no step may go below it. -/
theorem Draft.Step.identifier (step : Draft.Step idField renames names d e)
    (obj : d.doc.isObject = true) (keeps : ¬ renames)
    (held : Path.present (Fields.get? d.doc.fields idField) = some v)
    (safe : v.isContainer = false ∨ ¬ names idField) :
    Path.present (Fields.get? e.doc.fields idField) = some v := by
  rcases safe with scalar | other
  · have leaf : Fields.Leaf d.doc.fields idField := by
      intro c hc
      rw [(Path.present_eq_some.1 held).1] at hc
      cases hc
      exact scalar
    rw [step.scalarIdentifier obj keeps held leaf]
    exact held
  · rw [step.same obj other]
    exact held

theorem Draft.Steps.identifier (steps : Draft.Steps idField renames names d e)
    (obj : d.doc.isObject = true) (keeps : ¬ renames)
    (held : Path.present (Fields.get? d.doc.fields idField) = some v)
    (safe : v.isContainer = false ∨ ¬ names idField) :
    Path.present (Fields.get? e.doc.fields idField) = some v := by
  induction steps with
  | refl => exact held
  | tail before step ih => exact step.identifier (Draft.Steps.isObject before obj) keeps ih safe

/-- A document that is known by a field stays known by it in a step at other fields, or if it is the
    identifier field, something is present there, and the step does not rename. -/
theorem Draft.Step.known_field (step : Draft.Step idField renames names d e) {m : String}
    (safe : ¬ names m ∨ (m = idField ∧ ¬ renames ∧
      Path.present (Fields.get? d.doc.fields m) = some v))
    (within : d.known = .within [.field m]) : e.known = .within [.field m] := by
  cases step with
  | supply supply => exact within
  | @land l w doc n way below named whole put =>
    have apart : ¬(n = m ∧ way = []) := by
      rintro ⟨rfl, top⟩
      rcases safe with other | ⟨own, keeps, held⟩
      · exact other named
      · rw [(whole own top).resolve_left keeps] at held
        cases held
    show d.known.part d.doc l.place.way = _
    rw [below, within]
    exact Known.part_within apart
  | @drop p w n way below named whole value =>
    have apart : ¬(n = m ∧ way = []) := by
      rintro ⟨rfl, top⟩
      rcases safe with other | ⟨own, _, _⟩
      · exact other named
      · exact whole ⟨own, top⟩
    exact Edit.close_within below apart within
  | extend below named array more => exact within
  | @keep p xs items stays n way below named array kept =>
    show d.known.rearrange d.doc p.way _ = _
    rw [below, within]
    exact Known.rearrange_within
  | follow out holds =>
    rw [within] at out
    cases out

/-- **A run of steps that do not rename keeps the scalar identifier** of a document, and the document
    known by it. -/
theorem Draft.Steps.faithful (steps : Draft.Steps idField renames names d e)
    (obj : d.doc.isObject = true) (keeps : ¬ renames)
    (held : Path.present (Fields.get? d.doc.fields idField) = some v)
    (scalar : v.isContainer = false) (within : d.known = .within [.field idField]) :
    Path.present (Fields.get? e.doc.fields idField) = some v ∧
      e.known = .within [.field idField] := by
  induction steps with
  | refl => exact ⟨held, within⟩
  | tail before step ih =>
    obtain ⟨still, known⟩ := ih
    have objB := Draft.Steps.isObject before obj
    exact ⟨step.identifier objB keeps still (.inl scalar),
      step.known_field (.inr ⟨rfl, keeps, still⟩) known⟩

/-- **A run of steps leaves a field alone that it does not go to**, and the document known by it. -/
theorem Draft.Steps.untouched (steps : Draft.Steps idField renames names d e)
    (obj : d.doc.isObject = true) {m : String} (other : ¬ names m) :
    Fields.get? e.doc.fields m = Fields.get? d.doc.fields m ∧
      (d.known = .within [.field m] → e.known = .within [.field m]) := by
  induction steps with
  | refl => exact ⟨rfl, fun within => within⟩
  | tail before step ih =>
    have same := step.same (Draft.Steps.isObject before obj) other
    exact ⟨same.trans ih.1, fun within => step.known_field (v := .null) (.inl other) (ih.2 within)⟩

end Fields

/-! ## The known value -/

namespace Known

variable {doc after : Value} {k : Known} {way : Location} {v : Value}

/-- A known value that is no null lies at its location. -/
theorem value_within (known : (Known.within way).value doc = v) (named : v.isNull = false) :
    doc.at? way = some v := by
  have known : (doc.at? way).getD .null = v := known
  cases held : doc.at? way with
  | some w =>
    rw [held] at known
    exact congrArg some known
  | none =>
    rw [held] at known
    cases known
    cases named

theorem value_of_held (held : doc.at? way = some v) : (Known.within way).value doc = v := by
  show (doc.at? way).getD .null = v
  rw [held]
  rfl

/-- **A known scalar that is not at a location or below** is still known if it lies where it lay. -/
theorem value_part (known : k.value doc = v) (named : v.isNull = false)
    (stays : ∀ w, doc.at? w = some v → (∀ rest, w ≠ way ++ rest) → after.at? w = some v) :
    (k.part doc way).value after = v := by
  cases k with
  | apart w => exact known
  | within w =>
    unfold part
    by_cases below : way.isPrefixOf w = true
    · simp only [below, if_true]
      exact known
    · simp only [below, Bool.false_eq_true, if_false]
      exact value_of_held (stays w (value_within known named) fun rest ends =>
        below (isPrefixOf_iff.2 ⟨rest, ends⟩))

/-- **A known scalar in an array whose items move** is known where it lies then. -/
theorem value_rearrange {placeOf : Nat → Option Nat} (known : k.value doc = v)
    (named : v.isNull = false)
    (moves : ∀ i j rest, doc.at? (way ++ .index i :: rest) = some v → placeOf i = some j →
      after.at? (way ++ .index j :: rest) = some v)
    (stays : ∀ w, doc.at? w = some v → (∀ i rest, w ≠ way ++ .index i :: rest) →
      after.at? w = some v) :
    (k.rearrange doc way placeOf).value after = v := by
  cases k with
  | apart w => exact known
  | within w =>
    have held := value_within known named
    unfold rearrange
    split
    · rename_i i rest inside
      cases below?_eq_some.1 inside
      split
      · rename_i j placed
        exact value_of_held (moves i j rest held placed)
      · exact known
    · rename_i outside
      refine value_of_held (stays w held fun i rest ends => outside i rest ?_)
      exact below?_eq_some.2 (congrArg Known.within ends)

/-- Items that keep their places leave the known value where it is. -/
theorem rearrange_some : k.rearrange doc way some = k := by
  unfold rearrange
  split
  · rename_i i rest inside
    exact (below?_eq_some.1 inside).symm
  · rfl

end Known

section Known

variable {idField : String} {renames : Prop} {names : String → Prop} {d e : Draft} {v : Value}

/-- What a container holds under a key is not itself. -/
theorem Value.isContainer_of_child {c : Value} {k : Key} (held : v.child? k = some c) :
    v.isContainer = true := by
  cases v with
  | object fs => rfl
  | array xs => rfl
  | _ => cases k <;> cases held

/-- A write to a place leaves scalars alone that are not there or below. -/
theorem Place.put_off {p : Place} {doc after new : Value} {w : Location}
    (run : p.put doc new = .ok after) (leaf : doc.at? w = some v) (scalar : v.isContainer = false)
    (off : ∀ rest, w ≠ p.way ++ rest) : after.at? w = some v := by
  unfold Place.put at run
  cases held : doc.at? p.container with
  | none =>
    rw [held] at run
    cases run
    exact leaf
  | some c =>
    rw [held] at run
    cases assigned : c.assign p.key new with
    | error fault => simp [assigned, Except.map] at run
    | ok c' =>
      simp only [assigned, Except.map, Except.ok.injEq] at run
      rw [← run]
      refine Value.at?_replaceAt_leaf held leaf scalar fun rest ends => ?_
      subst ends
      rw [Value.at?_append, held, Option.bind_some] at leaf
      cases rest with
      | nil =>
        cases leaf
        exact (Value.assign_leaf scalar assigned).elim
      | cons k rest =>
        have other : k ≠ p.key := by
          rintro rfl
          exact off rest (by rw [Place.way, List.append_assoc]; rfl)
        rw [Value.at?_cons] at leaf ⊢
        obtain ⟨x, child, below⟩ := Option.bind_eq_some_iff.1 leaf
        rw [Value.child?_assign_ne assigned other child]
        exact below

/-- A removal from an array moves the items behind up, and leaves all other scalars alone. -/
theorem Place.drop_array {p : Place} {doc : Value} {xs : List Value} {i : Nat}
    (held : doc.at? p.container = some (.array xs)) (key : p.key = .index i) :
    p.drop doc = doc.replaceAt p.container (.array (xs.eraseIdx i)) := by
  unfold Place.drop
  rw [held, key]
  rfl

/-- What an array holds at an index. -/
theorem Value.at?_item {doc : Value} {way : Location} {xs : List Value} {i : Nat} {rest : Location}
    (held : doc.at? way = some (.array xs)) (leaf : doc.at? (way ++ .index i :: rest) = some v) :
    ∃ x, xs[i]? = some x ∧ x.at? rest = some v := by
  rw [Value.at?_append, held, Option.bind_some, Value.at?_cons] at leaf
  exact Option.bind_eq_some_iff.1 leaf

/-- What lies in an array, in a document that was given new items for it. -/
theorem Value.at?_newItem {doc : Value} {way : Location} {xs items : List Value} {j : Nat}
    {rest : Location} {x : Value} (held : doc.at? way = some (.array xs))
    (item : items[j]? = some x) (leaf : x.at? rest = some v) :
    (doc.replaceAt way (.array items)).at? (way ++ .index j :: rest) = some v := by
  rw [Value.at?_append, Value.at?_replaceAt_self held, Option.bind_some, Value.at?_cons]
  show (items[j]?).bind _ = _
  rw [item]
  exact leaf

/-- New items for an array leave scalars alone that are not among its items or below. -/
theorem Value.at?_offItems {doc : Value} {way w : Location} {xs : List Value}
    (held : doc.at? way = some (.array xs)) (leaf : doc.at? w = some v)
    (scalar : v.isContainer = false) (off : ∀ i rest, w ≠ way ++ .index i :: rest)
    (items : List Value) : (doc.replaceAt way (.array items)).at? w = some v := by
  refine Value.at?_replaceAt_leaf held leaf scalar fun rest ends => ?_
  subst ends
  rw [Value.at?_append, held, Option.bind_some] at leaf
  cases rest with
  | nil => cases leaf; cases scalar
  | cons k rest =>
    cases k with
    | index i => exact absurd rfl (off i rest)
    | field name => cases leaf

theorem Value.child?_remove_ne {name : String} {k : Key} (other : k ≠ .field name) :
    (v.remove (.field name)).child? k = v.child? k := by
  cases v with
  | object fs =>
    cases k with
    | field m => exact Fields.get?_erase_ne fs fun same => other (congrArg Key.field same)
    | index i => rfl
  | _ => rfl

/-- The removal of a field leaves scalars alone that are not there or below. -/
theorem Place.drop_off {p : Place} {doc c w : Value} {name : String} {way : Location}
    (held : doc.at? p.container = some c) (key : p.key = .field name)
    (child : c.child? p.key = some w) (leaf : doc.at? way = some v)
    (scalar : v.isContainer = false) (off : ∀ rest, way ≠ p.way ++ rest) :
    (p.drop doc).at? way = some v := by
  unfold Place.drop
  rw [held]
  refine Value.at?_replaceAt_leaf held leaf scalar fun rest ends => ?_
  subst ends
  rw [Value.at?_append, held, Option.bind_some] at leaf
  cases rest with
  | nil =>
    cases leaf
    rw [Value.isContainer_of_child child] at scalar
    cases scalar
  | cons k rest =>
    have other : k ≠ p.key := by
      rintro rfl
      exact off rest (by rw [Place.way, List.append_assoc]; rfl)
    rw [key] at other ⊢
    rw [Value.at?_cons, Value.child?_remove_ne other, ← Value.at?_cons]
    exact leaf

/-- An array of which one item can be taken. -/
theorem Value.array_of_item {c w : Value} {i : Nat} (child : c.child? (.index i) = some w) :
    ∃ xs, c = .array xs ∧ xs[i]? = some w := by
  cases c with
  | array xs => exact ⟨xs, rfl, child⟩
  | _ => cases child

/-- **A step keeps a known scalar.** -/
theorem Draft.Step.knownValue (step : Draft.Step idField renames names d e)
    (scalar : d.knownValue.isContainer = false) (named : d.knownValue.isNull = false) :
    e.knownValue = d.knownValue := by
  cases step with
  | supply supply => rfl
  | @land l w doc n way below hn whole put =>
    refine Known.value_part rfl named fun w leaf off => ?_
    exact Place.put_off put leaf scalar off
  | @drop p w n way below hn whole value =>
    rw [Place.value?_eq, Place.way, Value.at?_append] at value
    obtain ⟨c, held, child⟩ := Option.bind_eq_some_iff.1 value
    rw [Value.at?_cons] at child
    obtain ⟨w, child, _⟩ := Option.bind_eq_some_iff.1 child
    show (d.close p).known.value (p.drop d.doc) = _
    unfold Draft.close
    cases key : p.key with
    | field name =>
      refine Known.value_part rfl named fun way leaf off => ?_
      exact Place.drop_off held key child leaf scalar off
    | index i =>
      rw [key] at child
      obtain ⟨xs, rfl, item⟩ := Value.array_of_item child
      rw [Place.drop_array held key]
      refine Known.value_rearrange rfl named (fun j j' rest leaf placed => ?_) fun way leaf off => ?_
      · obtain ⟨x, there, inside⟩ := Value.at?_item held leaf
        refine Value.at?_newItem held ?_ inside
        rw [List.getElem?_eraseIdx]
        grind
      · exact Value.at?_offItems held leaf scalar off _
  | @extend p xs n way below hn array more =>
    rw [Place.value?_eq] at array
    have stays : d.known = d.known.rearrange d.doc p.way some := Known.rearrange_some.symm
    show d.known.value (d.doc.replaceAt p.way _) = _
    rw [stays]
    refine Known.value_rearrange rfl named (fun i j rest leaf placed => ?_) fun way leaf off => ?_
    · cases placed
      obtain ⟨x, there, inside⟩ := Value.at?_item array leaf
      obtain ⟨bound, _⟩ := List.getElem?_eq_some_iff.1 there
      refine Value.at?_newItem array ?_ inside
      rw [List.getElem?_append_left bound]
      exact there
    · exact Value.at?_offItems array leaf scalar off _
  | @keep p xs items stays n way below hn array kept =>
    rw [Place.value?_eq] at array
    refine Known.value_rearrange rfl named (fun i j rest leaf placed => ?_) fun way leaf off => ?_
    · obtain ⟨x, there, inside⟩ := Value.at?_item array leaf
      split at placed
      · rename_i here
        cases placed
        exact Value.at?_newItem array (kept i x there here) inside
      · cases placed
    · exact Value.at?_offItems array leaf scalar off items
  | follow out holds =>
    rw [Draft.knownValue_apart out]
    exact holds

theorem Draft.Steps.knownValue (steps : Draft.Steps idField renames names d e)
    (scalar : d.knownValue.isContainer = false) (named : d.knownValue.isNull = false) :
    e.knownValue = d.knownValue := by
  induction steps with
  | refl => rfl
  | tail _ step ih =>
    rw [← ih] at scalar named ⊢
    exact step.knownValue scalar named

end Known

end DocRepair

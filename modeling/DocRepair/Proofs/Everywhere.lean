import DocRepair.Proofs.Replaced
/-!
# `DocRepair.Proofs.Everywhere` — what holds at every depth

A document may have to look the same way at every depth: the fields of each object have different
names, or no array is too long. Such a property goes down to whatever a container holds, and comes
back up from there.

## Contents

* `Value.containers` — induction on what is in what;
* `Value.Everywhere` — a property of all values in a document, the document included;
* `Value.Everywhere.child` / `Value.Everywhere.of_children` — from a container down, and up to it;
* `Value.Distinct` — objects whose fields have different names, at every depth.
-/

namespace DocRepair

theorem Fields.mem_of_get? {fs : Fields} {n : String} {v : Value} (held : get? fs n = some v) :
    (n, v) ∈ fs := by
  induction fs with
  | nil => cases held
  | cons f rest ih =>
    obtain ⟨k, w⟩ := f
    unfold get? at held
    split at held
    · rename_i own
      cases held
      exact own ▸ List.mem_cons_self
    · exact List.mem_cons_of_mem _ (ih held)

namespace Value

/-- Induction on values: items and fields come before the container that they are in. -/
theorem containers {P : Value → Prop} (scalar : ∀ v, v.isContainer = false → P v)
    (array : ∀ xs, (∀ x ∈ xs, P x) → P (.array xs))
    (object : ∀ fs : Fields, (∀ f ∈ fs, P f.2) → P (.object fs)) (v : Value) : P v := by
  cases v with
  | array xs => exact array xs fun x among => containers scalar array object x
  | object fs => exact object fs fun f among => containers scalar array object f.2
  | _ => exact scalar _ rfl
termination_by sizeOf v
decreasing_by
  · have smaller := List.sizeOf_lt_of_mem among
    simp only [Value.array.sizeOf_spec]
    omega
  · have smaller := List.sizeOf_lt_of_mem among
    have inside : sizeOf f.2 < sizeOf f := by
      obtain ⟨n, w⟩ := f
      simp only [Prod.mk.sizeOf_spec]
      omega
    simp only [Value.object.sizeOf_spec]
    omega

/-- A property of all values in a document, of the document itself too. -/
def Everywhere (Q : Value → Prop) (doc : Value) : Prop :=
  ∀ way v, doc.at? way = some v → Q v

namespace Everywhere

variable {Q : Value → Prop} {c next : Value} {k : Key}

theorem here (all : c.Everywhere Q) : Q c := all [] c rfl

theorem child (all : c.Everywhere Q) (held : c.child? k = some next) : next.Everywhere Q := by
  intro way v there
  refine all (k :: way) v ?_
  rw [at?_cons, held]
  exact there

/-- What holds of a container and of everything that it holds. -/
theorem of_children (here : Q c) (below : ∀ k next, c.child? k = some next → next.Everywhere Q) :
    c.Everywhere Q := by
  intro way v there
  cases way with
  | nil =>
    cases there
    exact here
  | cons k way =>
    rw [at?_cons] at there
    obtain ⟨next, held, there⟩ := Option.bind_eq_some_iff.1 there
    exact below k next held way v there

theorem scalar (scalar : c.isContainer = false) (here : Q c) : c.Everywhere Q := by
  refine of_children here fun k next held => ?_
  rw [child?_leaf scalar] at held
  cases held

theorem object {fs : Fields} (here : Q (.object fs)) (each : ∀ f ∈ fs, f.2.Everywhere Q) :
    (Value.object fs).Everywhere Q := by
  refine of_children here fun k next held => ?_
  cases k with
  | field n => exact each (n, next) (Fields.mem_of_get? held)
  | index i => cases held

theorem array {xs : List Value} (here : Q (.array xs)) (each : ∀ x ∈ xs, x.Everywhere Q) :
    (Value.array xs).Everywhere Q := by
  refine of_children here fun k next held => ?_
  cases k with
  | field n => cases held
  | index i => exact each next (List.mem_of_getElem? held)

/-- A value with the property comes to lie in a container with the property. -/
theorem setChild (all : c.Everywhere Q) (inside : next.Everywhere Q) (held : (c.child? k).isSome)
    (here : Q (c.setChild k next)) : (c.setChild k next).Everywhere Q := by
  refine of_children here fun m w child => ?_
  by_cases same : m = k
  · subst same
    obtain ⟨old, held⟩ := Option.isSome_iff_exists.1 held
    rw [child?_setChild_self held] at child
    cases child
    exact inside
  · rw [child?_setChild_ne same] at child
    exact all.child child

end Everywhere

/-! ## Names of fields -/

/-- The fields of every object have different names. -/
def Distinct (doc : Value) : Prop :=
  doc.Everywhere fun v => Fields.Distinct v.fields

theorem Distinct.scalar {v : Value} (scalar : v.isContainer = false) : v.Distinct := by
  refine Everywhere.scalar scalar ?_
  cases v with
  | object fs => cases scalar
  | _ => exact List.nodup_nil

theorem Distinct.array {xs : List Value} (each : ∀ x ∈ xs, x.Distinct) :
    (Value.array xs).Distinct :=
  Everywhere.array List.nodup_nil each

theorem Distinct.object {fs : Fields} (here : Fields.Distinct fs) (each : ∀ f ∈ fs, f.2.Distinct) :
    (Value.object fs).Distinct :=
  Everywhere.object here each

theorem Distinct.setChild {c v next : Value} {k : Key} (distinct : c.Distinct)
    (held : c.child? k = some v) (inside : next.Distinct) : (c.setChild k next).Distinct := by
  refine Everywhere.setChild distinct inside (by rw [held]; rfl) ?_
  have fields := distinct.here
  unfold Value.setChild
  split
  · exact Fields.Distinct.set fields _ next
  · exact fields
  · exact fields

end Value

end DocRepair

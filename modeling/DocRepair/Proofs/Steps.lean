import Mathlib.Logic.Relation
import DocRepair.Edit.Duplicates
import DocRepair.Edit.Query
import DocRepair.Proofs.Confined
import DocRepair.Proofs.Dirty
import DocRepair.Proofs.Tracking
/-!
# `DocRepair.Proofs.Steps` — every edit is a run of steps

An edit goes from draft to draft by a few steps: it draws on the supply, writes or removes at a
place, gives an array new items, or follows the known value to a new place. Here it is said once
what a step can do, and that every edit, whether it returns or stops, goes by such steps only, at
places below the fields that its paths begin with. What a step keeps is thereby kept by all edits.

## Contents

* `Draft.Step` / `Draft.Steps` — one step, and a run of them;
* `Edit.draftAfter` / `Edit.Goes` — the draft that an edit leaves, reached by steps;
* `Edit.Goes.bind` — the chain of two edits;
* `Edit.land_goes` / `drop_goes` / `setItems_goes` / `keepItems_goes` / `write_goes` — the basic edits.
-/

namespace DocRepair

/-! ## Steps -/

/-- One step of an edit. The step goes to a place below a field that is among `names`. The
identifier field itself is not removed, and it is written only if nothing is present in it, or if
the edit `renames`, that is, gives another identifier. -/
inductive Draft.Step (idField : String) (renames : Prop) (names : String → Prop) :
    Draft → Draft → Prop
  | supply (d : Draft) (supply : Supply) : Step idField renames names d { d with supply := supply }
  | land {d : Draft} {l : Landing} {v doc : Value} {n : String} {way : Location}
      (below : l.place.way = .field n :: way) (named : names n)
      (whole : n = idField → way = [] →
        renames ∨ Path.present (Fields.get? d.doc.fields n) = none)
      (put : l.put d.doc v = .ok doc) :
      Step idField renames names d { d.part l.place with doc := doc }
  | drop {d : Draft} {p : Place} {v : Value} {n : String} {way : Location}
      (below : p.way = .field n :: way) (named : names n) (whole : ¬(n = idField ∧ way = []))
      (held : p.value? d.doc = some v) :
      Step idField renames names d { d.close p with doc := p.drop d.doc }
  /-- An array gets more items, behind those that it has. -/
  | extend {d : Draft} {p : Place} {xs : List Value} {n : String} {way : Location}
      (below : p.way = .field n :: way) (named : names n)
      (held : p.value? d.doc = some (.array xs)) (more : List Value) :
      Step idField renames names d { d with doc := d.doc.replaceAt p.way (.array (xs ++ more)) }
  /-- An array keeps some of its items, which move up. -/
  | keep {d : Draft} {p : Place} {xs items : List Value} {stays : Nat → Bool} {n : String}
      {way : Location} (below : p.way = .field n :: way) (named : names n)
      (held : p.value? d.doc = some (.array xs))
      (kept : ∀ i v, xs[i]? = some v → stays i = true →
        items[(List.range i).countP stays]? = some v) :
      Step idField renames names d
        { d with
          doc := d.doc.replaceAt p.way (.array items)
          known := d.known.rearrange d.doc p.way fun i =>
            if stays i then some ((List.range i).countP stays) else none }
  /-- A known value that was taken out is looked for at a place that holds it. -/
  | follow {d : Draft} {v : Value} {way : Location} (out : d.known = .apart v)
      (holds : (d.doc.at? way).getD .null = v) :
      Step idField renames names d { d with known := .within way }

/-- A run of steps. -/
def Draft.Steps (idField : String) (renames : Prop) (names : String → Prop) :
    Draft → Draft → Prop :=
  Relation.ReflTransGen (Draft.Step idField renames names)

section Steps

variable {idField : String} {renames : Prop} {names : String → Prop} {d e : Draft}

theorem Draft.Step.isObject (step : Draft.Step idField renames names d e)
    (obj : d.doc.isObject = true) : e.doc.isObject = true := by
  have hobj := Draft.doc_eq_object obj
  cases step with
  | supply supply => exact obj
  | land below named whole put =>
    unfold Landing.put at put
    rw [hobj] at put
    obtain ⟨gs, rfl, _⟩ := Place.put_object below put
    rfl
  | @drop p v n way below named whole held =>
    obtain ⟨gs, hgs, _⟩ := Place.drop_object d.doc.fields below
    show (p.drop d.doc).isObject = true
    rw [hobj, hgs]
    rfl
  | @extend p xs n way below named held more =>
    obtain ⟨gs, hgs, _⟩ := Value.replaceAt_object d.doc.fields n way (.array (xs ++ more))
    show (d.doc.replaceAt p.way (.array (xs ++ more))).isObject = true
    rw [hobj, below, hgs]
    rfl
  | @keep p xs items stays n way below named held kept =>
    obtain ⟨gs, hgs, _⟩ := Value.replaceAt_object d.doc.fields n way (.array items)
    show (d.doc.replaceAt p.way (.array items)).isObject = true
    rw [hobj, below, hgs]
    rfl
  | follow out holds => exact obj

theorem Draft.Steps.isObject (steps : Draft.Steps idField renames names d e)
    (obj : d.doc.isObject = true) : e.doc.isObject = true := by
  induction steps with
  | refl => exact obj
  | tail _ step ih => exact step.isObject ih

end Steps

/-! ## Edits that go by steps -/

namespace Edit

variable {α β : Type}

/-- The draft that an edit leaves, whether it returns or stops. -/
def draftAfter (a : Edit α) (d : Draft) : Draft :=
  match a d with
  | .ok _ d' => d'
  | .error _ d' => d'

theorem draftAfter_ok {a : Edit α} {d d' : Draft} {x : α} (run : a d = .ok x d') :
    a.draftAfter d = d' := by
  unfold draftAfter; rw [run]

theorem draftAfter_error {a : Edit α} {d d' : Draft} {fault : Fault}
    (run : a d = .error fault d') : a.draftAfter d = d' := by
  unfold draftAfter; rw [run]

/-- The draft that an edit leaves is reached by steps. -/
def Goes (idField : String) (renames : Prop) (names : String → Prop) (a : Edit α) (d : Draft) :
    Prop :=
  d.Steps idField renames names (a.draftAfter d)

variable {idField : String} {renames : Prop} {names : String → Prop} {d d' : Draft}

theorem Goes.of_same {a : Edit α} (same : a.draftAfter d = d) : Goes idField renames names a d := by
  unfold Goes
  rw [same]
  exact .refl

theorem Goes.of_step {a : Edit α} {x : α} (run : a d = .ok x d')
    (step : Draft.Step idField renames names d d') : Goes idField renames names a d := by
  unfold Goes
  rw [draftAfter_ok run]
  exact .single step

theorem Goes.ok {a : Edit α} {x : α} (h : Goes idField renames names a d) (run : a d = .ok x d') :
    d.Steps idField renames names d' := by
  rw [← draftAfter_ok run]
  exact h

theorem Goes.pure (x : α) : Goes idField renames names (Pure.pure x : Edit α) d := .of_same rfl

theorem Goes.lift (r : Except Fault α) : Goes idField renames names (lift r) d := by
  cases r with
  | ok x => exact .of_same rfl
  | error fault => exact .of_same rfl

theorem Goes.look (f : Value → Except Fault α) : Goes idField renames names (look f) d := by
  refine .of_same ?_
  unfold draftAfter Edit.look
  cases f d.doc <;> rfl

theorem Goes.mint : Goes idField renames names Edit.mint d := .of_step rfl (.supply d _)

theorem Goes.tick : Goes idField renames names Edit.tick d := .of_step rfl (.supply d _)

/-- In a chain, the rest matters only for what the first link can return, and for the draft that it
leaves then. -/
theorem Goes.bind {a : Edit α} {f : α → Edit β} (first : Goes idField renames names a d)
    (rest : ∀ x d', a d = .ok x d' → Goes idField renames names (f x) d') :
    Goes idField renames names (a >>= f) d := by
  unfold Goes draftAfter
  rw [run_bind]
  cases run : a d with
  | ok x d' =>
    exact (first.ok run).trans (rest x d' run)
  | error fault d' =>
    unfold Goes at first
    rw [draftAfter_error run] at first
    exact first

/-- A chain that begins with a check goes on from the same draft. -/
theorem Goes.lift_bind {r : Except Fault α} {f : α → Edit β}
    (rest : ∀ x, r = .ok x → Goes idField renames names (f x) d) :
    Goes idField renames names (Edit.lift r >>= f) d := by
  refine Goes.bind (.lift r) fun x d' run => ?_
  obtain ⟨hr, rfl⟩ := lift_ok.1 run
  exact rest x hr

/-- A chain that begins with a look at the document goes on from the same draft. -/
theorem Goes.look_bind {g : Value → Except Fault α} {f : α → Edit β}
    (rest : ∀ x, g d.doc = .ok x → Goes idField renames names (f x) d) :
    Goes idField renames names (Edit.look g >>= f) d := by
  refine Goes.bind (.look g) fun x d' run => ?_
  obtain ⟨found, rfl⟩ := look_ok.1 run
  exact rest x found

/-! ## The basic edits -/

/-- The first segment of a path is among given names. -/
def Named (names : String → Prop) (path : Value) : Prop :=
  ∀ n rest, Path.split path = .ok (n :: rest) → names n

variable {n : String} {way : Location} {p : Place}

theorem land_goes {l : Landing} {v : Value} (below : l.place.way = .field n :: way)
    (named : names n)
    (whole : n = idField → way = [] →
      renames ∨ Path.present (Fields.get? d.doc.fields n) = none) :
    Goes idField renames names (land l v) d := by
  cases put : l.put d.doc v with
  | ok doc =>
    exact .of_step (x := ()) (land_ok.2 ⟨doc, put, rfl⟩) (.land below named whole put)
  | error fault =>
    refine .of_same ?_
    unfold draftAfter land
    rw [put]

theorem drop_goes (below : p.way = .field n :: way) (named : names n)
    (whole : ¬(n = idField ∧ way = [])) : Goes idField renames names (drop p) d := by
  cases held : p.value? d.doc with
  | some v =>
    refine .of_step (x := some v) ?_ (.drop below named whole held)
    unfold drop
    rw [held]
  | none =>
    refine .of_same ?_
    unfold draftAfter drop
    rw [held]

theorem setItems_goes {xs : List Value} (below : p.way = .field n :: way) (named : names n)
    (held : p.value? d.doc = some (.array xs)) (more : List Value) :
    Goes idField renames names (setItems p (xs ++ more)) d :=
  .of_step rfl (.extend below named held more)

theorem keepItems_goes {xs items : List Value} {stays : Nat → Bool}
    (below : p.way = .field n :: way) (named : names n)
    (held : p.value? d.doc = some (.array xs))
    (kept : ∀ i v, xs[i]? = some v → stays i = true →
      items[(List.range i).countP stays]? = some v) :
    Goes idField renames names (keepItems p items stays) d :=
  .of_step rfl (.keep below named held kept)

/-- **A write to a path goes by steps below its first segment.** The identifier field itself it may
write if it renames, or if nothing is present there. -/
theorem write_goes {limit : Option Int} {path v : Value} (obj : d.doc.isObject = true)
    (named : Named names path)
    (guarded : Path.split path ≠ .ok [idField] ∨ renames ∨
      Path.present (Fields.get? d.doc.fields idField) = none) :
    Goes idField renames names (write limit path v) d := by
  refine Goes.look_bind fun l hl => ?_
  rw [Draft.doc_eq_object obj] at hl
  obtain ⟨n, rest, way, hsplit, below, whole⟩ := Path.landing_way hl
  refine land_goes below (named n rest hsplit) ?_
  rintro rfl hw
  rcases whole hw with ⟨rfl, _⟩ | nothing
  · exact guarded.resolve_left fun h => h hsplit
  · exact .inr nothing

end Edit

end DocRepair

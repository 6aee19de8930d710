import DocRepair.Filter
import DocRepair.Proofs.Walks
/-!
# `DocRepair.Proofs.Locality` — changes read no field but those that they write

Where a path leads, and what a write leaves there, depends only on the field that its first segment
names. So changes go the same way from any two documents that agree on the fields with which their
paths begin: both times they return the same, or stop with the same fault, and the documents agree
on these fields afterwards. The other fields may be anything, or be missing.

## Contents

* `Value.at?_local` / `Value.get?_replaceAt` / `Place.put_local` — one place in two documents;
* `Path.landing_local` / `Path.resolve_local` — one path in two documents;
* `Filter.entry` / `Filter.matches_local` / `Filter.matches_entry_local` — one condition, and on two
  documents;
* `Draft.Agree` — drafts with the same supply that agree on given fields;
* `Edit.SameOutcome` / `Edit.Twin` — an edit that goes the same way from two drafts;
* `Edit.applyRaw_twin` — changes go the same way.
-/

namespace DocRepair

/-! ## One place in two documents -/

section Places

variable {fs gs : Fields} {n : String} {way : Location} {p : Place} {v : Value}

theorem Value.at?_local (same : Fields.get? fs n = Fields.get? gs n) (way : Location) :
    (Value.object fs).at? (.field n :: way) = (Value.object gs).at? (.field n :: way) := by
  rw [Value.at?_cons, Value.at?_cons]
  show (Fields.get? fs n).bind _ = (Fields.get? gs n).bind _
  rw [same]

/-- What a field holds after a value inside it was replaced. -/
theorem Value.get?_replaceAt (fs : Fields) (n : String) (way : Location) (new : Value) :
    Fields.get? ((Value.object fs).replaceAt (.field n :: way) new).fields n =
      (Fields.get? fs n).map fun c => c.replaceAt way new := by
  rw [Value.replaceAt]
  cases held : Fields.get? fs n with
  | none =>
    have child : (Value.object fs).child? (.field n) = none := held
    rw [child]
    exact held
  | some c =>
    have child : (Value.object fs).child? (.field n) = some c := held
    rw [child]
    exact Fields.get?_set_self fs n _

/-- **A write to a place does the same in documents that agree on the field it lies in.** -/
theorem Place.put_local (below : p.way = .field n :: way)
    (same : Fields.get? fs n = Fields.get? gs n) (v : Value) :
    (∃ fault, p.put (.object fs) v = .error fault ∧ p.put (.object gs) v = .error fault) ∨
    ∃ fs' gs', p.put (.object fs) v = .ok (.object fs') ∧ p.put (.object gs) v = .ok (.object gs') ∧
      Fields.get? fs' n = Fields.get? gs' n := by
  rcases Place.way_field below with ⟨rfl, rfl⟩ | ⟨container, hp, _⟩
  · -- The field itself is written.
    refine .inr ⟨_, _, rfl, rfl, ?_⟩
    rw [Fields.get?_set_self, Fields.get?_set_self]
  · rw [hp]
    unfold Place.put
    rw [Value.at?_local same container]
    cases (Value.object gs).at? (.field n :: container) with
    | none => exact .inr ⟨fs, gs, rfl, rfl, same⟩
    | some c =>
      dsimp only
      cases c.assign p.key v with
      | error fault => exact .inl ⟨fault, rfl, rfl⟩
      | ok c' =>
        obtain ⟨fs', hfs, _⟩ := Value.replaceAt_object fs n container c'
        obtain ⟨gs', hgs, _⟩ := Value.replaceAt_object gs n container c'
        have left := Value.get?_replaceAt fs n container c'
        have right := Value.get?_replaceAt gs n container c'
        rw [hfs] at left
        rw [hgs] at right
        refine .inr ⟨fs', gs', congrArg Except.ok hfs, congrArg Except.ok hgs, ?_⟩
        exact left.trans ((congrArg _ same).trans right.symm)

end Places

/-! ## One path in two documents -/

namespace Path

variable {idField : String} {fs gs : Fields} {path : Value}

theorem splitDots_of_no_dot {cs : List Char} (h : '.' ∉ cs) : splitDots cs = [cs] := by
  induction cs with
  | nil => rfl
  | cons c rest ih =>
    have first : ¬ c = '.' := fun dot => h (dot ▸ List.mem_cons_self)
    unfold splitDots
    rw [if_neg first, ih fun more => h (List.mem_cons_of_mem c more)]

/-- A name without dots is a path of one segment. -/
theorem split_name {name : String} (nonempty : name ≠ "") (undotted : '.' ∉ name.toList) :
    split (.text name) = .ok [name] := by
  have segments : segments (.text name) = .ok [name] := by
    show Except.ok (if name = "" then [] else (splitDots name.toList).map String.ofList) = _
    rw [if_neg nonempty, splitDots_of_no_dot undotted, List.map_singleton, String.ofList_toList]
  unfold split
  rw [segments]
  simp [bind, Except.bind, nonempty]

/-- Documents that agree on the field that a path begins with. -/
def AgreeAt (path : Value) (fs gs : Fields) : Prop :=
  ∀ n rest, split path = .ok (n :: rest) → Fields.get? fs n = Fields.get? gs n

theorem childAt_local {n : String} (same : Fields.get? fs n = Fields.get? gs n) :
    childAt (.object fs) n = childAt (.object gs) n := by
  show Except.ok ((Fields.get? fs n).map _) = Except.ok ((Fields.get? gs n).map _)
  rw [same]

/-- Segments lead to the same place in documents that agree on the field that the first names. -/
theorem resolveFrom_local {n : String} (same : Fields.get? fs n = Fields.get? gs n)
    (rest : List String) (ids : List (Option Value)) :
    resolveFrom idField (.object fs) (n :: rest) ids =
      resolveFrom idField (.object gs) (n :: rest) ids := by
  have child := childAt_local same
  cases rest with
  | nil =>
    unfold resolveFrom selectedPlace
    rw [child]
    rfl
  | cons second rest =>
    unfold resolveFrom step
    rw [child]

theorem landingFrom_local {limit : Option Int} {n : String} (walked : List String)
    (same : Fields.get? fs n = Fields.get? gs n) (rest : List String) :
    landingFrom limit walked (.object fs) (n :: rest) =
      landingFrom limit walked (.object gs) (n :: rest) := by
  have child : writableChild (.object fs) n = writableChild (.object gs) n := by
    show Except.ok ((present (Fields.get? fs n)).map _) = Except.ok ((present (Fields.get? gs n)).map _)
    rw [same]
  cases rest with
  | nil => rfl
  | cons second rest =>
    unfold landingFrom
    rw [child]
    rfl

/-- **A path leads to the same place** in documents that agree on the field that it begins with. -/
theorem resolve_local (agree : AgreeAt path fs gs) (ids : Value) :
    resolve idField (.object fs) path ids = resolve idField (.object gs) path ids := by
  unfold resolve
  cases segments : split path with
  | error fault => rfl
  | ok names =>
    obtain ⟨n, rest, rfl⟩ := split_cons segments
    cases selectors ids with
    | error fault => rfl
    | ok wanted => exact resolveFrom_local (agree n rest segments) rest wanted

/-- What a path leads to is the same in documents that agree on the field that it begins with. -/
theorem found_local (agree : AgreeAt path fs gs) {ids : Value} {place : Option Place}
    (resolved : resolve idField (.object fs) path ids = .ok place) :
    valueAt? (.object fs) place = valueAt? (.object gs) place := by
  cases place with
  | none => rfl
  | some p =>
    obtain ⟨n, rest, way, segments, below, _⟩ := resolve_way resolved
    show p.value? (.object fs) = p.value? (.object gs)
    rw [Place.value?_eq, Place.value?_eq, below]
    exact Value.at?_local (agree n rest segments) way

/-- **A write to a path lands in the same place** in documents that agree on the field that the path
    begins with. -/
theorem landing_local (agree : AgreeAt path fs gs) (limit : Option Int) :
    landing limit (.object fs) path = landing limit (.object gs) path := by
  unfold landing
  cases segments : split path with
  | error fault => rfl
  | ok names =>
    obtain ⟨n, rest, rfl⟩ := split_cons segments
    exact landingFrom_local [] (agree n rest segments) rest

end Path

/-! ## One condition -/

namespace Filter

variable {fs gs : Fields} {name : String} {cond : Value}

/-- One condition of a filter. -/
def entry (v : Value) (name : String) (cond : Value) : Except Fault Bool :=
  if name = "$and" then
    if cond.isArray then conjunction v cond.items else clauseless cond true
  else if name = "$or" then
    if cond.isArray then disjunction v cond.items else clauseless cond false
  else condition v (.text name) cond

/-- Conditions are evaluated up to the first that does not hold. -/
theorem entries_cons (v : Value) (name : String) (cond : Value) (rest : Fields) :
    entries v ((name, cond) :: rest) = (do
      if ← entry v name cond then entries v rest else .ok false) := by
  unfold entry
  by_cases conjoins : name = "$and"
  · simp only [if_pos conjoins]
    cases cond <;> simp only [entries, if_pos conjoins] <;> rfl
  · by_cases disjoins : name = "$or"
    · simp only [if_neg conjoins, if_pos disjoins]
      cases cond <;> simp only [entries, if_neg conjoins, if_pos disjoins] <;> rfl
    · simp only [if_neg conjoins, if_neg disjoins]
      cases cond <;> simp only [entries, if_neg conjoins, if_neg disjoins]

/-- A filter of one condition. -/
theorem matches_singleton (v : Value) (name : String) (cond : Value) :
    matches? v (.object [(name, cond)]) = entry v name cond := by
  rw [matches?, entries_cons]
  cases entry v name cond with
  | error fault => rfl
  | ok b =>
    cases b with
    | false => rfl
    | true =>
      show entries v [] = .ok true
      rw [entries]

theorem condition_local {path : Value} (agree : Path.AgreeAt path fs gs) (cond : Value) :
    condition (.object fs) path cond = condition (.object gs) path cond := by
  unfold condition
  rw [← Path.resolve_local agree .null]
  cases resolved : Path.resolve Identity.defaultField (.object fs) path .null with
  | error fault => rfl
  | ok place =>
    show (if isOperators cond then _ else _) = if isOperators cond then _ else _
    rw [Path.found_local agree resolved]

/-- **A filter of one condition reads one field**, if the path of the condition is a name. For the
    names of connectives the condition must not be a list of filters. -/
theorem matches_local (plain : Path.split (.text name) = .ok [name]) (scalar : cond.isArray = false)
    (same : Fields.get? fs name = Fields.get? gs name) :
    matches? (.object fs) (.object [(name, cond)]) =
      matches? (.object gs) (.object [(name, cond)]) := by
  have agree : Path.AgreeAt (.text name) fs gs := by
    intro n rest segments
    rw [plain] at segments
    cases segments
    exact same
  rw [matches_singleton, matches_singleton]
  unfold entry
  simp only [scalar, Bool.false_eq_true, if_false, condition_local agree cond]

/-- **A filter of one condition, outside the connectives,** goes the same way on documents that
    agree on the field that its path begins with. -/
theorem matches_entry_local (noConnective : name ≠ "$and" ∧ name ≠ "$or")
    (agree : Path.AgreeAt (.text name) fs gs) :
    matches? (.object fs) (.object [(name, cond)]) =
      matches? (.object gs) (.object [(name, cond)]) := by
  rw [matches_singleton, matches_singleton, entry, entry, if_neg noConnective.1,
    if_neg noConnective.2, if_neg noConnective.1, if_neg noConnective.2,
    condition_local agree]

end Filter

/-! ## Drafts that agree -/

/-- Drafts that draw on the same supply, and agree on the fields with given names. -/
structure Draft.Agree (names : String → Prop) (d e : Draft) : Prop where
  left : d.doc.isObject = true
  right : e.doc.isObject = true
  supply : d.supply = e.supply
  same : ∀ n, names n → Fields.get? d.doc.fields n = Fields.get? e.doc.fields n

namespace Edit

variable {α β : Type} {names : String → Prop} {d e : Draft}

/-- Outcomes that differ at most in fields without the given names: the same is returned, or the
    same fault has stopped the edit. -/
inductive SameOutcome (names : String → Prop) :
    EStateM.Result Fault Draft α → EStateM.Result Fault Draft α → Prop
  | ok (x : α) {d e : Draft} (agree : d.Agree names e) : SameOutcome names (.ok x d) (.ok x e)
  | error (fault : Fault) {d e : Draft} (agree : d.Agree names e) :
    SameOutcome names (.error fault d) (.error fault e)

/-- An edit goes the same way from two drafts. -/
def Twin (names : String → Prop) (a : Edit α) (d e : Draft) : Prop :=
  SameOutcome names (a d) (a e)

theorem Twin.lift (agree : d.Agree names e) (r : Except Fault α) : Twin names (lift r) d e := by
  cases r with
  | ok x => exact .ok x agree
  | error fault => exact .error fault agree

/-- In a chain, the rest matters only for what the first link can return. -/
theorem Twin.bind {a : Edit α} {f : α → Edit β} (first : Twin names a d e)
    (rest : ∀ x d' e', d'.Agree names e' → Twin names (f x) d' e') :
    Twin names (a >>= f) d e := by
  unfold Twin at first ⊢
  rw [run_bind, run_bind]
  generalize a d = left, a e = right at first ⊢
  cases first with
  | ok x agree => exact rest x _ _ agree
  | error fault agree => exact .error fault agree

theorem Twin.lift_bind {r : Except Fault α} {f : α → Edit β} (agree : d.Agree names e)
    (rest : ∀ x, Twin names (f x) d e) : Twin names (Edit.lift r >>= f) d e := by
  cases r with
  | ok x => exact rest x
  | error fault => exact .error fault agree

/-- A chain that begins with a look at the document goes the same way if it finds the same. -/
theorem Twin.look_bind {g : Value → Except Fault α} {f : α → Edit β} (agree : d.Agree names e)
    (found : g d.doc = g e.doc) (rest : ∀ x, g d.doc = .ok x → Twin names (f x) d e) :
    Twin names (Edit.look g >>= f) d e := by
  unfold Twin
  rw [run_bind, run_bind]
  unfold Edit.look
  rw [← found]
  cases outcome : g d.doc with
  | ok x => exact rest x outcome
  | error fault => exact .error fault agree

theorem Twin.tick (agree : d.Agree names e) : Twin names Edit.tick d e := by
  unfold Twin Edit.tick
  rw [agree.supply]
  exact .ok _ ⟨agree.left, agree.right, rfl, agree.same⟩

/-! ## The basic edits -/

variable {n : String} {way : Location} {p : Place} {path : Value}

/-- Drafts that agree on the names with which a path may begin agree on the field it begins with. -/
theorem Named.agreeAt (named : Named names path) (agree : d.Agree names e) :
    Path.AgreeAt path d.doc.fields e.doc.fields :=
  fun n rest segments => agree.same n (named n rest segments)

/-- **A write goes the same way** from drafts that agree on the field it lies in. -/
theorem land_twin {l : Landing} (agree : d.Agree names e) (below : l.place.way = .field n :: way)
    (named : names n) (v : Value) : Twin names (land l v) d e := by
  unfold Twin land Landing.put
  rw [Draft.doc_eq_object agree.left, Draft.doc_eq_object agree.right]
  rcases Place.put_local below (agree.same n named) (Landing.nest l.below v) with
    ⟨fault, left, right⟩ | ⟨fs', gs', left, right, same⟩
  · rw [left, right]
    exact .error fault agree
  · obtain ⟨_, heqL, writtenL⟩ := Place.put_object below left
    obtain ⟨_, heqR, writtenR⟩ := Place.put_object below right
    cases heqL
    cases heqR
    rw [left, right]
    refine .ok () ⟨rfl, rfl, agree.supply, fun m hm => ?_⟩
    by_cases own : m = n
    · rw [own]
      exact same
    · -- Another field is as it was in both documents.
      exact (writtenL.same own).trans ((agree.same m hm).trans (writtenR.same own).symm)

/-- New items for an array, from drafts that agree on the field it lies in. -/
theorem setItems_twin (agree : d.Agree names e) (below : p.way = .field n :: way)
    (named : names n) (items : List Value) : Twin names (setItems p items) d e := by
  have replaced (d : Draft) (obj : d.doc.isObject = true) :
      (d.doc.replaceAt p.way (.array items)).isObject = true ∧
      ∀ m, Fields.get? (d.doc.replaceAt p.way (.array items)).fields m =
        if m = n then (Fields.get? d.doc.fields n).map fun c => c.replaceAt way (.array items)
        else Fields.get? d.doc.fields m := by
    rw [below, Draft.doc_eq_object obj]
    obtain ⟨gs, hgs, written⟩ := Value.replaceAt_object d.doc.fields n way (.array items)
    refine ⟨by rw [hgs]; rfl, fun m => ?_⟩
    by_cases own : m = n
    · rw [if_pos own, own]
      exact Value.get?_replaceAt d.doc.fields n way (.array items)
    · rw [if_neg own, hgs]
      exact written.same own
  obtain ⟨objL, left⟩ := replaced d agree.left
  obtain ⟨objR, right⟩ := replaced e agree.right
  refine .ok () ⟨objL, objR, agree.supply, fun m hm => ?_⟩
  rw [left m, right m, agree.same n named, agree.same m hm]

/-- **A write to a path goes the same way** from drafts that agree on the field it begins with. -/
theorem write_twin {limit : Option Int} (agree : d.Agree names e) (named : Named names path)
    (v : Value) : Twin names (write limit path v) d e := by
  have found : Path.landing limit d.doc path = Path.landing limit e.doc path := by
    rw [Draft.doc_eq_object agree.left, Draft.doc_eq_object agree.right]
    exact Path.landing_local (named.agreeAt agree) limit
  refine Twin.look_bind agree found fun l hl => ?_
  rw [Draft.doc_eq_object agree.left] at hl
  obtain ⟨n, rest, way, segments, below, _⟩ := Path.landing_way hl
  exact land_twin agree below (named n rest segments) v

/-! ## Changes -/

variable {idField : String}

theorem append_twin (agree : d.Agree names e) (named : Named names path) (v : Value) :
    Twin names (append idField path v) d e := by
  have objL := Draft.doc_eq_object agree.left
  have objR := Draft.doc_eq_object agree.right
  have found : Path.resolve idField d.doc path .null = Path.resolve idField e.doc path .null := by
    rw [objL, objR]
    exact Path.resolve_local (named.agreeAt agree) .null
  refine Twin.look_bind agree found fun place resolved => ?_
  have holds : Path.valueAt? d.doc place = Path.valueAt? e.doc place := by
    rw [objL] at resolved
    rw [objL, objR]
    exact Path.found_local (named.agreeAt agree) resolved
  refine Twin.look_bind agree (congrArg Except.ok holds) fun target held => ?_
  cases place with
  | none =>
    cases held
    exact write_twin agree named _
  | some p =>
    obtain ⟨n, way, below, hn⟩ := named.place agree.left resolved
    cases target with
    | none => exact write_twin agree named _
    | some w =>
      cases w with
      | array xs => exact setItems_twin agree below hn _
      | _ => exact .lift agree _

/-- Each operation goes the same way from drafts that agree on the field its path begins with. -/
theorem applyOperation_twin (op : Operation) (agree : d.Agree names e) (named : Named names path)
    (v : Value) : Twin names (applyOperation idField op path v) d e := by
  cases op with
  | set => exact Twin.lift_bind agree fun _ => write_twin agree named v
  | setIdentifier => exact Twin.lift_bind agree fun id => write_twin agree named (.ident id)
  | setStatus =>
    refine Twin.lift_bind agree fun _ => ?_
    exact (Twin.tick agree).bind fun t d' e' later => write_twin later named (statusRecord v t)
  | append => exact Twin.lift_bind agree fun _ => append_twin agree named v

theorem applyFrom_twin {changes : List Change} (applied : Nat) (before : DirtySet)
    (agree : d.Agree names e) (named : ∀ c ∈ changes, Named names (.text c.path)) :
    Twin names (applyFrom idField applied before changes) d e := by
  induction changes generalizing applied before d e with
  | nil => exact .ok before agree
  | cons c rest ih =>
    have first : Twin names (applyChange idField c) d e :=
      applyOperation_twin c.operation agree (named c List.mem_cons_self) c.value
    have others : ∀ c ∈ rest, Named names (.text c.path) :=
      fun c hc => named c (List.mem_cons_of_mem _ hc)
    unfold Twin applyFrom
    unfold Twin at first
    generalize applyChange idField c d = left, applyChange idField c e = right at first ⊢
    cases first with
    | error fault after => exact .error _ after
    | ok u after =>
      dsimp only
      cases before.touch (.text c.path) with
      | error fault => exact .error fault after
      | ok more => exact ih (applied + 1) more after others

/-- **Changes go the same way** from drafts that agree on the fields with which their paths
    begin. -/
theorem applyRaw_twin {raw : Value} (agree : d.Agree (fun n => (PathEdit.applyRaw raw).Begins n) e) :
    Twin (fun n => (PathEdit.applyRaw raw).Begins n) (applyRaw idField raw) d e := by
  unfold applyRaw
  cases parsed : Change.parse raw with
  | error fault => exact .error fault agree
  | ok changes =>
    exact applyFrom_twin 0 ∅ agree fun c hc n rest segments =>
      ⟨changes, parsed, c, hc, rest, segments⟩

end Edit

end DocRepair

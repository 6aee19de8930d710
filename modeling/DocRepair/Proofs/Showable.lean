import DocRepair.Edit.Duplicates
import DocRepair.Edit.Query
import DocRepair.Proofs.Everywhere
/-!
# `DocRepair.Proofs.Showable` — values that can be shown

Whoever shows a value stops where an integer in it has too many digits. None of the integers in a
value that can be shown has, and so nothing that is found in such a value, or made from its parts,
stops who shows it. Paths, selectors and the ways through a document never go beyond that.

## Contents

* `Value.Showable` / `Fields.Showable` — values that can be shown, and objects of them;
* `Value.Showable.replaceAt` / `Place.drop_showable` / … — what keeps a document showable;
* `Shows` — results that an integer with too many digits never stands in the place of;
* `Shows.bind` / `Shows.mapM` / … — chains and lists of them;
* `Path.split_shows` / `resolveFrom_shows` / `landing_shows` — paths.
-/

namespace DocRepair

open Text

/-! ## Values -/

namespace Value

/-- A value that can be shown, with all that is in it. -/
def Showable (v : Value) : Prop := v.hasLiteral = true

theorem itemsHaveLiteral_iff {xs : List Value} :
    itemsHaveLiteral xs = true ↔ ∀ x ∈ xs, x.Showable := by
  induction xs with
  | nil => simp [itemsHaveLiteral]
  | cons x rest ih => simp [itemsHaveLiteral, ih, Showable]

theorem fieldsHaveLiteral_iff {fs : Fields} :
    fieldsHaveLiteral fs = true ↔ ∀ f ∈ fs, f.2.Showable := by
  induction fs with
  | nil => simp [fieldsHaveLiteral]
  | cons f rest ih => simp [fieldsHaveLiteral, ih, Showable]

end Value

/-- An object that can be shown, by its fields. -/
def Fields.Showable (fs : Fields) : Prop := ∀ f ∈ fs, f.2.Showable

namespace Value

variable {v : Value} {xs : List Value} {fs : Fields}

theorem showable_null : Value.null.Showable := rfl

theorem showable_text (s : String) : (Value.text s).Showable := rfl

theorem showable_ident (id : ObjectId) : (Value.ident id).Showable := rfl

theorem showable_array : (Value.array xs).Showable ↔ ∀ x ∈ xs, x.Showable :=
  itemsHaveLiteral_iff

theorem showable_object : (Value.object fs).Showable ↔ fs.Showable :=
  fieldsHaveLiteral_iff

theorem showable_int {n : Int} : (Value.int n).Showable ↔ n.natAbs < Digit.beyond :=
  Digit.fits_limit _

theorem showable_long {n : Int} : (Value.long n).Showable ↔ n.natAbs < Digit.beyond :=
  Digit.fits_limit _

/-- What can be shown by its literal can be shown by its plain text. -/
theorem Showable.hasPlain (shown : v.Showable) : v.hasPlain = true := by
  cases v with
  | code s scope => rfl
  | _ => exact shown

theorem Showable.fields (shown : v.Showable) : v.fields.Showable := by
  cases v with
  | object fs => exact showable_object.1 shown
  | _ => exact List.forall_mem_nil _

theorem Showable.members? (shown : v.Showable) {ms : List Value} (lists : v.members? = some ms) :
    ∀ m ∈ ms, m.Showable := by
  have bytes (bs : List UInt8) : ∀ m ∈ bs.map fun b => Value.int b.toNat, m.Showable := by
    intro m among
    obtain ⟨b, _, rfl⟩ := List.mem_map.1 among
    refine showable_int.2 (Nat.lt_trans b.toNat_lt ?_)
    decide +kernel
  have texts {α : Type} (as : List α) (f : α → String) :
      ∀ m ∈ as.map fun a => Value.text (f a), m.Showable := by
    intro m among
    obtain ⟨a, _, rfl⟩ := List.mem_map.1 among
    rfl
  cases v with
  | array xs =>
    cases lists
    exact showable_array.1 shown
  | text s | code s scope =>
    cases lists
    exact texts _ _
  | object fs =>
    cases lists
    exact texts fs _
  | bytes bs | binary subtype bs =>
    cases lists
    exact bytes bs
  | _ => cases lists

/-- What an argument lists can be shown, if the argument can. -/
theorem Showable.listed (shown : v.Showable) : ∀ x ∈ v.listed, x.Showable := by
  cases v with
  | array xs => exact showable_array.1 shown
  | _ => exact List.forall_mem_singleton.2 shown

end Value

namespace Fields.Showable

variable {fs : Fields} {name : String} {v : Value}

theorem get? (shown : fs.Showable) : ∀ v ∈ Fields.get? fs name, v.Showable :=
  fun v held => shown (name, v) (Fields.mem_of_get? held)

theorem getD (shown : fs.Showable) (name : String) : (Fields.getD fs name).Showable := by
  unfold Fields.getD
  cases held : Fields.get? fs name with
  | none => rfl
  | some v => exact shown.get? v held

theorem set (shown : fs.Showable) (new : v.Showable) : (Fields.set fs name v).Showable := by
  induction fs with
  | nil => exact List.forall_mem_singleton.2 new
  | cons f rest ih =>
    obtain ⟨here, behind⟩ := List.forall_mem_cons.1 shown
    unfold Fields.set
    split
    · exact List.forall_mem_cons.2 ⟨new, behind⟩
    · exact List.forall_mem_cons.2 ⟨here, ih behind⟩

theorem erase (shown : fs.Showable) (name : String) : (Fields.erase fs name).Showable := by
  induction fs with
  | nil => exact shown
  | cons f rest ih =>
    obtain ⟨here, behind⟩ := List.forall_mem_cons.1 shown
    unfold Fields.erase
    split
    · exact behind
    · exact List.forall_mem_cons.2 ⟨here, ih behind⟩

/-- Fields that are written one after the other. -/
theorem setAll {gs : Fields} (shown : fs.Showable) (more : Fields.Showable gs) :
    Fields.Showable (gs.foldl (fun fs f => Fields.set fs f.1 f.2) fs) := by
  induction gs generalizing fs with
  | nil => exact shown
  | cons g rest ih =>
    obtain ⟨new, more⟩ := List.forall_mem_cons.1 more
    exact ih (shown.set new) more

end Fields.Showable

/-! ## Documents -/

namespace Value.Showable

variable {v new : Value} {k : Key} {way : Location}

theorem child? (shown : v.Showable) : ∀ c ∈ v.child? k, c.Showable := by
  intro c held
  unfold Value.child? at held
  split at held
  · exact (showable_object.1 shown).get? c held
  · exact showable_array.1 shown c (List.mem_of_getElem? held)
  · cases held

theorem at? (shown : v.Showable) : ∀ c ∈ v.at? way, c.Showable := by
  induction way generalizing v with
  | nil =>
    rintro c ⟨⟩
    exact shown
  | cons k rest ih =>
    intro c held
    rw [at?_cons] at held
    obtain ⟨next, child, held⟩ := Option.bind_eq_some_iff.1 held
    exact ih (shown.child? next child) c held

theorem setChild (shown : v.Showable) (inside : new.Showable) : (v.setChild k new).Showable := by
  unfold Value.setChild
  split
  · exact showable_object.2 ((showable_object.1 shown).set inside)
  · refine showable_array.2 fun x among => ?_
    rcases List.mem_or_eq_of_mem_set among with among | rfl
    · exact showable_array.1 shown x among
    · exact inside
  · exact shown

theorem replaceAt (shown : v.Showable) (inside : new.Showable) : (v.replaceAt way new).Showable := by
  induction way generalizing v with
  | nil => exact inside
  | cons k rest ih =>
    unfold Value.replaceAt
    split
    · rename_i c held
      exact shown.setChild (ih (shown.child? c held))
    · exact shown

theorem remove (shown : v.Showable) (k : Key) : (v.remove k).Showable := by
  unfold Value.remove
  split
  · exact showable_object.2 ((showable_object.1 shown).erase _)
  · exact showable_array.2 fun x among =>
      showable_array.1 shown x (List.mem_of_mem_eraseIdx among)
  · exact shown

end Value.Showable

namespace Place

variable {doc v : Value}

theorem value?_showable (p : Place) (shown : doc.Showable) : ∀ v ∈ p.value? doc, v.Showable := by
  intro v held
  rw [p.value?_eq] at held
  exact shown.at? v held

theorem drop_showable (p : Place) (shown : doc.Showable) : (p.drop doc).Showable := by
  unfold drop
  split
  · rename_i c held
    exact shown.replaceAt ((shown.at? c held).remove _)
  · exact shown

end Place

theorem Landing.nest_showable (names : List String) {v : Value} (shown : v.Showable) :
    (Landing.nest names v).Showable := by
  induction names with
  | nil => exact shown
  | cons name rest ih => exact Value.showable_object.2 (List.forall_mem_singleton.2 ih)

/-! ## Results -/

section Results

variable {α β : Type} {P : α → Prop} {Q : β → Prop} {r : Except Fault α}

/-- An integer with too many digits never stands in the place of a result, and what is returned has
    a property. -/
def Shows (P : α → Prop) : Except Fault α → Prop
  | .ok a => P a
  | .error fault => fault ≠ .endlessInteger

theorem Shows.ok {a : α} (holds : P a) : Shows P (.ok a) := holds

theorem Shows.fail (f : Failure) : Shows P (fail f) := nofun

theorem Shows.ne (shows : Shows P r) : r ≠ .error .endlessInteger := by
  rintro rfl
  exact shows rfl

theorem Shows.imp {R : α → Prop} (shows : Shows P r) (weaker : ∀ a, P a → R a) : Shows R r := by
  cases r with
  | ok a => exact weaker a shows
  | error fault => exact shows

theorem Shows.bind {f : α → Except Fault β} (first : Shows P r) (rest : ∀ a, P a → Shows Q (f a)) :
    Shows Q (r >>= f) := by
  cases r with
  | ok a => exact rest a first
  | error fault => exact first

theorem Shows.map {f : α → β} (first : Shows P r) (each : ∀ a, P a → Q (f a)) :
    Shows Q (r.map f) := by
  cases r with
  | ok a => exact each a first
  | error fault => exact first

theorem Shows.mapM {f : α → Except Fault β} {xs : List α} (each : ∀ x ∈ xs, Shows Q (f x)) :
    Shows (fun ys : List β => ∀ y ∈ ys, Q y) (xs.mapM f) := by
  induction xs with
  | nil => exact List.forall_mem_nil _
  | cons x rest ih =>
    rw [List.mapM_cons]
    obtain ⟨first, others⟩ := List.forall_mem_cons.1 each
    refine first.bind fun y here => (ih others).bind fun ys behind => ?_
    exact List.forall_mem_cons.2 ⟨here, behind⟩

theorem Shows.anyM {test : α → Except Fault Bool} {xs : List α}
    (each : ∀ x ∈ xs, Shows (fun _ => True) (test x)) : Shows (fun _ => True) (xs.anyM test) := by
  induction xs with
  | nil => trivial
  | cons x rest ih =>
    obtain ⟨first, others⟩ := List.forall_mem_cons.1 each
    refine first.bind fun passed _ => ?_
    split
    · trivial
    · exact ih others

theorem Shows.foldlM {f : β → α → Except Fault β} {xs : List α} {b : β} (start : Q b)
    (each : ∀ x ∈ xs, ∀ b, Q b → Shows Q (f b x)) : Shows Q (xs.foldlM f b) := by
  induction xs generalizing b with
  | nil => exact start
  | cons x rest ih =>
    obtain ⟨first, others⟩ := List.forall_mem_cons.1 each
    exact (first b start).bind fun b' next => ih next others

theorem Shows.firstIndex? {passes : Value → Except Fault Bool} {xs : List Value}
    (each : ∀ x ∈ xs, Shows (fun _ => True) (passes x)) :
    Shows (fun _ => True) (Value.firstIndex? passes xs) := by
  induction xs with
  | nil => trivial
  | cons x rest ih =>
    obtain ⟨first, others⟩ := List.forall_mem_cons.1 each
    refine first.bind fun passed _ => ?_
    split
    · trivial
    · exact (ih others).bind fun _ _ => trivial

end Results

/-! ## What is shown -/

namespace Value.Showable

variable {α : Type} {P : α → Prop} {v w : Value}

theorem literalText (shown : v.Showable) : Shows (fun _ => True) v.literalText := by
  rw [literalText_ok.2 ⟨shown, rfl⟩]
  trivial

theorem plainText (shown : v.Showable) : Shows (fun _ => True) v.plainText := by
  rw [plainText_ok.2 ⟨shown.hasPlain, rfl⟩]
  trivial

theorem failShowing (shown : v.Showable) (f : String → Failure) : Shows P (failShowing v f) :=
  shown.plainText.bind fun _ _ => .fail _

theorem filing (shown : v.Showable) : Shows (fun _ => True) (Identity.filing v) := by
  rw [Identity.filing_ok.2 ⟨shown.hasPlain, rfl⟩]
  trivial

theorem compare (first : v.Showable) (second : w.Showable) :
    Shows (fun _ => True) (Identity.compare v w) := by
  rw [Identity.compare_shown first.hasPlain second.hasPlain]
  trivial

theorem convert (shown : v.Showable) : Shows (fun _ => True) (Identity.convert v) := by
  unfold Identity.convert
  split
  · trivial
  · split
    · exact .fail _
    · exact shown.literalText.bind fun _ _ => .fail _

theorem members (shown : v.Showable) : Shows (fun ms => ∀ m ∈ ms, m.Showable) v.members := by
  unfold Value.members
  split
  · rename_i lists
    exact shown.members? lists
  · rintro ⟨⟩

/-- The pairs that a value describes have values that can be shown. -/
theorem asPairs (shown : v.Showable) : Shows (fun ps => ∀ p ∈ ps, p.2.Showable) v.asPairs := by
  unfold Value.asPairs
  split
  · rename_i fs
    intro p among
    obtain ⟨f, held, rfl⟩ := List.mem_map.1 among
    exact showable_object.1 shown f held
  · refine shown.members.bind fun ms each => ?_
    refine Shows.bind (P := fun ps => ∀ p ∈ ps, p.2.Showable) ?_ fun ps read => ?_
    · refine .mapM fun m among => ?_
      have inner : m.1.Showable := each m.1 (List.fst_mem_of_mem_zipIdx among)
      unfold pair
      split
      · rename_i parts
        split
        · exact inner.members? parts _ (.tail _ (.head _))
        · rintro ⟨⟩
      · rintro ⟨⟩
      · rintro ⟨⟩
    · refine List.foldlRecOn ps putPair (motive := fun qs : List (Value × Value) =>
        ∀ q ∈ qs, q.2.Showable) (List.forall_mem_nil _) fun qs held p among => ?_
      have new := read p among
      clear among
      induction qs with
      | nil => exact List.forall_mem_singleton.2 new
      | cons q rest ih =>
        obtain ⟨here, behind⟩ := List.forall_mem_cons.1 held
        unfold putPair
        split
        · exact List.forall_mem_cons.2 ⟨new, behind⟩
        · exact List.forall_mem_cons.2 ⟨here, ih behind⟩

theorem asFields (shown : v.Showable) : Shows Fields.Showable v.asFields := by
  unfold Value.asFields
  split
  · exact showable_object.1 shown
  · refine shown.asPairs.bind fun ps each => .mapM fun p among => ?_
    split
    · exact each p among
    · rintro ⟨⟩

end Value.Showable

/-! ## Paths -/

namespace Path

variable {idField segment : String} {names : List String} {current doc path ids : Value}

theorem split_shows (shown : path.Showable) : Shows (fun _ => True) (split path) := by
  have listed : Shows (fun _ => True) (segments path) := by
    unfold segments
    split
    · trivial
    · trivial
    · refine shown.members.bind fun ms each => ?_
      have texts := Shows.mapM fun m among => (each m among).plainText
      exact texts.imp fun _ _ => trivial
  refine listed.bind fun names _ => ?_
  split
  · exact .fail _
  · split
    · exact shown.literalText.bind fun _ _ => .fail _
    · trivial

theorem top_shows (shown : path.Showable) : Shows (fun _ => True) (top path) :=
  (split_shows shown).bind fun _ _ => trivial

/-- Selectors that can be shown. -/
def Shown (wanted : List (Option Value)) : Prop := ∀ w ∈ wanted, ∀ v ∈ w, v.Showable

theorem Shown.head {wanted : List (Option Value)} (shown : Shown wanted) :
    ∀ v ∈ wanted.headD none, v.Showable := by
  cases wanted with
  | nil => rintro _ ⟨⟩
  | cons w rest => exact shown w (.head _)

theorem Shown.tail {wanted : List (Option Value)} (shown : Shown wanted) : Shown wanted.tail :=
  fun w among => shown w (List.mem_of_mem_tail among)

theorem selectors_shows (shown : ids.Showable) : Shows Shown (selectors ids) := by
  have selects {v : Value} (inner : v.Showable) : ∀ w ∈ selector? v, w.Showable := by
    unfold selector?
    split
    · rintro _ ⟨⟩
    · split
      · rintro _ ⟨⟩
      · rintro w ⟨⟩
        rfl
    · rintro w ⟨⟩
      exact inner
  have texts (s : String) : Shown (if s = "" then [] else
      (splitDots s.toList).map fun cs => selector? (.text (String.ofList cs))) := by
    split
    · exact List.forall_mem_nil _
    · intro w among
      obtain ⟨cs, _, rfl⟩ := List.mem_map.1 among
      exact selects rfl
  unfold selectors
  split
  · exact List.forall_mem_nil _
  · exact texts _
  · exact texts _
  · refine shown.members.bind fun ms each => ?_
    intro w among
    obtain ⟨m, held, rfl⟩ := List.mem_map.1 among
    exact selects (each m held)

theorem index?_shows : Shows (fun _ => True) (index? segment) := by
  unfold index?
  split <;> first | trivial | nofun

theorem childAt_shows (shown : current.Showable) :
    Shows (fun found => ∀ c ∈ found, c.2.Showable) (childAt current segment) := by
  unfold childAt
  split
  · rintro c found
    obtain ⟨v, held, rfl⟩ := Option.map_eq_some_iff.1 found
    exact (Value.showable_object.1 shown).get? v held
  · refine index?_shows.bind fun i _ => ?_
    split
    · rintro c found
      obtain ⟨v, held, rfl⟩ := Option.map_eq_some_iff.1 found
      exact Value.showable_array.1 shown v (List.mem_of_getElem? held)
    · rintro _ ⟨⟩
  · rintro _ ⟨⟩

theorem select_shows {wanted target : Value} (shown : target.Showable) (asked : wanted.Showable) :
    Shows (fun found => found.2.Showable) (select idField segment wanted target) := by
  unfold select
  split
  · rename_i xs
    have each := Value.showable_array.1 shown
    have finds : Shows (fun _ => True) (indexOfId? idField wanted xs) :=
      .firstIndex? fun x among => ((each x among).fields.getD _).compare asked
    refine finds.bind fun i _ => ?_
    split
    · rename_i i
      show (xs.getD i .null).Showable
      rw [List.getD_eq_getElem?_getD]
      cases held : xs[i]? with
      | none => rfl
      | some x => exact each x (List.mem_of_getElem? held)
    · exact asked.failShowing _
  · exact .fail _

theorem step_shows {selector : Option Value} (shown : current.Showable)
    (asked : ∀ v ∈ selector, v.Showable) :
    Shows (fun found => ∀ c ∈ found, c.2.Showable) (step idField current segment selector) := by
  refine (childAt_shows shown).bind fun found each => ?_
  split
  · rintro _ ⟨⟩
  · rename_i k v
    split
    · rintro c ⟨⟩
      exact each _ rfl
    · rename_i wanted
      refine (select_shows (each (k, v) rfl) (asked wanted rfl)).bind fun element inner => ?_
      rintro c ⟨⟩
      exact inner

theorem resolveFrom_shows {wanted : List (Option Value)} (shown : current.Showable)
    (asked : Shown wanted) :
    Shows (fun _ => True) (resolveFrom idField current names wanted) := by
  induction names generalizing current wanted with
  | nil => trivial
  | cons segment rest ih =>
    cases rest with
    | nil =>
      unfold resolveFrom
      split
      · unfold lastPlace
        split
        · exact index?_shows.bind fun _ _ => trivial
        · trivial
      · rename_i v own
        refine (childAt_shows shown).bind fun found each => ?_
        split
        · trivial
        · trivial
        · rename_i k target _
          exact (select_shows (each (k, target) rfl) (asked.head v own)).bind fun _ _ => trivial
    | cons second rest =>
      refine (step_shows shown asked.head).bind fun found each => ?_
      split
      · trivial
      · rename_i way next
        split
        · exact (ih (each (way, next) rfl) asked.tail).bind fun _ _ => trivial
        · trivial

theorem resolve_shows (shown : doc.Showable) (named : path.Showable) (asked : ids.Showable) :
    Shows (fun _ => True) (resolve idField doc path ids) :=
  (split_shows named).bind fun _ _ => (selectors_shows asked).bind fun _ wanted =>
    resolveFrom_shows shown wanted

theorem valueAt?_showable (shown : doc.Showable) (place : Option Place) :
    ∀ v ∈ valueAt? doc place, v.Showable := by
  cases place with
  | none => rintro _ ⟨⟩
  | some p => exact p.value?_showable shown

theorem containerKey_shows (container : Value) (segment : String) :
    Shows (fun _ => True) (containerKey container segment) := by
  unfold containerKey
  split
  · refine index?_shows.bind fun i _ => ?_
    split
    · split
      · trivial
      · exact .fail _
    · exact .fail _
  · trivial

/-- Where a write lands is told without showing anything. -/
theorem landingFrom_shows (limit : Option Int) (walked names : List String) (current : Value) :
    Shows (fun _ => True) (landingFrom limit walked current names) := by
  induction names generalizing current walked with
  | nil => exact .fail _
  | cons segment rest ih =>
    cases rest with
    | nil => exact (containerKey_shows current segment).bind fun _ _ => trivial
    | cons second rest =>
      have child : Shows (fun _ => True) (writableChild current segment) := by
        unfold writableChild
        split
        · trivial
        · refine index?_shows.bind fun i _ => ?_
          split
          · trivial
          · exact .fail _
        · exact .fail _
      refine child.bind fun found _ => ?_
      split
      · split
        · exact (containerKey_shows current segment).bind fun _ _ => trivial
        · exact .fail _
      · split
        · exact (ih _ _).bind fun _ _ => trivial
        · exact .fail _

theorem landing_shows (limit : Option Int) (doc : Value) (named : path.Showable) :
    Shows (fun _ => True) (landing limit doc path) :=
  (split_shows named).bind fun _ _ => landingFrom_shows _ _ _ _

end Path

theorem DirtySet.touch_shows (dirty : DirtySet) {path : Value} (named : path.Showable) :
    Shows (fun _ => True) (dirty.touch path) :=
  (Path.top_shows named).bind fun _ _ => trivial

/-- What a landing makes of a document can be shown, if the document and the value can. -/
theorem Landing.put_shows (l : Landing) {doc v : Value} (shown : doc.Showable) (new : v.Showable) :
    Shows Value.Showable (l.put doc v) := by
  have inner := nest_showable l.below new
  unfold Landing.put Place.put
  split
  · rename_i c held
    have container := shown.at? c held
    refine Shows.map (P := Value.Showable) ?_ fun after put => shown.replaceAt put
    unfold Value.assign
    split
    · exact Value.showable_object.2 ((Value.showable_object.1 container).set inner)
    · have each := Value.showable_array.1 container
      split
      · refine Value.showable_array.2 fun x among => ?_
        rcases List.mem_or_eq_of_mem_set among with among | rfl
        · exact each x among
        · exact inner
      · split
        · refine Value.showable_array.2 fun x among => ?_
          rcases List.mem_append.1 among with among | among
          · exact each x among
          · cases List.mem_singleton.1 among
            exact inner
        · rintro ⟨⟩
    · rintro ⟨⟩
  · exact shown

end DocRepair

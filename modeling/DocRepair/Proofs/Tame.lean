import DocRepair.Proofs.Rewritten
/-!
# `DocRepair.Proofs.Tame` — what nothing but a failure stops

A failure is what the engine reports: callers see its kind, its message and its context. Any other
fault passes through them. One of the others can come from whatever shows a value, in the message of
a failure or in the key of an identifier: an integer with too many digits. It is set aside here. A
computation is tame if nothing but failures and such integers stops it, and wild if another fault
does. A chain is wild if its first link is, or one that is reached.

Paths are the main source of wildness. A segment that is made of digits is read as an index as soon
as the way comes to an array, and some digits spell no index: those of no decimal system, and those
of a number that is too long to be read. A path is clear if all its segments are legible. A write to
a place that was found goes through.

## Contents

* `Fault.isTame` / `Tame` / `TameAt` — results and computations that only such faults stop;
* `Wild` / `WildAt` — those that something else stops;
* `wild_bind` / `wildAt_bind` — chains;
* `Path.Legible` / `Path.Clear` — segments and paths that can be read;
* `Path.landing_puts` — a write to a landing goes through.
-/

namespace DocRepair

/-- A failure of the engine, or an integer with too many digits to be shown. -/
def Fault.isTame (fault : Fault) : Bool :=
  fault.isFailure || fault matches .endlessInteger

theorem Fault.isFailure_of_isTame {fault : Fault} (wild : fault.isTame = false) :
    fault.isFailure = false :=
  (Bool.or_eq_false_iff.1 wild).1

/-! ## Results -/

section Results

variable {α β : Type} {r : Except Fault α}

/-- Nothing but a failure of the engine, or an integer that cannot be shown, stands in the place of
    a result. -/
def Tame (r : Except Fault α) : Prop :=
  ∀ fault, r = .error fault → fault.isTame = true

theorem Tame.ok (a : α) : Tame (.ok a) := fun _ stop => nomatch stop

theorem Tame.fail (f : Failure) : Tame (fail f : Except Fault α) := by
  rintro fault ⟨⟩
  rfl

theorem Tame.endlessInteger : Tame (.error .endlessInteger : Except Fault α) := by
  rintro fault ⟨⟩
  rfl

theorem Tame.literalText (v : Value) : Tame v.literalText := by
  unfold Value.literalText
  split
  · exact .ok _
  · exact .endlessInteger

theorem Tame.plainText (v : Value) : Tame v.plainText := by
  unfold Value.plainText
  split
  · exact .ok _
  · exact .endlessInteger

theorem Tame.bind {f : α → Except Fault β} (first : Tame r) (rest : ∀ a, r = .ok a → Tame (f a)) :
    Tame (r >>= f) := by
  intro fault stop
  cases run : r with
  | error other =>
    rw [run] at stop
    cases stop
    exact first fault run
  | ok a =>
    rw [run] at stop
    exact rest a run fault stop

theorem Tame.failShowing (v : Value) (f : String → Failure) :
    Tame (failShowing v f : Except Fault α) :=
  (Tame.plainText v).bind fun _ _ => .fail _

theorem Tame.filing (v : Value) : Tame (Identity.filing v) := by
  unfold Identity.filing
  split
  · exact .ok _
  · exact .endlessInteger

theorem Tame.compare (left right : Value) : Tame (Identity.compare left right) := by
  unfold Identity.compare
  split
  · exact .ok _
  · exact .endlessInteger

theorem Tame.firstIndex? {passes : Value → Except Fault Bool} (each : ∀ v, Tame (passes v))
    (xs : List Value) : Tame (Value.firstIndex? passes xs) := by
  induction xs with
  | nil => exact .ok _
  | cons v rest ih =>
    refine (each v).bind fun passed _ => ?_
    split
    · exact .ok _
    · exact ih.bind fun _ _ => .ok _

theorem Tame.anyM {test : β → Except Fault Bool} (each : ∀ x, Tame (test x)) (xs : List β) :
    Tame (xs.anyM test) := by
  induction xs with
  | nil => exact .ok _
  | cons x rest ih =>
    refine (each x).bind fun passed _ => ?_
    split
    · exact .ok _
    · exact ih

theorem Tame.mapM {f : β → Except Fault α} {xs : List β} (each : ∀ x ∈ xs, Tame (f x)) :
    Tame (xs.mapM f) := by
  induction xs with
  | nil => exact .ok []
  | cons x rest ih =>
    rw [List.mapM_cons]
    refine (each x List.mem_cons_self).bind fun a _ => ?_
    refine (ih fun y hy => each y (List.mem_cons_of_mem x hy)).bind fun as _ => .ok _

/-- A fault that is neither stands in the place of a result. -/
def Wild (r : Except Fault α) : Prop :=
  ∃ fault, r = .error fault ∧ fault.isTame = false

theorem tame_iff : Tame r ↔ ¬ Wild r := by
  constructor
  · rintro tame ⟨fault, stop, other⟩
    rw [tame fault stop] at other
    cases other
  · intro calm fault stop
    exact Bool.of_not_eq_false fun other => calm ⟨fault, stop, other⟩

/-- **A chain is wild** if its first link is, or what follows for a result of it. -/
theorem wild_bind {f : α → Except Fault β} :
    Wild (r >>= f) ↔ Wild r ∨ ∃ a, r = .ok a ∧ Wild (f a) := by
  constructor
  · rintro ⟨fault, stop, other⟩
    cases run : r with
    | error cause =>
      rw [run] at stop
      cases stop
      exact .inl ⟨fault, rfl, other⟩
    | ok a =>
      rw [run] at stop
      exact .inr ⟨a, rfl, fault, stop, other⟩
  · rintro (⟨fault, rfl, other⟩ | ⟨a, rfl, wild⟩)
    · exact ⟨fault, rfl, other⟩
    · exact wild

/-- Where all that follows is tame, a chain is as wild as its first link. -/
theorem wild_bind_tame {f : α → Except Fault β} (rest : ∀ a, r = .ok a → Tame (f a)) :
    Wild (r >>= f) ↔ Wild r := by
  rw [wild_bind]
  refine or_iff_left ?_
  rintro ⟨a, run, wild⟩
  exact tame_iff.1 (rest a run) wild

theorem wild_map {f : α → β} : Wild (r.map f) ↔ Wild r := by
  cases r with
  | ok a => exact iff_of_false (tame_iff.1 (.ok _)) (tame_iff.1 (.ok _))
  | error fault =>
    constructor
    · rintro ⟨_, ⟨⟩, other⟩
      exact ⟨fault, rfl, other⟩
    · rintro ⟨_, ⟨⟩, other⟩
      exact ⟨fault, rfl, other⟩

end Results

/-! ## Computations -/

section Computations

variable {σ α β : Type} {a : EStateM Fault σ α} {s : σ}

/-- Nothing but a failure of the engine, or an integer that cannot be shown, stops a computation that
    starts in a given state. -/
def TameAt (a : EStateM Fault σ α) (s : σ) : Prop :=
  ∀ fault t, a s = .error fault t → fault.isTame = true

theorem TameAt.pure (x : α) : TameAt (Pure.pure x : EStateM Fault σ α) s :=
  fun _ _ stop => nomatch stop

theorem TameAt.of_returns (returns : ∃ x t, a s = .ok x t) : TameAt a s := by
  obtain ⟨x, t, run⟩ := returns
  intro fault t stop
  rw [run] at stop
  cases stop

/-- In a chain, the rest matters only for what the first link can return, and for the state that it
leaves then. -/
theorem TameAt.bind {f : α → EStateM Fault σ β} (first : TameAt a s)
    (rest : ∀ x t, a s = .ok x t → TameAt (f x) t) : TameAt (a >>= f) s := by
  intro fault t stop
  rcases run_bind_error.1 stop with stop | ⟨x, u, run, stop⟩
  · exact first fault t stop
  · exact rest x u run fault t stop

/-- A fault that is neither stops a computation that starts in a given state. -/
def WildAt (a : EStateM Fault σ α) (s : σ) : Prop :=
  ∃ fault t, a s = .error fault t ∧ fault.isTame = false

theorem tameAt_iff : TameAt a s ↔ ¬ WildAt a s := by
  constructor
  · rintro tame ⟨fault, t, stop, other⟩
    rw [tame fault t stop] at other
    cases other
  · intro calm fault t stop
    exact Bool.of_not_eq_false fun other => calm ⟨fault, t, stop, other⟩

/-- What is wild under a condition only is tame without it. -/
theorem TameAt.of_wild {P : Prop} (wild : WildAt a s ↔ P) (calm : ¬ P) : TameAt a s :=
  tameAt_iff.2 fun stops => calm (wild.1 stops)

theorem wildAt_bind {f : α → EStateM Fault σ β} :
    WildAt (a >>= f) s ↔ WildAt a s ∨ ∃ x t, a s = .ok x t ∧ WildAt (f x) t := by
  constructor
  · rintro ⟨fault, t, stop, other⟩
    rcases run_bind_error.1 stop with stop | ⟨x, u, run, stop⟩
    · exact .inl ⟨fault, t, stop, other⟩
    · exact .inr ⟨x, u, run, fault, t, stop, other⟩
  · rintro (⟨fault, t, stop, other⟩ | ⟨x, u, run, fault, t, stop, other⟩)
    · exact ⟨fault, t, run_bind_error.2 (.inl stop), other⟩
    · exact ⟨fault, t, run_bind_error.2 (.inr ⟨x, u, run, stop⟩), other⟩

theorem wildAt_bind_tame {f : α → EStateM Fault σ β}
    (rest : ∀ x t, a s = .ok x t → TameAt (f x) t) : WildAt (a >>= f) s ↔ WildAt a s := by
  rw [wildAt_bind]
  refine or_iff_left ?_
  rintro ⟨x, t, run, wild⟩
  exact tameAt_iff.1 (rest x t run) wild

/-- A chain whose first link returns is as wild as the rest. -/
theorem wildAt_bind_of_ok {f : α → EStateM Fault σ β} {x : α} {t : σ} (run : a s = .ok x t) :
    WildAt (a >>= f) s ↔ WildAt (f x) t := by
  unfold WildAt
  rw [run_bind_of_ok run]

end Computations

namespace Edit

variable {α β : Type} {d : Draft}

theorem lift_tame {r : Except Fault α} (tame : Tame r) : TameAt (lift r) d := by
  cases r with
  | ok x => exact fun _ _ stop => nomatch stop
  | error fault =>
    rintro _ _ ⟨⟩
    exact tame fault rfl

theorem look_tame {f : Value → Except Fault α} (tame : Tame (f d.doc)) : TameAt (look f) d := by
  intro fault t stop
  unfold look at stop
  cases found : f d.doc with
  | ok x =>
    rw [found] at stop
    cases stop
  | error other =>
    rw [found] at stop
    cases stop
    exact tame fault found

/-- A chain that begins with a check goes on from the same draft. -/
theorem lift_bind_tame {r : Except Fault α} {f : α → Edit β} (tame : Tame r)
    (rest : ∀ x, r = .ok x → TameAt (f x) d) : TameAt (lift r >>= f) d := by
  refine (lift_tame tame).bind fun x t run => ?_
  obtain ⟨found, rfl⟩ := lift_ok.1 run
  exact rest x found

/-- A chain that begins with a look at the document goes on from the same draft. -/
theorem look_bind_tame {g : Value → Except Fault α} {f : α → Edit β} (tame : Tame (g d.doc))
    (rest : ∀ x, g d.doc = .ok x → TameAt (f x) d) : TameAt (look g >>= f) d := by
  refine (look_tame tame).bind fun x t run => ?_
  obtain ⟨found, rfl⟩ := look_ok.1 run
  exact rest x found

theorem wildAt_look {g : Value → Except Fault α} : WildAt (look g) d ↔ Wild (g d.doc) := by
  constructor
  · rintro ⟨fault, t, stop, other⟩
    exact ⟨fault, (look_error.1 stop).1, other⟩
  · rintro ⟨fault, stop, other⟩
    exact ⟨fault, d, look_error.2 ⟨stop, rfl⟩, other⟩

/-- Behind a tame check the rest matters only if the check is passed. -/
theorem wildAt_lift_bind {r : Except Fault α} {f : α → Edit β} (tame : Tame r) :
    WildAt (lift r >>= f) d ↔ ∃ x, r = .ok x ∧ WildAt (f x) d := by
  rw [wildAt_bind]
  constructor
  · rintro (wild | ⟨x, t, run, wild⟩)
    · exact absurd wild (tameAt_iff.1 (lift_tame tame))
    · obtain ⟨found, rfl⟩ := lift_ok.1 run
      exact ⟨x, found, wild⟩
  · rintro ⟨x, found, wild⟩
    exact .inr ⟨x, d, lift_ok.2 ⟨found, rfl⟩, wild⟩

theorem wildAt_look_bind {g : Value → Except Fault α} {f : α → Edit β} :
    WildAt (look g >>= f) d ↔ Wild (g d.doc) ∨ ∃ x, g d.doc = .ok x ∧ WildAt (f x) d := by
  rw [wildAt_bind, wildAt_look]
  refine or_congr_right ?_
  constructor
  · rintro ⟨x, t, run, wild⟩
    obtain ⟨found, rfl⟩ := look_ok.1 run
    exact ⟨x, found, wild⟩
  · rintro ⟨x, found, wild⟩
    exact ⟨x, d, look_ok.2 ⟨found, rfl⟩, wild⟩

theorem wildAt_look_bind_tame {g : Value → Except Fault α} {f : α → Edit β}
    (rest : ∀ x, g d.doc = .ok x → TameAt (f x) d) :
    WildAt (look g >>= f) d ↔ Wild (g d.doc) := by
  rw [wildAt_look_bind]
  refine or_iff_left ?_
  rintro ⟨x, found, wild⟩
  exact tameAt_iff.1 (rest x found) wild

end Edit

namespace Access

variable {σ α β : Type} {s : Session σ}

theorem lift_tame {r : Except Fault α} (tame : Tame r) : TameAt (lift r) s := by
  cases r with
  | ok x => exact fun _ _ stop => nomatch stop
  | error fault =>
    rintro _ _ ⟨⟩
    exact tame fault rfl

theorem look_tame {find : σ → Except Fault α} (tame : Tame (find s.store)) :
    TameAt (look find) s := by
  intro fault t stop
  unfold look at stop
  cases found : find s.store with
  | ok x =>
    rw [found] at stop
    cases stop
  | error other =>
    rw [found] at stop
    cases stop
    exact tame fault found

end Access

/-! ## Paths that can be read -/

namespace Path

/-- A segment that is made of digits spells an index. -/
def Legible (segment : String) : Prop := ∃ i, index? segment = .ok i

/-- A path that can be read: it lists segments, all of them legible. A path without segments, or
    with an empty one, is refused before any of them is looked at. -/
structure Clear (path : Value) : Prop where
  lists : Tame (split path)
  legible : ∀ names, split path = .ok names → ∀ s ∈ names, Legible s

theorem split_tame_of_segments {path : Value} (lists : Tame (segments path)) :
    Tame (split path) := by
  refine lists.bind fun names _ => ?_
  split
  · exact .fail _
  · split
    · exact (Tame.literalText path).bind fun _ _ => .fail _
    · exact .ok _

/-- A text lists its segments. -/
theorem split_text_tame (s : String) : Tame (split (.text s)) :=
  split_tame_of_segments (.ok _)

/-- An array lists its items. -/
theorem split_array_tame (xs : List Value) : Tame (split (.array xs)) :=
  split_tame_of_segments (.mapM fun x _ => .plainText x)

theorem selectors_array_tame (xs : List Value) : Tame (selectors (.array xs)) := .ok _

/-! ## The place of a write -/

variable {segment : String} {names : List String}

/-- A write under a key that a segment names goes through. -/
theorem assign_of_containerKey {c v : Value} {k : Key} (container : c.isContainer = true)
    (key : containerKey c segment = .ok k) : ∃ after, c.assign k v = .ok after := by
  cases c with
  | object fs =>
    cases key
    exact ⟨_, rfl⟩
  | array xs =>
    obtain ⟨i, _, key⟩ := bind_eq_ok.1 key
    cases i with
    | none => cases key
    | some i =>
      dsimp only at key
      split at key
      · rename_i bounded
        cases key
        unfold Value.assign
        dsimp only
        split
        · exact ⟨_, rfl⟩
        · exact ⟨_, if_pos (by omega)⟩
      · cases key
  | _ => cases container

/-- **A write to a landing that was found goes through.** -/
theorem landingFrom_puts {limit : Option Int} {walked : List String} {c : Value} {l : Landing}
    (container : c.isContainer = true) (found : landingFrom limit walked c names = .ok l)
    (v : Value) : ∃ after, l.put c v = .ok after := by
  induction names generalizing walked c l with
  | nil => cases found
  | cons segment rest ih =>
    cases rest with
    | nil =>
      obtain ⟨k, key, found⟩ := bind_eq_ok.1 found
      cases found
      rw [Landing.put_here]
      exact assign_of_containerKey container key
    | cons second rest =>
      unfold landingFrom at found
      obtain ⟨child, leads, found⟩ := bind_eq_ok.1 found
      cases child with
      | none =>
        dsimp only at found
        split at found
        · obtain ⟨k, key, found⟩ := bind_eq_ok.1 found
          cases found
          rw [Landing.put_here]
          exact assign_of_containerKey container key
        · cases found
      | some child =>
        obtain ⟨k, next⟩ := child
        obtain ⟨_, held, _⟩ := writableChild_eq_some.1 leads
        dsimp only at found
        split at found
        · rename_i goesOn
          obtain ⟨inner, below, found⟩ := bind_eq_ok.1 found
          cases found
          obtain ⟨after, puts⟩ := ih goesOn below
          rw [Landing.put_under held, puts]
          exact ⟨_, rfl⟩
        · cases found

theorem landing_puts {limit : Option Int} {doc path : Value} {l : Landing}
    (obj : doc.isObject = true) (found : landing limit doc path = .ok l) (v : Value) :
    ∃ after, l.put doc v = .ok after := by
  obtain ⟨names, _, found⟩ := bind_eq_ok.1 found
  exact landingFrom_puts (Value.isContainer_of_isObject obj) found v

end Path

end DocRepair

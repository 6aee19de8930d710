import DocRepair.Store
/-!
# `DocRepair.Proofs.Computations` — taking computations apart

Results that may be faults, edits and accesses are all chains of smaller computations. What a chain
does is said here once, by what its links do, so that no later proof opens a monad.

## Contents

* `bind_eq_ok` / `run_bind` / `run_bind_ok` / `run_bind_error` — a chain by its links;
* `returnsWith` / `stopsWith` — how a run ends, as a test;
* `firstIndex?_eq_some` / `anyM_ok` — searches by their tests;
* `Edit.…_ok` — what the basic edits do when they succeed;
* `Access.sessionAfter` — the session that an access leaves;
* `Access.Keeps` — accesses that never change a view of the store, with one lemma for each way to
  build one;
* `Access.Preserves` — accesses that keep a property of the store;
* `Access.CleanStop` — accesses whose faults leave a view of the store as it was.
-/

namespace DocRepair

/-! ## Chains -/

theorem bind_eq_ok {α β : Type} {r : Except Fault α} {f : α → Except Fault β} {b : β} :
    (r >>= f) = .ok b ↔ ∃ a, r = .ok a ∧ f a = .ok b := by
  cases r with
  | error fault => simp [bind, Except.bind]
  | ok a => simp [bind, Except.bind]

section Chains

variable {σ α β : Type} {x : EStateM Fault σ α} {f : α → EStateM Fault σ β} {s t : σ}

theorem run_bind :
    (x >>= f) s =
      match x s with
      | .ok a t => f a t
      | .error fault t => .error fault t := by
  show EStateM.bind x f s = _
  unfold EStateM.bind
  cases x s <;> rfl

theorem run_bind_of_ok {a : α} (first : x s = .ok a t) : (x >>= f) s = f a t := by
  rw [run_bind, first]

theorem run_bind_ok {b : β} :
    (x >>= f) s = .ok b t ↔ ∃ a u, x s = .ok a u ∧ f a u = .ok b t := by
  rw [run_bind]
  cases h : x s with
  | ok a u =>
    constructor
    · exact fun hf => ⟨a, u, rfl, hf⟩
    · rintro ⟨_, _, heq, hf⟩
      cases heq; exact hf
  | error fault u => simp

theorem run_bind_error {fault : Fault} :
    (x >>= f) s = .error fault t ↔
      x s = .error fault t ∨ ∃ a u, x s = .ok a u ∧ f a u = .error fault t := by
  rw [run_bind]
  cases h : x s with
  | ok a u =>
    constructor
    · exact fun hf => .inr ⟨a, u, rfl, hf⟩
    · rintro (heq | ⟨_, _, heq, hf⟩)
      · cases heq
      · cases heq; exact hf
  | error other u => simp

theorem run_pure_ok {a b : α} :
    (pure a : EStateM Fault σ α) s = .ok b t ↔ a = b ∧ s = t := by
  show EStateM.Result.ok a s = _ ↔ _
  simp

/-- Whether a run returns, with a result and in a state of such a kind. -/
def returnsWith (test : α → σ → Bool) : EStateM.Result Fault σ α → Bool
  | .ok a s => test a s
  | .error _ _ => false

/-- Whether a run stops, in a state of such a kind. -/
def stopsWith (test : σ → Bool) : EStateM.Result Fault σ α → Bool
  | .ok _ _ => false
  | .error _ s => test s

theorem exists_of_returnsWith {test : α → σ → Bool} {r : EStateM.Result Fault σ α}
    (returns : returnsWith test r = true) : ∃ a s, r = .ok a s ∧ test a s = true := by
  cases r with
  | ok a s => exact ⟨a, s, rfl, returns⟩
  | error fault s => cases returns

theorem exists_of_stopsWith {test : σ → Bool} {r : EStateM.Result Fault σ α}
    (stops : stopsWith test r = true) : ∃ fault s, r = .error fault s ∧ test s = true := by
  cases r with
  | ok a s => cases stops
  | error fault s => exact ⟨fault, s, rfl, stops⟩

end Chains

/-! ## Searches -/

section Searches

variable {passes : Value → Except Fault Bool} {xs : List Value} {i : Nat} {fault : Fault}

/-- A search finds the index of a value that passes, and none before it does. -/
theorem firstIndex?_eq_some :
    Value.firstIndex? passes xs = .ok (some i) ↔
      (∃ v, xs[i]? = some v ∧ passes v = .ok true) ∧
        ∀ j < i, ∀ w, xs[j]? = some w → passes w = .ok false := by
  induction xs generalizing i with
  | nil => simp [Value.firstIndex?]
  | cons x rest ih =>
    unfold Value.firstIndex?
    cases tried : passes x with
    | error fault =>
      refine iff_of_false (fun h => nomatch h) ?_
      rintro ⟨⟨v, here, passing⟩, before⟩
      cases i with
      | zero =>
        cases here
        rw [tried] at passing
        cases passing
      | succ i =>
        have := before 0 (by omega) x rfl
        rw [tried] at this
        cases this
    | ok b =>
      cases b with
      | true =>
        cases i with
        | zero => exact iff_of_true rfl ⟨⟨x, rfl, tried⟩, fun j early => absurd early (by omega)⟩
        | succ i =>
          refine iff_of_false (fun h => nomatch h) ?_
          rintro ⟨_, before⟩
          have := before 0 (by omega) x rfl
          rw [tried] at this
          cases this
      | false =>
        simp only [Bind.bind, Except.bind, Bool.false_eq_true, if_false]
        cases i with
        | zero =>
          refine iff_of_false ?_ ?_
          · cases Value.firstIndex? passes rest <;> simp
          · rintro ⟨⟨v, here, passing⟩, _⟩
            cases here
            rw [tried] at passing
            cases passing
        | succ i =>
          have later : (∀ j < i + 1, ∀ w, (x :: rest)[j]? = some w → passes w = .ok false) ↔
              ∀ j < i, ∀ w, rest[j]? = some w → passes w = .ok false := by
            constructor
            · exact fun before j early w here => before (j + 1) (by omega) w here
            · intro before j early w here
              cases j with
              | zero =>
                cases here
                exact tried
              | succ j => exact before j (by omega) w here
          rw [later]
          show _ ↔ (∃ v, rest[i]? = some v ∧ _) ∧ _
          rw [← ih]
          cases Value.firstIndex? passes rest <;> simp

/-- A search that returns tells whether some value passes, if each test that returns tells it of
    its own. -/
theorem anyM_ok {α : Type} {test : α → Except Fault Bool} {holds : α → Bool} {items : List α}
    {b : Bool} (each : ∀ x b, test x = .ok b → holds x = b) (run : items.anyM test = .ok b) :
    items.any holds = b := by
  induction items with
  | nil =>
    cases run
    rfl
  | cons x rest ih =>
    obtain ⟨passed, tried, run⟩ := bind_eq_ok.1 run
    rw [List.any_cons, each x passed tried]
    cases passed with
    | true =>
      cases run
      rfl
    | false => exact ih run

end Searches

/-! ## Edits that succeed -/

namespace Edit

variable {α : Type} {a : α} {d d' : Draft}

theorem lift_ok {r : Except Fault α} : lift r d = .ok a d' ↔ r = .ok a ∧ d = d' := by
  unfold lift
  cases r <;> simp

theorem look_ok {f : Value → Except Fault α} :
    look f d = .ok a d' ↔ f d.doc = .ok a ∧ d = d' := by
  unfold look
  cases f d.doc <;> simp

theorem look_error {f : Value → Except Fault α} {fault : Fault} :
    look f d = .error fault d' ↔ f d.doc = .error fault ∧ d = d' := by
  unfold look
  cases f d.doc <;> simp

theorem land_ok {l : Landing} {v : Value} {u : Unit} :
    land l v d = .ok u d' ↔
      ∃ doc, l.put d.doc v = .ok doc ∧ { d.part l.place with doc := doc } = d' := by
  unfold land
  cases l.put d.doc v <;> simp

theorem land_error {l : Landing} {v : Value} {fault : Fault} :
    land l v d = .error fault d' ↔ l.put d.doc v = .error fault ∧ d = d' := by
  unfold land
  cases l.put d.doc v <;> simp

theorem write_ok {limit : Option Int} {path v : Value} {u : Unit} :
    write limit path v d = .ok u d' ↔
      ∃ l, Path.landing limit d.doc path = .ok l ∧ land l v d = .ok () d' := by
  unfold write
  rw [run_bind_ok]
  constructor
  · rintro ⟨l, e, found, hland⟩
    obtain ⟨hl, rfl⟩ := look_ok.1 found
    exact ⟨l, hl, hland⟩
  · rintro ⟨l, hl, hland⟩
    exact ⟨l, d, look_ok.2 ⟨hl, rfl⟩, hland⟩

end Edit

/-! ## Accesses and the store -/

namespace Access

variable {σ α β γ : Type}

/-- A computation that ends in a last step is lifted with that step taken afterwards. -/
theorem lift_bind_map (r : Except Fault α) (f : α → β) (g : β → Access σ γ) :
    (do g (← lift (do .ok (f (← r))))) = (do g (f (← lift r))) := by
  cases r <;> rfl

theorem lift_ok {r : Except Fault α} {x : α} {s t : Session σ} :
    (lift r : Access σ α) s = .ok x t ↔ r = .ok x ∧ s = t := by
  unfold lift
  cases r <;> simp

/-- A step that only returns, behind a computation that is lifted. -/
theorem lift_return_ok {r : Except Fault α} {f : α → β} {y : β} {s t : Session σ} :
    (do return f (← lift r) : Access σ β) s = .ok y t ↔ ∃ x, r = .ok x ∧ f x = y ∧ s = t := by
  rw [run_bind_ok]
  constructor
  · rintro ⟨x, u, lifted, run⟩
    obtain ⟨found, rfl⟩ := lift_ok.1 lifted
    obtain ⟨rfl, rfl⟩ := run_pure_ok.1 run
    exact ⟨x, found, rfl, rfl⟩
  · rintro ⟨x, found, rfl, rfl⟩
    exact ⟨x, s, lift_ok.2 ⟨found, rfl⟩, rfl⟩

theorem look_ok {find : σ → Except Fault α} {x : α} {s t : Session σ} :
    look find s = .ok x t ↔ find s.store = .ok x ∧ s = t := by
  unfold look
  cases find s.store <;> simp

/-- The session that an access leaves, whether it returns or stops. -/
def sessionAfter (a : Access σ α) (s : Session σ) : Session σ :=
  match a s with
  | .ok _ t => t
  | .error _ t => t

theorem sessionAfter_ok {a : Access σ α} {s t : Session σ} {x : α} (h : a s = .ok x t) :
    a.sessionAfter s = t := by
  unfold sessionAfter; rw [h]

theorem sessionAfter_error {a : Access σ α} {s t : Session σ} {fault : Fault}
    (h : a s = .error fault t) : a.sessionAfter s = t := by
  unfold sessionAfter; rw [h]

/-- An attempted look returns what it finds, or the fault. -/
theorem attempt_look (find : σ → Except Fault α) (s : Session σ) :
    attempt (look find) s = .ok (find s.store) s := by
  unfold attempt look
  cases find s.store <;> rfl

/-- What is attempted returns. -/
theorem attempt_returns (a : Access σ α) (s : Session σ) : ∃ r t, attempt a s = .ok r t := by
  unfold attempt
  cases a s with
  | ok x t => exact ⟨.ok x, t, rfl⟩
  | error fault t => exact ⟨.error fault, t, rfl⟩

/-- A document always gets its identifier. -/
theorem identify_returns (idField : String) (doc : Fields) (s : Session σ) :
    ∃ named t, identify idField doc s = .ok named t := by
  unfold identify
  split
  · exact ⟨_, _, rfl⟩
  · exact ⟨_, _, rfl⟩

/-- An access that leaves a view of the store as it is, whether it returns or stops. -/
def Keeps (view : σ → γ) (a : Access σ α) : Prop :=
  ∀ s, view (a.sessionAfter s).store = view s.store

section Keeps

variable {view : σ → γ} {a : Access σ α} {f : α → Access σ β} {s t : Session σ}

theorem Keeps.ok (h : Keeps view a) {x : α} (run : a s = .ok x t) : view t.store = view s.store := by
  rw [← sessionAfter_ok run]; exact h s

theorem Keeps.error (h : Keeps view a) {fault : Fault} (run : a s = .error fault t) :
    view t.store = view s.store := by
  rw [← sessionAfter_error run]; exact h s

theorem Keeps.pure (x : α) : Keeps view (Pure.pure x : Access σ α) := fun _ => rfl

/-- In a chain, the rest matters only for what the first link can return. -/
theorem Keeps.bind_of (ha : Keeps view a) (hf : ∀ s x t, a s = .ok x t → Keeps view (f x)) :
    Keeps view (a >>= f) := by
  intro s
  unfold sessionAfter
  rw [run_bind]
  cases h : a s with
  | error fault t => exact ha.error h
  | ok x t => exact (hf s x t h t).trans (ha.ok h)

theorem Keeps.bind (ha : Keeps view a) (hf : ∀ x, Keeps view (f x)) : Keeps view (a >>= f) :=
  ha.bind_of fun _ x _ _ => hf x

theorem Keeps.lift (r : Except Fault α) : Keeps view (lift r : Access σ α) := by
  intro s
  cases r <;> rfl

theorem Keeps.look (find : σ → Except Fault α) : Keeps view (look find) := by
  intro s
  unfold sessionAfter Access.look
  cases find s.store <;> rfl

theorem Keeps.mint : Keeps view (mint : Access σ ObjectId) := fun _ => rfl

theorem Keeps.attempt (h : Keeps view a) : Keeps view (attempt a) := by
  intro s
  unfold sessionAfter Access.attempt
  cases run : a s with
  | ok x t => exact h.ok run
  | error fault t => exact h.error run

theorem Keeps.edit (h : Handle) (e : Edit α) : Keeps view (edit h e : Access σ (Handle × α)) := by
  intro s
  unfold sessionAfter Access.edit
  cases e (h.draft s.supply) <;> rfl

theorem Keeps.identify (idField : String) (doc : Fields) :
    Keeps view (identify idField doc : Access σ Fields) := by
  unfold Access.identify
  split
  · exact Keeps.mint.bind fun _ => Keeps.pure _
  · exact Keeps.pure _

theorem Keeps.identifyAll (idField : String) (docs : List Value) :
    Keeps view (identifyAll idField docs : Access σ (List Fields)) := by
  induction docs with
  | nil => exact Keeps.pure _
  | cons v rest ih =>
    unfold Access.identifyAll
    split
    · exact Keeps.pure _
    · rename_i heq
      obtain ⟨rfl, rfl⟩ := List.cons.inj heq
      exact (Keeps.identify idField _).bind fun _ => ih.bind fun _ => Keeps.pure _
    · exact Keeps.lift _

theorem Keeps.mapM {f : β → Access σ α} (hf : ∀ x, Keeps view (f x)) (xs : List β) :
    Keeps view (xs.mapM f) := by
  induction xs with
  | nil => exact Keeps.pure _
  | cons x rest ih =>
    rw [List.mapM_cons]
    exact (hf x).bind fun _ => ih.bind fun _ => Keeps.pure _

end Keeps

/-- An access that keeps a property of the store, whether it returns or stops. -/
def Preserves (P : σ → Prop) (a : Access σ α) : Prop :=
  ∀ s, P s.store → P (a.sessionAfter s).store

section Preserves

variable {P : σ → Prop} {a : Access σ α} {f : α → Access σ β} {s t : Session σ}

theorem Preserves.ok (h : Preserves P a) {x : α} (start : P s.store) (run : a s = .ok x t) :
    P t.store := by
  rw [← sessionAfter_ok run]; exact h s start

theorem Preserves.error (h : Preserves P a) {fault : Fault} (start : P s.store)
    (run : a s = .error fault t) : P t.store := by
  rw [← sessionAfter_error run]; exact h s start

theorem Keeps.preserves (h : Keeps id a) : Preserves P a := by
  intro s start
  have same : (a.sessionAfter s).store = s.store := h s
  rw [same]; exact start

/-- In a chain, the rest matters only for what the first link can return. -/
theorem Preserves.bind_of (ha : Preserves P a)
    (hf : ∀ s x t, P s.store → a s = .ok x t → Preserves P (f x)) : Preserves P (a >>= f) := by
  intro s start
  unfold sessionAfter
  rw [run_bind]
  cases h : a s with
  | error fault t => exact ha.error start h
  | ok x t => exact hf s x t start h t (ha.ok start h)

theorem Preserves.bind (ha : Preserves P a) (hf : ∀ x, Preserves P (f x)) :
    Preserves P (a >>= f) :=
  ha.bind_of fun _ x _ _ _ => hf x

theorem Preserves.attempt (h : Preserves P a) : Preserves P (attempt a) := by
  intro s start
  unfold sessionAfter Access.attempt
  cases run : a s with
  | ok x t => exact h.ok start run
  | error fault t => exact h.error start run

end Preserves

/-- An access that leaves a view of the store as it is when it stops with a fault. -/
def CleanStop (view : σ → γ) (a : Access σ α) : Prop :=
  ∀ s fault t, a s = .error fault t → view t.store = view s.store

section CleanStop

variable {view : σ → γ} {a : Access σ α} {f : α → Access σ β}

theorem Keeps.cleanStop (h : Keeps view a) : CleanStop view a :=
  fun _ _ _ run => h.error run

theorem CleanStop.bind (ha : Keeps view a) (hf : ∀ x, CleanStop view (f x)) :
    CleanStop view (a >>= f) := by
  intro s fault t run
  rcases run_bind_error.1 run with stop | ⟨x, u, first, second⟩
  · exact ha.error stop
  · exact (hf x u fault t second).trans (ha.ok first)

/-- An access that always returns stops with no fault. -/
theorem CleanStop.of_returns (h : ∀ s, ∃ x t, a s = .ok x t) : CleanStop view a := by
  intro s fault t run
  obtain ⟨x, u, returned⟩ := h s
  rw [returned] at run
  cases run

end CleanStop

end Access

end DocRepair

import Mathlib.Algebra.Order.Ring.Rat
import Mathlib.Tactic.Linarith
import DocRepair.Proofs.Shortest
import DocRepair.Statistics
/-!
# `DocRepair.Proofs.Cached` — what a cache answers, and when it computes

A cache is asked for its value and told to discard it, any number of times in any order. What it
holds follows from this history alone: the last value that was computed, if nothing was discarded
since. Time enters in one place only. When it is asked, the cache computes if it holds nothing or if
the time of what it holds is up. Whatever the clock shows, a value is not given beyond its time, and
two computations that succeed are apart by that time, unless a value was discarded in between.

Times are reckoned with exactly here: each counts as a rational number, and a span is over from the
sum of its start and its length on.

## Contents

* `Exact` — clock readings that are reckoned with exactly;
* `Moment.le_eq` / `Moment.exact_of_sums` — moments are, as long as no sum of them is rounded;
* `Cache.getBy` / `Cache.asked` — a get with a computation that is only made if asked for;
* `Event` / `Run` — a history of a cache, and what became of the cache;
* `Latest` / `Spaced` — the last value that was computed, and the times of all of them;
* `Cache.get_cases` — what a get does: an entry that is fresh, a new one, or a failure;
* `Run.held` / `Run.spaced` — what a cache holds, and the times of what it computed;
* `Timely` — what is to be said of a get behind a history;
* `Run.kept_for_its_time` — a value is kept for its time, and not longer.
-/

namespace DocRepair.Statistics

variable {τ α : Type} [Timed τ]

/-! ## Times -/

/-- Clock readings that are reckoned with exactly: each counts as a number, and a span of positive
    length is over from the sum of its start and its length on. -/
structure Exact (reads : τ → Prop) (num : τ → ℚ) (span : τ) : Prop where
  positive : 0 < num span
  isOver : ∀ start now, reads start → reads now →
    Timed.isOver start span now = .ok (decide (num start + num span ≤ num now))

namespace Moment

/-- The exact number of seconds. -/
def seconds (m : Moment) : ℚ :=
  match m.numeral with
  | .int n => n
  | .float x => (x.scaled?.getD 0 : ℤ) / (Double.one : ℚ)

/-- Neither infinite nor not a number. -/
def Finite (m : Moment) : Prop :=
  ∀ x, m.numeral = .float x → ∃ negative units, x = .finite negative units

/-- **The order of moments is exact**, whatever kinds of numbers they are given as. -/
theorem le_eq {a b : Moment} (finite : a.Finite) (finite' : b.Finite) :
    a.le b = decide (a.seconds ≤ b.seconds) := by
  have unit : (0 : ℚ) < Double.one := Nat.cast_pos.2 Double.one_pos
  unfold le seconds
  -- Only integers are not held in units; beside them the comparison of seconds is one of units too.
  cases left : a.numeral with
  | int m =>
    cases right : b.numeral with
    | int n => simp
    | float y =>
      obtain ⟨negative, units, rfl⟩ := finite' y right
      refine decide_eq_decide.2 ?_
      show m * (Double.one : ℤ) ≤ _ ↔ _
      dsimp only [Double.scaled?, Option.getD_some]
      rw [le_div_iff₀ unit]
      exact_mod_cast Iff.rfl
  | float x =>
    obtain ⟨negative, units, rfl⟩ := finite x left
    cases right : b.numeral with
    | int n =>
      refine decide_eq_decide.2 ?_
      show _ ≤ n * (Double.one : ℤ) ↔ _
      dsimp only [Double.scaled?, Option.getD_some]
      rw [div_le_iff₀ unit]
      exact_mod_cast Iff.rfl
    | float y =>
      obtain ⟨negative', units', rfl⟩ := finite' y right
      refine decide_eq_decide.2 ?_
      dsimp only [Double.scaled?, Option.getD_some]
      rw [div_le_div_iff_of_pos_right unit]
      exact_mod_cast Iff.rfl

/-- So moments are reckoned with exactly if no sum is rounded. -/
theorem exact_of_sums {reads : Moment → Prop} {span : Moment} (positive : 0 < span.seconds)
    (finite : ∀ m, reads m → m.Finite)
    (sums : ∀ start, reads start → ∃ sum, start.add span = .ok sum ∧ sum.Finite ∧
      sum.seconds = start.seconds + span.seconds) : Exact reads seconds span := by
  refine ⟨positive, fun start now read read' => ?_⟩
  obtain ⟨sum, added, bounded, exactly⟩ := sums start read
  show Moment.isOver start span now = _
  unfold Moment.isOver
  rw [added]
  show Except.ok (sum.le now) = _
  rw [le_eq bounded (finite now read'), exactly]

/-- A whole number of seconds, given as such. -/
def Whole (m : Moment) : Prop := ∃ n, m.numeral = .int n

theorem Whole.finite {m : Moment} (whole : m.Whole) : m.Finite := by
  obtain ⟨n, same⟩ := whole
  intro x other
  rw [same] at other
  cases other

/-- Whole numbers of seconds are reckoned with exactly. -/
theorem exact_whole {span : Moment} (whole : span.Whole) (positive : 0 < span.seconds) :
    Exact Whole seconds span := by
  refine exact_of_sums positive (fun m => Whole.finite) ?_
  rintro start ⟨m, same⟩
  obtain ⟨n, same'⟩ := whole
  refine ⟨.int (m + n), ?_, Whole.finite ⟨m + n, rfl⟩, ?_⟩
  · unfold add
    rw [same, same']
  · unfold seconds
    rw [same, same']
    exact Int.cast_add m n

end Moment

/-! ## Computations that are asked for -/

namespace Cache

variable {c : Cache τ α} {now : τ} {outcome : Except Fault α}

/-- A get whose computation is an action, which is taken only if no entry is fresh. -/
def getBy {m : Type → Type} [Monad m] (c : Cache τ α) (now : τ) (compute : m (Except Fault α)) :
    m (Except Fault (Entry τ α) × Cache τ α) :=
  match c.fresh? now with
  | .error fault => pure (.error fault, c)
  | .ok (some e) => pure (.ok e, c)
  | .ok none => do pure (c.get now (← compute))

/-- An action with a given outcome, which notes it down. -/
def noted (outcome : Except Fault α) : StateM (List (Except Fault α)) (Except Fault α) :=
  fun before => (outcome, before ++ [outcome])

/-- The outcomes that a get asks for. -/
def asked (c : Cache τ α) (now : τ) (outcome : Except Fault α) : List (Except Fault α) :=
  (c.getBy now (noted outcome) []).2

/-- **A get is the same** whether its computation is an action or was made beforehand. -/
theorem getBy_noted :
    c.getBy now (noted outcome) [] = (c.get now outcome, c.asked now outcome) := by
  unfold asked getBy get
  cases c.fresh? now with
  | error fault => rfl
  | ok fresh =>
    cases fresh with
    | some e => rfl
    | none => cases outcome <;> rfl

/-- What a get does not ask for makes no difference to it. -/
theorem get_unasked (unasked : c.asked now outcome = []) (other : Except Fault α) :
    c.get now other = c.get now outcome := by
  unfold asked getBy at unasked
  unfold get
  cases fresh : c.fresh? now with
  | error fault => rfl
  | ok found =>
    cases found with
    | some e => rfl
    | none =>
      rw [fresh] at unasked
      cases unasked

end Cache

/-! ## Histories -/

/-- What happens to a cache. -/
inductive Event (τ α : Type)
  /-- It is asked for its value; with the computations made for that, and the answer. -/
  | got (now : τ) (computed : List (Except Fault α)) (answer : Except Fault (Entry τ α))
  /-- It is told to discard its value. -/
  | discarded

namespace Event

/-- A value is computed. -/
def Yields (e : Event τ α) (t : τ) (v : α) : Prop :=
  ∃ computed answer, e = .got t computed answer ∧ .ok v ∈ computed

/-- Nothing is computed and nothing discarded. -/
def Quiet (e : Event τ α) : Prop := e ≠ .discarded ∧ ∀ t v, ¬ e.Yields t v

end Event

/-- The event of a get. -/
def Cache.event (c : Cache τ α) (now : τ) (outcome : Except Fault α) : Event τ α :=
  .got now (c.asked now outcome) (c.get now outcome).1

/-- What becomes of a cache that is built with a time to keep values, with its history. Each get
    reads the clock, and the computation for it may have any outcome. -/
inductive Run (reads : τ → Prop) (ttl : τ) : List (Event τ α) → Cache τ α → Prop
  | built : Run reads ttl [] { ttl := ttl }
  | get {history : List (Event τ α)} {c : Cache τ α} {now : τ} (before : Run reads ttl history c)
      (read : reads now) (outcome : Except Fault α) :
      Run reads ttl (history ++ [c.event now outcome]) (c.get now outcome).2
  | invalidate {history : List (Event τ α)} {c : Cache τ α} (before : Run reads ttl history c) :
      Run reads ttl (history ++ [.discarded]) c.invalidate

/-- The last computation that succeeded, if nothing was discarded since. -/
def Latest (history : List (Event τ α)) (t : τ) (v : α) : Prop :=
  ∃ before e after, history = before ++ e :: after ∧ e.Yields t v ∧ ∀ f ∈ after, f.Quiet

/-- Of two computations that succeeded, with nothing discarded in between, the later is later by a
    span at least. -/
def Spaced (num : τ → ℚ) (span : τ) (history : List (Event τ α)) : Prop :=
  ∀ before e between f after, history = before ++ e :: (between ++ f :: after) →
    .discarded ∉ between → ∀ t v t' v', e.Yields t v → f.Yields t' v' →
    num t + num span ≤ num t'

section Histories

variable {history before after : List (Event τ α)} {e f : Event τ α} {t now : τ} {v : α}
  {computed : List (Except Fault α)} {answer : Except Fault (Entry τ α)}

omit [Timed τ]

/-- An event of a longer history is the last one, or one of the history before. -/
theorem split_concat (split : history ++ [f] = before ++ e :: after) :
    (after = [] ∧ e = f) ∨ ∃ rest, after = rest ++ [f] ∧ history = before ++ e :: rest := by
  rcases List.eq_nil_or_concat after with rfl | ⟨rest, g, rfl⟩
  · exact .inl ⟨rfl, (List.append_singleton_inj.1 split).2.symm⟩
  · rw [List.concat_eq_append] at split ⊢
    rw [← List.cons_append, ← List.append_assoc] at split
    obtain ⟨same, rfl⟩ := List.append_singleton_inj.1 split
    exact .inr ⟨rest, rfl, same⟩

/-- The last computation of a longer history is in the last event, or was the last one before. -/
theorem latest_concat :
    Latest (history ++ [f]) t v ↔ f.Yields t v ∨ f.Quiet ∧ Latest history t v := by
  constructor
  · rintro ⟨before, e, after, split, yields, quiet⟩
    rcases split_concat split with ⟨rfl, rfl⟩ | ⟨rest, rfl, same⟩
    · exact .inl yields
    · exact .inr ⟨quiet f (by simp), before, e, rest, same, yields,
        fun g among => quiet g (List.mem_append_left _ among)⟩
  · rintro (yields | ⟨last, before, e, after, rfl, yields, quiet⟩)
    · exact ⟨history, f, [], rfl, yields, fun g among => absurd among List.not_mem_nil⟩
    · refine ⟨before, e, after ++ [f], by simp, yields, fun g among => ?_⟩
      rcases List.mem_append.1 among with among | among
      · exact quiet g among
      · exact List.mem_singleton.1 among ▸ last

theorem yields_got : (Event.got now computed answer).Yields t v ↔ t = now ∧ .ok v ∈ computed := by
  constructor
  · rintro ⟨_, _, same, among⟩
    cases same
    exact ⟨rfl, among⟩
  · rintro ⟨rfl, among⟩
    exact ⟨computed, answer, rfl, among⟩

theorem not_yields_discarded : ¬ (Event.discarded : Event τ α).Yields t v := by
  rintro ⟨_, _, same, -⟩
  cases same

/-- Behind a get that computes nothing the last computation is the same. -/
theorem latest_got_nothing (nothing : ∀ w, .ok w ∉ computed) :
    Latest (history ++ [.got now computed answer]) t v ↔ Latest history t v := by
  have unyielding (t v) : ¬ (Event.got now computed answer).Yields t v :=
    fun yields => nothing v (yields_got.1 yields).2
  have quiet : (Event.got now computed answer).Quiet := ⟨(fun same => nomatch same), unyielding⟩
  rw [latest_concat, or_iff_right (unyielding t v), and_iff_right quiet]

/-- Behind a get that computes a value the last computation is this one. -/
theorem latest_got_value {w : α} :
    Latest (history ++ [.got now [.ok w] answer]) t v ↔ t = now ∧ v = w := by
  have yields (t v) : (Event.got now [.ok w] answer).Yields t v ↔ t = now ∧ v = w := by
    rw [yields_got, List.mem_singleton, Except.ok.injEq]
  have loud : ¬ (Event.got now [.ok w] answer).Quiet :=
    fun quiet => quiet.2 now w ((yields now w).2 ⟨rfl, rfl⟩)
  rw [latest_concat, yields, or_iff_left fun both => loud both.1]

theorem not_latest_discarded : ¬ Latest (history ++ [.discarded]) t v := by
  rw [latest_concat]
  rintro (yields | ⟨quiet, -⟩)
  · exact not_yields_discarded yields
  · exact quiet.1 rfl

end Histories

/-! ## One get -/

section Times

variable {reads : τ → Prop} {num : τ → ℚ} {ttl now : τ} {c : Cache τ α} {outcome : Except Fault α}
  {history : List (Event τ α)}

/-- A cache with a time to keep values, and an entry that was made with it. -/
structure Cache.Keeps (reads : τ → Prop) (span : τ) (c : Cache τ α) : Prop where
  own : c.ttl = span
  entry : ∀ e, c.entry = some e → e.ttl = span ∧ reads e.computedAt

/-- What a get does. -/
inductive Cache.Got (num : τ → ℚ) (c : Cache τ α) (now : τ) (outcome : Except Fault α) : Prop
  /-- The entry held is fresh. -/
  | fresh (e : Entry τ α) (held : c.entry = some e)
      (inTime : num now < num e.computedAt + num c.ttl) (asked : c.asked now outcome = [])
      (got : c.get now outcome = (.ok e, c))
  /-- No entry is fresh, and a new value is computed. -/
  | made (v : α) (due : ∀ e, c.entry = some e → num e.computedAt + num c.ttl ≤ num now)
      (asked : c.asked now outcome = [.ok v]) (same : outcome = .ok v)
      (got : c.get now outcome = (.ok ⟨now, c.ttl, v⟩, { c with entry := some ⟨now, c.ttl, v⟩ }))
  /-- No entry is fresh, and the computation fails. -/
  | failed (fault : Fault) (due : ∀ e, c.entry = some e → num e.computedAt + num c.ttl ≤ num now)
      (asked : c.asked now outcome = [.error fault]) (same : outcome = .error fault)
      (got : c.get now outcome = (.error fault, c))

theorem Cache.get_due (stale : c.fresh? now = .ok none)
    (due : ∀ e, c.entry = some e → num e.computedAt + num c.ttl ≤ num now) :
    c.Got num now outcome := by
  have asked : c.asked now outcome = [outcome] := by
    unfold Cache.asked Cache.getBy
    rw [stale]
    rfl
  cases outcome with
  | ok v =>
    refine .made v due asked rfl ?_
    unfold Cache.get
    rw [stale]
  | error fault =>
    refine .failed fault due asked rfl ?_
    unfold Cache.get
    rw [stale]

/-- **What a get does** to a cache whose times are reckoned with exactly. -/
theorem Cache.get_cases (exact : Exact reads num ttl) (keeps : c.Keeps reads ttl)
    (read : reads now) (outcome : Except Fault α) : c.Got num now outcome := by
  cases held : c.entry with
  | none =>
    refine get_due ?_ fun e some => ?_
    · unfold fresh?
      rw [held]
    · rw [held] at some
      cases some
  | some e =>
    obtain ⟨kept, made⟩ := keeps.entry e held
    have judged : c.fresh? now =
        .ok (if num e.computedAt + num ttl ≤ num now then none else some e) := by
      unfold fresh? Entry.expired
      rw [held]
      dsimp only
      rw [kept, exact.isOver _ _ made read]
      simp [bind, Except.bind]
    rw [← keeps.own] at judged
    by_cases due : num e.computedAt + num c.ttl ≤ num now
    · rw [if_pos due] at judged
      refine get_due judged fun e' some => ?_
      rw [held] at some
      cases some
      exact due
    · rw [if_neg due] at judged
      refine .fresh e held (not_le.1 due) ?_ ?_
      · unfold asked getBy
        rw [judged]
        rfl
      · unfold get
        rw [judged]

/-- A get leaves the cache as it is, unless it computes a value because no entry is fresh. -/
theorem Cache.kept_or_made (exact : Exact reads num ttl) (keeps : c.Keeps reads ttl)
    (read : reads now) (outcome : Except Fault α) :
    ((∀ v, .ok v ∉ c.asked now outcome) ∧ (c.get now outcome).2 = c) ∨
      ∃ v, c.asked now outcome = [.ok v] ∧
        (c.get now outcome).2 = { c with entry := some ⟨now, ttl, v⟩ } ∧
        ∀ e, c.entry = some e → num e.computedAt + num ttl ≤ num now := by
  rw [← keeps.own]
  rcases get_cases exact keeps read outcome with ⟨e, _, _, asked, got⟩ |
    ⟨v, due, asked, _, got⟩ | ⟨fault, _, asked, _, got⟩
  · exact .inl (by simp [asked, got])
  · exact .inr ⟨v, asked, by rw [got], due⟩
  · exact .inl (by simp [asked, got])

/-- A get computes, and does so once, just if no entry is fresh. -/
theorem Cache.asked_iff (exact : Exact reads num ttl) (keeps : c.Keeps reads ttl)
    (read : reads now) (outcome : Except Fault α) :
    (c.asked now outcome = [outcome] ∨ c.asked now outcome = []) ∧
      (c.asked now outcome = [outcome] ↔
        ∀ e, c.entry = some e → num e.computedAt + num ttl ≤ num now) := by
  rw [← keeps.own]
  rcases get_cases exact keeps read outcome with ⟨e, held, inTime, asked, _⟩ |
    ⟨v, due, asked, rfl, _⟩ | ⟨fault, due, asked, rfl, _⟩
  · refine ⟨.inr asked, iff_of_false ?_ fun due => absurd (due e held) (not_le.2 inTime)⟩
    rw [asked]
    exact fun none => nomatch none
  · exact ⟨.inl asked, iff_of_true asked due⟩
  · exact ⟨.inl asked, iff_of_true asked due⟩

/-- A get fails if its computation does, and with the same fault. -/
theorem Cache.failed_iff (exact : Exact reads num ttl) (keeps : c.Keeps reads ttl)
    (read : reads now) (outcome : Except Fault α) (fault : Fault) (after : Cache τ α) :
    c.get now outcome = (.error fault, after) ↔
      c.asked now outcome = [.error fault] ∧ after = c := by
  rcases get_cases exact keeps read outcome with ⟨_, _, _, asked, got⟩ | ⟨_, _, asked, _, got⟩ |
    ⟨_, _, asked, _, got⟩
  · rw [got, asked]
    exact iff_of_false (fun same => nomatch same) fun both => nomatch both.1
  · rw [got, asked]
    exact iff_of_false (fun same => nomatch same) fun both => nomatch both.1
  · rw [got, asked]
    simp [eq_comm]

/-- What a get returns is an entry in its time, and is held from then on. It is the entry that was
    held, and nothing is computed, or that one's time is up. -/
theorem Cache.returned (exact : Exact reads num ttl) (keeps : c.Keeps reads ttl)
    (read : reads now) {after : Cache τ α} {e : Entry τ α}
    (got : c.get now outcome = (.ok e, after)) :
    num now < num e.computedAt + num ttl ∧ after.entry = some e ∧
      ∀ old, c.entry = some old → (c.asked now outcome = [] ∧ e = old) ∨
        num old.computedAt + num ttl ≤ num e.computedAt := by
  have positive := exact.positive
  rw [← keeps.own] at positive ⊢
  rcases get_cases exact keeps read outcome with ⟨_, held, inTime, asked, same⟩ |
    ⟨v, due, _, _, same⟩ | ⟨_, _, _, _, same⟩
  · rw [got] at same
    cases same
    exact ⟨inTime, held,
      fun old also => .inl ⟨asked, Option.some.inj (held.symm.trans also)⟩⟩
  · rw [got] at same
    cases same
    exact ⟨by dsimp only; linarith, rfl, fun old held => .inr (due old held)⟩
  · rw [got] at same
    cases same

/-! ## Any number of calls -/

variable {before after : List (Event τ α)} {e : Event τ α} {t : τ} {v : α}

theorem Run.keeps (exact : Exact reads num ttl) (run : Run reads ttl history c) :
    c.Keeps reads ttl := by
  induction run with
  | built => exact ⟨rfl, fun e none => nomatch none⟩
  | get before read outcome ih =>
    rcases Cache.kept_or_made exact ih read outcome with ⟨_, same⟩ | ⟨v, _, made, _⟩
    · rw [same]
      exact ih
    · rw [made]
      refine ⟨ih.own, fun e held => ?_⟩
      cases held
      exact ⟨rfl, read⟩
  | invalidate before ih => exact ⟨ih.own, fun e none => nomatch none⟩

/-- **What a cache holds** is the last value that was computed, with the time it was computed. -/
theorem Run.held (exact : Exact reads num ttl) (run : Run reads ttl history c) (e : Entry τ α) :
    c.entry = some e ↔ e.ttl = ttl ∧ Latest history e.computedAt e.value := by
  induction run with
  | built =>
    refine iff_of_false (fun none => nomatch none) ?_
    rintro ⟨-, before, _, after, nothing, -⟩
    exact absurd nothing (by simp)
  | get before read outcome ih =>
    unfold Cache.event
    rcases Cache.kept_or_made exact (before.keeps exact) read outcome with ⟨nothing, same⟩ |
      ⟨v, asked, made, _⟩
    · rw [same, latest_got_nothing nothing]
      exact ih
    · rw [made, asked, latest_got_value]
      obtain ⟨computedAt, span, value⟩ := e
      simp only [Option.some.injEq, Entry.mk.injEq]
      tauto
  | invalidate before ih =>
    refine iff_of_false (fun none => nomatch none) ?_
    exact fun both => not_latest_discarded both.2

/-- If nothing was discarded since a computation, its value is held, or one that was computed
    later. -/
theorem Run.recent (exact : Exact reads num ttl) (run : Run reads ttl history c)
    (split : history = before ++ e :: after) (kept : .discarded ∉ after) (yields : e.Yields t v) :
    ∃ entry, c.entry = some entry ∧ num t ≤ num entry.computedAt := by
  induction run generalizing after with
  | built => exact absurd split (by simp)
  | get ran read outcome ih =>
    have step := Cache.kept_or_made exact (ran.keeps exact) read outcome
    rcases split_concat split with ⟨rfl, rfl⟩ | ⟨rest, rfl, earlier⟩
    · -- The computation is the one of this get.
      obtain ⟨rfl, among⟩ := yields_got.1 yields
      rcases step with ⟨nothing, _⟩ | ⟨w, _, made, _⟩
      · exact absurd among (nothing v)
      · rw [made]
        exact ⟨_, rfl, le_refl _⟩
    · obtain ⟨entry, held, since⟩ := ih earlier fun among => kept (List.mem_append_left _ among)
      rcases step with ⟨_, same⟩ | ⟨w, _, made, due⟩
      · rw [same]
        exact ⟨entry, held, since⟩
      · rw [made]
        have apart := due entry held
        have positive := exact.positive
        exact ⟨_, rfl, by dsimp only; linarith⟩
  | invalidate ran ih =>
    rcases split_concat split with ⟨rfl, rfl⟩ | ⟨rest, rfl, -⟩
    · exact absurd yields not_yields_discarded
    · exact absurd (List.mem_append_right _ List.mem_cons_self) kept

omit [Timed τ] in
/-- A longer history is spaced if the last event is apart from the computations before it. -/
theorem Spaced.concat (spaced : Spaced num ttl history)
    (last : ∀ before f between, history = before ++ f :: between → .discarded ∉ between →
      ∀ t v t' v', f.Yields t v → e.Yields t' v' → num t + num ttl ≤ num t') :
    Spaced num ttl (history ++ [e]) := by
  intro before f between g after split kept
  rw [← List.cons_append, ← List.append_assoc] at split
  rcases split_concat split with ⟨rfl, rfl⟩ | ⟨rest, rfl, earlier⟩
  · exact last before f between (List.append_singleton_inj.1 split).1 kept
  · rw [List.append_assoc, List.cons_append] at earlier
    exact spaced before f between g rest earlier kept

/-- **Computations that succeed are apart** by the time that values are kept. -/
theorem Run.spaced (exact : Exact reads num ttl) (run : Run reads ttl history c) :
    Spaced num ttl history := by
  induction run with
  | built => exact fun before e between f after nothing => absurd nothing (by simp)
  | get ran read outcome ih =>
    refine ih.concat fun before f between split kept t v t' v' first second => ?_
    -- The entry held is not from before the first computation, and its time is up at the second.
    obtain ⟨entry, held, since⟩ := ran.recent exact split kept first
    obtain ⟨rfl, among⟩ := yields_got.1 second
    rcases Cache.kept_or_made exact (ran.keeps exact) read outcome with ⟨nothing, _⟩ |
      ⟨w, _, _, due⟩
    · exact absurd among (nothing v')
    · have apart := due entry held
      linarith
  | invalidate ran ih =>
    refine ih.concat fun before f between split kept t v t' v' first second => ?_
    exact absurd second not_yields_discarded

/-! ## The next get -/

/-- What is to be said of a get behind a history. -/
structure Timely (num : τ → ℚ) (ttl : τ) (history : List (Event τ α)) (c : Cache τ α) (now : τ)
    (outcome : Except Fault α) : Prop where
  /-- It is the same if the computation is an action, which is taken once, or not at all if its
      outcome makes no difference. -/
  action : c.getBy now (Cache.noted outcome) [] = (c.get now outcome, c.asked now outcome) ∧
    (c.asked now outcome = [outcome] ∨
      c.asked now outcome = [] ∧ ∀ other, c.get now other = c.get now outcome)
  /-- It computes if no computation has succeeded since a value was last discarded, or if the time
      of the entry held is up. -/
  computes : c.asked now outcome = [outcome] ↔ (∀ t v, ¬ Latest history t v) ∨
    ∃ e, c.entry = some e ∧ num e.computedAt + num ttl ≤ num now
  /-- What it returns is the last value that was computed, within its time. -/
  returned : ∀ e after, c.get now outcome = (.ok e, after) →
    Latest (history ++ [c.event now outcome]) e.computedAt e.value ∧
      num now < num e.computedAt + num ttl ∧ e.ttl = ttl ∧ after.entry = some e
  /-- It fails if the computation does, and leaves the cache as it was. -/
  failed : ∀ fault after, c.get now outcome = (.error fault, after) ↔
    c.asked now outcome = [.error fault] ∧ after = c
  /-- A new entry is later than the one it replaces, by the time that values are kept. -/
  replaced : ∀ e after e', c.get now outcome = (.ok e', after) → c.entry = some e →
    (c.asked now outcome = [] ∧ e' = e) ∨ num e.computedAt + num ttl ≤ num e'.computedAt

/-- No entry is fresh just if no computation has succeeded since a value was last discarded, or the
    time of the entry held is up. -/
theorem Run.due_iff (exact : Exact reads num ttl) (run : Run reads ttl history c) :
    (∀ e, c.entry = some e → num e.computedAt + num ttl ≤ num now) ↔
      (∀ t v, ¬ Latest history t v) ∨
        ∃ e, c.entry = some e ∧ num e.computedAt + num ttl ≤ num now := by
  cases held : c.entry with
  | none =>
    refine iff_of_true (fun e none => nomatch none) (.inl fun t v latest => ?_)
    rw [(run.held exact ⟨t, ttl, v⟩).2 ⟨rfl, latest⟩] at held
    cases held
  | some e =>
    have latest := ((run.held exact e).1 held).2
    constructor
    · exact fun due => .inr ⟨e, rfl, due e rfl⟩
    · rintro (none | ⟨_, same, up⟩) e' same'
      · exact absurd latest (none _ _)
      · cases same
        cases same'
        exact up

theorem Run.timely (exact : Exact reads num ttl) (run : Run reads ttl history c)
    (read : reads now) (outcome : Except Fault α) : Timely num ttl history c now outcome where
  action := ⟨Cache.getBy_noted, (Cache.asked_iff exact (run.keeps exact) read outcome).1.imp_right
    fun unasked => ⟨unasked, Cache.get_unasked unasked⟩⟩
  computes := (Cache.asked_iff exact (run.keeps exact) read outcome).2.trans (run.due_iff exact)
  returned e after got := by
    obtain ⟨inTime, held, _⟩ := Cache.returned exact (run.keeps exact) read got
    have next := (run.get read outcome).held exact e
    rw [got] at next
    obtain ⟨own, latest⟩ := next.1 held
    exact ⟨latest, inTime, own, held⟩
  failed := Cache.failed_iff exact (run.keeps exact) read outcome
  replaced old after e got held :=
    (Cache.returned exact (run.keeps exact) read got).2.2 old held

/-- **A value is kept for its time, and not longer.** Whatever a cache was asked before, and
    whatever the clock and the computations gave, it holds the last value that was computed since
    one was discarded. The next get returns that value or a new one, within its time; it computes
    just if it holds nothing or if that time is up, and if the computation fails it fails and leaves
    the cache as it was. Values that replace each other are computed at times that are apart by the
    time that values are kept. -/
theorem Run.kept_for_its_time (exact : Exact reads num ttl) (run : Run reads ttl history c) :
    (∀ e, c.entry = some e ↔ e.ttl = ttl ∧ Latest history e.computedAt e.value) ∧
      Spaced num ttl history ∧
      ∀ now outcome, reads now → Timely num ttl history c now outcome :=
  ⟨run.held exact, run.spaced exact, fun _ outcome read => run.timely exact read outcome⟩

end Times

/-- A value is computed at 0 seconds, to be kept for 10 seconds. At 10 seconds the next computation
    fails. -/
theorem Run.kept_for_its_time_after_failure :
    let ttl : Moment := .int 10
    let failing : Except Fault Nat := .error (.badValue "compute failed")
    let empty : Cache Moment Nat := { ttl := ttl }
    let full := (empty.get (.int 0) (.ok 7)).2
    let stale := (full.get (.int 10) failing).2
    let history := [empty.event (.int 0) (.ok 7), full.event (.int 10) failing]
    Exact Moment.Whole Moment.seconds ttl ∧ Run Moment.Whole ttl history stale ∧
      stale.entry = some ⟨.int 0, ttl, 7⟩ ∧
      (∀ e, stale.entry = some e ↔ e.ttl = ttl ∧ Latest history e.computedAt e.value) ∧
      Spaced Moment.seconds ttl history ∧
      ∀ now outcome, now.Whole → Timely Moment.seconds ttl history stale now outcome := by
  intro ttl failing empty full stale history
  have positive : 0 < ttl.seconds := by
    show (0 : ℚ) < (10 : ℤ)
    norm_num
  have exactly : Exact Moment.Whole Moment.seconds ttl := Moment.exact_whole ⟨10, rfl⟩ positive
  have run : Run Moment.Whole ttl history stale :=
    (Run.built.get ⟨0, rfl⟩ (.ok 7)).get ⟨10, rfl⟩ failing
  exact ⟨exactly, run, rfl, Run.kept_for_its_time exactly run⟩

end DocRepair.Statistics

import DocRepair.Proofs.References
/-!
# `DocRepair.Proofs.Truth` — filters as truth functions

Evaluation stops at the first part that settles the answer, so a filter may have an answer although
some part of it has none. Where every part has one, the order of evaluation does not show: fields
are joined by "and", clauses by the connective that lists them, and of the operators two are the
negations of two others.

A condition that is no object of operators asks for equality, and in addition for something to be
equal: the marker of absence, which equals itself, is never found.

## Contents

* `Filter.Part` / `Filter.Evaluates` — the parts of a filter, and filters all of whose parts have an
  answer;
* `Filter.found` / `Filter.matches_operator` — what an operator is applied to;
* `Filter.entries_all` / `Filter.operators_all` / `Filter.conjunction_all` /
  `Filter.disjunction_any` — evaluation in order against all answers at once;
* `Filter.Boolean` / `Filter.boolean_parts` — the laws, and that they hold at any depth.
-/

namespace DocRepair

namespace Filter

variable {doc : Fields} {filter piece : Value} {fs gs ops : Fields} {clauses values : List Value}
  {name op : String} {cond arg v : Value}

/-- The names of the two connectives; any other name is a path. -/
def Connective (name : String) : Prop := name = "$and" ∨ name = "$or"

/-! ## Parts -/

/-- The parts of a filter, each a filter of its own: its fields one by one, the operators of a
    condition one by one, and the clauses of a connective with all their parts. -/
inductive Part : Value → Value → Prop
  | whole (filter : Value) : Part filter filter
  | field {fs : Fields} {name : String} {cond : Value} (among : (name, cond) ∈ fs) :
    Part (.object fs) (.object [(name, cond)])
  | operator {fs ops : Fields} {name op : String} {arg : Value}
      (among : (name, .object ops) ∈ fs) (path : ¬ Connective name)
      (made : isOperators (.object ops) = true) (one : (op, arg) ∈ ops) :
    Part (.object fs) (.object [(name, .object [(op, arg)])])
  | clause {fs : Fields} {name : String} {clauses : List Value} {clause part : Value}
      (among : (name, .array clauses) ∈ fs) (connective : Connective name)
      (one : clause ∈ clauses) (of : Part clause part) : Part (.object fs) part

/-- Every part of a filter has an answer for a document. -/
def Evaluates (doc : Fields) (filter : Value) : Prop :=
  ∀ part, Part filter part → ∃ b, matches? (.object doc) part = .ok b

/-- What is part of a part is part of the whole. -/
theorem Part.trans {inner : Value} (outer : Part filter piece) (of : Part piece inner) :
    Part filter inner := by
  -- a filter of one field, or of one operator, has no other fields or operators for parts
  induction outer with
  | whole => exact of
  | clause among connective one _ ih => exact .clause among connective one (ih of)
  | field among =>
    cases of with
    | whole => exact .field among
    | field same =>
      cases List.mem_singleton.1 same
      exact .field among
    | operator same path made one =>
      cases List.mem_singleton.1 same
      exact .operator among path made one
    | clause same connective one of =>
      cases List.mem_singleton.1 same
      exact .clause among connective one of
  | operator among path made one =>
    cases of with
    | whole => exact .operator among path made one
    | field same =>
      cases List.mem_singleton.1 same
      exact .operator among path made one
    | operator same _ _ only =>
      cases List.mem_singleton.1 same
      cases List.mem_singleton.1 only
      exact .operator among path made one
    | clause same => cases List.mem_singleton.1 same

theorem Evaluates.part (evaluates : Evaluates doc filter) (of : Part filter piece) :
    Evaluates doc piece :=
  fun inner more => evaluates inner (of.trans more)

theorem matches_holds (answered : ∃ b, matches? (.object doc) filter = .ok b) :
    matches? (.object doc) filter = .ok (holds filter doc) := by
  obtain ⟨b, answer⟩ := answered
  rw [answer, holds_of_matches answer]

theorem Evaluates.answer (evaluates : Evaluates doc filter) :
    matches? (.object doc) filter = .ok (holds filter doc) :=
  matches_holds (evaluates filter (.whole filter))

/-! ## Fields and clauses -/

theorem entries_all (each : ∀ f ∈ fs, ∃ b, matches? (.object doc) (.object [f]) = .ok b) :
    entries (.object doc) fs = .ok (fs.all fun f => holds (.object [f]) doc) := by
  induction fs with
  | nil => rw [entries, List.all_nil]
  | cons f rest ih =>
    obtain ⟨k, c⟩ := f
    have first := matches_holds (each (k, c) List.mem_cons_self)
    rw [matches_singleton] at first
    rw [entries_cons, first, List.all_cons]
    -- a field that does not hold ends the evaluation, with the answer for all of them
    cases holds (.object [(k, c)]) doc with
    | false => rfl
    | true => exact ih fun g hg => each g (List.mem_cons_of_mem _ hg)

theorem conjunction_all (each : ∀ c ∈ clauses, ∃ b, matches? (.object doc) c = .ok b) :
    conjunction (.object doc) clauses = .ok (clauses.all fun c => holds c doc) := by
  induction clauses with
  | nil => rw [conjunction, List.all_nil]
  | cons c rest ih =>
    rw [conjunction, matches_holds (each c List.mem_cons_self), List.all_cons]
    cases holds c doc with
    | false => rfl
    | true => exact ih fun d hd => each d (List.mem_cons_of_mem _ hd)

theorem disjunction_any (each : ∀ c ∈ clauses, ∃ b, matches? (.object doc) c = .ok b) :
    disjunction (.object doc) clauses = .ok (clauses.any fun c => holds c doc) := by
  induction clauses with
  | nil => rw [disjunction, List.any_nil]
  | cons c rest ih =>
    rw [disjunction, matches_holds (each c List.mem_cons_self), List.any_cons]
    cases holds c doc with
    | true => rfl
    | false => exact ih fun d hd => each d (List.mem_cons_of_mem _ hd)

/-- A connective has an answer if its clauses do, with all their parts. -/
theorem Evaluates.joins (connective : Connective name)
    (each : ∀ c ∈ clauses, Evaluates doc c) : Evaluates doc (.object [(name, .array clauses)]) := by
  have answered : ∃ b, matches? (.object doc) (.object [(name, .array clauses)]) = .ok b := by
    rw [matches_singleton]
    rcases connective with rfl | rfl
    · exact ⟨_, conjunction_all fun c hc => each c hc c (.whole c)⟩
    · exact ⟨_, disjunction_any fun c hc => each c hc c (.whole c)⟩
  intro piece of
  cases of with
  | whole => exact answered
  | field among =>
    cases List.mem_singleton.1 among
    exact answered
  | operator among => cases List.mem_singleton.1 among
  | clause among _ one of =>
    cases List.mem_singleton.1 among
    exact each _ one _ of

/-! ## Operators -/

/-- What is found at a path, the marker of absence if it is nothing. -/
def found (doc : Fields) (name : String) : Except Fault Value := do
  let place ← Path.resolve Identity.defaultField (.object doc) (.text name) .null
  .ok ((Path.valueAt? (.object doc) place).getD .absent)

theorem matches_condition (path : ¬ Connective name) (cond : Value) :
    matches? (.object doc) (.object [(name, cond)]) = (do
      let actual ← found doc name
      if isOperators cond then operators actual cond.fields
      else if actual.isAbsent then .ok false
      else equals actual cond) := by
  obtain ⟨conj, disj⟩ := not_or.1 path
  rw [matches_singleton, entry, if_neg conj, if_neg disj]
  unfold condition found
  cases Path.resolve Identity.defaultField (.object doc) (.text name) .null <;> rfl

/-- One operator is applied to what is found. -/
theorem matches_operator (path : ¬ Connective name) (mark : op.toList.head? = some '$')
    (arg : Value) :
    matches? (.object doc) (.object [(name, .object [(op, arg)])]) = (do
      operator (← found doc name) op arg) := by
  have made : isOperators (.object [(op, arg)]) = true := by simp [isOperators, mark]
  have alone (actual : Value) : operators actual [(op, arg)] = operator actual op arg := by
    rw [operators]
    cases operator actual op arg with
    | error fault => rfl
    | ok b => cases b <;> rfl
  rw [matches_condition path, made]
  simp only [if_true, Value.fields, alone]

theorem mark_of_mem (made : isOperators (.object ops) = true) (one : (op, arg) ∈ ops) :
    op.toList.head? = some '$' := by
  obtain ⟨_, all⟩ := Bool.and_eq_true_iff.1 made
  exact beq_iff_eq.1 (List.all_eq_true.1 all (op, arg) one)

/-- A path of which some operator has an answer leads somewhere, or nowhere, but can be followed. -/
theorem found_of_answer (path : ¬ Connective name) (mark : op.toList.head? = some '$')
    (answered : ∃ b, matches? (.object doc) (.object [(name, .object [(op, arg)])]) = .ok b) :
    ∃ actual, found doc name = .ok actual := by
  obtain ⟨b, answer⟩ := answered
  rw [matches_operator path mark] at answer
  obtain ⟨actual, leads, _⟩ := bind_eq_ok.1 answer
  exact ⟨actual, leads⟩

theorem operators_all {actual : Value} (path : ¬ Connective name)
    (leads : found doc name = .ok actual)
    (marks : ∀ f ∈ ops, f.1.toList.head? = some '$')
    (each : ∀ f ∈ ops, ∃ b, matches? (.object doc) (.object [(name, .object [f])]) = .ok b) :
    operators actual ops = .ok (ops.all fun f => holds (.object [(name, .object [f])]) doc) := by
  induction ops with
  | nil => rw [operators, List.all_nil]
  | cons f rest ih =>
    obtain ⟨o, a⟩ := f
    have first := matches_holds (each (o, a) List.mem_cons_self)
    rw [matches_operator path (marks (o, a) List.mem_cons_self), leads] at first
    -- every operator is applied to the same value, which the lookup has led to
    replace first : operator actual o a = _ := first
    rw [operators, first, List.all_cons]
    cases holds (.object [(name, .object [(o, a)])]) doc with
    | false => rfl
    | true =>
      exact ih (fun g hg => marks g (List.mem_cons_of_mem _ hg))
        fun g hg => each g (List.mem_cons_of_mem _ hg)

/-- **Two operators deny** what two others affirm. -/
theorem matches_denied (path : ¬ Connective name) (v : Value) :
    matches? (.object doc) (.object [(name, .object [("$ne", v)])]) =
        (matches? (.object doc) (.object [(name, .object [("$eq", v)])])).map not ∧
      matches? (.object doc) (.object [(name, .object [("$nin", v)])]) =
        (matches? (.object doc) (.object [(name, .object [("$in", v)])])).map not := by
  rw [matches_operator path (by decide), matches_operator path (by decide),
    matches_operator path (by decide), matches_operator path (by decide)]
  cases found doc name with
  | error fault => exact ⟨rfl, rfl⟩
  | ok actual =>
    refine ⟨rfl, ?_⟩
    show operator actual "$nin" v = (operator actual "$in" v).map not
    have nin : operator actual "$nin" v =
        (do .ok (!(← (← v.members).anyM (equals actual)))) := rfl
    have among : operator actual "$in" v = (do (← v.members).anyM (equals actual)) := rfl
    rw [nin, among]
    cases v.members with
    | error fault => rfl
    | ok members =>
      simp only [Bind.bind, Except.bind]
      cases members.anyM (equals actual) <;> rfl

/-- **To be among values** is to equal one of them. -/
theorem matches_among (path : ¬ Connective name)
    (answered : ∃ b,
      matches? (.object doc) (.object [(name, .object [("$in", .array values)])]) = .ok b) :
    matches? (.object doc) (.object [(name, .object [("$in", .array values)])]) =
      .ok (values.any fun v => holds (.object [(name, .object [("$eq", v)])]) doc) := by
  obtain ⟨actual, leads⟩ := found_of_answer path (by decide) answered
  have equal (v : Value) (b : Bool) (compared : equals actual v = .ok b) :
      holds (.object [(name, .object [("$eq", v)])]) doc = b := by
    refine holds_of_matches ?_
    rw [matches_operator path (by decide), leads]
    exact compared
  obtain ⟨b, answer⟩ := answered
  rw [answer]
  rw [matches_operator path (by decide), leads] at answer
  -- a search that has an answer has met no value before it that cannot be compared
  exact congrArg Except.ok (anyM_ok equal answer).symm

/-! ## Plain conditions -/

/-- Nothing else equals the marker of absence. -/
theorem equalTo_absent_there (there : v.isAbsent = false) : equalTo .absent v = false := by
  cases null : v.isNull with
  | false => exact equalTo_absent ⟨null, there⟩
  | true =>
    cases v with
    | null => rfl
    | _ => cases null

/-- **A plain condition** asks for something that is there and equal. -/
theorem matches_plain (path : ¬ Connective name) (plain : isOperators v = false) :
    matches? (.object doc) (.object [(name, v)]) =
      matches? (.object doc)
        (.object [(name, .object [("$exists", .bool true), ("$eq", v)])]) := by
  rw [matches_condition path, matches_condition path, plain]
  have made : isOperators (.object [("$exists", .bool true), ("$eq", v)]) = true := by
    simp [isOperators]
  rw [made]
  cases found doc name with
  | error fault => rfl
  | ok actual =>
    have both : operators actual [("$exists", .bool true), ("$eq", v)] =
        if actual.isAbsent then .ok false else equals actual v := by
      have there : operator actual "$exists" (.bool true) = .ok (!actual.isAbsent) := by
        have asked : operator actual "$exists" (.bool true) = .ok (!actual.isAbsent == true) := rfl
        rw [asked, beq_true]
      have equal : operator actual "$eq" v = equals actual v := rfl
      rw [operators, there, operators, equal, operators]
      cases actual.isAbsent with
      | true => rfl
      | false =>
        cases equals actual v with
        | error fault => rfl
        | ok b => cases b <;> rfl
    exact both.symm

/-- Equality alone is enough, as long as it is not the marker of absence that is asked for. -/
theorem matches_plain_eq (path : ¬ Connective name) (plain : isOperators v = false)
    (there : v.isAbsent = false) :
    matches? (.object doc) (.object [(name, v)]) =
      matches? (.object doc) (.object [(name, .object [("$eq", v)])]) := by
  rw [matches_condition path, matches_operator path (by decide), plain]
  cases found doc name with
  | error fault => rfl
  | ok actual =>
    show (if actual.isAbsent then .ok false else equals actual v) = equals actual v
    cases actual with
    | absent =>
      have compared : equals .absent v = .ok (equalTo .absent v) := by
        rw [equals_item rfl, equalTo_item rfl]
        unfold Identity.compare
        rw [comparable_absent, if_pos rfl]
        rfl
      rw [compared, equalTo_absent_there there]
      rfl
    | _ => rfl

/-! ## The laws -/

/-- The answer to a filter as a truth function of the answers to its parts. -/
structure Boolean (doc : Fields) (filter : Value) : Prop where
  /-- Fields are joined by "and", in any order. -/
  fields : ∀ fs gs, filter = .object fs → gs.Perm fs →
    matches? (.object doc) (.object gs) = .ok (fs.all fun f => holds (.object [f]) doc)
  /-- Clauses are joined by their connective. -/
  conjunction : ∀ clauses, filter = .object [("$and", .array clauses)] →
    matches? (.object doc) filter = .ok (clauses.all fun c => holds c doc)
  disjunction : ∀ clauses, filter = .object [("$or", .array clauses)] →
    matches? (.object doc) filter = .ok (clauses.any fun c => holds c doc)
  /-- Operators are joined by "and". -/
  operators : ∀ name ops, ¬ Connective name → isOperators (.object ops) = true →
    filter = .object [(name, .object ops)] →
    matches? (.object doc) filter =
      .ok (ops.all fun f => holds (.object [(name, .object [f])]) doc)
  /-- Two operators are negations. -/
  unequal : ∀ name v, ¬ Connective name → filter = .object [(name, .object [("$ne", v)])] →
    matches? (.object doc) filter =
      (matches? (.object doc) (.object [(name, .object [("$eq", v)])])).map not
  notAmong : ∀ name v, ¬ Connective name → filter = .object [(name, .object [("$nin", v)])] →
    matches? (.object doc) filter =
      (matches? (.object doc) (.object [(name, .object [("$in", v)])])).map not
  /-- To be among values is to equal one of them. -/
  among : ∀ name values, ¬ Connective name →
    filter = .object [(name, .object [("$in", .array values)])] →
    matches? (.object doc) filter =
      .ok (values.any fun v => holds (.object [(name, .object [("$eq", v)])]) doc)
  /-- A plain condition asks for something that is there and equal, and equality is enough unless
      it is the marker of absence that is asked for. -/
  plain : ∀ name v, ¬ Connective name → isOperators v = false → filter = .object [(name, v)] →
    matches? (.object doc) filter =
        matches? (.object doc)
          (.object [(name, .object [("$exists", .bool true), ("$eq", v)])]) ∧
      (v.isAbsent = false → matches? (.object doc) filter =
        matches? (.object doc) (.object [(name, .object [("$eq", v)])]))

/-- **A filter all of whose parts have an answer is a truth function**, and so is each part of it,
    however deep. -/
theorem boolean_parts (evaluates : Evaluates doc filter) (of : Part filter piece) :
    Boolean doc piece := by
  have inner := evaluates.part of
  constructor
  · rintro fs gs rfl perm
    rw [matches?, entries_all fun f hf => inner _ (.field (perm.mem_iff.1 hf)), perm.all_eq]
  · rintro clauses rfl
    rw [matches_singleton]
    exact conjunction_all fun c hc =>
      inner c (.clause List.mem_cons_self (.inl rfl) hc (.whole c))
  · rintro clauses rfl
    rw [matches_singleton]
    exact disjunction_any fun c hc =>
      inner c (.clause List.mem_cons_self (.inr rfl) hc (.whole c))
  · rintro name ops path made rfl
    obtain ⟨b, answer⟩ := inner _ (.whole _)
    rw [matches_condition path, made] at answer ⊢
    obtain ⟨actual, leads, _⟩ := bind_eq_ok.1 answer
    rw [leads]
    exact operators_all path leads (fun f hf => mark_of_mem made hf)
      fun f hf => inner _ (.operator List.mem_cons_self path made hf)
  · rintro name v path rfl
    exact (matches_denied path v).1
  · rintro name v path rfl
    exact (matches_denied path v).2
  · rintro name values path rfl
    exact matches_among path (inner _ (.whole _))
  · rintro name v path plain rfl
    exact ⟨matches_plain path plain, matches_plain_eq path plain⟩

/-- A denial inside connectives. -/
theorem boolean_parts_nested :
    let inner : Value := .object [("a", .object [("$ne", .int 1)])]
    let filter : Value := .object [("$or", .array [.object [("$and", .array [inner])]])]
    Evaluates [("a", .int 2)] filter ∧ Part filter inner ∧ Boolean [("a", .int 2)] inner := by
  intro inner filter
  have innermost :
      Evaluates [("a", .int 2)] (.object [("a", .object [("$ne", .int 1)])]) := by
    intro piece of
    cases of with
    | whole => exact ⟨true, rfl⟩
    | field among =>
      cases List.mem_singleton.1 among
      exact ⟨true, rfl⟩
    | operator among _ _ one =>
      cases List.mem_singleton.1 among
      cases List.mem_singleton.1 one
      exact ⟨true, rfl⟩
    | clause among => cases List.mem_singleton.1 among
  have evaluates : Evaluates [("a", .int 2)] filter :=
    .joins (.inr rfl) fun c hc => by
      cases List.mem_singleton.1 hc
      exact .joins (.inl rfl) fun d hd => by
        cases List.mem_singleton.1 hd
        exact innermost
  have of : Part filter inner :=
    .clause List.mem_cons_self (.inr rfl) List.mem_cons_self
      (.clause List.mem_cons_self (.inl rfl) List.mem_cons_self (.whole inner))
  exact ⟨evaluates, of, boolean_parts evaluates of⟩

/-- The marker of absence equals itself where nothing is, but is never found there. -/
theorem absence_not_found :
    ¬ Connective "p" ∧ isOperators .absent = false ∧
      matches? (.object []) (.object [("p", .absent)]) = .ok false ∧
      matches? (.object []) (.object [("p", .object [("$eq", .absent)])]) = .ok true := by
  refine ⟨by unfold Connective; decide, rfl, ?_, ?_⟩
  · rfl
  · rfl

end Filter

end DocRepair

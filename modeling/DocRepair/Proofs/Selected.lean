import DocRepair.Proofs.Loans
import DocRepair.Proofs.Locality
/-!
# `DocRepair.Proofs.Selected` — what a filter selects

A lookup that returns gives the documents of which the filter holds, in their order. A filter holds
of a document if each of its conditions does, so a condition that is set replaces the one that stood
under its name and leaves the others as they are.

## Contents

* `Filter.holds` — a filter holds of a document;
* `Filter.holds_cons` / `Filter.matches_set` — its conditions, one by one;
* `Filter.equals_ok` — a comparison that returns;
* `Filter.condition_name` / `Filter.any_equalTo` — a condition on one field;
* `Collection.selected` — the documents that a filter selects;
* `Gateway.targets_all` — a call finds these.
-/

namespace DocRepair

namespace Filter

variable {doc : Fields} {filter cond : Value} {conditions rest : Fields} {name : String}

/-- Whether a filter holds of a document. One that cannot be evaluated does not. -/
def holds (filter : Value) (doc : Fields) : Bool :=
  match matches? (.object doc) filter with
  | .ok b => b
  | .error _ => false

theorem holds_of_matches {b : Bool} (h : matches? (.object doc) filter = .ok b) :
    holds filter doc = b := by
  unfold holds
  rw [h]

/-! ## Conditions one by one -/

theorem holds_nil : holds (.object []) doc = true :=
  holds_of_matches (by rw [matches?, entries])

/-- **A filter holds if its conditions do.** -/
theorem holds_cons (doc : Fields) (name : String) (cond : Value) (rest : Fields) :
    holds (.object ((name, cond) :: rest)) doc =
      (holds (.object [(name, cond)]) doc && holds (.object rest) doc) := by
  unfold holds
  rw [matches_singleton, matches?, matches?, entries_cons]
  cases entry (.object doc) name cond with
  | error fault => rfl
  | ok b => cases b <;> rfl

/-- **A condition that is set** takes the place of the one under its name. It need not be reached:
    what it answers matters only where the conditions in front of it hold. -/
theorem matches_set {b settled : Bool}
    (answer : ∀ b, matches? (.object doc) (.object [(name, cond)]) = .ok b → settled = b)
    (run : matches? (.object doc) (.object (Fields.set conditions name cond)) = .ok b) :
    b = (holds (.object (Fields.erase conditions name)) doc && settled) := by
  induction conditions generalizing b with
  | nil => rw [Fields.erase, holds_nil, Bool.true_and, answer b run]
  | cons f rest ih =>
    obtain ⟨k, old⟩ := f
    rw [Fields.set] at run
    rw [Fields.erase]
    by_cases own : k = name
    · rw [if_pos own, own, matches?, entries_cons] at run
      rw [if_pos own]
      obtain ⟨first, tried, run⟩ := bind_eq_ok.1 run
      rw [answer first ((matches_singleton ..).trans tried)]
      cases first with
      | false =>
        cases run
        exact (Bool.and_false _).symm
      | true =>
        rw [Bool.and_true]
        exact (holds_of_matches (by rw [matches?]; exact run)).symm
    · rw [if_neg own, matches?, entries_cons] at run
      rw [if_neg own, holds_cons]
      obtain ⟨first, tried, run⟩ := bind_eq_ok.1 run
      rw [holds_of_matches ((matches_singleton ..).trans tried)]
      cases first with
      | false =>
        cases run
        rfl
      | true =>
        rw [Bool.true_and]
        exact ih (by rw [matches?]; exact run)

/-! ## Comparisons -/

/-- A comparison that returns says whether the found value equals the expected one. -/
theorem equals_ok {actual expected : Value} {b : Bool} (run : equals actual expected = .ok b) :
    equalTo actual expected = b := by
  unfold equals at run
  unfold equalTo
  split at run
  · cases run
    rfl
  · exact anyM_ok (fun x b compared => (Identity.compare_ok.1 compared).2) run
  · obtain ⟨agrees, compared, run⟩ := bind_eq_ok.1 run
    cases run
    rw [(Identity.compare_ok.1 compared).2]

/-! ## A condition on one field -/

/-- A condition on a name is one on the field with that name. -/
theorem condition_name (plain : Path.split (.text name) = .ok [name]) (doc : Fields)
    (cond : Value) :
    condition (.object doc) (.text name) cond =
      let actual := (Fields.get? doc name).getD .absent
      if isOperators cond then operators actual cond.fields
      else if actual.isAbsent then .ok false
      else equals actual cond := by
  unfold condition Path.resolve
  rw [plain]
  rfl

/-- **A field is among given values** if it equals one of them. -/
theorem any_equalTo (plain : Path.split (.text name) = .ok [name])
    (noConnective : name ≠ "$and" ∧ name ≠ "$or") {values : List Value} {b : Bool}
    (run : matches? (.object doc) (.object [(name, .object [("$in", .array values)])]) = .ok b) :
    values.any (equalTo ((Fields.get? doc name).getD .absent)) = b := by
  rw [matches_singleton, entry, if_neg noConnective.1, if_neg noConnective.2,
    condition_name plain] at run
  have only : isOperators (.object [("$in", .array values)]) = true := by
    simp [isOperators]
  simp only [only, if_true, Value.fields] at run
  generalize (Fields.get? doc name).getD .absent = actual at run ⊢
  have among : operator actual "$in" (.array values) = values.anyM (equals actual) := rfl
  rw [operators, among] at run
  obtain ⟨found, search, run⟩ := bind_eq_ok.1 run
  rw [anyM_ok (fun _ _ => equals_ok) search]
  cases found <;> exact Except.ok.inj run

end Filter

/-! ## Lookups -/

namespace Collection

variable {c : Collection} {filter : Value} {docs chosen : List Fields}

/-- The documents that a filter selects, in the order of the collection. -/
def selected (c : Collection) (filter : Value) : List Fields :=
  c.all.filter (Filter.holds filter)

/-- A lookup that returns has an answer for each document. -/
theorem matches_of_selectFrom (run : selectFrom filter docs = .ok chosen) {doc : Fields}
    (among : doc ∈ docs) : ∃ b, Filter.matches? (.object doc) filter = .ok b := by
  induction docs generalizing chosen with
  | nil => cases among
  | cons first rest ih =>
    obtain ⟨matched, verdict, run⟩ := bind_eq_ok.1 run
    obtain ⟨others, more, run⟩ := bind_eq_ok.1 run
    rcases List.mem_cons.1 among with rfl | among
    · exact ⟨matched, verdict⟩
    · exact ih more among

theorem selectFrom_eq (run : selectFrom filter docs = .ok chosen) :
    chosen = docs.filter (Filter.holds filter) := by
  induction docs generalizing chosen with
  | nil => cases run; rfl
  | cons doc rest ih =>
    obtain ⟨matched, verdict, run⟩ := bind_eq_ok.1 run
    obtain ⟨others, more, run⟩ := bind_eq_ok.1 run
    cases run
    rw [List.filter_cons, Filter.holds_of_matches verdict, ← ih more]

/-- **A lookup that returns** lends the documents that its filter selects. -/
theorem find_ok {handles : List Handle} (run : c.find filter = .ok handles) :
    handles = (c.selected filter).map (loan c.idField) := by
  obtain ⟨chosen, selects, run⟩ := bind_eq_ok.1 run
  cases run
  rw [selectFrom_eq selects]
  rfl

end Collection

/-- A call for all documents finds those that its query selects. -/
theorem Gateway.targets_all {c : Collection} {query : Value} {handles : List Handle}
    (run : targets true query c = .ok handles) :
    handles = (c.selected query).map (Collection.loan c.idField) := by
  unfold targets at run
  split at run
  · cases run
  · exact Collection.find_ok run

end DocRepair

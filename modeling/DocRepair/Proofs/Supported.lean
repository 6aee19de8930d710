import DocRepair.Proofs.Locality
import DocRepair.Proofs.Trips
import DocRepair.Store.Collection
/-!
# `DocRepair.Proofs.Supported` — filters that can be asked

A filter is supported if every operator in it is known and lists what it must list, every
connective joins filters, and every path in it is clear. A supported filter has an answer for every
document, or a failure that says what is wrong with a path; so a lookup by it is tame as well. Of
any other filter the answer may still be settled before the part is reached that it cannot cope
with.

## Contents

* `Filter.OperatorSupported` / `Filter.ConditionSupported` — one operator, and one condition;
* `Filter.Supported` / `Filter.EntrySupported` — supported filters, and their fields;
* `Filter.matches?_tame` — the answer to a supported filter;
* `Collection.find_tame` / `Collection.findOne_tame` — lookups.
-/

namespace DocRepair

namespace Filter

/-! ## Supported filters -/

/-- An operator that is known; two of them need an argument with members. -/
def OperatorSupported (op : String) (arg : Value) : Prop :=
  op ∈ ["$eq", "$ne", "$exists"] ∨ op ∈ ["$in", "$nin"] ∧ arg.members?.isSome = true

/-- A condition on a path that can be read. If it is made of operators, all are supported. -/
def ConditionSupported (name : String) (cond : Value) : Prop :=
  Path.Clear (.text name) ∧
    (isOperators cond = true → ∀ f ∈ cond.fields, OperatorSupported f.1 f.2)

mutual

/-- A filter that has an answer for every document. -/
inductive Supported : Value → Prop
  | object {fs : Fields} (each : ∀ f ∈ fs, EntrySupported f.1 f.2) : Supported (.object fs)

/-- A field of a supported filter. -/
inductive EntrySupported : String → Value → Prop
  /-- A connective joins supported filters. -/
  | joins {name : String} {clauses : List Value} (connective : name = "$and" ∨ name = "$or")
      (each : ∀ clause ∈ clauses, Supported clause) : EntrySupported name (.array clauses)
  /-- A connective joins nothing. -/
  | settled {name : String} {cond : Value} (connective : name = "$and" ∨ name = "$or")
      (empty : cond.members? = some []) : EntrySupported name cond
  /-- A path has a condition. -/
  | asks {name : String} {cond : Value} (path : ¬(name = "$and" ∨ name = "$or"))
      (supported : ConditionSupported name cond) : EntrySupported name cond

end

/-! ## Their answers -/

theorem equals_tame (actual expected : Value) : Tame (equals actual expected) := by
  unfold equals
  split
  · exact .ok _
  · exact .anyM (fun _ => .compare _ _) _
  · exact (Tame.compare _ _).bind fun _ _ => .ok _

theorem operator_tame {op : String} {arg : Value} (supported : OperatorSupported op arg)
    (actual : Value) : Tame (operator actual op arg) := by
  have members (listed : arg.members?.isSome = true) : Tame arg.members := by
    obtain ⟨ms, members⟩ := Option.isSome_iff_exists.1 listed
    unfold Value.members
    rw [members]
    exact .ok ms
  rcases supported with known | ⟨known, listed⟩
  · simp only [List.mem_cons, List.not_mem_nil, or_false] at known
    rcases known with rfl | rfl | rfl
    · exact equals_tame _ _
    · exact (equals_tame _ _).bind fun _ _ => .ok _
    · exact .ok _
  · simp only [List.mem_cons, List.not_mem_nil, or_false] at known
    have among (ms : List Value) : Tame (ms.anyM (equals actual)) := .anyM (equals_tame actual) ms
    rcases known with rfl | rfl
    · exact (members listed).bind fun ms _ => among ms
    · exact (members listed).bind fun ms _ => (among ms).bind fun _ _ => .ok _

theorem operators_tame {ops : Fields} (supported : ∀ f ∈ ops, OperatorSupported f.1 f.2)
    (actual : Value) : Tame (operators actual ops) := by
  induction ops with
  | nil => exact .ok true
  | cons f rest ih =>
    refine (operator_tame (supported f List.mem_cons_self) actual).bind fun holds _ => ?_
    split
    · exact ih fun g hg => supported g (List.mem_cons_of_mem f hg)
    · exact .ok false

theorem condition_tame {name : String} {cond : Value} (supported : ConditionSupported name cond)
    (doc : Value) : Tame (condition doc (.text name) cond) := by
  obtain ⟨clear, known⟩ := supported
  refine (Path.resolve_tame clear _ doc).bind fun place _ => ?_
  dsimp only
  split
  · rename_i made
    exact operators_tame (known made) _
  · split
    · exact .ok _
    · exact equals_tame _ _

theorem clauseless_tame {clauses : Value} (empty : clauses.members? = some []) (settled : Bool) :
    Tame (clauseless clauses settled) := by
  unfold clauseless Value.members
  rw [empty]
  exact .ok settled

section Parts

variable {doc : Value}

theorem entries_tame {fs : Fields} (each : ∀ f ∈ fs, Tame (entry doc f.1 f.2)) :
    Tame (entries doc fs) := by
  induction fs with
  | nil => exact .ok true
  | cons f rest ih =>
    rw [entries_cons]
    refine (each f List.mem_cons_self).bind fun holds _ => ?_
    split
    · exact ih fun g hg => each g (List.mem_cons_of_mem f hg)
    · exact .ok false

theorem conjunction_tame {clauses : List Value} (each : ∀ c ∈ clauses, Tame (matches? doc c)) :
    Tame (conjunction doc clauses) := by
  induction clauses with
  | nil => exact .ok true
  | cons clause rest ih =>
    unfold conjunction
    refine (each clause List.mem_cons_self).bind fun holds _ => ?_
    split
    · exact ih fun c hc => each c (List.mem_cons_of_mem clause hc)
    · exact .ok false

theorem disjunction_tame {clauses : List Value} (each : ∀ c ∈ clauses, Tame (matches? doc c)) :
    Tame (disjunction doc clauses) := by
  induction clauses with
  | nil => exact .ok false
  | cons clause rest ih =>
    unfold disjunction
    refine (each clause List.mem_cons_self).bind fun holds _ => ?_
    split
    · exact .ok true
    · exact ih fun c hc => each c (List.mem_cons_of_mem clause hc)

/-- A connective over tame filters. -/
theorem joins_tame {name : String} {clauses : List Value} (connective : name = "$and" ∨ name = "$or")
    (each : ∀ c ∈ clauses, Tame (matches? doc c)) : Tame (entry doc name (.array clauses)) := by
  rcases connective with rfl | rfl
  · exact conjunction_tame each
  · exact disjunction_tame each

/-- A connective over nothing. -/
theorem settled_tame {name : String} {cond : Value} (connective : name = "$and" ∨ name = "$or")
    (empty : cond.members? = some []) : Tame (entry doc name cond) := by
  cases cond with
  | array clauses =>
    cases empty
    exact joins_tame connective fun _ h => nomatch h
  | _ =>
    rcases connective with rfl | rfl
    · exact clauseless_tame empty true
    · exact clauseless_tame empty false

theorem asks_tame {name : String} {cond : Value} (path : ¬(name = "$and" ∨ name = "$or"))
    (supported : ConditionSupported name cond) : Tame (entry doc name cond) := by
  obtain ⟨conj, disj⟩ := not_or.1 path
  unfold entry
  rw [if_neg conj, if_neg disj]
  exact condition_tame supported doc

end Parts

mutual

/-- **A supported filter has an answer for every document**, or a failure. -/
theorem matches?_tame (doc : Value) {filter : Value} :
    Supported filter → Tame (matches? doc filter)
  | .object each => by
    unfold matches?
    exact entries_tame fun f hf => entry_tame doc (each f hf)

theorem entry_tame (doc : Value) {name : String} {cond : Value} :
    EntrySupported name cond → Tame (entry doc name cond)
  | .joins connective each => joins_tame connective fun c hc => matches?_tame doc (each c hc)
  | .settled connective empty => settled_tame connective empty
  | .asks path supported => asks_tame path supported

end

end Filter

/-! ## Lookups -/

namespace Collection

variable {filter : Value}

theorem selectFrom_tame (supported : Filter.Supported filter) (docs : List Fields) :
    Tame (selectFrom filter docs) := by
  induction docs with
  | nil => exact .ok []
  | cons doc rest ih =>
    exact (Filter.matches?_tame _ supported).bind fun _ _ => ih.bind fun _ _ => .ok _

theorem firstOf_tame (supported : Filter.Supported filter) (docs : List Fields) :
    Tame (firstOf filter docs) := by
  induction docs with
  | nil => exact .ok none
  | cons doc rest ih =>
    refine (Filter.matches?_tame _ supported).bind fun chosen _ => ?_
    split
    · exact .ok _
    · exact ih

theorem find_tame (supported : Filter.Supported filter) (c : Collection) :
    Tame (c.find filter) :=
  (selectFrom_tame supported c.all).bind fun _ _ => .ok _

theorem findOne_tame (supported : Filter.Supported filter) (c : Collection) :
    Tame (c.findOne filter) :=
  (firstOf_tame supported c.all).bind fun _ _ => .ok _

end Collection

end DocRepair

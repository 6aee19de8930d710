import DocRepair.Proofs.Tame
import DocRepair.Proofs.Ways
/-!
# `DocRepair.Proofs.Garbled` — what stops a reading

A missing way is an absence to a reader, wherever it ends: at a name that is not there, at a scalar,
at a word in the place of an index, behind the end of an array. Only one thing stops the reader. A
segment that consists of digits is taken for an index as soon as the way has come to an array, and
not all runs of digits can be read as a number. Some digits have no decimal value, and a number must
not be too long. On an object such a segment is a name like any other.

## Contents

* `Path.Garbled` — segments of digits that are no number;
* `Path.legible_iff` — all other segments can be read;
* `Path.Stumbles` — the way of the segments comes to an array with a garbled one;
* `Path.walk_error_iff` — there the reader stops, and nowhere else;
* `Path.reads_unless_stumbles` — for whole paths, in each way of reading;
* `Path.superscript_stops` — a superscript in the place of an index.
-/

namespace DocRepair

/-! ## Digits with a value -/

namespace Text.Digit

variable {cs : List Char}

theorem length_leadingValues_le (cs : List Char) : (leadingValues cs).length ≤ cs.length := by
  induction cs with
  | nil => exact Nat.le_refl 0
  | cons c rest ih =>
    unfold leadingValues
    cases decimalValue? c with
    | none => exact Nat.zero_le _
    | some d => exact Nat.succ_le_succ ih

/-- All characters have a decimal value if as many values are read. -/
theorem length_leadingValues :
    (leadingValues cs).length = cs.length ↔ ∀ c ∈ cs, decimalValue? c ≠ none := by
  induction cs with
  | nil => simp [leadingValues]
  | cons c rest ih =>
    unfold leadingValues
    cases value : decimalValue? c with
    | none => simp [value]
    | some d => simp [value, ih]

end Text.Digit

namespace Path

open DocRepair.Text

variable {segment : String} {names : List String} {c v doc path : Value} {fault : Fault}

/-! ## Segments that spell no index -/

/-- Digits that are no number: one of them has no decimal value, or they are too many. -/
def Garbled (segment : String) : Prop :=
  segment ≠ "" ∧ (∀ c ∈ segment.toList, Digit.isDigit c = true) ∧
    ((∃ c ∈ segment.toList, Digit.decimalValue? c = none) ∨ Digit.limit < segment.toList.length)

/-- A garbled segment stops the one who takes it for an index, and not with a failure. -/
theorem index?_garbled (garbled : Garbled segment) :
    ∃ fault, index? segment = .error fault ∧ fault.isTame = false := by
  obtain ⟨nonempty, digits, beyond⟩ := garbled
  have numeric : ¬ (segment.toList.isEmpty || !segment.toList.all Digit.isDigit) = true := by
    simpa [nonempty] using digits
  have few := Digit.length_leadingValues_le segment.toList
  unfold index? Digit.readIndex
  rw [if_neg numeric]
  by_cases long : Digit.limit < (Digit.leadingValues segment.toList).length
  · simp only [if_pos long]
    exact ⟨_, rfl, rfl⟩
  · have short : (Digit.leadingValues segment.toList).length < segment.toList.length := by
      rcases beyond with ⟨c, among, none⟩ | tooLong
      · refine Nat.lt_of_le_of_ne few fun full => ?_
        exact Digit.length_leadingValues.1 full c among none
      · omega
    simp only [if_neg long, if_pos short]
    exact ⟨_, rfl, rfl⟩

/-- **A segment can be read unless it is garbled.** -/
theorem legible_iff : Legible segment ↔ ¬ Garbled segment := by
  constructor
  · rintro ⟨i, spelled⟩ garbled
    obtain ⟨fault, stops, _⟩ := index?_garbled garbled
    rw [spelled] at stops
    cases stops
  · intro clean
    unfold Legible index? Digit.readIndex
    by_cases digits : (segment.toList.isEmpty || !segment.toList.all Digit.isDigit) = true
    · rw [if_pos digits]
      exact ⟨_, rfl⟩
    · rw [if_neg digits]
      simp only [Bool.or_eq_true, List.isEmpty_iff, Bool.not_eq_true', not_or,
        Bool.not_eq_false, List.all_eq_true, String.toList_eq_nil_iff] at digits
      have valued : ∀ c ∈ segment.toList, Digit.decimalValue? c ≠ none := fun c among none =>
        clean ⟨digits.1, digits.2, .inl ⟨c, among, none⟩⟩
      have bounded : ¬ Digit.limit < segment.toList.length := fun long =>
        clean ⟨digits.1, digits.2, .inr long⟩
      have full := Digit.length_leadingValues.2 valued
      simp only [full, if_neg bounded, if_neg (Nat.lt_irrefl _)]
      exact ⟨_, rfl⟩

theorem garbled_of_error (stops : index? segment = .error fault) : Garbled segment := by
  refine Classical.byContradiction fun clean => ?_
  obtain ⟨i, spelled⟩ := legible_iff.2 clean
  rw [spelled] at stops
  cases stops

/-! ## Where a reader stops -/

/-- Some segments lead to an array, and a garbled one is next. -/
def Stumbles (c : Value) (names : List String) : Prop :=
  ∃ front segment rest way xs, names = front ++ segment :: rest ∧
    Leads c front way (.array xs) ∧ Garbled segment

theorem childAt_error (stops : childAt c segment = .error fault) :
    (∃ xs, c = .array xs) ∧ index? segment = .error fault := by
  cases c with
  | array xs =>
    refine ⟨⟨xs, rfl⟩, ?_⟩
    unfold childAt at stops
    cases spelled : index? segment with
    | error other =>
      rw [spelled] at stops
      cases stops
      rfl
    | ok i =>
      rw [spelled] at stops
      cases i <;> cases stops
  | _ => cases stops

/-- **A reader stops where the segments stumble**, and what stops it is no failure of the engine. -/
theorem walk_error (stops : walk c names = .error fault) :
    Stumbles c names ∧ fault.isTame = false := by
  induction names generalizing c with
  | nil => cases stops
  | cons segment rest ih =>
    rw [walk] at stops
    cases child : childAt c segment with
    | error other =>
      rw [child] at stops
      cases stops
      obtain ⟨⟨xs, rfl⟩, spelled⟩ := childAt_error child
      have garbled := garbled_of_error spelled
      obtain ⟨other, stops, plain⟩ := index?_garbled garbled
      rw [spelled] at stops
      cases stops
      exact ⟨⟨[], segment, rest, [], xs, rfl, .nil _, garbled⟩, plain⟩
    | ok found =>
      rw [child] at stops
      cases found with
      | none => cases stops
      | some entry =>
        obtain ⟨k, next⟩ := entry
        obtain ⟨⟨front, second, more, way, xs, rfl, leads, garbled⟩, plain⟩ := ih stops
        refine ⟨⟨segment :: front, second, more, k :: way, xs, rfl, ?_, garbled⟩, plain⟩
        exact .cons (names_of_childAt child) (childAt_held child) leads

theorem walk_stumbles (stumbles : Stumbles c names) : ∃ fault, walk c names = .error fault := by
  obtain ⟨front, segment, rest, way, xs, rfl, leads, garbled⟩ := stumbles
  -- The induction is on the way to the array, so the array is not spelled out in it.
  generalize reached : Value.array xs = target at leads
  induction leads with
  | nil v =>
    subst reached
    obtain ⟨fault, stops, _⟩ := index?_garbled garbled
    refine ⟨fault, ?_⟩
    show walk (.array xs) (segment :: rest) = _
    rw [walk, childAt, stops]
    rfl
  | cons named held below ih =>
    obtain ⟨fault, stops⟩ := ih reached
    refine ⟨fault, ?_⟩
    show walk _ (_ :: (_ ++ segment :: rest)) = _
    rw [walk_of_names named, held]
    exact stops

theorem walk_error_iff : (∃ fault, walk c names = .error fault) ↔ Stumbles c names := by
  constructor
  · rintro ⟨fault, stops⟩
    exact (walk_error stops).1
  · exact walk_stumbles

/-! ## Whole paths -/

/-- **Reading stops at a garbled index, and for nothing else.** Whatever the document and the
    segments of the path: if they stumble, then looking the place up, reading the value and asking
    for it all stop, with a fault that is no failure of the engine. Otherwise all three return: a
    place or none, the value that lies there or nothing, and whether there is one. What is found is
    what the segments lead to. -/
theorem reads_unless_stumbles (splits : split path = .ok names) (doc : Value) (idField : String) :
    (Stumbles doc names →
      ∃ fault, resolve idField doc path .null = .error fault ∧ read? doc path = .error fault ∧
        has doc path = .error fault ∧ fault.isFailure = false) ∧
    (¬ Stumbles doc names →
      ∃ place found, resolve idField doc path .null = .ok place ∧ valueAt? doc place = found ∧
        read? doc path = .ok found ∧ has doc path = .ok found.isSome ∧
        ∀ v, found = some v ↔ ∃ way, Leads doc names way v) := by
  obtain ⟨n, rest, rfl⟩ := split_cons splits
  have looks : resolve idField doc path .null = resolveFrom idField doc (n :: rest) [] := by
    unfold resolve
    rw [splits]
    rfl
  have finds := resolveFrom_walk idField doc n rest
  rw [looks, read?_eq splits, has_eq splits, ← walk_error_iff]
  cases outcome : walk doc (n :: rest) with
  | error fault =>
    have plain := Fault.isFailure_of_isTame (walk_error outcome).2
    refine ⟨fun _ => ⟨fault, ?_, rfl, rfl, plain⟩, fun clear => ?_⟩
    · rw [outcome] at finds
      cases place : resolveFrom idField doc (n :: rest) [] with
      | error other =>
        rw [place] at finds
        cases finds
        rfl
      | ok p =>
        rw [place] at finds
        cases finds
    · exact absurd ⟨fault, rfl⟩ clear
  | ok found =>
    refine ⟨?_, fun _ => ?_⟩
    · rintro ⟨fault, ⟨⟩⟩
    · rw [outcome] at finds
      obtain ⟨place, located, holds⟩ := bind_eq_ok.1 finds
      refine ⟨place, found, located, Except.ok.inj holds, rfl, rfl, fun v => ?_⟩
      rw [← walk_eq_some, outcome, Except.ok.injEq]

/-- Behind the end of an array, with a garbled segment after it: the way is missing before the
    reader comes to that. On an object a garbled segment is a name. -/
theorem reads_unless_stumbles_missing :
    let doc : Value := .object [("xs", .array []), ("²", .int 1)]
    ¬ Stumbles doc ["xs", "0", "²"] ∧ ¬ Stumbles doc ["²"] ∧
      read? doc (.text "xs.0.²") = .ok none ∧ read? doc (.text "²") = .ok (some (.int 1)) := by
  intro doc
  have missing : walk doc ["xs", "0", "²"] = .ok none := rfl
  have named : walk doc ["²"] = .ok (some (.int 1)) := rfl
  have clear : ¬ Stumbles doc ["xs", "0", "²"] := by
    rw [← walk_error_iff, missing]
    rintro ⟨fault, ⟨⟩⟩
  have clear' : ¬ Stumbles doc ["²"] := by
    rw [← walk_error_iff, named]
    rintro ⟨fault, ⟨⟩⟩
  have splits : split (.text "xs.0.²") = .ok ["xs", "0", "²"] := rfl
  have splits' : split (.text "²") = .ok ["²"] := rfl
  obtain ⟨_, found, _, _, reads, _, leads⟩ := (reads_unless_stumbles splits doc "_id").2 clear
  obtain ⟨_, found', _, _, reads', _, leads'⟩ := (reads_unless_stumbles splits' doc "_id").2 clear'
  obtain rfl : found' = some (.int 1) := (leads' _).2 (walk_eq_some.1 named)
  refine ⟨clear, clear', ?_, reads'⟩
  rw [reads]
  cases found with
  | none => rfl
  | some v =>
    have reached := walk_eq_some.2 ((leads v).1 rfl)
    rw [missing] at reached
    cases reached

/-- No segment is empty, and the array has no item under the path. Still nothing is returned. -/
theorem superscript_stops :
    let doc : Value := .object [("xs", .array [.int 1])]
    let path : Value := .text "xs.²"
    split path = .ok ["xs", "²"] ∧ (∀ s ∈ ["xs", "²"], s ≠ "") ∧
      ¬ ((∃ place, resolve "_id" doc path .null = .ok place) ∨ (∃ v, read? doc path = .ok v) ∨
        ∃ b, has doc path = .ok b) := by
  refine ⟨rfl, by simp, ?_⟩
  rintro (⟨place, returns⟩ | ⟨v, returns⟩ | ⟨b, returns⟩) <;> cases returns

end Path

end DocRepair

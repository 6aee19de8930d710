import DocRepair.Proofs.Everywhere
import DocRepair.Proofs.Landable
import DocRepair.Proofs.Reading
/-!
# `DocRepair.Proofs.Spelled` — a selector stands for an index

A selector beside a segment picks an element of the array that the segment names. The same place is
found without selectors, if behind each selected segment stands the index of the element that was
picked: the first one whose identifier agrees with the selector.

The lookup has two ways to pass a selector, one for segments on the way and one for the last
segment. The longer list of segments is read in a single way.

## Contents

* `Text.Digit.readIndex_toDigits` / `Path.index?_toString` — an index is read back from its digits;
* `Value.Countable` — documents whose arrays are not too long for that;
* `Path.First` — the first element that a selector agrees with;
* `Path.Spelled` — segments and selectors, spelled by segments alone;
* `Path.resolveFrom_spelled` / `Path.resolve_spelled` — they lead to the same place.
-/

namespace DocRepair

/-! ## Indexes and their digits -/

namespace Text.Digit

variable {cs : List Char} {c : Char}

theorem decimalValue?_digit (digit : c.isDigit = true) :
    decimalValue? c = some (c.toNat - 48) := by
  obtain ⟨above, below⟩ := Char.isDigit_iff_toNat.1 digit
  have here : (decide (48 ≤ c.toNat) && decide (c.toNat < 48 + 10)) = true := by
    have bound : c.toNat ≤ 57 := below
    simp only [Bool.and_eq_true, decide_eq_true_eq]
    exact ⟨above, by omega⟩
  have first : zeros = 48 :: zeros.tail := rfl
  unfold decimalValue?
  rw [first]
  simp only [List.find?_cons, here, Option.map_some]

theorem leadingValues_digits (digits : Double.Digits cs) :
    leadingValues cs = Double.values cs := by
  induction cs with
  | nil => rfl
  | cons c rest ih =>
    have value := decimalValue?_digit (digits c List.mem_cons_self)
    have behind := ih fun d among => digits d (List.mem_cons_of_mem c among)
    unfold leadingValues
    rw [value, behind]
    rfl

/-- **A number that is not too long is read from its digits.** -/
theorem readIndex_toDigits {n : Nat} (short : n < beyond) :
    readIndex (Nat.toDigits 10 n) = .number n := by
  have digits := Double.digits_toDigits n
  have values := leadingValues_digits digits
  have few : ¬ limit < (Double.values (Nat.toDigits 10 n)).length := by
    rw [Double.length_values, Nat.not_lt]
    exact Json.length_toDigits_le short
  have numeric : ¬ ((Nat.toDigits 10 n).isEmpty ||
      !(Nat.toDigits 10 n).all isDigit) = true := by
    have each : ∀ c ∈ Nat.toDigits 10 n, isDigit c = true := by
      intro c among
      unfold isDigit
      rw [decimalValue?_digit (digits c among)]
      rfl
    have full : Nat.toDigits 10 n ≠ [] := Nat.toDigits_ne_nil
    simpa [full] using each
  unfold readIndex
  rw [if_neg numeric, values]
  rw [if_neg few, Double.length_values, if_neg (Nat.lt_irrefl _)]
  exact congrArg Reading.number (Double.ofDigits_toDigits n)

end Text.Digit

/-- No array has more items than there are indexes that can be read. No memory holds one that
    has. -/
def Value.Countable (doc : Value) : Prop :=
  doc.Everywhere fun v => v.items.length ≤ Text.Digit.beyond

namespace Path

variable {idField segment : String} {names plain : List String} {ids : List (Option Value)}
  {c next wanted : Value} {xs : List Value} {i : Nat} {p : Place}

theorem index?_toString (short : i < Text.Digit.beyond) :
    index? (toString i) = .ok (some i) := by
  have digits : (toString i).toList = Nat.toDigits 10 i := Nat.toList_repr
  unfold index?
  rw [digits, Text.Digit.readIndex_toDigits short]

theorem toString_ne_empty (i : Nat) : toString i ≠ "" := by
  intro empty
  have digits : (toString i).toList = Nat.toDigits 10 i := Nat.toList_repr
  rw [empty] at digits
  exact Nat.toDigits_ne_nil digits.symm

/-! ## Picking an element -/

/-- The element at an index is the first whose identifier agrees with the one wanted. -/
structure First (idField : String) (wanted : Value) (xs : List Value) (i : Nat) (element : Value) :
    Prop where
  held : xs[i]? = some element
  agrees : Identity.compare (Identity.ofElement idField element) wanted = .ok true
  before : ∀ j < i, ∀ other, xs[j]? = some other →
    Identity.compare (Identity.ofElement idField other) wanted = .ok false

/-- **A selector picks the first element that it agrees with.** -/
theorem first_of_select {target element : Value}
    (run : select idField segment wanted target = .ok (i, element)) :
    ∃ xs, target = .array xs ∧ First idField wanted xs i element := by
  have held := select_held run
  unfold select at run
  split at run
  · rename_i xs
    obtain ⟨found, searched, run⟩ := bind_eq_ok.1 run
    cases found with
    | some j =>
      cases run
      obtain ⟨⟨v, here, agrees⟩, before⟩ := firstIndex?_eq_some.1 searched
      obtain rfl : xs.getD i .null = v := Option.some.inj (held.symm.trans here)
      exact ⟨xs, rfl, held, agrees, before⟩
    | none => exact absurd run failShowing_ne_ok
  · cases run

/-- Segments with selectors beside them, spelled by segments alone: behind a selected one stands the
    index of the first element that its selector agrees with. -/
inductive Spelled (idField : String) :
    Value → List String → List (Option Value) → List String → Prop
  | nil {c : Value} {ids : List (Option Value)} : Spelled idField c [] ids []
  /-- The last segment need not lead to anything. -/
  | last {c : Value} {segment : String} {ids : List (Option Value)} (bare : ids.headD none = none) :
    Spelled idField c [segment] ids [segment]
  | bare {c next : Value} {segment : String} {k : Key} {rest plain : List String}
      {ids : List (Option Value)} (bare : ids.headD none = none) (named : Names c segment k)
      (held : c.child? k = some next) (more : Spelled idField next rest ids.tail plain) :
    Spelled idField c (segment :: rest) ids (segment :: plain)
  | selected {c wanted element : Value} {xs : List Value} {segment : String} {k : Key} {i : Nat}
      {rest plain : List String} {ids : List (Option Value)} (beside : ids.headD none = some wanted)
      (named : Names c segment k) (held : c.child? k = some (.array xs))
      (first : First idField wanted xs i element)
      (more : Spelled idField element rest ids.tail plain) :
    Spelled idField c (segment :: rest) ids (segment :: toString i :: plain)

theorem Spelled.filled (spelled : Spelled idField c names ids plain) (filled : Filled names) :
    Filled plain := by
  induction spelled with
  | nil => exact filled
  | last bare => exact filled
  | bare bare named held more ih =>
    intro s among
    rcases List.mem_cons.1 among with rfl | among
    · exact filled s List.mem_cons_self
    · exact ih (fun s among => filled s (List.mem_cons_of_mem _ among)) s among
  | selected beside named held first more ih =>
    intro s among
    rcases List.mem_cons.1 among with rfl | among
    · exact filled s List.mem_cons_self
    · rcases List.mem_cons.1 among with rfl | among
      · exact toString_ne_empty _
      · exact ih (fun s among => filled s (List.mem_cons_of_mem _ among)) s among

theorem Spelled.nonempty (spelled : Spelled idField c names ids plain) (some : names ≠ []) :
    ∃ s rest, plain = s :: rest := by
  cases spelled with
  | nil => exact absurd rfl some
  | last bare => exact ⟨_, _, rfl⟩
  | bare bare named held more => exact ⟨_, _, rfl⟩
  | selected beside named held first more => exact ⟨_, _, rfl⟩

/-! ## The same place -/

theorem First.index_lt (first : First idField wanted xs i next) : i < xs.length :=
  (List.getElem?_eq_some_iff.1 first.held).1

/-- The digits of its index name an element that was picked. -/
theorem First.spelled (first : First idField wanted xs i next)
    (countable : (Value.array xs).Countable) : Names (.array xs) (toString i) (.index i) := by
  have short : xs.length ≤ Text.Digit.beyond := countable.here
  exact ⟨i, index?_toString (Nat.lt_of_lt_of_le first.index_lt short), rfl⟩

/-- A last segment with a selector is spelled by two. -/
theorem selectedPlace_spelled (countable : c.Countable) (beside : ids.headD none = some wanted)
    (run : selectedPlace idField c segment wanted = .ok (some p)) :
    ∃ plain, Spelled idField c [segment] ids plain ∧
      resolveFrom idField c plain [] = .ok (some p) := by
  obtain ⟨child, found, run⟩ := bind_eq_ok.1 run
  split at run
  · cases run
  · cases run
  · rename_i k target _
    obtain ⟨⟨i, element⟩, picked, run⟩ := bind_eq_ok.1 run
    cases run
    obtain ⟨xs, rfl, first⟩ := first_of_select picked
    have named := names_of_childAt found
    have held := childAt_held found
    refine ⟨[segment, toString i], .selected beside named held first .nil, ?_⟩
    have index : resolveFrom idField (.array xs) [toString i] [] = .ok (some ⟨[], .index i⟩) :=
      lastPlace_of_names (first.spelled (countable.child held))
    rw [resolveFrom_under named held rfl, index]
    rfl

/-- A step past a segment, and past its selector if it has one, is a step past one segment or
    two. -/
theorem step_spelled {way : Location} {rest : List String} {q : Place} (countable : c.Countable)
    (stepped : step idField c segment (ids.headD none) = .ok (some (way, next)))
    (container : next.isContainer = true)
    (below : next.Countable → ∃ s more, Spelled idField next rest ids.tail (s :: more) ∧
      resolveFrom idField next (s :: more) [] = .ok (some q)) :
    ∃ plain, Spelled idField c (segment :: rest) ids plain ∧
      resolveFrom idField c plain [] = .ok (some (q.under way)) := by
  obtain ⟨child, found, run⟩ := bind_eq_ok.1 stepped
  cases child with
  | none => cases run
  | some entry =>
    obtain ⟨k, target⟩ := entry
    have named := names_of_childAt found
    have held := childAt_held found
    have inside := countable.child held
    cases beside : ids.headD none with
    | none =>
      rw [beside] at run
      cases run
      obtain ⟨s, more, spelled, same⟩ := below inside
      refine ⟨segment :: s :: more, .bare beside named held spelled, ?_⟩
      rw [resolveFrom_under named held container, same]
      rfl
    | some wanted =>
      rw [beside] at run
      obtain ⟨⟨i, element⟩, picked, run⟩ := bind_eq_ok.1 run
      cases run
      obtain ⟨xs, rfl, first⟩ := first_of_select picked
      have index := first.spelled inside
      have item : (Value.array xs).child? (.index i) = some next := first.held
      obtain ⟨s, more, spelled, same⟩ := below (inside.child item)
      refine ⟨segment :: toString i :: s :: more, .selected beside named held first spelled, ?_⟩
      rw [resolveFrom_under named held rfl, resolveFrom_under index item container, same]
      rfl

/-- **Segments with selectors lead to the place that the longer list of segments leads to.** -/
theorem resolveFrom_spelled (countable : c.Countable)
    (run : resolveFrom idField c names ids = .ok (some p)) :
    ∃ plain, Spelled idField c names ids plain ∧
      resolveFrom idField c plain [] = .ok (some p) := by
  induction names generalizing c ids p with
  | nil => cases run
  | cons segment rest ih =>
    unfold resolveFrom at run
    cases rest with
    | nil =>
      -- The selector beside the last segment is not passed by a step.
      cases beside : ids.headD none with
      | none =>
        simp only [beside] at run
        exact ⟨[segment], .last beside, run⟩
      | some wanted =>
        simp only [beside] at run
        exact selectedPlace_spelled countable beside run
    | cons second rest =>
      obtain ⟨down, stepped, run⟩ := bind_eq_ok.1 run
      cases down with
      | none => cases run
      | some entry =>
        obtain ⟨way, next⟩ := entry
        dsimp only at run
        split at run
        · rename_i container
          obtain ⟨place, found, run⟩ := bind_eq_ok.1 run
          cases place with
          | none => cases run
          | some q =>
            cases run
            refine step_spelled countable stepped container fun inside => ?_
            obtain ⟨plain, spelled, same⟩ := ih inside found
            obtain ⟨s, more, rfl⟩ := spelled.nonempty (List.cons_ne_nil second rest)
            exact ⟨s, more, spelled, same⟩
        · cases run

/-- Only the selectors beside a segment count. -/
theorem resolveFrom_beside {ids' : List (Option Value)} (idField : String) (c : Value)
    (same : ∀ i < names.length, ids'.getD i none = ids.getD i none) :
    resolveFrom idField c names ids' = resolveFrom idField c names ids := by
  induction names generalizing c ids ids' with
  | nil => rfl
  | cons segment rest ih =>
    have head : ids'.headD none = ids.headD none := by
      have first := same 0 (Nat.zero_lt_succ _)
      rwa [List.getD_eq_getElem?_getD, List.getD_eq_getElem?_getD, ← List.head?_eq_getElem?,
        ← List.head?_eq_getElem?, ← List.headD_eq_head?_getD, ← List.headD_eq_head?_getD] at first
    cases rest with
    | nil =>
      unfold resolveFrom
      rw [head]
    | cons second rest =>
      have tail : ∀ i < (second :: rest).length,
          ids'.tail.getD i none = ids.tail.getD i none := by
        intro i inside
        have next := same (i + 1) (Nat.succ_lt_succ inside)
        rwa [List.getD_eq_getElem?_getD, List.getD_eq_getElem?_getD, ← List.getElem?_tail,
          ← List.getElem?_tail, ← List.getD_eq_getElem?_getD, ← List.getD_eq_getElem?_getD] at next
      unfold resolveFrom
      rw [head]
      congr 1
      funext down
      split
      · rfl
      · rw [ih _ tail]

/-! ## Whole paths -/

variable {doc path selecting : Value} {beside : List (Option Value)}

/-- **Selectors are indexes.** Where a path with selectors leads to a place, the same place is found
    without them by a longer list of segments: behind each segment with a selector stands the index
    of the first element of that array whose identifier agrees with the selector. Other selectors
    than those beside a segment have no effect. -/
theorem resolve_spelled (splits : split path = .ok names)
    (lists : selectors selecting = .ok beside) (countable : doc.Countable) :
    (∀ p, resolve idField doc path selecting = .ok (some p) →
      ∃ plain, Spelled idField doc names beside plain ∧
        resolve idField doc (.array (plain.map .text)) .null = .ok (some p)) ∧
    ∀ selecting' beside', selectors selecting' = .ok beside' →
      (∀ i < names.length, beside'.getD i none = beside.getD i none) →
      resolve idField doc path selecting' = resolve idField doc path selecting := by
  have looks {ids : Value} {wanted : List (Option Value)} (listed : selectors ids = .ok wanted) :
      resolve idField doc path ids = resolveFrom idField doc names wanted := by
    unfold resolve
    rw [splits, listed]
    rfl
  constructor
  · intro p run
    rw [looks lists] at run
    obtain ⟨plain, spelled, same⟩ := resolveFrom_spelled countable run
    obtain ⟨n, rest, rfl⟩ := split_cons splits
    obtain ⟨s, more, rfl⟩ := spelled.nonempty (List.cons_ne_nil n rest)
    refine ⟨s :: more, spelled, ?_⟩
    unfold resolve
    rw [split_texts (List.cons_ne_nil s more) (spelled.filled (filled_of_split splits))]
    exact same
  · intro selecting' beside' lists' same
    rw [looks lists', looks lists]
    exact resolveFrom_beside idField doc same

/-- Of the sections the third is meant, as the second has a number for its identifier and not a
    text. Of its questions it is the second, the first of two with equal identifiers. A third
    selector has no segment beside it. -/
theorem resolve_spelled_nested :
    let question (id : Value) : Value := .object [("_id", id)]
    let questions : Value := .array [question (.int 1), question (.long 0), question (.int 0)]
    let doc : Value := .object [("sections", .array [.int 0, question (.int 7),
      .object [("_id", .text "7"), ("qs", questions)]])]
    let path : Value := .text "sections.qs"
    let beside : List Value := [.text "7", .int 0, .text "beyond"]
    let place : Place := ⟨[.field "sections", .index 2, .field "qs"], .index 1⟩
    resolve "_id" doc path (.array beside) = .ok (some place) ∧
      (∃ plain, Spelled "_id" doc ["sections", "qs"] (beside.map some) plain ∧
        resolve "_id" doc (.array (plain.map .text)) .null = .ok (some place)) ∧
      resolve "_id" doc path (.array (beside.take 2)) = resolve "_id" doc path (.array beside) := by
  intro question questions doc path beside place
  have few {n : Nat} (small : n ≤ 10) : n ≤ Text.Digit.beyond := by
    have some : Text.Digit.limit ≠ 0 := by decide
    unfold Text.Digit.beyond
    generalize Text.Digit.limit = digits at some ⊢
    exact small.trans (Nat.le_self_pow some 10)
  have scalar {v : Value} (scalar : v.isContainer = false) (none : v.items = []) : v.Countable :=
    .scalar scalar (none ▸ Nat.zero_le _)
  have object {fs : Fields} (each : ∀ f ∈ fs, f.2.Countable) : (Value.object fs).Countable :=
    .object (Nat.zero_le _) each
  have single {id : Value} (plain : id.Countable) : (question id).Countable :=
    object (List.forall_mem_singleton.2 plain)
  have among : questions.Countable :=
    .array (few (by decide)) (List.forall_mem_cons.2 ⟨single (scalar rfl rfl),
      List.forall_mem_cons.2 ⟨single (scalar rfl rfl),
        List.forall_mem_singleton.2 (single (scalar rfl rfl))⟩⟩)
  have third : Value.Countable (.object [("_id", .text "7"), ("qs", questions)]) :=
    object (List.forall_mem_cons.2 ⟨scalar rfl rfl, List.forall_mem_singleton.2 among⟩)
  have sections : Value.Countable (.array [.int 0, question (.int 7),
      .object [("_id", .text "7"), ("qs", questions)]]) :=
    .array (few (by decide)) (List.forall_mem_cons.2 ⟨scalar rfl rfl,
      List.forall_mem_cons.2 ⟨single (scalar rfl rfl), List.forall_mem_singleton.2 third⟩⟩)
  have countable : doc.Countable := object (List.forall_mem_singleton.2 sections)
  have found : resolve "_id" doc path (.array beside) = .ok (some place) := rfl
  have splits : split path = .ok ["sections", "qs"] := rfl
  have lists : selectors (.array beside) = .ok (beside.map some) := rfl
  obtain ⟨same, others⟩ := resolve_spelled splits lists countable
  refine ⟨found, same place found, others _ _ rfl fun i inside => ?_⟩
  have shorter : i < 2 := inside
  obtain rfl | rfl : i = 0 ∨ i = 1 := by omega
  · rfl
  · rfl

end Path

end DocRepair

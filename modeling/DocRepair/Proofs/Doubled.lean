import DocRepair.Proofs.Deduplicated
/-!
# `DocRepair.Proofs.Doubled` — what a deduplication makes of a doubled array

A pass goes on from one part of an array to the next with the keys that it has seen. When it comes
to the second copy of an array it has seen every key there is. So of the second copy the elements
without a key stay, and no others.

An array is given back if the copies are all that goes. Each element without a key comes back twice,
and of elements with one key only the first does.

## Contents

* `Scan.after_append` — a pass over two parts;
* `Scan.after_seen` — a pass over elements whose keys were all seen;
* `Scan.kept_doubled` / `Scan.repeated_doubled` — a pass over an array and its copy;
* `Scan.kept_eq_iff` / `Scan.restored_iff` — the arrays that are given back;
* `Edit.duplicate_ok` — the doubling of an array;
* `Edit.duplicate_deduplicated` — the doubling, and a deduplication with it and without it;
* `Edit.doubled_not_deduplicated` — two arrays that stay doubled.
-/

namespace DocRepair

/-! ## A pass over an array and its copy -/

namespace Scan

variable {key : Value → Option String} {seen : List String} {xs : List Value}

/-- The elements without a key. -/
def unkeyedOf (key : Value → Option String) (xs : List Value) : List Value :=
  xs.filter fun v => (key v).isNone

/-- The elements with a key. -/
def keyedOf (key : Value → Option String) (xs : List Value) : List Value :=
  xs.filter fun v => (key v).isSome

theorem unkeyedOf_eq_nil_iff : unkeyedOf key xs = [] ↔ ∀ v ∈ xs, (key v).isSome = true := by
  unfold unkeyedOf
  rw [List.filter_eq_nil_iff]
  simp [← Option.ne_none_iff_isSome]

/-- Each element has a key or none. -/
theorem length_keys (key : Value → Option String) (xs : List Value) :
    xs.length = (xs.filterMap key).length + (unkeyedOf key xs).length := by
  induction xs with
  | nil => rfl
  | cons v rest ih =>
    unfold unkeyedOf at ih ⊢
    rw [List.filter_cons]
    cases keyed : key v with
    | none =>
      rw [List.filterMap_cons_none keyed]
      exact congrArg Nat.succ ih
    | some k =>
      rw [List.filterMap_cons_some keyed, List.length_cons, List.length_cons, ih]
      exact Nat.add_right_comm _ _ 1

/-- **A pass over two parts** is one over the first and then, with the keys seen there, one over the
    second. -/
theorem after_append (key : Value → Option String) (seen : List String) (xs ys : List Value) :
    after key seen (xs ++ ys) =
      let s := after key seen xs
      let t := after key s.keys ys
      { kept := s.kept ++ t.kept, repeated := s.repeated ++ t.repeated, keys := t.keys,
        unkeyed := s.unkeyed + t.unkeyed } := by
  induction xs generalizing seen with
  | nil =>
    have none : 0 + (after key seen ys).unkeyed = (after key seen ys).unkeyed := Nat.zero_add _
    simp only [after, List.nil_append, none]
  | cons v rest ih =>
    rw [List.cons_append, after_cons, after_cons key seen v rest, ih]
    cases staysBehind key seen v with
    | true => simp only [if_true, List.cons_append, Nat.add_right_comm]
    | false => simp only [Bool.false_eq_true, if_false, List.cons_append]

/-- A pass over elements whose keys were all seen before keeps those that have none. -/
theorem after_seen (old : ∀ k ∈ xs.filterMap key, k ∈ seen) :
    (after key seen xs).kept = unkeyedOf key xs ∧
      (after key seen xs).repeated = keyedOf key xs := by
  induction xs generalizing seen with
  | nil => exact ⟨rfl, rfl⟩
  | cons v rest ih =>
    unfold unkeyedOf keyedOf at ih ⊢
    rw [after_cons, List.filter_cons, List.filter_cons]
    -- In neither case is a key new, so the others are passed with the same keys.
    cases keyed : key v with
    | none =>
      rw [List.filterMap_cons_none keyed] at old
      have stays : staysBehind key seen v = true := by simp [staysBehind, keyed]
      have same : seenBehind key seen v = seen := by simp [seenBehind, keyed]
      obtain ⟨kept, repeated⟩ := ih old
      rw [stays, same]
      exact ⟨congrArg (v :: ·) kept, repeated⟩
    | some k =>
      rw [List.filterMap_cons_some keyed] at old
      have repeats : staysBehind key seen v = false := by
        simp [staysBehind, keyed, old k List.mem_cons_self]
      obtain ⟨kept, repeated⟩ := ih fun l among => old l (List.mem_cons_of_mem k among)
      rw [repeats, seenBehind_repeated repeats]
      exact ⟨kept, congrArg (v :: ·) repeated⟩

/-- Behind an array all its keys were seen. -/
theorem copy_seen (key : Value → Option String) (xs : List Value) :
    ∀ k ∈ xs.filterMap key, k ∈ (ofArray key xs).keys :=
  fun _ among => mem_after_keys.2 (.inr among)

/-- **Of an array and its copy** the elements of the array stay that would stay without the copy,
    and then those of the copy that have no key. -/
theorem kept_doubled (key : Value → Option String) (xs : List Value) :
    (ofArray key (xs ++ xs)).kept = (ofArray key xs).kept ++ unkeyedOf key xs := by
  rw [← (after_seen (copy_seen key xs)).1]
  exact congrArg Scan.kept (after_append key [] xs xs)

theorem repeated_doubled (key : Value → Option String) (xs : List Value) :
    (ofArray key (xs ++ xs)).repeated = (ofArray key xs).repeated ++ keyedOf key xs := by
  rw [← (after_seen (copy_seen key xs)).2]
  exact congrArg Scan.repeated (after_append key [] xs xs)

/-! ## Arrays that are given back -/

/-- A pass keeps all elements if it finds none to report. -/
theorem after_kept_all (none : (after key seen xs).repeated = []) :
    (after key seen xs).kept = xs := by
  induction xs generalizing seen with
  | nil => rfl
  | cons v rest ih =>
    rw [after_cons] at none ⊢
    cases stays : staysBehind key seen v with
    | true =>
      simp only [stays, if_true] at none ⊢
      rw [ih none]
    | false =>
      simp only [stays, Bool.false_eq_true, if_false] at none
      cases none

/-- **A pass keeps all elements** if the keys among them are pairwise different. -/
theorem kept_eq_iff : (ofArray key xs).kept = xs ↔ (xs.filterMap key).Nodup := by
  have shared : (ofArray key xs).kept.length + (ofArray key xs).repeated.length = xs.length := by
    rw [← List.length_append]
    exact (deduplicated_ofArray key xs).perm.length_eq
  have counted := account_adds_up key xs
  have keys := length_keys key xs
  unfold unkeyedOf at keys
  have distinct : (xs.filterMap key).Nodup ↔
      (xs.filterMap key).toFinset.card = (xs.filterMap key).length :=
    (Multiset.toFinset_card_eq_card_iff_nodup (m := Multiset.ofList (xs.filterMap key))).symm
  rw [distinct]
  constructor
  · intro all
    rw [all] at shared
    omega
  · intro many
    have none : (ofArray key xs).repeated.length = 0 := by omega
    exact after_kept_all (List.length_eq_zero_iff.1 none)

/-- **An array is given back** if every element has a key and no other element has the same. -/
theorem restored_iff : (ofArray key xs).kept ++ unkeyedOf key xs = xs ↔
    (∀ v ∈ xs, (key v).isSome = true) ∧ (xs.filterMap key).Nodup := by
  rw [← unkeyedOf_eq_nil_iff, ← kept_eq_iff]
  constructor
  · intro back
    -- The elements without a key are among those that stay, so of two copies they stay twice.
    have once : (unkeyedOf key (ofArray key xs).kept).length = (unkeyedOf key xs).length := by
      have again : ofArray key (ofArray key xs).kept = { ofArray key xs with repeated := [] } :=
        after_again key [] xs
      have same := congrArg Scan.unkeyed again
      unfold ofArray at same ⊢
      rwa [after_unkeyed, after_unkeyed] at same
    have twice := congrArg (fun ys => (unkeyedOf key ys).length) back
    have split : unkeyedOf key ((ofArray key xs).kept ++ unkeyedOf key xs) =
        unkeyedOf key (ofArray key xs).kept ++ unkeyedOf key (unkeyedOf key xs) :=
      List.filter_append _ _
    have alone : unkeyedOf key (unkeyedOf key xs) = unkeyedOf key xs := by simp [unkeyedOf]
    rw [split, alone, List.length_append, once] at twice
    have none : unkeyedOf key xs = [] := List.length_eq_zero_iff.1 (by omega)
    rw [none, List.append_nil] at back
    exact ⟨none, back⟩
  · rintro ⟨none, all⟩
    rw [none, all, List.append_nil]

end Scan

/-! ## The edits -/

namespace Edit

open DocRepair.Scan (Deduplicated account unkeyedOf keyedOf)

variable {idField : String} {path keyField : Value} {names : List String} {way : Location}
  {xs : List Value} {d : Draft}

theorem duplicate_ok (idField : String) {dirty : DirtySet} (splits : Path.split path = .ok names)
    (marked : (∅ : DirtySet).touch path = .ok dirty)
    (leads : Path.Leads d.doc names way (.array xs)) :
    ∃ d', duplicate idField path d = .ok (dirty, 2 * xs.length) d' ∧
      d'.doc = d.doc.replaceAt way (.array (xs ++ xs)) := by
  obtain ⟨p, rfl, found⟩ := array_of_leads idField splits leads
  obtain ⟨d', given, left⟩ : ∃ d', setItems p (xs ++ xs) d = .ok () d' ∧
      d'.doc = d.doc.replaceAt p.way (.array (xs ++ xs)) := ⟨_, rfl, rfl⟩
  have touches : touched path d' = .ok dirty d' := lift_ok.2 ⟨marked, rfl⟩
  have twice : (xs ++ xs).length = 2 * xs.length := by
    rw [List.length_append]
    omega
  refine ⟨d', ?_, left⟩
  unfold duplicate
  rw [run_bind_of_ok found]
  dsimp only
  rw [run_bind_of_ok given, run_bind_of_ok touches, twice]
  rfl

/-- **A doubled array without its duplicates.** The doubling puts a copy of the array behind it,
    says how long it is then, and leaves the rest of the document alone. If the elements can be keyed,
    a deduplication then leaves what it would have left without the doubling, and behind that the
    elements without a key once more. So it undoes the doubling if every element has a key and no two
    have the same, and not otherwise. If an element cannot be keyed, the deduplication stops and
    leaves the array doubled. -/
theorem duplicate_deduplicated (splits : Path.split path = .ok names)
    (leads : Path.Leads d.doc names way (.array xs)) (hashable : keyField.isHashable = true) :
    let key := keyOf idField keyField
    ∃ dirty doubled, duplicate idField path d = .ok (dirty, 2 * xs.length) doubled ∧
      doubled.doc = d.doc.replaceAt way (.array (xs ++ xs)) ∧
      doubled.doc.at? way = some (.array (xs ++ xs)) ∧
      (∀ w, ¬ way <+: w → ¬ w <+: way → doubled.doc.at? w = d.doc.at? w) ∧
      (Keyed idField keyField xs → ∃ kept repeated plain both,
        removeDuplicates idField path keyField d = .ok (dirty, account key xs repeated) plain ∧
        plain.doc = d.doc.replaceAt way (.array kept) ∧ Deduplicated key xs kept repeated ∧
        removeDuplicates idField path keyField doubled =
          .ok (dirty, account key (xs ++ xs) (repeated ++ keyedOf key xs)) both ∧
        both.doc = d.doc.replaceAt way (.array (kept ++ unkeyedOf key xs)) ∧
        both.doc.at? way = some (.array (kept ++ unkeyedOf key xs)) ∧
        (both.doc = d.doc ↔ (∀ v ∈ xs, (key v).isSome = true) ∧ (xs.filterMap key).Nodup)) ∧
      (¬ Keyed idField keyField xs →
        removeDuplicates idField path keyField doubled = .error .endlessInteger doubled) := by
  intro key
  obtain ⟨dirty, marked⟩ := touch_of splits ∅
  obtain ⟨doubled, twice, copied⟩ := duplicate_ok idField splits marked leads
  have leads₂ : Path.Leads doubled.doc names way (.array (xs ++ xs)) := by
    rw [copied]
    exact leads.replaced _
  refine ⟨dirty, doubled, twice, copied, leads₂.at?, fun w notBelow notAbove => ?_,
    fun keyed => ?_, fun unkeyed => ?_⟩
  · rw [copied]
    exact Value.at?_replaceAt_apart notBelow notAbove _ _
  · have keyed₂ : Keyed idField keyField (xs ++ xs) :=
      keyed.subset fun v held => (List.mem_append.1 held).elim id id
    obtain ⟨plain, once, left⟩ := removeDuplicates_ok splits marked leads keyed
    obtain ⟨both, again, left₂⟩ := removeDuplicates_ok splits marked leads₂ keyed₂
    rw [Scan.repeated_doubled] at again
    rw [Scan.kept_doubled, copied, Value.replaceAt_replaceAt leads.at?] at left₂
    have held : both.doc.at? way =
        some (.array ((Scan.ofArray key xs).kept ++ unkeyedOf key xs)) := by
      rw [left₂]
      exact (leads.replaced _).at?
    refine ⟨(Scan.ofArray key xs).kept, (Scan.ofArray key xs).repeated, plain, both, once, left,
      Scan.deduplicated_ofArray key xs, again, left₂, held, ?_⟩
    rw [← Scan.restored_iff]
    constructor
    · intro same
      rw [same, leads.at?, Option.some.injEq, Value.array.injEq] at held
      exact held.symm
    · intro restored
      rw [left₂, restored]
      exact Value.replaceAt_self leads.at?
  · have unkeyed₂ : ¬ Keyed idField keyField (xs ++ xs) :=
      fun keyed => unkeyed (keyed.subset fun v held => List.mem_append_left _ held)
    exact (duplicates_stop splits leads₂ hashable unkeyed₂).1

/-- Of three elements two are of one kind, and one is of none; the one of none is there twice in the
    end. -/
theorem duplicate_deduplicated_by_kind :
    let xs : List Value :=
      [.object [("kind", .int 1)], .object [], .object [("kind", .text "1"), ("n", .int 2)]]
    let d : Draft := {
      doc := .object [("a", .object [("xs", .array xs), ("n", .int 3)])]
      supply := { origin := 0, last := 0, pace := 1 } }
    let way : Location := [.field "a", .field "xs"]
    let key := keyOf "_id" (.text "kind")
    Keyed "_id" (.text "kind") xs ∧
    ∃ dirty doubled, duplicate "_id" (.text "a.xs") d = .ok (dirty, 2 * xs.length) doubled ∧
    ∃ kept repeated both, Deduplicated key xs kept repeated ∧
      removeDuplicates "_id" (.text "a.xs") (.text "kind") doubled =
        .ok (dirty, account key (xs ++ xs) (repeated ++ keyedOf key xs)) both ∧
      both.doc = d.doc.replaceAt way (.array (kept ++ unkeyedOf key xs)) ∧
      (both.doc = d.doc ↔ (∀ v ∈ xs, (key v).isSome = true) ∧ (xs.filterMap key).Nodup) := by
  intro xs d way key
  have splits : Path.split (.text "a.xs") = .ok ["a", "xs"] := by rfl
  have leads : Path.Leads d.doc ["a", "xs"] way (.array xs) :=
    .cons rfl rfl (.cons rfl rfl (.nil _))
  have keyed : Keyed "_id" (.text "kind") xs := by
    intro v held
    simp only [xs, List.mem_cons, List.not_mem_nil, or_false] at held
    rcases held with rfl | rfl | rfl <;> rfl
  obtain ⟨dirty, doubled, twice, _, _, _, deduplicates, _⟩ :=
    @duplicate_deduplicated "_id" (.text "a.xs") (.text "kind") _ way xs d splits leads rfl
  obtain ⟨kept, repeated, _, both, _, _, exact, again, left, _, back⟩ := deduplicates keyed
  exact ⟨keyed, dirty, doubled, twice, kept, repeated, both, exact, again, left, back⟩

/-- An array with an integer that has too many digits to be shown is doubled, and stays so. And nothing
    that a list could name is a key of an object. -/
theorem doubled_not_deduplicated :
    let supply : Supply := { origin := 0, last := 0, pace := 1 }
    let long : Draft := {
      doc := .object [("xs", .array [.int Text.Digit.beyond])]
      supply := supply }
    let plain : Draft := {
      doc := .object [("xs", .array [.object [("_id", .int 1)]])]
      supply := supply }
    let keyField : Value := .array [.text "a"]
    (∃ dirty doubled, duplicate "_id" (.text "xs") long = .ok (dirty, 2) doubled ∧
      removeDuplicates "_id" (.text "xs") .null doubled = .error .endlessInteger doubled) ∧
    ∃ dirty doubled, duplicate "_id" (.text "xs") plain = .ok (dirty, 2) doubled ∧
      removeDuplicates "_id" (.text "xs") keyField doubled =
        .error (.unhashable keyField) doubled := by
  intro supply long plain keyField
  refine ⟨⟨_, _, rfl, ?_⟩, _, _, rfl, rfl⟩
  have splits : Path.split (.text "xs") = .ok ["xs"] := by rfl
  let twice : List Value := [.int Text.Digit.beyond, .int Text.Digit.beyond]
  have leads : Path.Leads (.object [("xs", .array twice)]) ["xs"] [.field "xs"] (.array twice) :=
    .cons rfl rfl (.nil _)
  refine (duplicates_stop splits leads rfl fun keyed => ?_).1
  have hidden : (Value.int Text.Digit.beyond).hasPlain = false := by decide +kernel
  have shown := (Identity.filing_ok.1 (keyed _ List.mem_cons_self)).1
  rw [hidden] at shown
  cases shown

end Edit

end DocRepair

import Mathlib.Data.Finset.Dedup
import Mathlib.Data.Finset.Card
import DocRepair.Proofs.Linked
import DocRepair.Proofs.Moved
import DocRepair.Proofs.Walks
/-!
# `DocRepair.Proofs.Deduplicated` — what a deduplication leaves of an array

A pass over an array puts each element into one of two lists: those that stay, and those whose key
was seen before. Which of the two it is depends on the array alone: an element stays if it has no
key, or if it is the first with its key. From this all else follows: what the report counts, and
that a second pass finds nothing to remove. A key is a text that shows a value, so an array with an
element that cannot be shown is not passed at all.

## Contents

* `Value.picked` — the items of an array at the indexes that pass a test;
* `Scan.Remains` — the elements that are to stay;
* `Scan.after_cons` — one step of a pass;
* `Scan.after_kept` / `after_repeated` — where a pass puts the elements;
* `Scan.length_after` / `after_unkeyed` / `mem_after_keys` / `nodup_after_keys` — what it counts;
* `Scan.after_again` — a pass over what another one has left;
* `Scan.Deduplicated` / `Scan.account` — an array without its duplicates, and the report on it;
* `Edit.keyOf` / `Edit.Keyed` — the keys of elements, and arrays whose elements can be keyed;
* `Path.Leads.replaced` — segments lead to a value that was put in the place of another;
* `Edit.removeDuplicates_exact` — both edits, and the removal once more;
* `Edit.removeDuplicates_stops` — two arrays that are not passed.
-/

namespace DocRepair

/-! ## Items at indexes -/

namespace Value

/-- The items of an array at the indexes that pass a test, in order. -/
def picked (xs : List Value) (test : Nat → Bool) : List Value :=
  ((List.range xs.length).filter test).filterMap (xs[·]?)

theorem picked_cons (v : Value) (xs : List Value) (test : Nat → Bool) :
    picked (v :: xs) test =
      if test 0 then v :: picked xs (test ∘ Nat.succ) else picked xs (test ∘ Nat.succ) := by
  have later : (((List.range xs.length).map Nat.succ).filter test).filterMap ((v :: xs)[·]?) =
      picked xs (test ∘ Nat.succ) := by
    rw [List.filter_map, List.filterMap_map]
    rfl
  rw [← later]
  unfold picked
  rw [List.length_cons, List.range_succ_eq_map, List.filter_cons]
  split
  · rfl
  · rfl

/-- Each item is picked by a test or by its opposite. -/
theorem picked_perm (xs : List Value) (test : Nat → Bool) :
    (picked xs test ++ picked xs fun i => !test i).Perm xs := by
  induction xs generalizing test with
  | nil => exact .nil
  | cons v rest ih =>
    have others := ih (test ∘ Nat.succ)
    rw [picked_cons, picked_cons]
    cases test 0 with
    | true => exact others.cons v
    | false => exact List.perm_middle.trans (others.cons v)

end Value

/-! ## A pass -/

namespace Scan

variable {key : Value → Option String} {seen : List String} {v : Value} {rest xs : List Value}
  {i : Nat} {k : String}

/-- The element at an index is to stay: it has no key, or none before it has the same. -/
def Remains (key : Value → Option String) (xs : List Value) (i : Nat) : Prop :=
  ∀ k, xs[i]?.bind key = some k → ∀ j < i, xs[j]?.bind key ≠ some k

/-- The keys of the elements in front of an index. -/
theorem mem_keys_before : k ∈ (xs.take i).filterMap key ↔ ∃ j < i, xs[j]?.bind key = some k := by
  rw [List.mem_filterMap]
  constructor
  · rintro ⟨v, among, keyed⟩
    obtain ⟨j, inside, rfl⟩ := List.mem_take_iff_getElem.1 among
    refine ⟨j, by omega, ?_⟩
    rw [List.getElem?_eq_getElem (by omega)]
    exact keyed
  · rintro ⟨j, before, keyed⟩
    obtain ⟨v, held, keyed⟩ := Option.bind_eq_some_iff.1 keyed
    obtain ⟨inside, rfl⟩ := List.getElem?_eq_some_iff.1 held
    exact ⟨xs[j], List.mem_take_iff_getElem.2 ⟨j, by omega, rfl⟩, keyed⟩

theorem stays_iff : stays key xs i = true ↔ Remains key xs i := by
  unfold stays Remains
  cases keyed : xs[i]?.bind key with
  | none => simp
  | some k =>
    have fresh : (!((xs.take i).filterMap key).contains k) = true ↔
        ¬ ∃ j < i, xs[j]?.bind key = some k := by
      rw [← mem_keys_before]
      simp
    dsimp only
    rw [fresh]
    constructor
    · rintro none k' same j before keyed
      cases same
      exact none ⟨j, before, keyed⟩
    · rintro remains ⟨j, before, keyed⟩
      exact remains k rfl j before keyed

instance : DecidablePred (Remains key xs) := fun _ => decidable_of_iff _ stays_iff

/-- Whether an element stays that comes behind others with the keys `seen`. -/
def staysBehind (key : Value → Option String) (seen : List String) (v : Value) : Bool :=
  match key v with
  | some k => !seen.contains k
  | none => true

/-- The keys seen when an element has been passed. -/
def seenBehind (key : Value → Option String) (seen : List String) (v : Value) : List String :=
  match key v with
  | some k => if seen.contains k then seen else seen ++ [k]
  | none => seen

theorem mem_seenBehind : k ∈ seenBehind key seen v ↔ k ∈ seen ∨ key v = some k := by
  unfold seenBehind
  cases key v with
  | none => simp
  | some l =>
    dsimp only
    split
    · rename_i old
      have held : l ∈ seen := by simpa using old
      rw [Option.some.injEq]
      exact ⟨.inl, fun h => h.elim id fun same => same ▸ held⟩
    · rw [List.mem_append, List.mem_singleton, Option.some.injEq]
      exact or_congr_right eq_comm

/-- Only a key that was seen before keeps an element from staying, so the pass goes on with the same
    keys then. -/
theorem seenBehind_repeated (repeats : staysBehind key seen v = false) :
    seenBehind key seen v = seen := by
  unfold staysBehind at repeats
  unfold seenBehind
  cases keyed : key v with
  | none => rfl
  | some k =>
    rw [keyed] at repeats
    have old : seen.contains k = true := by simpa using repeats
    exact if_pos old

theorem staysAfter_zero : staysAfter key seen (v :: rest) 0 = staysBehind key seen v := by
  have given : (v :: rest)[0]?.bind key = key v := rfl
  have noneBefore : seen ++ ((v :: rest).take 0).filterMap key = seen := List.append_nil _
  unfold staysAfter staysBehind
  rw [given]
  cases key v with
  | none => rfl
  | some k =>
    dsimp only
    rw [noneBefore]

/-- **One step of a pass**: the first element goes to those that stay or to those that repeat a key,
    and the others are passed with the keys seen then. -/
theorem after_cons (key : Value → Option String) (seen : List String) (v : Value)
    (rest : List Value) :
    after key seen (v :: rest) =
      let s := after key (seenBehind key seen v) rest
      if staysBehind key seen v then
        { s with kept := v :: s.kept, unkeyed := s.unkeyed + (key v).isNone.toNat }
      else { s with repeated := v :: s.repeated } := by
  unfold seenBehind staysBehind
  conv => lhs; unfold after
  cases key v with
  | none => rfl
  | some k =>
    by_cases old : seen.contains k = true
    · simp only [old, if_true, Bool.not_true, Bool.false_eq_true, if_false]
    · simp only [Bool.of_not_eq_true old, Bool.not_false, Bool.false_eq_true, if_false,
        if_true, Option.isNone_some, Bool.toNat_false, Nat.add_zero]

/-! ## Where the elements go -/

theorem staysAfter_comp :
    staysAfter key seen (v :: rest) ∘ Nat.succ = staysAfter key (seenBehind key seen v) rest :=
  funext fun i => staysAfter_succ (fun _ => mem_seenBehind) i

/-- **A pass keeps the elements that stay**, in order. -/
theorem after_kept (key : Value → Option String) (seen : List String) (xs : List Value) :
    (after key seen xs).kept = Value.picked xs (staysAfter key seen xs) := by
  induction xs generalizing seen with
  | nil => rfl
  | cons v rest ih =>
    rw [after_cons, Value.picked_cons, staysAfter_zero, staysAfter_comp, ← ih]
    split
    · rfl
    · rfl

/-- **A pass reports all others**, in order. -/
theorem after_repeated (key : Value → Option String) (seen : List String) (xs : List Value) :
    (after key seen xs).repeated = Value.picked xs fun i => !staysAfter key seen xs i := by
  induction xs generalizing seen with
  | nil => rfl
  | cons v rest ih =>
    have later : (fun i => !staysAfter key seen (v :: rest) i) ∘ Nat.succ =
        fun i => !staysAfter key (seenBehind key seen v) rest i := by
      rw [← staysAfter_comp]
      rfl
    rw [after_cons, Value.picked_cons, staysAfter_zero, later, ← ih]
    cases staysBehind key seen v <;> rfl

/-! ## What is counted -/

/-- An element that stays and has a key is the first with it. -/
theorem seenBehind_fresh (keyed : key v = some k) (remains : staysBehind key seen v = true) :
    seenBehind key seen v = seen ++ [k] := by
  unfold staysBehind at remains
  unfold seenBehind
  rw [keyed] at remains ⊢
  have fresh : ¬ seen.contains k = true := by simpa using remains
  exact if_neg fresh

/-- Each element has a new key, or none, or repeats one. -/
theorem length_after (key : Value → Option String) (seen : List String) (xs : List Value) :
    xs.length + seen.length = (after key seen xs).keys.length + (after key seen xs).unkeyed +
      (after key seen xs).repeated.length := by
  induction xs generalizing seen with
  | nil => exact Nat.zero_add _
  | cons v rest ih =>
    have later := ih (seenBehind key seen v)
    rw [after_cons, List.length_cons]
    cases stays : staysBehind key seen v with
    | false =>
      rw [seenBehind_repeated stays] at later ⊢
      simp only [Bool.false_eq_true, if_false, List.length_cons]
      omega
    | true =>
      simp only [if_true]
      cases keyed : key v with
      | none =>
        have same : seenBehind key seen v = seen := by
          unfold seenBehind
          rw [keyed]
        rw [same] at later ⊢
        simp only [Option.isNone_none, Bool.toNat_true]
        omega
      | some k =>
        rw [seenBehind_fresh keyed stays] at later ⊢
        rw [List.length_append, List.length_singleton] at later
        simp only [Option.isNone_some, Bool.toNat_false]
        omega

theorem after_unkeyed (key : Value → Option String) (seen : List String) (xs : List Value) :
    (after key seen xs).unkeyed = (xs.filter fun v => (key v).isNone).length := by
  induction xs generalizing seen with
  | nil => rfl
  | cons v rest ih =>
    have later := ih (seenBehind key seen v)
    rw [after_cons, List.filter_cons]
    cases stays : staysBehind key seen v with
    | false =>
      have keyed : (key v).isNone = false := by
        unfold staysBehind at stays
        cases kv : key v with
        | none => simp [kv] at stays
        | some k => rfl
      rw [keyed]
      exact later
    | true =>
      cases (key v).isNone with
      | true => exact congrArg Nat.succ later
      | false => exact later

theorem mem_after_keys :
    k ∈ (after key seen xs).keys ↔ k ∈ seen ∨ k ∈ xs.filterMap key := by
  induction xs generalizing seen with
  | nil => simp [after]
  | cons v rest ih =>
    have same : (after key seen (v :: rest)).keys = (after key (seenBehind key seen v) rest).keys := by
      rw [after_cons]
      cases staysBehind key seen v <;> rfl
    rw [same, ih, mem_seenBehind, or_assoc]
    refine or_congr_right ?_
    cases keyed : key v with
    | none => simp [List.filterMap_cons_none keyed]
    | some l => simp [List.filterMap_cons_some keyed, eq_comm]

theorem nodup_after_keys (distinct : seen.Nodup) : (after key seen xs).keys.Nodup := by
  induction xs generalizing seen with
  | nil => exact distinct
  | cons v rest ih =>
    have grown : (seenBehind key seen v).Nodup := by
      unfold seenBehind
      split
      · split
        · exact distinct
        · rename_i k _ fresh
          refine List.nodup_append.2 ⟨distinct, List.nodup_singleton k, ?_⟩
          rintro a held b single rfl
          rw [List.mem_singleton.1 single] at held
          exact fresh (by simpa using held)
      · exact distinct
    rw [after_cons]
    cases staysBehind key seen v <;> exact ih grown

/-! ## Once more -/

/-- **A pass over what another one has left** keeps all of it. -/
theorem after_again (key : Value → Option String) (seen : List String) (xs : List Value) :
    after key seen (after key seen xs).kept = { after key seen xs with repeated := [] } := by
  induction xs generalizing seen with
  | nil => rfl
  | cons v rest ih =>
    rw [after_cons key seen v rest]
    cases stays : staysBehind key seen v with
    | true =>
      simp only [if_true]
      rw [after_cons, stays, ih]
      rfl
    | false =>
      simp only [Bool.false_eq_true, if_false]
      rw [seenBehind_repeated stays, ih]

/-! ## Whole arrays -/

/-- An array without its duplicates, and the duplicates: the elements that are to stay, in order,
    and all others. -/
structure Deduplicated (key : Value → Option String) (xs kept repeated : List Value) : Prop where
  kept_eq : kept = Value.picked xs fun i => Remains key xs i
  repeated_eq : repeated = Value.picked xs fun i => ¬ Remains key xs i
  perm : (kept ++ repeated).Perm xs

/-- The report on an array in which some elements repeat a key. -/
def account (key : Value → Option String) (xs repeated : List Value) : Fields :=
  [("original_count", .int xs.length),
   ("unique_count", .int (xs.filterMap key).toFinset.card),
   ("duplicate_count", .int repeated.length),
   ("unkeyed_count", .int (xs.filter fun v => (key v).isNone).length),
   ("duplicates", .array repeated)]

theorem deduplicated_ofArray (key : Value → Option String) (xs : List Value) :
    Deduplicated key xs (ofArray key xs).kept (ofArray key xs).repeated := by
  have spec : staysAfter key [] xs = fun i => decide (Remains key xs i) := by
    funext i
    rw [Bool.eq_iff_iff, decide_eq_true_eq, ← stays_iff]
    rfl
  have kept : (ofArray key xs).kept = _ := after_kept key [] xs
  have repeated : (ofArray key xs).repeated = _ := after_repeated key [] xs
  refine ⟨?_, ?_, ?_⟩
  · rw [kept, spec]
  · rw [repeated, spec]
    simp only [decide_not]
  · rw [kept, repeated]
    exact Value.picked_perm xs _

theorem keys_ofArray (key : Value → Option String) (xs : List Value) :
    (ofArray key xs).keys.length = (xs.filterMap key).toFinset.card := by
  have distinct : (ofArray key xs).keys.Nodup := nodup_after_keys List.nodup_nil
  rw [← List.toFinset_card_of_nodup distinct]
  congr 1
  ext k
  rw [List.mem_toFinset, List.mem_toFinset]
  unfold ofArray
  rw [mem_after_keys]
  simp

theorem report_ofArray (key : Value → Option String) (xs : List Value) :
    (ofArray key xs).report xs.length = account key xs (ofArray key xs).repeated := by
  have unkeyed : (ofArray key xs).unkeyed = _ := after_unkeyed key [] xs
  unfold report account
  rw [keys_ofArray, unkeyed]

/-- The counts of a report add up. -/
theorem account_adds_up (key : Value → Option String) (xs : List Value) :
    xs.length = (xs.filterMap key).toFinset.card + (xs.filter fun v => (key v).isNone).length +
      (ofArray key xs).repeated.length := by
  have counted := length_after key [] xs
  rw [after_unkeyed] at counted
  rw [← keys_ofArray]
  exact counted

end Scan

/-! ## Keys -/

namespace Edit

section Keys

variable {idField : String} {keyField v : Value} {xs ys : List Value} {fault : Fault}

/-- The key of an element. One that cannot be keyed has none. -/
def keyOf (idField : String) (keyField v : Value) : Option String :=
  (elementKey idField keyField v).toOption.join

/-- Every element of an array can be keyed: it has a key, or it has none. -/
def Keyed (idField : String) (keyField : Value) (xs : List Value) : Prop :=
  ∀ v ∈ xs, elementKey idField keyField v = .ok (keyOf idField keyField v)

theorem keyOf_of_ok {k : Option String} (keyed : elementKey idField keyField v = .ok k) :
    keyOf idField keyField v = k := by
  unfold keyOf
  rw [keyed]
  rfl

theorem Keyed.subset (keyed : Keyed idField keyField xs) (among : ∀ v ∈ ys, v ∈ xs) :
    Keyed idField keyField ys :=
  fun v held => keyed v (among v held)

/-- If its name can be that of a field, a key cannot be made only where it cannot be shown. -/
theorem elementKey_error (hashable : keyField.isHashable = true)
    (stop : elementKey idField keyField v = .error fault) : fault = .endlessInteger := by
  unfold elementKey at stop
  split at stop
  · exact (Identity.filing_error.1 stop).2
  · exact (Identity.filing_error.1 stop).2
  · rw [if_pos hashable] at stop
    split at stop
    · exact (Identity.filing_error.1 stop).2
    · cases stop
  · cases stop

theorem elementKeys_ok (keyed : Keyed idField keyField xs) :
    elementKeys idField keyField xs = .ok (keyOf idField keyField) := by
  have all : xs.mapM (elementKey idField keyField) = .ok (xs.map (keyOf idField keyField)) := by
    induction xs with
    | nil => rfl
    | cons v rest ih =>
      rw [List.mapM_cons, keyed v List.mem_cons_self,
        ih (keyed.subset fun w held => List.mem_cons_of_mem v held)]
      rfl
  unfold elementKeys
  rw [all]
  rfl

/-- An array with an element that cannot be keyed is not passed. -/
theorem elementKeys_error (hashable : keyField.isHashable = true)
    (unkeyed : ¬ Keyed idField keyField xs) :
    elementKeys idField keyField xs = .error .endlessInteger := by
  have stops : xs.mapM (elementKey idField keyField) = .error .endlessInteger := by
    induction xs with
    | nil => exact absurd (fun v held => nomatch held) unkeyed
    | cons v rest ih =>
      rw [List.mapM_cons]
      cases first : elementKey idField keyField v with
      | error fault =>
        rw [elementKey_error hashable first]
        rfl
      | ok k =>
        have others : ¬ Keyed idField keyField rest := by
          refine fun keyed => unkeyed fun w held => ?_
          rcases List.mem_cons.1 held with rfl | held
          · rw [keyOf_of_ok first, first]
          · exact keyed w held
        rw [ih others]
        rfl
  unfold elementKeys
  rw [stops]
  rfl

end Keys

end Edit

/-! ## The edits -/

/-- Segments lead to a value that was put in the place of what they led to. -/
theorem Path.Leads.replaced {c v : Value} {names : List String} {way : Location}
    (leads : Leads c names way v) (new : Value) : Leads (c.replaceAt way new) names way new := by
  induction leads with
  | nil v => exact .nil new
  | cons named held below ih =>
    rw [Value.replaceAt_cons held]
    exact .cons (named.setChild _) (Value.child?_setChild_self held _) ih

namespace Edit

open DocRepair.Scan (Deduplicated account)

variable {idField : String} {path keyField : Value} {names : List String} {way : Location}
  {xs : List Value} {d : Draft}

/-- The value that a path leads to, and its place. -/
theorem target_of_leads (idField : String) {v : Value} (splits : Path.split path = .ok names)
    (leads : Path.Leads d.doc names way v) :
    ∃ p : Place, p.way = way ∧ target? idField path d = .ok (some (p, v)) d := by
  have nonempty : names ≠ [] := (Path.split_ok splits).1
  obtain ⟨p, found, same, held⟩ := Path.place_of_leads leads nonempty idField
  have resolved : Path.resolve idField d.doc path .null = .ok (some p) := by
    unfold Path.resolve
    rw [splits]
    exact found
  refine ⟨p, same, look_ok.2 ⟨?_, rfl⟩⟩
  rw [resolved]
  show Except.ok ((p.value? d.doc).map (p, ·)) = _
  rw [held]
  rfl

/-- The array that a path leads to, and its place. -/
theorem array_of_leads (idField : String) (splits : Path.split path = .ok names)
    (leads : Path.Leads d.doc names way (.array xs)) :
    ∃ p : Place, p.way = way ∧ array idField path d = .ok (p, xs) d := by
  obtain ⟨p, same, target⟩ := target_of_leads idField splits leads
  refine ⟨p, same, ?_⟩
  unfold array
  rw [run_bind_of_ok target]
  rfl

theorem findDuplicates_ok (splits : Path.split path = .ok names)
    (leads : Path.Leads d.doc names way (.array xs)) (keyed : Keyed idField keyField xs) :
    findDuplicates idField path keyField d =
      .ok (account (keyOf idField keyField) xs
        (Scan.ofArray (keyOf idField keyField) xs).repeated) d := by
  obtain ⟨p, _, found⟩ := array_of_leads idField splits leads
  unfold findDuplicates
  rw [run_bind_of_ok found]
  dsimp only
  rw [run_bind_of_ok (lift_ok.2 ⟨elementKeys_ok keyed, rfl⟩), Scan.report_ofArray]
  rfl

theorem removeDuplicates_ok {dirty : DirtySet} (splits : Path.split path = .ok names)
    (marked : (∅ : DirtySet).touch path = .ok dirty)
    (leads : Path.Leads d.doc names way (.array xs)) (keyed : Keyed idField keyField xs) :
    let key := keyOf idField keyField
    ∃ d', removeDuplicates idField path keyField d =
        .ok (dirty, account key xs (Scan.ofArray key xs).repeated) d' ∧
      d'.doc = d.doc.replaceAt way (.array (Scan.ofArray key xs).kept) := by
  intro key
  obtain ⟨p, rfl, found⟩ := array_of_leads idField splits leads
  have touches (e : Draft) : touched path e = .ok dirty e := lift_ok.2 ⟨marked, rfl⟩
  obtain ⟨d', given, left⟩ : ∃ d', keepItems p (Scan.ofArray key xs).kept (Scan.stays key xs) d =
      .ok () d' ∧ d'.doc = d.doc.replaceAt p.way (.array (Scan.ofArray key xs).kept) :=
    ⟨_, rfl, rfl⟩
  refine ⟨d', ?_, left⟩
  unfold removeDuplicates
  rw [run_bind_of_ok found]
  dsimp only
  rw [run_bind_of_ok (lift_ok.2 ⟨elementKeys_ok keyed, rfl⟩), run_bind_of_ok given,
    run_bind_of_ok (touches d'), Scan.report_ofArray]
  rfl

/-- Where an element cannot be keyed, both edits stop before they change anything. -/
theorem duplicates_stop (splits : Path.split path = .ok names)
    (leads : Path.Leads d.doc names way (.array xs)) (hashable : keyField.isHashable = true)
    (unkeyed : ¬ Keyed idField keyField xs) :
    removeDuplicates idField path keyField d = .error .endlessInteger d ∧
      findDuplicates idField path keyField d = .error .endlessInteger d := by
  obtain ⟨p, rfl, found⟩ := array_of_leads idField splits leads
  have stops := elementKeys_error hashable unkeyed
  refine ⟨?_, ?_⟩
  · unfold removeDuplicates
    rw [run_bind_of_ok found]
    dsimp only
    rw [stops]
    rfl
  · unfold findDuplicates
    rw [run_bind_of_ok found]
    dsimp only
    rw [stops]
    rfl

/-- **A deduplication is exact.** At an array whose elements can be keyed it leaves the elements that
    have no key, or are the first with it; it reports the others, and how many there are of each kind.
    All else in the document stays. The report alone is the same, and a second deduplication finds
    nothing. If an element cannot be keyed, nothing changes. -/
theorem removeDuplicates_exact (splits : Path.split path = .ok names)
    (leads : Path.Leads d.doc names way (.array xs)) (hashable : keyField.isHashable = true) :
    let key := keyOf idField keyField
    (Keyed idField keyField xs → ∃ kept repeated dirty d' d'',
      Deduplicated key xs kept repeated ∧
      xs.length = (xs.filterMap key).toFinset.card + (xs.filter fun v => (key v).isNone).length +
        repeated.length ∧
      removeDuplicates idField path keyField d = .ok (dirty, account key xs repeated) d' ∧
      d'.doc = d.doc.replaceAt way (.array kept) ∧ d'.doc.at? way = some (.array kept) ∧
      (∀ w, ¬ way <+: w → ¬ w <+: way → d'.doc.at? w = d.doc.at? w) ∧
      findDuplicates idField path keyField d = .ok (account key xs repeated) d ∧
      removeDuplicates idField path keyField d' = .ok (dirty, account key kept []) d'' ∧
      d''.doc = d'.doc) ∧
    (¬ Keyed idField keyField xs →
      removeDuplicates idField path keyField d = .error .endlessInteger d ∧
        findDuplicates idField path keyField d = .error .endlessInteger d) := by
  intro key
  refine ⟨fun keyed => ?_, duplicates_stop splits leads hashable⟩
  obtain ⟨dirty, marked⟩ := touch_of splits ∅
  obtain ⟨d', first, left⟩ := removeDuplicates_ok splits marked leads keyed
  have leads' : Path.Leads d'.doc names way (.array (Scan.ofArray key xs).kept) := by
    rw [left]
    exact leads.replaced _
  have keyed' : Keyed idField keyField (Scan.ofArray key xs).kept := by
    have shared := (Scan.deduplicated_ofArray key xs).perm
    exact keyed.subset fun v held => shared.mem_iff.1 (List.mem_append_left _ held)
  obtain ⟨d'', second, left'⟩ := removeDuplicates_ok splits marked leads' keyed'
  have once : Scan.ofArray key (Scan.ofArray key xs).kept =
      { Scan.ofArray key xs with repeated := [] } := Scan.after_again key [] xs
  rw [once] at second left'
  refine ⟨(Scan.ofArray key xs).kept, (Scan.ofArray key xs).repeated, dirty, d', d'',
    Scan.deduplicated_ofArray key xs, Scan.account_adds_up key xs, first, left, leads'.at?, ?_,
    findDuplicates_ok splits leads keyed, second, ?_⟩
  · intro w notBelow notAbove
    rw [left]
    exact Value.at?_replaceAt_apart notBelow notAbove _ _
  · rw [left']
    exact Value.replaceAt_self leads'.at?

/-- Two objects have one identifier, as a number and as its text; the second goes. An element
    without an identifier stays. -/
theorem removeDuplicates_exact_for_identifiers :
    let xs : List Value := [.object [("_id", .int 1)], .object [("_id", .text "1")], .null]
    let d : Draft := {
      doc := .object [("a", .object [("xs", .array xs)])]
      supply := { origin := 0, last := 0, pace := 1 } }
    let way : Location := [.field "a", .field "xs"]
    let key := keyOf "_id" .null
    Keyed "_id" .null xs ∧ ∃ kept repeated dirty d' d'',
      Deduplicated key xs kept repeated ∧
      xs.length = (xs.filterMap key).toFinset.card + (xs.filter fun v => (key v).isNone).length +
        repeated.length ∧
      removeDuplicates "_id" (.text "a.xs") .null d = .ok (dirty, account key xs repeated) d' ∧
      d'.doc = d.doc.replaceAt way (.array kept) ∧ d'.doc.at? way = some (.array kept) ∧
      (∀ w, ¬ way <+: w → ¬ w <+: way → d'.doc.at? w = d.doc.at? w) ∧
      findDuplicates "_id" (.text "a.xs") .null d = .ok (account key xs repeated) d ∧
      removeDuplicates "_id" (.text "a.xs") .null d' = .ok (dirty, account key kept []) d'' ∧
      d''.doc = d'.doc := by
  intro xs d way key
  have splits : Path.split (.text "a.xs") = .ok ["a", "xs"] := by rfl
  have leads : Path.Leads d.doc ["a", "xs"] way (.array xs) :=
    .cons rfl rfl (.cons rfl rfl (.nil _))
  have keyed : Keyed "_id" .null xs := by
    intro v held
    simp only [xs, List.mem_cons, List.not_mem_nil, or_false] at held
    rcases held with rfl | rfl | rfl <;> rfl
  exact ⟨keyed, (removeDuplicates_exact splits leads rfl).1 keyed⟩

/-- Two arrays that are not passed: an integer in the one has too many digits to be shown, and for the
    objects in the other a list is given as the name of the field that has their keys. -/
theorem removeDuplicates_stops :
    let supply : Supply := { origin := 0, last := 0, pace := 1 }
    let long : Draft := {
      doc := .object [("xs", .array [.int Text.Digit.beyond])]
      supply := supply }
    let plain : Draft := {
      doc := .object [("xs", .array [.object [("_id", .int 1)]])]
      supply := supply }
    let keyField : Value := .array [.text "a"]
    removeDuplicates "_id" (.text "xs") .null long = .error .endlessInteger long ∧
      removeDuplicates "_id" (.text "xs") keyField plain =
        .error (.unhashable keyField) plain := by
  intro supply long plain keyField
  refine ⟨?_, rfl⟩
  have splits : Path.split (.text "xs") = .ok ["xs"] := by rfl
  have leads : Path.Leads long.doc ["xs"] [.field "xs"] (.array [.int Text.Digit.beyond]) :=
    .cons rfl rfl (.nil _)
  have hidden : (Value.int Text.Digit.beyond).hasPlain = false := by decide +kernel
  have unkeyed : ¬ Keyed "_id" .null [.int Text.Digit.beyond] := by
    intro keyed
    have shown := (Identity.filing_ok.1 (keyed _ List.mem_cons_self)).1
    rw [hidden] at shown
    cases shown
  exact (duplicates_stop splits leads rfl unkeyed).1

end Edit

end DocRepair

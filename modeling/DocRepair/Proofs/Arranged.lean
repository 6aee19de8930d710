import Mathlib.Data.List.Nodup
import Mathlib.Data.Prod.Lex
import Mathlib.Data.String.Basic
import DocRepair.Proofs.Described
import DocRepair.Proofs.Literals
import DocRepair.Proofs.OneByOne
import DocRepair.Proofs.References
import DocRepair.Proofs.Truth
/-!
# `DocRepair.Proofs.Arranged` — the different values at a path

The values that are found at a path are reported once each, and in an order of their own, so that it
should not matter in which order the documents are stored. But values are told apart by their
literals, and arranged by their kinds and texts. Of two values with one literal the first is
reported, and two values of one kind and text stay in the order in which they were found. So the
order of the documents plays no part exactly if neither happens: no two different values that are found
have a literal in common, or kind and text.

## Contents

* `eq_of_both_orders` / `exists_perm_front` — two items of a list, and their order;
* `Gateway.rank` — the place of a value among those reported;
* `Gateway.arranged` — values as they are reported, one of each literal;
* `Gateway.Separated` — different values differ in literal and rank, as simple ones do;
* `Separated.arranged_perm` / `Gateway.eq_of_alike` — when the order of the values plays no part;
* `Gateway.uniqueValues_ok` — what is reported of a collection;
* `Gateway.uniqueValues_arranged` — when the order of its documents plays no part.
-/

namespace DocRepair

/-! ## Two items of a list -/

section TwoItems

variable {α : Type} {l : List α} {a b : α}

/-- In a list without repetition, one of two items comes first. -/
theorem eq_of_both_orders (nodup : l.Nodup)
    (one : [a, b].Sublist l) (other : [b, a].Sublist l) : a = b := by
  obtain ⟨front, back, rfl, first, second⟩ := List.cons_sublist_iff.1 one
  have apart := List.disjoint_of_nodup_append nodup
  obtain ⟨left, right, split, inFront, inBack⟩ := List.sublist_append_iff.1 other
  -- `a` is only in the front part and `b` only in the back part, so `[b, a]` does not fit in.
  cases left with
  | nil =>
    have both : [b, a].Sublist back := by
      rw [split]
      exact inBack
    exact (apart first (both.subset (by simp))).elim
  | cons c rest =>
    obtain rfl : b = c := (List.cons.inj split).1
    exact (apart (inFront.subset List.mem_cons_self) (second.subset List.mem_cons_self)).elim

/-- Any two items can be brought to the front. -/
theorem exists_perm_front (first : a ∈ l) (second : b ∈ l) (apart : a ≠ b) :
    ∃ rest, (a :: b :: rest).Perm l := by
  obtain ⟨front, back, rfl⟩ := List.append_of_mem first
  have other : b ∈ front ++ back := by simpa [apart.symm] using second
  obtain ⟨left, right, split⟩ := List.append_of_mem other
  have behind : (b :: (left ++ right)).Perm (front ++ back) := split ▸ List.perm_middle.symm
  exact ⟨left ++ right, (behind.cons a).trans List.perm_middle.symm⟩

end TwoItems

open Access

namespace Collection

variable {filter : Value} {docs chosen : List Fields}

/-- A filter selects from documents if it can be evaluated for all of them. -/
theorem selectFrom_ok : selectFrom filter docs = .ok chosen ↔
    (∀ doc ∈ docs, ∃ b, Filter.matches? (.object doc) filter = .ok b) ∧
      chosen = docs.filter (Filter.holds filter) := by
  constructor
  · intro run
    refine ⟨?_, selectFrom_eq run⟩
    induction docs generalizing chosen with
    | nil => exact List.forall_mem_nil _
    | cons doc rest ih =>
      obtain ⟨matched, verdict, run⟩ := bind_eq_ok.1 run
      obtain ⟨others, more, run⟩ := bind_eq_ok.1 run
      exact List.forall_mem_cons.2 ⟨⟨matched, verdict⟩, ih more⟩
  · rintro ⟨answers, rfl⟩
    exact selectFrom_verdict fun doc listed => Filter.matches_holds (answers doc listed)

end Collection

namespace Gateway

variable {v w : Value} {vs ws : List Value}

/-! ## The order of values -/

/-- The place of a value among those reported: null before all others, then the name of its kind, then
    its text. -/
def rank (v : Value) : Bool ×ₗ String ×ₗ String :=
  toLex (!v.isNull, toLex (v.kindName, v.plain))

/-- Values are reported in the order of their ranks. -/
theorem ordered_iff : ordered v w = true ↔ rank v ≤ rank w := by
  unfold ordered rank
  rw [Prod.Lex.toLex_le_toLex, Prod.Lex.toLex_le_toLex]
  dsimp only
  cases v.isNull <;> cases w.isNull <;> by_cases kind : v.kindName = w.kindName <;> simp [kind]

theorem ordered_trans (u v w : Value) (first : ordered u v = true) (second : ordered v w = true) :
    ordered u w = true :=
  ordered_iff.2 (le_trans (ordered_iff.1 first) (ordered_iff.1 second))

theorem ordered_total (v w : Value) : (ordered v w || ordered w v) = true := by
  rw [Bool.or_eq_true, ordered_iff, ordered_iff]
  exact le_total _ _

/-! ## Values as they are reported -/

/-- Values are told apart by their literals. -/
theorem distinct_eq (seen : List String) (vs : List Value) :
    distinct seen vs = firsts Value.literal seen vs := by
  induction vs generalizing seen with
  | nil => rfl
  | cons v rest ih => rw [distinct, firsts, ih, ih]

/-- Values as they are reported: one of each literal, in the order of their ranks. -/
def arranged (vs : List Value) : List Value :=
  (distinct [] vs).mergeSort ordered

theorem arranged_ascending (vs : List Value) : (arranged vs).Pairwise fun v w => rank v ≤ rank w :=
  (List.pairwise_mergeSort ordered_trans ordered_total _).imp ordered_iff.1

theorem arranged_perm_firsts (vs : List Value) : (arranged vs).Perm (firsts Value.literal [] vs) :=
  distinct_eq [] vs ▸ List.mergeSort_perm _ _

theorem mem_arranged : v ∈ arranged vs ↔ v ∈ firsts Value.literal [] vs :=
  (arranged_perm_firsts vs).mem_iff

theorem literals_arranged (vs : List Value) : ((arranged vs).map Value.literal).Nodup :=
  ((arranged_perm_firsts vs).map _).nodup_iff.2 (labels_firsts [] vs)

theorem arranged_nodup (vs : List Value) : (arranged vs).Nodup :=
  List.Nodup.of_map _ (literals_arranged vs)

/-- What is reported was found. -/
theorem arranged_subset (vs : List Value) : arranged vs ⊆ vs := fun _ among =>
  (mem_of_mem_firsts (mem_arranged.1 among)).1

/-- Every literal that was found is reported. -/
theorem exists_arranged (among : v ∈ vs) : ∃ w ∈ arranged vs, w.literal = v.literal := by
  have fresh : v.literal ∉ [] := List.not_mem_nil
  obtain ⟨w, kept, same⟩ := exists_firsts among fresh
  exact ⟨w, mem_arranged.2 kept, same⟩

/-- Two values of one literal are not both reported. -/
theorem eq_of_arranged (one : v ∈ arranged vs) (other : w ∈ arranged vs)
    (same : v.literal = w.literal) : v = w :=
  List.inj_on_of_nodup_map (literals_arranged vs) one other same

/-- Different values differ in their literals as well as in their ranks. -/
def Separated (vs : List Value) : Prop :=
  ∀ v ∈ vs, ∀ w ∈ vs, v.literal = w.literal ∨ rank v = rank w → v = w

theorem Separated.perm (separated : Separated vs) (same : ws.Perm vs) : Separated ws :=
  fun v left w right => separated v (same.subset left) w (same.subset right)

/-- Separated values are all reported. -/
theorem Separated.mem_arranged (separated : Separated vs) : v ∈ arranged vs ↔ v ∈ vs := by
  refine ⟨fun among => arranged_subset vs among, fun among => ?_⟩
  obtain ⟨w, kept, same⟩ := exists_arranged among
  rw [← separated w (arranged_subset vs kept) v among (.inl same)]
  exact kept

/-- Separated values are reported in strictly ascending order. -/
theorem Separated.strictly (separated : Separated vs) :
    (arranged vs).Pairwise fun v w => rank v < rank w := by
  refine ((arranged_ascending vs).and (arranged_nodup vs)).imp_of_mem fun left right both => ?_
  refine lt_of_le_of_ne both.1 fun same => both.2 ?_
  exact separated _ (arranged_subset vs left) _ (arranged_subset vs right) (.inr same)

/-- **The order of separated values plays no part.** -/
theorem Separated.arranged_perm (separated : Separated vs) (same : ws.Perm vs) :
    arranged ws = arranged vs := by
  have moved := separated.perm same
  -- Both lists hold what was found, and strictly ascending lists of the same values are the same.
  have alike : (arranged ws).Perm (arranged vs) := by
    refine (List.perm_ext_iff_of_nodup (arranged_nodup ws) (arranged_nodup vs)).2 fun v => ?_
    rw [moved.mem_arranged, separated.mem_arranged, same.mem_iff]
  exact alike.eq_of_pairwise (fun v w _ _ left right => absurd left (lt_asymm right))
    moved.strictly separated.strictly

/-- Simple values are separated. -/
theorem separated_of_simple (simple : ∀ v ∈ vs, v.Simple) : Separated vs := by
  intro v left w right same
  rcases same with literal | ranks
  · exact (simple v left).eq_of_literal (simple w right) literal
  · unfold rank at ranks
    obtain ⟨_, behind⟩ := Prod.mk.inj (toLex.injective ranks)
    obtain ⟨kinds, texts⟩ := Prod.mk.inj (toLex.injective behind)
    exact (simple v left).eq_of_plain kinds texts

/-- Of the first two values that are found, both of one rank or of one literal, the first one is
    reported, and the second one behind it or not at all. -/
theorem arranged_front (same : v.literal = w.literal ∨ rank v = rank w) (rest : List Value) :
    v ∈ arranged (v :: w :: rest) ∧
      (v.literal = w.literal ∨ [v, w].Sublist (arranged (v :: w :: rest))) := by
  refine ⟨mem_arranged.2 List.mem_cons_self, ?_⟩
  by_cases literal : v.literal = w.literal
  · exact .inl literal
  · have both : distinct [] (v :: w :: rest) =
        v :: w :: distinct [w.literal, v.literal] rest := by
      rw [distinct, if_neg (by simp), distinct, if_neg (by simpa using Ne.symm literal)]
    -- Sorting is stable: a pair that is in order already stays in this order.
    have ranked : rank v ≤ rank w := (same.resolve_left literal).le
    have pair : [v, w].Pairwise fun v w => ordered v w = true := by
      simpa using ordered_iff.2 ranked
    refine .inr (List.sublist_mergeSort ordered_trans ordered_total pair ?_)
    rw [both]
    exact ((List.nil_sublist _).cons_cons w).cons_cons v

/-- **Two values that are reported alike in either order** are one, if they have a literal or a rank in
    common. -/
theorem eq_of_alike {more rest : List Value} (same : v.literal = w.literal ∨ rank v = rank w)
    (alike : arranged (v :: w :: rest) = arranged (w :: v :: more)) : v = w := by
  obtain ⟨front, ahead⟩ := arranged_front same rest
  obtain ⟨back, behind⟩ := arranged_front (same.imp Eq.symm Eq.symm) more
  rw [← alike] at back behind
  by_cases literal : v.literal = w.literal
  · exact eq_of_arranged front back literal
  · exact eq_of_both_orders (arranged_nodup _) (ahead.resolve_left literal)
      (behind.resolve_left (Ne.symm literal))

/-! ## The values of a collection -/

section Collections

open Collection

variable {c d : Collection} {query selection : Value} {docs : List Fields}
  {found : List Value} {idField : String} {o : Outcome}

/-- A query lends the documents that it selects if it can be evaluated for all of them. -/
theorem targets_ok {handles : List Handle} : targets true query c = .ok handles ↔
    query.isNull = false ∧
      (∀ doc ∈ c.all, ∃ b, Filter.matches? (.object doc) query = .ok b) ∧
      handles = (c.selected query).map (loan c.idField) := by
  constructor
  · intro run
    have asked : query.isNull = false := by
      cases query with
      | null => cases run
      | _ => rfl
    have lent : c.find query = .ok handles := by
      cases query with
      | null => cases asked
      | _ => exact run
    obtain ⟨chosen, selects, _⟩ := bind_eq_ok.1 lent
    exact ⟨asked, (selectFrom_ok.1 selects).1, targets_all run⟩
  · rintro ⟨asked, answers, rfl⟩
    have lent : c.find query = .ok ((c.selected query).map (loan c.idField)) := by
      rw [find_eq, selectFrom_ok.2 ⟨answers, rfl⟩]
      rfl
    cases query with
    | null => cases asked
    | _ => exact lent

/-- The value at a path of a document, null if there is none. -/
def valueIn (selection : Value) (doc : Fields) : Value :=
  match Path.read? (.object doc) selection with
  | .ok read => read.getD .null
  | .error _ => .null

/-- The value at a path of a document, or null, is found and can be shown. -/
def Shows (selection : Value) (doc : Fields) : Prop :=
  ∃ read, Path.read? (.object doc) selection = .ok read ∧ (read.getD .null).hasLiteral = true

/-- The values at a path of documents are read if that is possible for all of them, and all of these
    values can be shown. -/
theorem reads_ok : (docs.map (loan idField)).mapM (shownValue · selection) = .ok found ↔
    (∀ doc ∈ docs, Shows selection doc) ∧ found = docs.map (valueIn selection) := by
  have one (doc : Fields) (v : Value) : shownValue (loan idField doc) selection = .ok v ↔
      Shows selection doc ∧ valueIn selection doc = v := by
    unfold Shows valueIn
    constructor
    · intro run
      obtain ⟨own, found, run⟩ := bind_eq_ok.1 run
      obtain ⟨read, reads, found⟩ := bind_eq_ok.1 found
      obtain ⟨_, shown, run⟩ := bind_eq_ok.1 run
      have reads : Path.read? (.object doc) selection = .ok read := reads
      cases found
      cases run
      rw [reads]
      exact ⟨⟨read, rfl, (Value.literalText_ok.1 shown).1⟩, rfl⟩
    · rintro ⟨⟨read, reads, shown⟩, rfl⟩
      rw [reads]
      exact bind_eq_ok.2 ⟨_, bind_eq_ok.2 ⟨read, reads, rfl⟩,
        bind_eq_ok.2 ⟨_, Value.literalText_ok.2 ⟨shown, rfl⟩, rfl⟩⟩
  rw [mapM_eq_ok, List.forall₂_map_left_iff]
  simp only [one]
  rw [List.forall₂_and_left, ← List.forall₂_map_left_iff, List.forall₂_eq_eq_eq, eq_comm]

/-- The values at a path of the documents that a query selects, in the order of the collection. -/
def valuesAt (c : Collection) (query selection : Value) : List Value :=
  (c.selected query).map (valueIn selection)

/-- The values at a path are reported of a collection: a path and a query are given, the query can be
    evaluated for all documents, and the path be followed in those that it selects, to values that
    can be shown. -/
structure Readable (c : Collection) (query selection : Value) : Prop where
  given : selection.truthy = true
  asked : query.isNull = false
  answers : ∀ doc ∈ c.all, ∃ b, Filter.matches? (.object doc) query = .ok b
  shows : ∀ doc ∈ c.selected query, Shows selection doc

/-- **What is reported of a collection.** -/
theorem uniqueValues_ok : uniqueValues query selection c = .ok o ↔
    Readable c query selection ∧
      o = { report := some [("values", .array (arranged (valuesAt c query selection)))] } := by
  unfold uniqueValues
  constructor
  · intro run
    split at run
    · cases run
    · rename_i given
      obtain ⟨handles, selects, run⟩ := bind_eq_ok.1 run
      obtain ⟨found, reads, run⟩ := bind_eq_ok.1 run
      cases run
      obtain ⟨asked, answers, rfl⟩ := targets_ok.1 selects
      obtain ⟨readable, rfl⟩ := reads_ok.1 reads
      exact ⟨⟨by simpa using given, asked, answers, readable⟩, rfl⟩
  · rintro ⟨⟨given, asked, answers, shows⟩, rfl⟩
    rw [if_neg (by simp [given])]
    exact bind_eq_ok.2 ⟨_, targets_ok.2 ⟨asked, answers, rfl⟩,
      bind_eq_ok.2 ⟨_, reads_ok.2 ⟨shows, rfl⟩, rfl⟩⟩

/-- In another order of the documents, the same values are found in another order. -/
theorem Readable.perm (readable : Readable c query selection) (same : d.docs.Perm c.docs) :
    Readable d query selection ∧
      (valuesAt d query selection).Perm (valuesAt c query selection) := by
  have all : d.all.Perm c.all := same.map _
  have selected : (d.selected query).Perm (c.selected query) := all.filter _
  exact ⟨⟨readable.given, readable.asked, fun doc listed => readable.answers doc (all.subset listed),
    fun doc listed => readable.shows doc (selected.subset listed)⟩, selected.map _⟩

/-- The documents with any two values can be stored in front of all others. -/
theorem exists_front (first : v ∈ valuesAt c query selection) (second : w ∈ valuesAt c query selection)
    (apart : v ≠ w) : ∃ docs rest, docs.Perm c.docs ∧
      valuesAt { c with docs := docs } query selection = v :: w :: rest := by
  have stored {u : Value} (among : u ∈ valuesAt c query selection) :
      ∃ entry ∈ c.docs, Filter.holds query entry.2 = true ∧ valueIn selection entry.2 = u := by
    obtain ⟨doc, chosen, rfl⟩ := List.mem_map.1 among
    obtain ⟨listed, holds⟩ := List.mem_filter.1 chosen
    obtain ⟨entry, held, rfl⟩ := List.mem_map.1 listed
    exact ⟨entry, held, holds, rfl⟩
  obtain ⟨one, held, selects, rfl⟩ := stored first
  obtain ⟨other, held', selects', rfl⟩ := stored second
  obtain ⟨rest, same⟩ := exists_perm_front held held' fun equal => apart (equal ▸ rfl)
  refine ⟨_, ((rest.map (·.2)).filter (Filter.holds query)).map (valueIn selection), same, ?_⟩
  unfold valuesAt selected all
  rw [List.map_cons, List.map_cons, List.filter_cons_of_pos selects,
    List.filter_cons_of_pos selects', List.map_cons, List.map_cons]

/-- What is reported of values that are found: nothing else, one of each literal, and in ascending
    order. -/
structure Lists (found values : List Value) : Prop where
  subset : values ⊆ found
  once : (values.map Value.literal).Nodup
  all : ∀ v ∈ found, ∃ w ∈ values, w.literal = v.literal
  ascending : values.Pairwise fun v w => rank v ≤ rank w

theorem lists_arranged (vs : List Value) : Lists vs (arranged vs) :=
  ⟨arranged_subset vs, literals_arranged vs, fun _ => exists_arranged, arranged_ascending vs⟩

/-- **The different values at a path.** In whatever order the documents are stored, values are reported,
    one of each literal and in ascending order. They are the same values in the same order for each
    order of the documents exactly if those that are found are separated, as simple values are; and
    then each value is reported, in strictly ascending order. -/
theorem uniqueValues_arranged (run : uniqueValues query selection c = .ok o) :
    (∃ values, o = { report := some [("values", .array values)] } ∧
      Lists (valuesAt c query selection) values ∧
      (Separated (valuesAt c query selection) →
        (∀ v, v ∈ values ↔ v ∈ valuesAt c query selection) ∧
          values.Pairwise fun v w => rank v < rank w)) ∧
    (∀ d : Collection, d.docs.Perm c.docs → ∃ other, uniqueValues query selection d = .ok other) ∧
    ((∀ d : Collection, d.docs.Perm c.docs → uniqueValues query selection d = .ok o) ↔
      Separated (valuesAt c query selection)) ∧
    ((∀ v ∈ valuesAt c query selection, v.Simple) → Separated (valuesAt c query selection)) := by
  obtain ⟨readable, rfl⟩ := uniqueValues_ok.1 run
  refine ⟨⟨_, rfl, lists_arranged _, fun separated => ?_⟩, fun d same => ?_, ⟨fun alike => ?_, ?_⟩,
    separated_of_simple⟩
  · exact ⟨fun v => separated.mem_arranged, separated.strictly⟩
  · exact ⟨_, uniqueValues_ok.2 ⟨(readable.perm same).1, rfl⟩⟩
  · -- Two values that are not told apart are found first, in either order.
    intro v first w second same
    by_contra apart
    have reported {docs : List (Option String × Fields)} (moved : docs.Perm c.docs) :
        arranged (valuesAt { c with docs := docs } query selection) =
          arranged (valuesAt c query selection) := by
      have report := (uniqueValues_ok.1 (alike { c with docs := docs } moved)).2
      simpa using report.symm
    obtain ⟨docs, rest, moved, front⟩ := exists_front first second apart
    obtain ⟨docs', rest', moved', front'⟩ := exists_front second first (Ne.symm apart)
    have left := reported moved
    have right := reported moved'
    rw [front] at left
    rw [front'] at right
    exact apart (eq_of_alike same (left.trans right.symm))
  · intro separated d same
    obtain ⟨readable, found⟩ := readable.perm same
    exact uniqueValues_ok.2 ⟨readable, by rw [separated.arranged_perm found]⟩

/-- Null where there is nothing, a truth value and a text: they are reported of the documents in any
    order. -/
theorem uniqueValues_arranged_mixed :
    let c : Collection :=
      { name := "forms"
        docs := [(some "d1", [("_id", .text "d1")]),
          (some "d2", [("_id", .text "d2"), ("v", .bool true)]),
          (some "d3", [("_id", .text "d3"), ("v", .text "x")])] }
    let query : Value := .object []
    let selection : Value := .text "v"
    let o : Outcome := { report := some [("values", .array [.null, .bool true, .text "x"])] }
    uniqueValues query selection c = .ok o ∧
      ∀ d : Collection, d.docs.Perm c.docs → uniqueValues query selection d = .ok o := by
  intro c query selection o
  have sorted : [Value.null, .bool true, .text "x"].mergeSort ordered =
      [.null, .bool true, .text "x"] := List.mergeSort_of_pairwise (by decide)
  have run : uniqueValues query selection c = .ok o := by
    show uniqueValues query selection c =
      .ok { report := some [("values", .array [.null, .bool true, .text "x"])] }
    rw [← sorted]
    rfl
  have simple : ∀ v ∈ valuesAt c query selection, v.Simple := by
    show ∀ v ∈ [Value.null, .bool true, .text "x"], v.Simple
    simp only [List.forall_mem_cons]
    exact ⟨trivial, trivial, trivial, List.forall_mem_nil _⟩
  obtain ⟨_, _, alike, separated⟩ := uniqueValues_arranged run
  exact ⟨run, alike.2 (separated simple)⟩

/-- An object, an integer and the same integer marked as long, which has its literal: the first of the
    two is reported, before or behind the object. Two program texts with variables, of which
    only the text counts: they are reported as they are stored. -/
theorem order_shows :
    let stored (values : List (String × Value)) : Collection :=
      { name := "forms", docs := values.map fun v => (some v.1, [("_id", .text v.1), ("v", v.2)]) }
    let reported (values : List (String × Value)) : Except Fault Outcome :=
      uniqueValues (.object []) (.text "v") (stored values)
    let report (values : List Value) : Except Fault Outcome :=
      .ok { report := some [("values", .array values)] }
    let f (n : Int) : Value := .code "f" (.object [("x", .int n)])
    (reported [("a", .object []), ("b", .int 1), ("c", .long 1)] = report [.object [], .int 1] ∧
      reported [("c", .long 1), ("a", .object []), ("b", .int 1)] = report [.long 1, .object []]) ∧
    (reported [("a", f 1), ("b", f 2)] = report [f 1, f 2] ∧
      reported [("b", f 2), ("a", f 1)] = report [f 2, f 1] ∧ rank (f 1) = rank (f 2)) := by
  intro stored reported report f
  have run {docs : List (String × Value)} {values : List Value}
      (unsorted : reported docs = report (values.mergeSort ordered))
      (ascending : values.Pairwise fun v w => ordered v w = true) : reported docs = report values := by
    rw [unsorted, List.mergeSort_of_pairwise ascending]
  exact ⟨⟨run rfl (by decide), run rfl (by decide)⟩, run rfl (by decide), run rfl (by decide), rfl⟩

end Collections

end Gateway

end DocRepair

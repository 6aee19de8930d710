import Mathlib.Data.List.Basic
import Std.Data.String.ToInt
import DocRepair.Proofs.OneByOne
import DocRepair.Proofs.Removed
import DocRepair.Proofs.Truth
/-!
# `DocRepair.Proofs.Retrieved` — by its identifier, or by a query for it

A document can be fetched by its identifier, or by a query for its identifier field. The first goes by
keys, the second by agreement, and a query finds whatever agrees with what is asked for. So the two
lead to the same document as long as for each identifier in the collection it makes no difference
whether it is compared by its key or by agreement. For object identifiers and texts it makes none, nor
for integers. But a number and its digits have the same key and do not agree, and a float and an
integer can agree and have different keys. What cannot be shown has no key at all: it is under no key,
and beside an object identifier the query stops as well.

## Contents

* `single_iff` — choices among the items of a list that single out the same ones;
* `Identity.Concur` — keys and queries give the same answer;
* `Identity.Kindred` — identifiers of kinds for which they do;
* `Collection.filter_under` / `find_answers` / `find_stops` — the two lookups as choices among the
  documents, and a query that has no answer;
* `Collection.Retrieved` / `retrieved_iff` — when they lead to the same document.
-/

namespace DocRepair

/-! ## Two choices -/

/-- Where one of two choices takes at most one item, they single out the same items exactly if they
    are the same choice, or the first takes nothing and the second too much. -/
theorem single_iff {α : Type} {p q : α → Bool} {l : List α} (few : (l.filter p).length ≤ 1) :
    (∀ x, l.filter p = [x] ↔ l.filter q = [x]) ↔
      (∀ x ∈ l, p x = true ↔ q x = true) ∨ (l.filter p = [] ∧ 1 < (l.filter q).length) := by
  constructor
  · intro single
    have alike (same : l.filter p = l.filter q) : ∀ x ∈ l, p x = true ↔ q x = true := by
      intro x listed
      have taken := congrArg (x ∈ ·) same
      simpa [List.mem_filter, listed] using taken
    -- What `p` singles out, `q` singles out; where `p` takes nothing, `q` must not take just one.
    match taken : l.filter p, few with
    | [x], _ => exact .inl (alike (taken.trans ((single x).1 taken).symm))
    | [], _ =>
      match others : l.filter q with
      | [] => exact .inl (alike (taken.trans others.symm))
      | [y] =>
        have only := (single y).2 others
        rw [taken] at only
        cases only
      | _ :: _ :: _ => exact .inr ⟨rfl, by simp⟩
  · rintro (alike | ⟨nothing, many⟩) x
    · have same : l.filter p = l.filter q :=
        List.filter_congr fun x listed => Bool.eq_iff_iff.2 (alike x listed)
      rw [same]
    · rw [nothing]
      refine iff_of_false (fun single => by cases single) fun single => ?_
      rw [single] at many
      exact absurd many (by simp)

/-! ## Two identifiers -/

namespace Identity

variable {held asked v w : Value}

/-- It makes no difference for an identifier whether one is looked up by its key or by a query, which
    nothing satisfies that asks for the marker of absence. -/
def Concur (held asked : Value) : Prop :=
  filing asked = .ok (key held) ↔ asked.isAbsent = false ∧ compare held asked = .ok true

/-- The whole numbers. -/
def Whole : Value → Prop
  | .int _ | .long _ => True
  | _ => False

/-- Identifiers that are both object identifiers or texts, or both whole numbers. -/
def Kindred (held asked : Value) : Prop :=
  (Common held ∧ Common asked) ∨ (Whole held ∧ Whole asked)

/-- Whole numbers agree exactly if they have the same digits. -/
theorem Whole.agree_iff (left : Whole v) (right : Whole w) : agree v w = true ↔ key v = key w := by
  cases v with
  | int m | long m =>
    cases w with
    | int n | long n =>
      simp [agree, isIdent, Value.isNull, key, Value.same, Value.sameScalar, Value.numeral?,
        Value.Numeral.same, Value.plain, Value.literal, Int.repr_inj]
    | _ => exact right.elim
  | _ => exact left.elim

/-- Whole numbers with the same digits can be shown alike. -/
theorem Whole.hasPlain_eq (left : Whole v) (right : Whole w) (same : key v = key w) :
    v.hasPlain = w.hasPlain := by
  cases v with
  | int m | long m =>
    cases w with
    | int n | long n =>
      have digits : m = n := by
        simpa [key, Value.plain, Value.literal, Int.repr_inj] using same
      subst digits
      rfl
    | _ => exact right.elim
  | _ => exact left.elim

/-- Whole numbers can be compared without being shown. -/
theorem Whole.comparable (left : Whole v) (right : Whole w) : comparable v w = true := by
  cases v with
  | int m | long m =>
    cases w with
    | int n | long n => rfl
    | _ => exact right.elim
  | _ => exact left.elim

/-- **Identifiers of one kind** are compared alike. -/
theorem Kindred.concur (kindred : Kindred held asked) (shown : held.hasPlain = true) :
    Concur held asked := by
  unfold Concur
  rw [filing_ok, compare_ok]
  obtain ⟨left, right⟩ | ⟨left, right⟩ := kindred
  · have fits := (compare_ok.1 (compare_shown left.shown right.shown)).1
    rw [left.agree_iff right, eq_comm (a := key held)]
    simp [right.shown, right.leaf.2.2, fits]
  · have there : asked.isAbsent = false := by
      cases asked with
      | absent => exact right.elim
      | _ => rfl
    rw [left.agree_iff right, left.comparable right]
    constructor
    · exact fun ⟨_, same⟩ => ⟨there, rfl, same.symm⟩
    · exact fun ⟨_, _, same⟩ => ⟨(left.hasPlain_eq right same).symm.trans shown, same.symm⟩

/-- What is no identifier is met neither by a key nor by a query. -/
theorem concur_null (missing : held.isNull = true) (given : asked.isNull = false) :
    Concur held asked := by
  have null : held = .null := by
    cases held with
    | null => rfl
    | _ => cases missing
  rw [null]
  unfold Concur
  rw [filing_ok, key_of_not_null given]
  exact iff_of_false (fun same => nomatch same.2) fun same => nomatch (compare_ok.1 same.2).2

/-- **A number and its digits** have the same key, and do not agree. -/
theorem not_concur_digits (n : Int) : ¬ Concur (.int n) (.text (toString n)) := by
  intro concur
  have same := (compare_ok.1 (concur.1 rfl).2).2
  simp [agree, isIdent, Value.isNull, Value.same, Value.sameScalar, Value.numeral?] at same

end Identity

/-! ## The two lookups -/

namespace Collection

variable {allowed : Collection → Write → Prop} {c : Collection} {v : Value} {doc : Fields}

/-- Whether a document has the key of an identifier, which has one if it can be shown. -/
def under (c : Collection) (v : Value) (doc : Fields) : Bool :=
  v.hasPlain && decide (Identity.key (Fields.getD doc c.idField) = Identity.key v)

theorem under_iff : c.under v doc = true ↔
    Identity.filing v = .ok (Identity.key (Fields.getD doc c.idField)) := by
  rw [Identity.filing_ok, under, Bool.and_eq_true, decide_eq_true_iff,
    eq_comm (a := Identity.key v)]

/-- **What is filed under an identifier** is the document with its key. -/
theorem filter_under (filed : c.Filed) (v : Value) :
    c.all.filter (c.under v) = ((c.get? v).toOption.getD none).toList := by
  unfold get?
  cases files : Identity.filing v with
  | error fault =>
    show _ = []
    rw [List.filter_eq_nil_iff]
    intro doc _ under
    rw [under_iff, files] at under
    cases under
  | ok key =>
    show _ = (lookup c.docs key).toList
    cases found : lookup c.docs key with
    | some doc =>
      have entry := lookup_mem found
      have listed : doc ∈ c.all := List.mem_map_of_mem entry
      have own : key = Identity.key (Fields.getD doc c.idField) := filed.under _ entry
      have keys := filed.keys
      rw [filed.keys_eq] at keys
      refine (List.filter_congr fun other _ => ?_).trans (filter_own keys listed)
      rw [Bool.eq_iff_iff, under_iff, files, own, decide_eq_true_iff, Except.ok.injEq, eq_comm]
    | none =>
      -- A document with the key would be found under it.
      show _ = []
      rw [List.filter_eq_nil_iff]
      intro doc listed under
      rw [under_iff, files, Except.ok.injEq] at under
      have leads := filed.lookup_own listed
      rw [← under, found] at leads
      cases leads

theorem filed_iff (c : Collection) (v : Value) (doc : Fields) :
    ((c.get? v).toOption.getD none).toList = [doc] ↔ c.get? v = .ok (some doc) := by
  rw [Option.toList_eq_singleton_iff]
  cases c.get? v with
  | ok found => simp [Except.toOption]
  | error fault => exact iff_of_false (fun same => nomatch same) fun same => nomatch same

section Query

variable (path : ¬ Filter.Connective c.idField)
  (plain : Path.split (.text c.idField) = .ok [c.idField])
  (leaves : ∀ doc ∈ c.all, (Fields.getD doc c.idField).isContainer = false)
  (scalar : v.isContainer = false) (given : v.isNull = false)

include path plain leaves scalar given

/-- What a query for an identifier finds, if it can be compared with all, are the documents with an
    identifier that satisfies it. -/
theorem find_answers
    (fits : ∀ doc ∈ c.all, Identity.comparable (Fields.getD doc c.idField) v = true) :
    c.find (.object [(c.idField, v)]) =
      .ok ((c.all.filter fun doc => Identity.answers (Fields.getD doc c.idField) v).map
        (loan c.idField)) := by
  have verdict : ∀ doc ∈ c.all, Filter.matches? (.object doc) (.object [(c.idField, v)]) =
      .ok (Identity.answers (Fields.getD doc c.idField) v) := by
    intro doc listed
    rw [Filter.matches_identifier (not_or.1 path) plain (leaves doc listed) scalar given,
      Identity.compare_ok.2 ⟨fits doc listed, rfl⟩]
    rfl
  rw [find_eq, selectFrom_verdict verdict]
  rfl

/-- A query for an identifier stops if it cannot be compared with one of those in the collection. -/
theorem find_stops (listed : doc ∈ c.all)
    (apart : Identity.comparable (Fields.getD doc c.idField) v = false) :
    c.find (.object [(c.idField, v)]) = .error .endlessInteger := by
  have verdict : ∀ doc ∈ c.all, Filter.matches? (.object doc) (.object [(c.idField, v)]) = (do
      .ok (!v.isAbsent && (← Identity.compare (Fields.getD doc c.idField) v))) := fun doc listed =>
    Filter.matches_identifier (not_or.1 path) plain (leaves doc listed) scalar given
  have stops : selectFrom (.object [(c.idField, v)]) c.all = .error .endlessInteger := by
    generalize c.all = docs at listed verdict
    induction docs with
    | nil => cases listed
    | cons first rest ih =>
      unfold selectFrom
      rw [verdict first List.mem_cons_self]
      unfold Identity.compare
      split
      · rename_i fits
        -- This one can be compared, so it is another one that stops the query.
        have behind : doc ∈ rest := by
          rcases List.mem_cons.1 listed with rfl | behind
          · rw [apart] at fits
            cases fits
          · exact behind
        rw [ih behind fun d among => verdict d (List.mem_cons_of_mem _ among)]
        rfl
      · rfl
  rw [find_eq, stops]
  rfl

end Query

/-! ## One document -/

/-- What is filed under an identifier is what the query for it finds, and that alone. -/
def Retrieved (c : Collection) (v : Value) : Prop :=
  ∀ doc, c.get? v = .ok (some doc) ↔ c.find (.object [(c.idField, v)]) = .ok [loan c.idField doc]

/-- One document is filed under the identifier, and the query finds one. -/
theorem retrieved_filters (filed : c.Filed)
    (finds : c.find (.object [(c.idField, v)]) =
      .ok ((c.all.filter fun doc => Identity.answers (Fields.getD doc c.idField) v).map
        (loan c.idField))) :
    Retrieved c v ↔ ∀ doc, c.all.filter (c.under v) = [doc] ↔
      (c.all.filter fun doc => Identity.answers (Fields.getD doc c.idField) v) = [doc] := by
  have lends (docs : List Fields) (doc : Fields) :
      docs.map (loan c.idField) = [loan c.idField doc] ↔ docs = [doc] := by
    refine ⟨fun same => ?_, fun only => only ▸ rfl⟩
    obtain ⟨first, rfl, lent⟩ := List.map_eq_singleton_iff.1 same
    rw [show first = doc from congrArg Handle.data lent]
  unfold Retrieved
  refine forall_congr' fun doc => ?_
  rw [filter_under filed, filed_iff, finds, Except.ok.injEq, lends]

/-- **When an identifier and the query for it lead to the same document**: if for all identifiers of
    the collection it makes no difference which of the two is used, and otherwise only if nothing is
    filed under the identifier and the query finds several, or if both lookups stop. It makes none if
    whatever identifiers the documents have are of one kind with it. -/
theorem retrieved_iff (reached : Reached allowed c) (nonempty : c.idField ≠ "")
    (undotted : '.' ∉ c.idField.toList) (path : ¬ Filter.Connective c.idField)
    (leaves : ∀ doc ∈ c.all, (Fields.getD doc c.idField).isContainer = false)
    (scalar : v.isContainer = false) (given : v.isNull = false) :
    (Retrieved c v ↔
      (∀ doc ∈ c.all, Identity.Concur (Fields.getD doc c.idField) v) ∨
        ((∀ doc, c.get? v ≠ .ok (some doc)) ∧
          ∃ handles, c.find (.object [(c.idField, v)]) = .ok handles ∧ 1 < handles.length) ∨
        (c.get? v = .error .endlessInteger ∧
          c.find (.object [(c.idField, v)]) = .error .endlessInteger)) ∧
      ((∀ doc ∈ c.all, Named c.idField doc → Identity.Kindred (Fields.getD doc c.idField) v) →
        Retrieved c v) := by
  have filed := reached.filed
  have plain := Path.split_name nonempty undotted
  refine and_iff_left_of_imp (fun exactly kindred => ?_) |>.2 ?_
  · refine exactly.2 (.inl fun doc listed => ?_)
    cases named : (Fields.getD doc c.idField).isNull with
    | true => exact Identity.concur_null named given
    | false => exact (kindred doc listed named).concur (reached.shown.all listed)
  by_cases fits : ∀ doc ∈ c.all, Identity.comparable (Fields.getD doc c.idField) v = true
  · have finds := find_answers path plain leaves scalar given fits
    have few : (c.all.filter (c.under v)).length ≤ 1 := by
      rw [filter_under filed]
      exact Option.length_toList_le
    have exactly := (retrieved_filters filed finds).trans (single_iff few)
    have alike : (∀ doc ∈ c.all, c.under v doc = true ↔
          Identity.answers (Fields.getD doc c.idField) v = true) ↔
        ∀ doc ∈ c.all, Identity.Concur (Fields.getD doc c.idField) v := by
      refine forall₂_congr fun doc listed => ?_
      unfold Identity.Concur Identity.answers
      rw [under_iff, Bool.and_eq_true, Bool.not_eq_true', Identity.compare_ok]
      simp [fits doc listed]
    have several : (c.all.filter (c.under v) = [] ∧
          1 < (c.all.filter fun doc => Identity.answers (Fields.getD doc c.idField) v).length) ↔
        (∀ doc, c.get? v ≠ .ok (some doc)) ∧ ∃ handles,
          c.find (.object [(c.idField, v)]) = .ok handles ∧ 1 < handles.length := by
      have nothing : ((c.get? v).toOption.getD none).toList = [] ↔
          ∀ doc, c.get? v ≠ .ok (some doc) := by
        simp only [← filed_iff, ne_eq]
        cases (c.get? v).toOption.getD none <;> simp
      rw [filter_under filed, nothing, finds]
      simp
    rw [alike, several] at exactly
    rw [exactly, finds]
    simp
  · -- The query stops, because what is asked for cannot be shown; so there is no key for it either.
    simp only [not_forall, Bool.not_eq_true] at fits
    obtain ⟨doc, listed, apart⟩ := fits
    have stops := find_stops path plain leaves scalar given listed apart
    have hidden : v.hasPlain = false := by
      cases shown : v.hasPlain with
      | false => rfl
      | true =>
        have compared := Identity.compare_shown (reached.shown.all listed) shown
        rw [(Identity.compare_ok.1 compared).1] at apart
        cases apart
    have nowhere : c.get? v = .error .endlessInteger := by
      unfold get?
      rw [Identity.filing_error.2 ⟨hidden, rfl⟩]
      rfl
    refine iff_of_true (fun other => ?_) (.inr (.inr ⟨nowhere, stops⟩))
    rw [nowhere, stops]
    exact iff_of_false (fun same => nomatch same) fun same => nomatch same

/-- A text and an object identifier in one collection: the document with the object identifier is found
    under its digits as well. -/
theorem retrieved_iff_digits :
    let supply : Supply := { origin := 0, last := 0, pace := 1 }
    let ident : Value := .ident ⟨[0, 0, 0, 0, 0, 0, 0, 0, 0, 0, 0, 7], rfl⟩
    let c := (Write.create (.array [.object [("_id", ident)]])).after supply
      (({ name := "forms" } : Collection).extended [[("_id", .text "d1")]])
    let v : Value := .text "000000000000000000000007"
    Reached (fun _ _ => True) c ∧ ¬ Filter.Connective c.idField ∧
      c.get? v = .ok (some [("_id", ident)]) ∧ Retrieved c v := by
  intro supply ident c v
  have first : Reached (fun _ _ => True)
      (({ name := "forms" } : Collection).extended [[("_id", .text "d1")]]) :=
    .single supply rfl rfl rfl (List.pairwise_singleton _ _)
  have distinct : Fields.Distinct [("_id", ident)] := List.pairwise_singleton _ _
  have reached : Reached (fun _ _ => True) c := first.created distinct supply
  have path : ¬ Filter.Connective c.idField := by
    show ¬ ("_id" = "$and" ∨ "_id" = "$or")
    decide
  have undotted : '.' ∉ c.idField.toList := by
    show '.' ∉ "_id".toList
    decide
  have held : c.all = [[("_id", .text "d1")], [("_id", ident)]] := rfl
  have leaves : ∀ doc ∈ c.all, (Fields.getD doc c.idField).isContainer = false := by
    rw [held]
    simp only [List.forall_mem_cons]
    exact ⟨rfl, rfl, List.forall_mem_nil _⟩
  have usual : ∀ doc ∈ c.all, Identity.Kindred (Fields.getD doc c.idField) v := by
    rw [held]
    simp only [List.forall_mem_cons]
    exact ⟨.inl ⟨trivial, trivial⟩, .inl ⟨trivial, trivial⟩, List.forall_mem_nil _⟩
  have alike := retrieved_iff (v := v) reached (by decide) undotted path leaves rfl rfl
  exact ⟨reached, path, rfl, alike.2 fun doc listed _ => usual doc listed⟩

/-- Where the two lookups part: a number is found under its digits, and only so; a truth value satisfies
    the query for a number, and is not found under it; nothing satisfies a query for the marker of
    absence; and a query cannot be for the identifier field if that has the name of a path, or of a
    connective, or none. -/
theorem not_retrieved :
    let c (idField : String) (held : Value) : Collection :=
      ({ name := "forms", idField := idField } : Collection).extended [[(idField, held)]]
    (∀ idField held, held.isNull = false → held.hasPlain = true →
        Reached (fun _ _ => True) (c idField held)) ∧
      ¬ Retrieved (c "_id" (.int 1)) (.text "1") ∧
      ¬ Retrieved (c "_id" (.bool true)) (.int 1) ∧
      ¬ Retrieved (c "_id" .absent) .absent ∧
      ¬ Retrieved (c "a.b" (.text "d1")) (.text "d1") ∧
      ¬ Retrieved (c "$and" (.text "d1")) (.text "d1") ∧
      ¬ Retrieved (c "" (.text "d1")) (.text "d1") := by
  intro c
  have part {idField : String} {held v : Value}
      (under : (c idField held).get? v = .ok (some [(idField, held)]))
      (lost : (c idField held).find (.object [(idField, v)]) ≠ .ok [loan idField [(idField, held)]]) :
      ¬ Retrieved (c idField held) v := fun retrieved => lost ((retrieved _).1 under)
  refine ⟨fun idField held named shown => ?_, ?_, ?_, ?_, ?_, ?_, ?_⟩
  · have own : Fields.getD [(idField, held)] idField = held := by
      simp [Fields.getD, Fields.get?]
    let empty : Collection := { name := "forms", idField := idField }
    have field : empty.idField = idField := rfl
    have filed : Reached (fun _ _ => True) (empty.extended [[(idField, held)]]) :=
      .single { origin := 0, last := 0, pace := 1 } rfl (by rw [Named, field, own, named])
        (by rw [field, own, shown]) (List.pairwise_singleton _ _)
    exact filed
  · exact part rfl fun run => by cases run
  · intro retrieved
    have finds : (c "_id" (.bool true)).find (.object [("_id", .int 1)]) =
        .ok [loan "_id" [("_id", .bool true)]] := by
      show Except.ok _ = _
      rfl
    have found := (retrieved _).2 finds
    cases found
  · exact part rfl fun run => by cases run
  · exact part rfl fun run => by cases run
  · exact part rfl fun run => by cases run
  · exact part rfl fun run => by cases run

end Collection

end DocRepair

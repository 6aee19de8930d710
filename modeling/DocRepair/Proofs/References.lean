import DocRepair.Gateway.Reads
import DocRepair.Proofs.Selected
/-!
# `DocRepair.Proofs.References` — which documents are found through references

References are gathered from one collection and become a condition on the identifiers of another,
set in the filter that was given for it. Three things happen on the way: of references with one text
only the first is kept, an identifier that is an array is met by any of its items, and the condition
takes the place of one that the filter already had for the identifier. Where none of them plays a
part, what is found are the documents of which the filter holds and whose identifier agrees with a
reference.

## Contents

* `Identity.agree_of_same` / `Filter.equalTo_field` — identifiers that equal a reference;
* `Identity.answers` / `Filter.matches_identifier` — identifiers that satisfy the query for one;
* `Gateway.reference?` / `references_ok` — the references of a collection;
* `Gateway.firsts` / `exists_firsts` — one item of each kind, and `distinctByKey_eq` one of each text;
* `Gateway.Unambiguous` — references with one text refer to the same documents;
* `Gateway.getRefs_documents` — what is found.
-/

namespace DocRepair

/-! ## Identifiers and references -/

namespace Identity

variable {v w : Value}

/-- The marker of absence agrees with no object identifier: its text spells none. -/
theorem agree_absent_ident (i : ObjectId) : agree .absent (.ident i) = false := by
  rw [Bool.eq_false_iff]
  intro h
  have text : i.text = Value.absent.plain := by
    have same := key_of_agree_ident h
    exact (Option.some.inj same).symm
  have spelled := ObjectId.ofText?_text i
  rw [text] at spelled
  cases spelled

/-- Equal values that are not null agree. -/
theorem agree_of_same (left : v.isNull = false) (right : w.isNull = false)
    (same : v.same w = true) : agree v w = true := by
  unfold agree
  rw [left, right]
  by_cases ident : (isIdent v || isIdent w) = true
  · rw [if_neg (by decide), if_pos ident]
    -- Only an object identifier equals an object identifier.
    cases v <;> cases w <;> simp_all [isIdent, Value.same, Value.sameScalar, Value.numeral?]
  · rw [if_neg (by decide), if_neg ident]
    exact same

/-- Whether an identifier satisfies the query for one. Nothing satisfies the query for the marker of
    absence. -/
def answers (held asked : Value) : Bool :=
  !asked.isAbsent && agree held asked

end Identity

namespace Filter

/-- A reference is a value that is there: not null, and not the marker of absence. -/
def IsReference (r : Value) : Prop := r.isNull = false ∧ r.isAbsent = false

/-- What is missing equals no reference. -/
theorem equalTo_absent {r : Value} (reference : IsReference r) : equalTo .absent r = false := by
  obtain ⟨notNull, notAbsent⟩ := reference
  cases r with
  | null => cases notNull
  | absent => cases notAbsent
  | ident i =>
    have other : Value.same .absent (.ident i) = false := by
      simp [Value.same, Value.sameScalar, Value.numeral?]
    show (Identity.agree .absent (.ident i) || Value.same .absent (.ident i)) = false
    rw [Identity.agree_absent_ident, other]
    rfl
  | _ =>
    simp [equalTo, Identity.agree, Identity.isIdent, Value.isNull, Value.same, Value.sameScalar,
      Value.numeral?]

/-- What is no array equals a value as a whole. -/
theorem equalTo_item {v r : Value} (item : v.isArray = false) :
    equalTo v r = (Identity.agree v r || v.same r) := by
  unfold equalTo
  split
  · cases item
  · cases item
  · rfl

/-- What is no array equals a reference exactly if it agrees with it. -/
theorem equalTo_eq_agree {v r : Value} (scalar : v.isArray = false) (reference : IsReference r) :
    equalTo v r = Identity.agree v r := by
  rw [equalTo_item scalar, Bool.or_eq_left_iff_imp]
  intro same
  refine Identity.agree_of_same ?_ reference.1 same
  cases v with
  | null =>
    -- Null equals nothing but null.
    obtain ⟨notNull, _⟩ := reference
    cases r <;> simp_all [Value.same, Value.sameScalar, Value.numeral?, Value.isNull]
  | _ => rfl

/-- **A field that is no array equals a reference exactly if its value agrees with it.** -/
theorem equalTo_field {doc : Fields} {name : String} {r : Value}
    (scalar : (Fields.getD doc name).isArray = false) (reference : IsReference r) :
    equalTo ((Fields.get? doc name).getD .absent) r = Identity.agree (Fields.getD doc name) r := by
  unfold Fields.getD at scalar ⊢
  cases found : Fields.get? doc name with
  | none => exact equalTo_absent reference
  | some v =>
    rw [found] at scalar
    exact equalTo_eq_agree scalar reference

/-! ### The query for an identifier -/

variable {name : String} {asked : Value} {doc : Fields}

/-- Nothing but the marker of absence equals it. -/
theorem equalTo_marker {v : Value} (item : v.isArray = false) (there : v.isAbsent = false) :
    equalTo v .absent = false := by
  cases v with
  | array xs => cases item
  | absent => cases there
  | ident i =>
    have apart : Identity.agree (.ident i) .absent = false :=
      BEq.comm.trans (Identity.agree_absent_ident i)
    simp [equalTo, apart, Value.same, Value.sameScalar, Value.numeral?]
  | _ =>
    simp [equalTo, Identity.agree, Identity.isIdent, Value.isNull, Value.same, Value.sameScalar,
      Value.numeral?]

/-- To be there and equal to an identifier is to satisfy the query for it. -/
theorem there_and_equal (item : (Fields.getD doc name).isArray = false)
    (given : asked.isNull = false) :
    (!((Fields.get? doc name).getD .absent).isAbsent &&
        equalTo ((Fields.get? doc name).getD .absent) asked) =
      Identity.answers (Fields.getD doc name) asked := by
  unfold Identity.answers
  -- The marker of absence satisfies no query, and nothing satisfies the query for it.
  cases marker : asked.isAbsent with
  | false =>
    rw [Bool.not_false, Bool.true_and, ← equalTo_field item ⟨given, marker⟩]
    generalize (Fields.get? doc name).getD .absent = actual
    cases actual with
    | absent => rw [equalTo_absent ⟨given, marker⟩, Bool.and_false]
    | _ => rfl
  | true =>
    have absent : asked = .absent := by
      cases asked with
      | absent => rfl
      | _ => cases marker
    unfold Fields.getD at item
    rw [absent, Bool.not_true, Bool.false_and]
    cases held : Fields.get? doc name with
    | none => rfl
    | some v =>
      rw [held] at item
      show (!v.isAbsent && equalTo v .absent) = false
      cases there : v.isAbsent with
      | false => exact (Bool.true_and _).trans (equalTo_marker item there)
      | true => rfl

/-- The marker of absence can be compared with whatever there is. -/
theorem comparable_absent (asked : Value) : Identity.comparable .absent asked = true := by
  cases asked <;> rfl

/-- What is no array is compared as a whole. -/
theorem equals_item {v : Value} (item : v.isArray = false) :
    equals v asked = (do .ok ((← Identity.compare v asked) || v.same asked)) := by
  unfold equals
  split
  · cases item
  · cases item
  · rfl

/-- **The query for an identifier** reads the identifier field, and compares the two. -/
theorem matches_identifier (noConnective : name ≠ "$and" ∧ name ≠ "$or")
    (plain : Path.split (.text name) = .ok [name])
    (leaf : (Fields.getD doc name).isContainer = false) (scalar : asked.isContainer = false)
    (given : asked.isNull = false) :
    matches? (.object doc) (.object [(name, asked)]) = (do
      .ok (!asked.isAbsent && (← Identity.compare (Fields.getD doc name) asked))) := by
  have noOperators : isOperators asked = false := by
    cases asked with
    | object fs => cases scalar
    | _ => rfl
  have item : (Fields.getD doc name).isArray = false := (Bool.or_eq_false_iff.1 leaf).2
  have settled := there_and_equal item given
  unfold Identity.answers at settled
  rw [matches_singleton, entry, if_neg noConnective.1, if_neg noConnective.2, condition_name plain]
  dsimp only
  rw [noOperators, if_neg Bool.false_ne_true]
  unfold Fields.getD at item settled ⊢
  generalize Fields.get? doc name = held at item settled ⊢
  unfold Identity.compare
  cases missing : (held.getD .absent).isAbsent with
  | true =>
    -- Nothing is there, or the marker of absence: neither equals anything that is asked for.
    have fine : Identity.comparable (held.getD .null) asked = true := by
      cases held with
      | none => rfl
      | some v =>
        cases v with
        | absent => exact comparable_absent asked
        | _ => cases missing
    rw [missing] at settled
    rw [fine, if_pos rfl, if_pos rfl]
    exact congrArg Except.ok settled
  | false =>
    obtain ⟨v, rfl⟩ : ∃ v, held = some v := by
      cases held with
      | none => cases missing
      | some v => exact ⟨v, rfl⟩
    rw [missing] at settled
    have whole : equals v asked = _ := equals_item item
    simp only [Option.getD_some] at settled ⊢
    rw [if_neg Bool.false_ne_true, whole]
    unfold Identity.compare
    cases Identity.comparable v asked with
    | false => rfl
    | true => exact congrArg Except.ok (equalTo_item item ▸ settled)

end Filter

/-! ## Gathering references -/

namespace Gateway

/-- The reference at a path of a document, if there is one. -/
def reference? (path : Value) (doc : Fields) : Option Value :=
  match Path.read? (.object doc) path with
  | .ok found => found.filter fun v => !v.isNull && !v.isAbsent
  | .error _ => none

theorem isReference_of_mem {path r : Value} {docs : List Fields}
    (h : r ∈ docs.filterMap (reference? path)) : Filter.IsReference r := by
  obtain ⟨doc, _, found⟩ := List.mem_filterMap.1 h
  unfold reference? at found
  split at found
  · have there := (Option.filter_eq_some_iff.1 found).2
    simpa [Filter.IsReference] using there
  · cases found

/-- The values read at a path, without those that refer to nothing. -/
theorem references_of_reads {idField : String} {docs : List Fields} {path : Value}
    {found : List Value}
    (reads : (docs.map (Collection.loan idField)).mapM (filedValue · path) = .ok found) :
    (found.filter fun v => !v.isNull && !v.isAbsent) = docs.filterMap (reference? path) := by
  induction docs generalizing found with
  | nil => cases reads; rfl
  | cons doc rest ih =>
    rw [List.map_cons, List.mapM_cons] at reads
    obtain ⟨v, first, reads⟩ := bind_eq_ok.1 reads
    obtain ⟨more, others, reads⟩ := bind_eq_ok.1 reads
    cases reads
    obtain ⟨w, first, filed⟩ := bind_eq_ok.1 first
    obtain ⟨_, _, filed⟩ := bind_eq_ok.1 filed
    cases filed
    obtain ⟨read, here, first⟩ := bind_eq_ok.1 first
    cases first
    have one : reference? path doc = read.filter fun v => !v.isNull && !v.isAbsent := by
      unfold reference?
      rw [show Path.read? (.object doc) path = .ok read from here]
    rw [List.filter_cons, List.filterMap_cons, one, ih others]
    cases read with
    | none => rfl
    | some v =>
      rw [Option.filter_some, Option.getD_some]
      split <;> rfl

/-- **The references of documents**, one of each text. -/
theorem references_ok {idField : String} {docs : List Fields} {path : Value} {refs : List Value}
    (run : references (docs.map (Collection.loan idField)) path = .ok refs) :
    refs = distinctByKey [] (docs.filterMap (reference? path)) := by
  obtain ⟨found, reads, run⟩ := bind_eq_ok.1 run
  cases run
  rw [references_of_reads reads]

/-! ## One of each kind -/

section Firsts

variable {α κ : Type} [BEq κ] {label : α → κ} {seen : List κ} {items : List α} {x : α}

/-- Items without those whose label came before. -/
def firsts (label : α → κ) : (seen : List κ) → List α → List α
  | _, [] => []
  | seen, x :: rest =>
    if seen.contains (label x) then firsts label seen rest
    else x :: firsts label (label x :: seen) rest

variable [LawfulBEq κ]

theorem mem_of_mem_firsts (kept : x ∈ firsts label seen items) : x ∈ items ∧ label x ∉ seen := by
  induction items generalizing seen with
  | nil => cases kept
  | cons first rest ih =>
    unfold firsts at kept
    split at kept
    · exact ⟨List.mem_cons_of_mem _ (ih kept).1, (ih kept).2⟩
    · rename_i fresh
      rcases List.mem_cons.1 kept with rfl | later
      · exact ⟨List.mem_cons_self, by simpa using fresh⟩
      · obtain ⟨listed, new⟩ := ih later
        exact ⟨List.mem_cons_of_mem _ listed, fun used => new (List.mem_cons_of_mem _ used)⟩

/-- No label comes twice. -/
theorem labels_firsts (seen : List κ) (items : List α) :
    ((firsts label seen items).map label).Nodup := by
  induction items generalizing seen with
  | nil => exact List.nodup_nil
  | cons first rest ih =>
    unfold firsts
    split
    · exact ih seen
    · refine List.nodup_cons.2 ⟨fun again => ?_, ih _⟩
      obtain ⟨x, later, same⟩ := List.mem_map.1 again
      exact (mem_of_mem_firsts later).2 (same ▸ List.mem_cons_self)

/-- An item is kept, or one with its label was there before. -/
theorem exists_firsts (among : x ∈ items) (fresh : label x ∉ seen) :
    ∃ kept ∈ firsts label seen items, label kept = label x := by
  induction items generalizing seen with
  | nil => cases among
  | cons first rest ih =>
    unfold firsts
    rcases List.mem_cons.1 among with rfl | later
    · rw [if_neg (by simpa using fresh)]
      exact ⟨x, List.mem_cons_self, rfl⟩
    · split
      · exact ih later fresh
      · by_cases same : label first = label x
        · exact ⟨first, List.mem_cons_self, same⟩
        · have unseen : label x ∉ label first :: seen := by
            simpa [fresh] using Ne.symm same
          obtain ⟨kept, hkept, labelled⟩ := ih later unseen
          exact ⟨kept, List.mem_cons_of_mem _ hkept, labelled⟩

end Firsts

/-- References are told apart by their keys. -/
theorem distinctByKey_eq (seen : List (Option String)) (refs : List Value) :
    distinctByKey seen refs = firsts Identity.key seen refs := by
  induction refs generalizing seen with
  | nil => rfl
  | cons r rest ih => rw [distinctByKey, firsts, ih, ih]

theorem mem_of_mem_distinctByKey {seen : List (Option String)} {refs : List Value} {r : Value}
    (h : r ∈ distinctByKey seen refs) : r ∈ refs := by
  rw [distinctByKey_eq] at h
  exact (mem_of_mem_firsts h).1

/-- A reference is kept, or one with its text was there before. -/
theorem exists_distinctByKey {seen : List (Option String)} {refs : List Value} {r : Value}
    (h : r ∈ refs) (new : Identity.key r ∉ seen) :
    ∃ kept ∈ distinctByKey seen refs, Identity.key kept = Identity.key r := by
  rw [distinctByKey_eq]
  exact exists_firsts h new

/-- References with one text agree with the same identifiers of a collection. -/
def Unambiguous (refs : List Value) (c : Collection) : Prop :=
  ∀ r ∈ refs, ∀ other ∈ refs, Identity.key r = Identity.key other → ∀ doc ∈ c.all,
    Identity.agree (Fields.getD doc c.idField) r = Identity.agree (Fields.getD doc c.idField) other

/-- A field that is no array equals some reference exactly if its value agrees with it. -/
theorem any_equalTo_field {refs : List Value} {doc : Fields} {name : String}
    (scalar : (Fields.getD doc name).isArray = false)
    (references : ∀ r ∈ refs, Filter.IsReference r) :
    refs.any (Filter.equalTo ((Fields.get? doc name).getD .absent)) =
      refs.any (Identity.agree (Fields.getD doc name)) := by
  rw [Bool.eq_iff_iff, List.any_eq_true, List.any_eq_true]
  refine exists_congr fun r => and_congr_right fun among => ?_
  rw [Filter.equalTo_field scalar (references r among)]

/-- Of unambiguous references it is enough to keep one of each text. -/
theorem any_distinctByKey {refs : List Value} {c : Collection} {doc : Fields}
    (unambiguous : Unambiguous refs c) (h : doc ∈ c.all) :
    (distinctByKey [] refs).any (Identity.agree (Fields.getD doc c.idField)) =
      refs.any (Identity.agree (Fields.getD doc c.idField)) := by
  rw [Bool.eq_iff_iff, List.any_eq_true, List.any_eq_true]
  constructor
  · rintro ⟨r, among, agrees⟩
    exact ⟨r, mem_of_mem_distinctByKey among, agrees⟩
  · rintro ⟨r, among, agrees⟩
    obtain ⟨kept, hkept, same⟩ := exists_distinctByKey among List.not_mem_nil
    refine ⟨kept, hkept, ?_⟩
    rw [unambiguous kept (mem_of_mem_distinctByKey hkept) r among same doc h]
    exact agrees

/-! ## What is found -/

variable {settings : Settings} {query refField refQuery : Value} {store others : Collection}
  {o : Outcome}

/-- A call that selects whole documents returns those that its query selects. -/
theorem get_whole (run : get settings query .null others = .ok o) :
    o.documents = others.selected query := by
  obtain ⟨handles, finds, run⟩ := bind_eq_ok.1 run
  obtain ⟨documents, projects, run⟩ := bind_eq_ok.1 run
  cases run
  rw [targets_all finds] at projects
  have whole (docs : List Fields) : (docs.map (Collection.loan others.idField)).mapM
      (fun h => project settings.idField (.object h.data) .null) = .ok docs := by
    induction docs with
    | nil => rfl
    | cons doc rest ih =>
      rw [List.map_cons, List.mapM_cons, ih]
      rfl
  exact (Except.ok.inj ((whole _).symm.trans projects)).symm

/-- A call that returns has tried its query on every document. -/
theorem matches_of_get (run : get settings query .null others = .ok o) {doc : Fields}
    (among : doc ∈ others.all) : ∃ b, Filter.matches? (.object doc) query = .ok b := by
  obtain ⟨handles, finds, _⟩ := bind_eq_ok.1 run
  unfold targets at finds
  split at finds
  · cases finds
  · obtain ⟨chosen, selects, _⟩ := bind_eq_ok.1 finds
    exact Collection.matches_of_selectFrom selects among

/-- The references that a call gathers. -/
def referred (store : Collection) (query refField : Value) : List Value :=
  (store.selected query).filterMap (reference? refField)

/-- **What is found through references**, in the order of the collection: the documents of which the
    given filter, without its condition on the identifier, holds, and whose identifier equals a kept
    reference. If the filter has no condition on the identifier, no identifier is an array, and
    references with one text refer to the same documents, these are the documents of which the
    filter holds and whose identifier agrees with a reference. -/
theorem getRefs_documents
    (run : getRefs settings query refField refQuery store others = .ok o)
    (plain : Path.split (.text others.idField) = .ok [others.idField])
    (noConnective : others.idField ≠ "$and" ∧ others.idField ≠ "$or") :
    ∃ conditions, refQuery.asFields = .ok conditions ∧
      (o.documents = others.all.filter fun doc =>
        Filter.holds (.object (Fields.erase conditions others.idField)) doc &&
          (distinctByKey [] (referred store query refField)).any
            (Filter.equalTo ((Fields.get? doc others.idField).getD .absent))) ∧
      (Fields.get? conditions others.idField = none →
        (∀ doc ∈ others.all, (Fields.getD doc others.idField).isArray = false) →
        Unambiguous (referred store query refField) others →
        o.documents = others.all.filter fun doc =>
          Filter.holds (.object conditions) doc &&
            (referred store query refField).any
              (Identity.agree (Fields.getD doc others.idField))) := by
  unfold getRefs at run
  split at run
  · cases run
  split at run
  · cases run
  obtain ⟨handles, finds, run⟩ := bind_eq_ok.1 run
  obtain ⟨refs, gathers, run⟩ := bind_eq_ok.1 run
  obtain ⟨conditions, reads, run⟩ := bind_eq_ok.1 run
  rw [targets_all finds] at gathers
  have kept : refs = distinctByKey [] (referred store query refField) := references_ok gathers
  have found : o.documents = others.all.filter fun doc =>
      Filter.holds (.object (Fields.erase conditions others.idField)) doc &&
        refs.any (Filter.equalTo ((Fields.get? doc others.idField).getD .absent)) := by
    rw [get_whole run]
    refine List.filter_congr fun doc among => ?_
    obtain ⟨b, answer⟩ := matches_of_get run among
    rw [Filter.holds_of_matches answer]
    exact Filter.matches_set (fun _ => Filter.any_equalTo plain noConnective) answer
  refine ⟨conditions, reads, kept ▸ found, fun free scalars unambiguous => ?_⟩
  rw [found]
  refine List.filter_congr fun doc h => ?_
  have references (r : Value) (among : r ∈ refs) : Filter.IsReference r := by
    rw [kept] at among
    exact isReference_of_mem (mem_of_mem_distinctByKey among)
  rw [Fields.erase_of_missing free, any_equalTo_field (scalars doc h) references, kept,
    any_distinctByKey unambiguous h]

/-- A call returns what its three steps return, one after the other. -/
theorem getRefs_of_steps {handles : List Handle} {refs : List Value} {conditions : Fields}
    (path : refField.truthy = true) (given : refQuery.isNull = false)
    (finds : targets true query store = .ok handles)
    (gathers : references handles refField = .ok refs) (reads : refQuery.asFields = .ok conditions)
    (gets : get settings
      (.object (Fields.set conditions others.idField (.object [("$in", .array refs)])))
      .null others = .ok o) :
    getRefs settings query refField refQuery store others = .ok o := by
  unfold getRefs
  rw [path, given, finds]
  simp only [bind, Except.bind, gathers, reads]
  exact gets

/-- Three forms refer to a user, to nothing, and to another user: of three active users the two
    referred to are found. -/
theorem getRefs_documents_active :
    let store : Collection := { name := "forms", docs := [
      (some "f1", [("_id", .text "f1"), ("meta", .object [("user", .text "u2")])]),
      (some "f2", [("_id", .text "f2"), ("meta", .object [("user", .null)])]),
      (some "f3", [("_id", .text "f3"), ("meta", .object [("user", .text "u1")])])] }
    let user (id : String) : Fields := [("_id", .text id), ("active", .bool true)]
    let others : Collection := { name := "users", docs := [
      (some "u1", user "u1"), (some "u2", user "u2"), (some "u3", user "u3")] }
    let refQuery : Value := .object [("active", .bool true)]
    let o : Outcome := { documents := [user "u1", user "u2"] }
    getRefs {} (.object []) (.text "meta.user") refQuery store others = .ok o ∧
      Path.split (.text others.idField) = .ok [others.idField] ∧
      (others.idField ≠ "$and" ∧ others.idField ≠ "$or") ∧
      Fields.get? refQuery.fields others.idField = none ∧
      (∀ doc ∈ others.all, (Fields.getD doc others.idField).isArray = false) ∧
      Unambiguous (referred store (.object []) (.text "meta.user")) others ∧
      o.documents = others.all.filter fun doc =>
        Filter.holds refQuery doc &&
          (referred store (.object []) (.text "meta.user")).any
            (Identity.agree (Fields.getD doc others.idField)) := by
  intro store user others refQuery o
  have run : getRefs {} (.object []) (.text "meta.user") refQuery store others = .ok o :=
    getRefs_of_steps (by decide) rfl
      (show targets true _ _ = .ok (store.all.map (Collection.loan "_id")) from rfl)
      (show references _ _ = .ok [.text "u2", .text "u1"] from rfl) rfl
      (show get {} (.object [("active", .bool true),
        ("_id", .object [("$in", .array [.text "u2", .text "u1"])])]) .null others = .ok o from rfl)
  have plain : Path.split (.text others.idField) = .ok [others.idField] :=
    show Path.split (.text "_id") = .ok ["_id"] from rfl
  have noConnective : others.idField ≠ "$and" ∧ others.idField ≠ "$or" := by decide
  have free : Fields.get? refQuery.fields others.idField = none := rfl
  have scalars : ∀ doc ∈ others.all, (Fields.getD doc others.idField).isArray = false := by
    intro doc h
    obtain ⟨⟨_, doc⟩, among, rfl⟩ := List.mem_map.1 h
    show (Fields.getD doc "_id").isArray = false
    simp only [others, List.mem_cons, List.not_mem_nil, or_false, Prod.mk.injEq] at among
    rcases among with ⟨_, rfl⟩ | ⟨_, rfl⟩ | ⟨_, rfl⟩ <;> rfl
  have gathered : referred store (.object []) (.text "meta.user") = [.text "u2", .text "u1"] := rfl
  have unambiguous : Unambiguous (referred store (.object []) (.text "meta.user")) others := by
    rw [gathered]
    intro r hr other hother same doc _
    simp only [List.mem_cons, List.not_mem_nil, or_false] at hr hother
    -- Their texts differ.
    have other : Identity.key (.text "u2") ≠ Identity.key (.text "u1") := by decide
    rcases hr with rfl | rfl <;> rcases hother with rfl | rfl
    · rfl
    · exact absurd same other
    · exact absurd same.symm other
    · rfl
  obtain ⟨conditions, reads, _, exact⟩ := getRefs_documents run plain noConnective
  cases reads
  exact ⟨run, plain, noConnective, free, scalars, unambiguous, exact free scalars unambiguous⟩

/-- A call asks for one user among those that a form refers to, and finds another one: its condition
    on the identifier has been replaced. -/
theorem getRefs_replaces_condition :
    let store : Collection := { name := "forms", docs := [
      (some "f1", [("_id", .text "f1"), ("user", .text "u1")])] }
    let others : Collection := { name := "users", docs := [
      (some "u1", [("_id", .text "u1")]), (some "u2", [("_id", .text "u2")])] }
    let refQuery : Value := .object [("_id", .text "u2")]
    let o : Outcome := { documents := [[("_id", .text "u1")]] }
    getRefs {} (.object []) (.text "user") refQuery store others = .ok o ∧
      (others.all.filter fun doc =>
        Filter.holds refQuery doc &&
          (referred store (.object []) (.text "user")).any
            (Identity.agree (Fields.getD doc others.idField))) = [] := by
  intro store others refQuery o
  exact ⟨getRefs_of_steps (by decide) rfl
    (show targets true _ _ = .ok (store.all.map (Collection.loan "_id")) from rfl)
    (show references _ _ = .ok [.text "u1"] from rfl) rfl
    (show get {} (.object [("_id", .object [("$in", .array [.text "u1"])])]) .null others = .ok o
      from rfl), rfl⟩

end Gateway

end DocRepair

import DocRepair.Proofs.Selected
import DocRepair.Transfer
/-!
# `DocRepair.Proofs.Linked` — the documents linked to a source

The lookup of a transfer asks for the documents that hold a value at a linking path. A linking path
that is no text is spelled as one; its segments are numbers then, so that no dot is mistaken. So
the lookup reads the field that the path begins with, and no other: whatever becomes of the others,
it goes the same way, and selects the same documents.

## Contents

* `Path.split_join` — segments without dots are the segments of their text;
* `Transfer.linkFilter_ok` — the filter of a lookup;
* `Collection.selectFrom_map` — a lookup among documents that have changed elsewhere.
-/

namespace DocRepair

/-! ## Segments and their text -/

namespace Path

/-- A dot ends a segment. -/
theorem splitDots_append {segment : List Char} (undotted : '.' ∉ segment) (rest : List Char) :
    splitDots (segment ++ '.' :: rest) = segment :: splitDots rest := by
  induction segment with
  | nil => simp only [List.nil_append, splitDots, if_true]
  | cons c more ih =>
    have first : ¬ c = '.' := fun dot => undotted (dot ▸ List.mem_cons_self)
    rw [List.cons_append, splitDots, if_neg first,
      ih fun dot => undotted (List.mem_cons_of_mem c dot)]

theorem splitDots_join {name : String} {names : List String}
    (undotted : ∀ n ∈ name :: names, '.' ∉ n.toList) :
    splitDots (join (name :: names)).toList = (name :: names).map String.toList := by
  induction names generalizing name with
  | nil =>
    have alone : join [name] = name := by simp [join]
    rw [alone, splitDots_of_no_dot (undotted name List.mem_cons_self)]
    rfl
  | cons second rest ih =>
    have joined : (join (name :: second :: rest)).toList =
        name.toList ++ '.' :: (join (second :: rest)).toList := by
      simp [join, String.intercalate_cons_cons]
    rw [joined, splitDots_append (undotted name List.mem_cons_self),
      ih fun n among => undotted n (List.mem_cons_of_mem name among)]
    rfl

/-- A path is split into what it lists: segments, none of them empty. -/
theorem split_lists {path : Value} {names : List String} (h : split path = .ok names) :
    segments path = .ok names ∧ names.isEmpty = false ∧ names.any (· == "") = false := by
  obtain ⟨segs, listed, h⟩ := bind_eq_ok.1 h
  split at h
  · cases h
  · rename_i some
    split at h
    · obtain ⟨_, _, stops⟩ := bind_eq_ok.1 h
      cases stops
    · rename_i full
      cases h
      exact ⟨listed, Bool.eq_false_iff.2 some, Bool.eq_false_iff.2 full⟩

/-- The segments of a path have characters, and there is one. -/
theorem split_ok {path : Value} {names : List String} (h : split path = .ok names) :
    names ≠ [] ∧ "" ∉ names := by
  obtain ⟨_, some, full⟩ := split_lists h
  refine ⟨List.isEmpty_eq_false_iff.1 some, fun empty => Bool.eq_false_iff.1 full ?_⟩
  exact List.any_eq_true.2 ⟨"", empty, rfl⟩

/-- Segments that are read from members are their texts. -/
theorem mapM_plainText {members : List Value} {names : List String}
    (run : members.mapM Value.plainText = .ok names) : names = members.map Value.plain := by
  induction members generalizing names with
  | nil =>
    cases run
    rfl
  | cons v rest ih =>
    rw [List.mapM_cons] at run
    obtain ⟨name, first, run⟩ := bind_eq_ok.1 run
    obtain ⟨others, more, run⟩ := bind_eq_ok.1 run
    cases run
    rw [List.map_cons, (Value.plainText_ok.1 first).2, ← ih more]

/-- **Segments without dots are the segments of their text.** -/
theorem split_join {path : Value} {names : List String} (h : split path = .ok names)
    (undotted : ∀ n ∈ names, '.' ∉ n.toList) : split (.text (join names)) = .ok names := by
  obtain ⟨some, full⟩ := split_ok h
  cases names with
  | nil => exact absurd rfl some
  | cons name rest =>
    have spelled := splitDots_join undotted
    have notEmpty : join (name :: rest) ≠ "" := by
      intro empty
      rw [empty] at spelled
      have first : name.toList = [] := (List.cons.inj spelled).1.symm
      exact full (String.toList_eq_nil_iff.1 first ▸ List.mem_cons_self)
    have segments : segments (.text (join (name :: rest))) = .ok (name :: rest) := by
      show Except.ok (if join (name :: rest) = "" then [] else _) = _
      rw [if_neg notEmpty, spelled, List.map_map]
      exact congrArg Except.ok ((List.map_congr_left fun n _ => String.ofList_toList).trans
        (List.map_id _))
    have noneEmpty : (name :: rest).any (· == "") = false := by
      rw [Bool.eq_false_iff]
      intro any
      obtain ⟨n, among, empty⟩ := List.any_eq_true.1 any
      exact full (beq_iff_eq.1 empty ▸ among)
    unfold split
    rw [segments]
    simp only [bind, Except.bind, List.isEmpty_cons, noneEmpty, Bool.false_eq_true, if_false]

end Path

/-! ## The filter of a lookup -/

namespace Transfer

/-- A text of digits. -/
def Numeric (n : String) : Prop := ∀ c ∈ n.toList, c.isDigit = true

theorem numeric_nat (n : Nat) : Numeric (Value.int n).plain := by
  intro c among
  have shown : (Value.int n).plain.toList = Nat.toDigits 10 n := by
    show (Nat.repr n).toList = _
    exact Nat.toList_repr
  rw [shown] at among
  exact Nat.isDigit_of_mem_toDigits (by decide) (by decide) among

/-- Of the values that may serve as keys, all but the texts have numbers as members, if any. -/
theorem numeric_members {v : Value} {members : List Value} (hashable : v.isHashable = true)
    (noText : ∀ s, v ≠ .text s) (listed : v.members = .ok members) :
    ∀ x ∈ members, Numeric x.plain := by
  intro x among
  cases v with
  | text s => exact absurd rfl (noText s)
  | bytes bs | binary _ bs =>
    cases listed
    obtain ⟨b, _, rfl⟩ := List.mem_map.1 among
    exact numeric_nat b.toNat
  | code | array | object => cases hashable
  | _ => cases listed

theorem numeric_split {path : Value} {names : List String} (hashable : path.isHashable = true)
    (noText : ∀ s, path ≠ .text s) (h : Path.split path = .ok names) : ∀ n ∈ names, Numeric n := by
  obtain ⟨listed, _, _⟩ := Path.split_lists h
  unfold Path.segments at listed
  split at listed
  · exact absurd rfl (noText _)
  · cases hashable
  · obtain ⟨members, has, listed⟩ := bind_eq_ok.1 listed
    intro n among
    rw [Path.mapM_plainText listed] at among
    obtain ⟨x, hx, rfl⟩ := List.mem_map.1 among
    exact numeric_members hashable noText has x hx

/-- **The filter of a lookup** is one condition, at a path with the segments of the linking path. Its
    path is no name of a connective, unless the linking path is one. -/
theorem linkFilter_ok {linkField v filter : Value} (run : linkFilter linkField v = .ok filter) :
    ∃ name, filter = .object [(name, v)] ∧ Path.split (.text name) = Path.split linkField ∧
      (linkField = .text name ∨ name ≠ "$and" ∧ name ≠ "$or") := by
  unfold linkFilter at run
  split at run
  · rename_i name
    cases run
    exact ⟨name, rfl, rfl, .inl rfl⟩
  · rename_i noText
    split at run
    · rename_i hashable
      obtain ⟨names, segments, run⟩ := bind_eq_ok.1 run
      cases run
      have numeric := numeric_split hashable noText segments
      have joined := Path.split_join segments fun n among dot => by
        cases numeric n among '.' dot
      -- A connective is one segment, and that has a character that is no digit.
      have other (name : String) (plain : Path.split (.text name) = .ok [name])
          (notNumeric : ¬ Numeric name) : Path.join names ≠ name := by
        intro same
        rw [same, plain] at joined
        cases joined
        exact notNumeric (numeric name List.mem_cons_self)
      refine ⟨_, rfl, joined.trans segments.symm, .inr ⟨other _ rfl ?_, other _ rfl ?_⟩⟩
      · exact fun digits => by cases digits '$' (by decide)
      · exact fun digits => by cases digits '$' (by decide)
    · cases run

end Transfer

/-! ## Lookups among changed documents -/

namespace Collection

variable {filter : Value} {docs : List Fields} {f : Fields → Fields}

/-- A lookup among documents that have changed, where the filter does not look. -/
theorem selectFrom_map
    (alike : ∀ doc ∈ docs, Filter.matches? (.object (f doc)) filter =
      Filter.matches? (.object doc) filter) :
    selectFrom filter (docs.map f) = (selectFrom filter docs).map (List.map f) := by
  induction docs with
  | nil => rfl
  | cons doc rest ih =>
    rw [List.map_cons, selectFrom, selectFrom, alike doc List.mem_cons_self,
      ih fun d among => alike d (List.mem_cons_of_mem doc among)]
    cases Filter.matches? (.object doc) filter with
    | error fault => rfl
    | ok chosen =>
      cases selectFrom filter rest with
      | error fault => rfl
      | ok others => cases chosen <;> rfl

end Collection

end DocRepair

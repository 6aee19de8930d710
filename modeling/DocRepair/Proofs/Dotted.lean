import DocRepair.Proofs.Grafted
import DocRepair.Proofs.Landable
import DocRepair.Proofs.Linked
import DocRepair.Proofs.Queried
/-!
# `DocRepair.Proofs.Dotted` — a path as a text and as a list of segments

A text is a path just if all that its dots separate has characters. A dot at the front leaves an
empty segment there, and so does a dot at the end; between two dots side by side there is another
one. Nothing is lost by the splitting: the segments with dots between them are the text again.

A list of segments is not always what its text splits into. It is, unless a dot lies in a segment,
as no segment of a text has one.

## Contents

* `Path.Segmented` — texts that are paths;
* `Path.splitDots_eq` / `Path.join_namesOf` — the runs between dots make up the whole text;
* `Path.nil_mem_splitDots` — where an empty run comes from;
* `Path.split_text` / `Path.split_text_iff` — the segments of a text, or why it is no path;
* `Path.split_join_iff` — the lists that are the segments of their text;
* `Path.spelled_either_way` — texts and lists of segments as the same paths.
-/

namespace DocRepair

namespace Path

variable {cs front : List Char} {others : List (List Char)} {s : String} {names : List String}

/-! ## The runs between dots -/

/-- A text whose dots have characters on both sides. -/
structure Segmented (cs : List Char) : Prop where
  nonempty : cs ≠ []
  first : cs.head? ≠ some '.'
  last : cs.getLast? ≠ some '.'
  apart : ¬ ['.', '.'] <:+: cs

theorem splitDots_eq (cs : List Char) : splitDots cs = cs.splitOn '.' := by
  induction cs with
  | nil => rfl
  | cons c rest ih =>
    unfold splitDots
    rw [List.splitOn_cons_eq_if_modifyHead]
    by_cases dot : c = '.'
    · rw [if_pos dot, if_pos (beq_iff_eq.2 dot), ih]
    · rw [if_neg dot, if_neg fun same => dot (beq_iff_eq.1 same), ih]
      cases runs : rest.splitOn '.' with
      | nil => exact absurd runs (List.splitOn_ne_nil '.' rest)
      | cons front others => rfl

theorem getLast?_eq_dot {c : Char} {rest : List Char} : (c :: rest).getLast? = some '.' ↔
    (rest = [] ∧ c = '.') ∨ rest.getLast? = some '.' := by
  rw [List.getLast?_cons]
  cases last : rest.getLast? with
  | none => simp [List.getLast?_eq_none_iff.1 last]
  | some d =>
    have more : rest ≠ [] := by
      rintro rfl
      cases last
    simp [more]

theorem dots_infix_cons {c : Char} {rest : List Char} : ['.', '.'] <:+: c :: rest ↔
    (c = '.' ∧ rest.head? = some '.') ∨ ['.', '.'] <:+: rest := by
  rw [List.infix_cons_iff, List.cons_prefix_cons, eq_comm (a := '.')]
  refine or_congr_left (and_congr_right fun _ => ?_)
  cases rest with
  | nil => simp
  | cons d more => simp [eq_comm]

/-- The first run is empty just if nothing stands in front of the first dot. A later run is just if
    the last dot has nothing behind it, or a dot has another one behind it. -/
theorem splitDots_cons (runs : splitDots cs = front :: others) :
    (front = [] ↔ cs = [] ∨ cs.head? = some '.') ∧
      ([] ∈ others ↔ cs.getLast? = some '.' ∨ ['.', '.'] <:+: cs) := by
  induction cs generalizing front others with
  | nil =>
    cases runs
    simp
  | cons c rest ih =>
    cases below : splitDots rest with
    | nil => exact absurd below (splitDots_ne_nil rest)
    | cons front' others' =>
      obtain ⟨first, later⟩ := ih below
      rw [getLast?_eq_dot, dots_infix_cons]
      unfold splitDots at runs
      by_cases dot : c = '.'
      · rw [if_pos dot, below] at runs
        cases runs
        -- A dot in front makes the first run behind it a later one.
        rw [List.mem_cons, eq_comm (a := []) (b := front'), first, later]
        simp only [dot, List.head?_cons]
        tauto
      · rw [if_neg dot, below] at runs
        cases runs
        rw [later]
        simp [dot]

/-- **There is an empty run** just if the text is no path. -/
theorem nil_mem_splitDots : [] ∈ splitDots cs ↔ ¬ Segmented cs := by
  cases runs : splitDots cs with
  | nil => exact absurd runs (splitDots_ne_nil cs)
  | cons front others =>
    obtain ⟨first, later⟩ := splitDots_cons runs
    rw [List.mem_cons, eq_comm (a := []) (b := front), first, later]
    constructor
    · rintro ((none | dot) | dot | dots) segmented
      · exact segmented.nonempty none
      · exact segmented.first dot
      · exact segmented.last dot
      · exact segmented.apart dots
    · intro not
      by_contra other
      push Not at other
      exact not ⟨other.1.1, other.1.2, other.2.1, other.2.2⟩

/-! ## Texts -/

/-- **The segments of a text with dots between them** are the text. -/
theorem join_namesOf (s : String) : join (namesOf s) = s := by
  rw [← String.toList_inj]
  unfold join namesOf
  rw [String.toList_intercalate, List.map_map]
  have same : String.toList ∘ String.ofList = id := funext fun _ => String.toList_ofList
  rw [same, List.map_id, splitDots_eq]
  exact List.intercalate_splitOn '.'

theorem empty_mem_namesOf : "" ∈ namesOf s ↔ ¬ Segmented s.toList := by
  rw [← nil_mem_splitDots]
  unfold namesOf
  rw [List.mem_map]
  constructor
  · rintro ⟨run, among, empty⟩
    have none : run = [] := by
      rw [← String.toList_ofList (l := run), empty]
      rfl
    exact none ▸ among
  · exact fun among => ⟨[], among, rfl⟩

theorem split_text (s : String) : split (.text s) =
    if s = "" then fail .emptyPath
    else if "" ∈ namesOf s then fail (.emptySegment (Value.text s).literal)
    else .ok (namesOf s) := by
  have read : segments (.text s) = .ok (if s = "" then [] else namesOf s) := rfl
  unfold split
  rw [read]
  by_cases empty : s = ""
  · rw [if_pos empty, if_pos empty]
    rfl
  · have some : (namesOf s).isEmpty = false := by
      simp [namesOf, splitDots_ne_nil]
    rw [if_neg empty, if_neg empty]
    have shows : (Value.text s).literalText = .ok (Value.text s).literal := rfl
    simp only [bind, Except.bind, some, shows, Bool.false_eq_true, if_false, List.any_beq']
    simp

/-- **The texts that are paths**, and their segments. -/
theorem split_text_iff : split (.text s) = .ok names ↔ Segmented s.toList ∧ names = namesOf s := by
  constructor
  · intro splits
    have same := namesOf_of_split splits
    refine ⟨?_, same.symm⟩
    by_contra unsegmented
    exact (split_ok splits).2 (same ▸ empty_mem_namesOf.2 unsegmented)
  · rintro ⟨segmented, rfl⟩
    have nonempty : s ≠ "" := fun empty => segmented.nonempty (String.toList_eq_nil_iff.2 empty)
    have full : "" ∉ namesOf s := fun empty => empty_mem_namesOf.1 empty segmented
    rw [split_text, if_neg nonempty, if_neg full]

theorem split_text_refused (unsegmented : ¬ Segmented s.toList) :
    split (.text s) =
      fail (if s = "" then .emptyPath else .emptySegment (Value.text s).literal) := by
  rw [split_text]
  split
  · rfl
  · rw [if_pos (empty_mem_namesOf.2 unsegmented)]

theorem undotted_of_split (splits : split (.text s) = .ok names) : ∀ n ∈ names, '.' ∉ n.toList := by
  intro n among
  rw [(split_text_iff.1 splits).2] at among
  obtain ⟨run, between, rfl⟩ := List.mem_map.1 among
  rw [String.toList_ofList]
  exact splitDots_undotted between

/-! ## Lists -/

/-- **A list is the segments of its text** just if no segment has a dot. -/
theorem split_join_iff (some : names ≠ []) (filled : Filled names) :
    split (.text (join names)) = .ok names ↔ ∀ n ∈ names, '.' ∉ n.toList :=
  ⟨undotted_of_split, split_join (split_texts some filled)⟩

/-- Paths with the same segments have the same top level, the first of them. -/
theorem top_of_splits {path other : Value} (splits : split path = .ok names)
    (also : split other = .ok names) :
    ∃ first, names.head? = some first ∧ top path = .ok first ∧ top other = .ok first := by
  obtain ⟨first, rest, rfl⟩ := split_cons splits
  exact ⟨first, rfl, top_of_split splits, top_of_split also⟩

/-! ## Both -/

/-- **A path is a text or a list of segments.** A text is a path if it has characters and its dots
    have characters on both sides, and otherwise is refused. Its segments with dots between them are
    the text, and as a list they are the same path. A list of segments with characters is a path
    with these segments. It is what its text splits into just if no segment has a dot, and then the
    text is the same path. -/
theorem spelled_either_way (s : String) (names : List String) :
    ((∃ found, split (.text s) = .ok found) ↔ Segmented s.toList) ∧
    (¬ Segmented s.toList →
      split (.text s) =
        fail (if s = "" then .emptyPath else .emptySegment (Value.text s).literal)) ∧
    (∀ found, split (.text s) = .ok found →
      join found = s ∧ split (.array (found.map .text)) = .ok found ∧
      ∃ first, found.head? = some first ∧ top (.text s) = .ok first ∧
        top (.array (found.map .text)) = .ok first) ∧
    (names ≠ [] → Filled names →
      split (.array (names.map .text)) = .ok names ∧
      (split (.text (join names)) = .ok names ↔ ∀ n ∈ names, '.' ∉ n.toList) ∧
      ((∀ n ∈ names, '.' ∉ n.toList) → ∃ first, names.head? = some first ∧
        top (.array (names.map .text)) = .ok first ∧ top (.text (join names)) = .ok first)) := by
  refine ⟨⟨?_, ?_⟩, split_text_refused, ?_, ?_⟩
  · rintro ⟨found, splits⟩
    exact (split_text_iff.1 splits).1
  · exact fun segmented => ⟨_, split_text_iff.2 ⟨segmented, rfl⟩⟩
  · intro found splits
    have listed : split (.array (found.map .text)) = .ok found :=
      split_texts (split_ok splits).1 (filled_of_split splits)
    have whole : join found = s := by
      rw [(split_text_iff.1 splits).2]
      exact join_namesOf s
    exact ⟨whole, listed, top_of_splits splits listed⟩
  · intro some filled
    have listed := split_texts some filled
    have spelled := split_join_iff some filled
    exact ⟨listed, spelled, fun undotted => top_of_splits listed (spelled.2 undotted)⟩

/-- A text of two segments, and a list with a dot in its second segment: its text has three. -/
theorem spelled_either_way_dotted :
    Segmented "a.bc".toList ∧ split (.text "a.bc") = .ok ["a", "bc"] ∧
    join ["a", "bc"] = "a.bc" ∧ ["a", "b.c"] ≠ [] ∧ Filled ["a", "b.c"] ∧
    split (.array [.text "a", .text "b.c"]) = .ok ["a", "b.c"] ∧
    split (.text (join ["a", "b.c"])) ≠ .ok ["a", "b.c"] ∧
    split (.text "a..b") = fail (.emptySegment (Value.text "a..b").literal) := by
  have splits : split (.text "a.bc") = .ok ["a", "bc"] := by rfl
  have some : ["a", "b.c"] ≠ [] := by decide
  have filled : Filled ["a", "b.c"] := by
    unfold Filled
    decide
  obtain ⟨accepts, -, reads, lists⟩ := spelled_either_way "a.bc" ["a", "b.c"]
  obtain ⟨listed, spelled, -⟩ := lists some filled
  have dots : ¬ Segmented "a..b".toList := fun segmented => segmented.apart (by decide)
  refine ⟨accepts.1 ⟨_, splits⟩, splits, (reads _ splits).1, some, filled, listed, ?_,
    (spelled_either_way "a..b" []).2.1 dots⟩
  intro same
  exact spelled.1 same "b.c" (by decide) (by decide)

end Path

end DocRepair

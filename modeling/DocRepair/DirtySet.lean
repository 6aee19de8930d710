import DocRepair.Path
/-!
# `DocRepair.DirtySet` — the top-level fields that an edit touched

A store writes only the fields it is told of, so every edit says which ones it touched. However
deep a path goes, it counts as its first segment.

## Contents

* `DirtySet` — names in ascending order, each once;
* `insert` / `union` / `ofList` — growing a set;
* `touch` — inserting the top level of a path;
* `notify` — the set passed on to a hook, name by name.
-/

namespace DocRepair

/-- A set of field names, held in ascending order. -/
structure DirtySet where
  fields : List String
  ascending : fields.Pairwise (· < ·)
deriving DecidableEq, Repr

namespace DirtySet

/-- A name among ascending names. -/
def insertName (name : String) : List String → List String
  | [] => [name]
  | other :: rest =>
    if name < other then name :: other :: rest
    else if name = other then other :: rest
    else other :: insertName name rest

theorem mem_insertName {name x : String} {names : List String} :
    x ∈ insertName name names ↔ x = name ∨ x ∈ names := by
  induction names with
  | nil => simp [insertName]
  | cons other rest ih =>
    unfold insertName
    split
    · simp
    · split
      · rename_i h
        simp [h]
      · simp [ih]
        grind

theorem insertName_ascending {name : String} {names : List String}
    (h : names.Pairwise (· < ·)) : (insertName name names).Pairwise (· < ·) := by
  induction names with
  | nil => simp [insertName]
  | cons other rest ih =>
    rw [List.pairwise_cons] at h
    unfold insertName
    split
    · rename_i hlt
      refine List.pairwise_cons.2 ⟨?_, List.pairwise_cons.2 h⟩
      intro x hx
      rcases List.mem_cons.1 hx with rfl | hx
      · exact hlt
      · exact String.lt_trans hlt (h.1 x hx)
    · split
      · exact List.pairwise_cons.2 h
      · refine List.pairwise_cons.2 ⟨?_, ih h.2⟩
        intro x hx
        rcases mem_insertName.1 hx with rfl | hx
        · grind
        · exact h.1 x hx

/-- No fields. -/
def empty : DirtySet := ⟨[], List.Pairwise.nil⟩

instance : EmptyCollection DirtySet := ⟨empty⟩
instance : Inhabited DirtySet := ⟨empty⟩

/-- Adds a name. -/
def insert (d : DirtySet) (name : String) : DirtySet :=
  ⟨insertName name d.fields, insertName_ascending d.ascending⟩

/-- Adds names one by one. -/
def insertAll (d : DirtySet) (names : List String) : DirtySet :=
  names.foldl insert d

/-- All names of two sets. -/
def union (d e : DirtySet) : DirtySet :=
  d.insertAll e.fields

/-- The set of some names. -/
def ofList (names : List String) : DirtySet :=
  empty.insertAll names

/-- Adds the top level of a path. -/
def touch (d : DirtySet) (path : Value) : Except Fault DirtySet := do
  .ok (d.insert (← Path.top path))

/-- Whether a name is in the set. -/
def contains (d : DirtySet) (name : String) : Bool :=
  d.fields.contains name

/-- Whether the set holds no name. -/
def isEmpty (d : DirtySet) : Bool :=
  d.fields.isEmpty

/-- The set as a value. -/
def toValue (d : DirtySet) : Value :=
  .array (d.fields.map .text)

/-- The text that shows a set. -/
def text (d : DirtySet) : String :=
  "DirtySet(" ++ d.toValue.literal ++ ")"

/-- Passes names on to a hook, each once, in the order of their first appearance; the result is
    the set of the names passed on and the state of the hook. -/
def notify {σ : Type} (mark : σ → String → σ) (names : List String) (start : σ) :
    DirtySet × σ :=
  names.foldl
    (fun (told, state) name =>
      if told.contains name then (told, state) else (told.insert name, mark state name))
    (empty, start)

theorem mem_insert {d : DirtySet} {name x : String} :
    x ∈ (d.insert name).fields ↔ x = name ∨ x ∈ d.fields :=
  mem_insertName

/-- Sets with the same names are the same. -/
theorem ext_mem {d e : DirtySet} (h : ∀ x, x ∈ d.fields ↔ x ∈ e.fields) : d = e := by
  obtain ⟨ds, hd⟩ := d
  obtain ⟨es, he⟩ := e
  congr
  simp only at h
  induction ds generalizing es with
  | nil =>
    cases es with
    | nil => rfl
    | cons y es => simpa using (h y).2 (by simp)
  | cons x ds ih =>
    cases es with
    | nil => simpa using (h x).1 (by simp)
    | cons y es =>
      rw [List.pairwise_cons] at hd he
      have hxy : x = y := by
        rcases List.mem_cons.1 ((h x).1 (by simp)) with hx | hx
        · exact hx
        rcases List.mem_cons.1 ((h y).2 (by simp)) with hy | hy
        · exact hy.symm
        exact absurd (String.lt_trans (he.1 x hx) (hd.1 y hy)) (String.lt_irrefl y)
      subst hxy
      congr 1
      refine ih hd.2 es he.2 fun z => ?_
      have hz := h z
      have notHead {l : List String} (hl : ∀ w ∈ l, x < w) : z ∈ l → z ≠ x := by
        rintro hzl rfl
        exact String.lt_irrefl z (hl z hzl)
      constructor
      · intro hzd
        exact (List.mem_cons.1 (hz.1 (List.mem_cons_of_mem x hzd))).resolve_left (notHead hd.1 hzd)
      · intro hze
        exact (List.mem_cons.1 (hz.2 (List.mem_cons_of_mem x hze))).resolve_left (notHead he.1 hze)

end DirtySet

end DocRepair

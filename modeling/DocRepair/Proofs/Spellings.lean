import DocRepair.Proofs.Described
/-!
# `DocRepair.Proofs.Spellings` — the two spellings of a list of changes

A list of changes is an object that maps each path to one operation and its value, or an array of
objects that name the three parts. Both come to the same checks on the same parts: they look at the
parts by name, so the order in which an object names them does not show, and the name of the
operation is replaced by its full name before they are made, so neither does which of its two names
was given.

## Contents

* `Change.Entry` / `Change.Spells` / `Change.Retagged` — the parts of a change, in either spelling
  and with either name;
* `Change.build_congr` / `Fields.get?_perm` — what the checks look at;
* `Change.ofEntry` — `Change.ofPair_entry` / `Change.ofItem_entry`: what both spellings come to;
* `Change.parse_spelled` — the spellings agree.
-/

namespace DocRepair

/-- Where no name is taken twice, the order of fields does not matter. -/
theorem Fields.get?_perm {fs gs : Fields} (perm : fs.Perm gs) (distinct : Distinct fs)
    (n : String) : get? fs n = get? gs n := by
  induction perm with
  | nil => rfl
  | cons f _ ih =>
    obtain ⟨k, v⟩ := f
    rw [get?, get?, ih (List.nodup_cons.1 distinct).2]
  | swap f g rest =>
    obtain ⟨k, v⟩ := f
    obtain ⟨l, w⟩ := g
    have apart : l ≠ k := fun same =>
      (List.nodup_cons.1 distinct).1 (same ▸ List.mem_cons_self)
    simp only [get?]
    by_cases own : l = n
    · rw [if_pos own, if_neg (own ▸ apart.symm), if_pos own]
    · rw [if_neg own, if_neg own]
  | trans first _ ih₁ ih₂ =>
    have names := first.map fun f : String × Value => f.1
    exact (ih₁ distinct).trans (ih₂ (names.nodup_iff.1 distinct))

namespace Change

variable {op : Operation}

/-! ## Parts of a change -/

/-- The parts of a change as they are given: a path, a name of an operation, and a value. -/
structure Entry where
  path : String
  tag : String
  value : Value

/-- The path mapped to the operation and its value. -/
def Entry.pair (e : Entry) : String × Value :=
  (e.path, .object [(e.tag, e.value)])

/-- The three parts by name. -/
def Entry.parts (e : Entry) : Fields :=
  [("path", .text e.path), ("operation", .text e.tag), ("value", e.value)]

/-- An object with the three parts, in any order. -/
def Spells (item : Value) (e : Entry) : Prop :=
  ∃ given, item = .object given ∧ given.Perm e.parts

/-- Entries that differ at most in which of its names an operation has. -/
def Retagged (e e' : Entry) : Prop :=
  e'.path = e.path ∧ e'.value = e.value ∧
    (e'.tag = e.tag ∨ ∃ op : Operation, e.tag ∈ [op.name, op.short] ∧ e'.tag ∈ [op.name, op.short])

theorem ofTag?_named {s : String} (named : s ∈ [op.name, op.short]) :
    Operation.ofTag? s = some op := by
  rcases List.mem_pair.1 named with rfl | rfl <;> cases op <;> rfl

/-! ## What the checks look at -/

theorem acceptFields_congr {entries : List (String × Shape × Option Value)} {g h : Fields}
    (same : ∀ e ∈ entries, Fields.get? g e.1 = Fields.get? h e.1) :
    Shape.acceptFields entries g = Shape.acceptFields entries h := by
  induction entries with
  | nil => rfl
  | cons e rest ih =>
    obtain ⟨name, shape, default⟩ := e
    have here : Fields.get? g name = Fields.get? h name := same _ List.mem_cons_self
    unfold Shape.acceptFields
    rw [here, ih fun e he => same e (List.mem_cons_of_mem _ he)]

/-- The names of the parts of a change. -/
def Known (fs : Fields) : Prop := ∀ f ∈ fs, (parts.map (·.1)).contains f.1 = true

theorem recordIssues_known {issues : List Issue} {fs : Fields} (known : Known fs) :
    Shape.recordIssues issues (parts.map (·.1)) fs = issues := by
  have none : ((fs.map (·.1)).filter fun name => !(parts.map (·.1)).contains name) = [] := by
    refine List.filter_eq_nil_iff.2 fun name among => ?_
    obtain ⟨f, hf, rfl⟩ := List.mem_map.1 among
    rw [known f hf]
    decide
  unfold Shape.recordIssues
  rw [none]
  exact List.append_nil issues

theorem Known.set {fs : Fields} (known : Known fs) (v : Value) :
    Known (Fields.set fs "operation" v) := by
  intro f among
  have name : f.1 ∈ Fields.names (Fields.set fs "operation" v) := List.mem_map.2 ⟨f, among, rfl⟩
  rw [Fields.names_set] at name
  split at name
  · obtain ⟨g, hg, same⟩ := List.mem_map.1 name
    exact same ▸ known g hg
  · rcases List.mem_append.1 name with before | new
    · obtain ⟨g, hg, same⟩ := List.mem_map.1 before
      exact same ▸ known g hg
    · rw [List.mem_singleton.1 new]
      decide

/-- Where there is nothing but the three parts, their order does not matter. -/
theorem build_congr {g h : Fields} (same : ∀ n, Fields.get? g n = Fields.get? h n)
    (left : Known g) (right : Known h) : build op g = build op h := by
  have still (n : String) : Fields.get? (Fields.set g "operation" (.text op.name)) n =
      Fields.get? (Fields.set h "operation" (.text op.name)) n := by
    by_cases own : n = "operation"
    · rw [own, Fields.get?_set_self, Fields.get?_set_self]
    · rw [Fields.get?_set_ne _ _ own, Fields.get?_set_ne _ _ own, same]
  have objections : issues (Fields.set g "operation" (.text op.name)) =
      issues (Fields.set h "operation" (.text op.name)) := by
    unfold issues
    rw [recordIssues_known (left.set _), recordIssues_known (right.set _), still,
      acceptFields_congr fun e _ => still e.1]
  unfold build
  dsimp only
  rw [objections, Fields.getD, Fields.getD, Fields.getD, Fields.getD, still, still]

/-! ## Entries -/

variable {e e' : Entry} {es es' : List Entry}

/-- The change that an entry describes, or why it describes none. -/
def ofEntry (e : Entry) : Except Fault Change := do
  build (← operationOf (.text e.tag) (.text e.path)) e.parts

theorem ofPair_entry (e : Entry) : ofPair e.pair.1 e.pair.2 = ofEntry e := by
  show (do
    let op ← operationOf (.text e.tag) (.text e.path)
    build op [("path", .text e.path), ("operation", .text op.name), ("value", e.value)]) = _
  unfold ofEntry
  cases operationOf (.text e.tag) (.text e.path) <;> rfl

theorem ofItem_entry {item : Value} (spells : Spells item e) : ofItem item = ofEntry e := by
  obtain ⟨given, rfl, perm⟩ := spells
  have distinct : Fields.Distinct e.parts := by
    show ["path", "operation", "value"].Nodup
    decide
  -- the parts are looked up by name, and the object has no names but theirs
  have same := Fields.get?_perm perm.symm distinct
  have known : Known e.parts := by
    intro f among
    simp only [Entry.parts, List.mem_cons, List.not_mem_nil, or_false] at among
    rcases among with rfl | rfl | rfl <;> rfl
  have read (op : Operation) : build op given = build op e.parts :=
    build_congr (fun n => (same n).symm) (fun f hf => known f (perm.mem_iff.1 hf)) known
  unfold ofItem ofEntry
  dsimp only
  rw [← same, ← same]
  show (do build (← operationOf (.text e.tag) (.text e.path)) given) = _
  simp only [read]

/-- Two names of one operation make no difference. -/
theorem ofEntry_retagged (retagged : Retagged e e') : ofEntry e' = ofEntry e := by
  obtain ⟨path, value, same | ⟨op, named, named'⟩⟩ := retagged
  · have equal : e' = e := by
      cases e
      cases e'
      cases path
      cases value
      cases same
      rfl
    rw [equal]
  · have known : operationOf (.text e.tag) (.text e.path) = .ok op := by
      unfold operationOf
      rw [Value.text?, Option.bind_some, ofTag?_named named]
    have known' : operationOf (.text e'.tag) (.text e'.path) = .ok op := by
      unfold operationOf
      rw [Value.text?, Option.bind_some, ofTag?_named named']
    unfold ofEntry
    rw [known, known']
    show build op e'.parts = build op e.parts
    -- the name that was given is overwritten by the full one
    unfold Entry.parts build
    rw [path, value]
    rfl

theorem parse_pairs (es : List Entry) : parse (.object (es.map Entry.pair)) = es.mapM ofEntry := by
  rw [parse_object, List.mapM_map]
  exact congrArg (es.mapM ·) (funext ofPair_entry)

theorem parse_items {items : List Value} (spelled : List.Forall₂ Spells items es) :
    parse (.array items) = es.mapM ofEntry := by
  rw [parse_array]
  induction spelled with
  | nil => rfl
  | cons here _ ih => rw [List.mapM_cons, List.mapM_cons, ofItem_entry here, ih]

/-- **The spellings agree.** Paths that are mapped to changes, and objects that name the parts of
    the same changes, are read as the same changes, or refused for the same reason. Which of its
    names an operation has makes no difference in either. -/
theorem parse_spelled {items : List Value} (spelled : List.Forall₂ Spells items es) :
    parse (.object (es.map Entry.pair)) = parse (.array items) ∧
      ∀ es' items', List.Forall₂ Retagged es es' → List.Forall₂ Spells items' es' →
        parse (.object (es'.map Entry.pair)) = parse (.object (es.map Entry.pair)) ∧
          parse (.array items') = parse (.array items) := by
  refine ⟨by rw [parse_pairs, parse_items spelled], fun es' items' retagged spelled' => ?_⟩
  have same : es'.mapM ofEntry = es.mapM ofEntry := by
    clear spelled spelled'
    induction retagged with
    | nil => rfl
    | cons here _ ih => rw [List.mapM_cons, List.mapM_cons, ofEntry_retagged here, ih]
  rw [parse_pairs, parse_pairs, parse_items spelled, parse_items spelled', same]
  exact ⟨rfl, rfl⟩

/-- The parts of the second change in another order, and its operation by its other name. -/
theorem parse_spelled_reordered :
    let es : List Entry := [⟨"a.b", "Set", .int 1⟩, ⟨"tags", "$push", .text "c"⟩]
    let es' : List Entry := [⟨"a.b", "$set", .int 1⟩, ⟨"tags", "Append", .text "c"⟩]
    let items : List Value := [.object (Entry.parts ⟨"a.b", "Set", .int 1⟩),
      .object [("value", .text "c"), ("operation", .text "$push"), ("path", .text "tags")]]
    List.Forall₂ Spells items es ∧ List.Forall₂ Retagged es es' ∧
      parse (.object (es.map Entry.pair)) = parse (.array items) ∧
      parse (.object (es'.map Entry.pair)) = parse (.object (es.map Entry.pair)) := by
  intro es es' items
  have spelled : List.Forall₂ Spells items es :=
    .cons ⟨_, rfl, .refl _⟩
      (.cons ⟨_, rfl, List.reverse_perm (Entry.parts ⟨"tags", "$push", .text "c"⟩)⟩ .nil)
  have spelled' : List.Forall₂ Spells (es'.map fun e => .object e.parts) es' :=
    .cons ⟨_, rfl, .refl _⟩ (.cons ⟨_, rfl, .refl _⟩ .nil)
  have retagged : List.Forall₂ Retagged es es' :=
    .cons ⟨rfl, rfl, .inr ⟨.set, by decide, by decide⟩⟩
      (.cons ⟨rfl, rfl, .inr ⟨.append, by decide, by decide⟩⟩ .nil)
  obtain ⟨agree, others⟩ := parse_spelled spelled
  exact ⟨spelled, retagged, agree, (others es' _ retagged spelled').1⟩

end Change

end DocRepair

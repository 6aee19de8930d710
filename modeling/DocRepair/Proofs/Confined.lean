import DocRepair.Proofs.Places
/-!
# `DocRepair.Proofs.Confined` — changes that stay below given fields

An edit goes from draft to draft by its three steps. Each step is confined to one field, and
confinement composes; so an edit is confined to the fields of its steps, whatever it does in
between.

Beside the fields goes the value by which a store knows the document. It is the identifier field
itself until that field is written; then it stays apart, and what stands in the field from then on
is an object identifier, or there was no identifier to be known by.

## Contents

* `Draft.Tracked` — how the known value of a draft and its identifier field hang together;
* `Confined` — `refl`, `trans`, `mono`, `among`: changes below given fields;
* `land_confined` / `drop_confined` / `setItems_confined` / `keepItems_confined` — the steps.
-/

namespace DocRepair

/-! ## The known value -/

/-- What a value that was written over tells of the field that held it: there was no value, or the
    field is still there, or it holds an object identifier. -/
def Succeeded (idField : String) (fs : Fields) (v : Value) : Prop :=
  v = .null ∨ (v = .absent ∧ Fields.has fs idField = true) ∨
    ∃ i, Fields.get? fs idField = some (.ident i)

/-- The known value is the identifier field itself, or a value that was written over in it. -/
def Draft.Tracked (idField : String) (d : Draft) : Prop :=
  d.known = .within [.field idField] ∨
    ∃ v, d.known = .apart v ∧ Succeeded idField d.doc.fields v

/-- The value by which a store knows a draft. -/
def Draft.knownValue (d : Draft) : Value := d.known.value d.doc

namespace Known

variable {idField n : String} {way : Location} {doc : Value}

theorem isPrefixOf_field (h : ¬(n = idField ∧ way = [])) :
    (Key.field n :: way).isPrefixOf [.field idField] = false := by
  rw [List.isPrefixOf_cons_cons, Bool.and_eq_false_iff]
  by_cases same : n = idField
  · refine .inr ?_
    obtain ⟨k, rest, rfl⟩ := List.exists_cons_of_ne_nil fun hw => h ⟨same, hw⟩
    rfl
  · refine .inl (beq_false_of_ne fun hk => same ?_)
    exact Key.field.inj hk

/-- A write elsewhere leaves the identifier field the known value. -/
theorem part_within (h : ¬(n = idField ∧ way = [])) :
    part doc (.field n :: way) (.within [.field idField]) = .within [.field idField] := by
  simp only [part, isPrefixOf_field h, Bool.false_eq_true, if_false]

/-- A write of the identifier field keeps apart what it held. -/
theorem part_identity :
    part doc [.field n] (.within [.field n]) = .apart ((doc.at? [.field n]).getD .null) := by
  have self : [Key.field n].isPrefixOf [.field n] = true := by
    rw [List.isPrefixOf_cons_cons, beq_self_eq_true]
    rfl
  simp only [part, self, if_true]

/-- Items of an array move about below a field; the identifier field does not move with them. -/
theorem rearrange_within {placeOf : Nat → Option Nat} :
    rearrange doc (.field n :: way) placeOf (.within [.field idField]) =
      .within [.field idField] := by
  by_cases h : n = idField ∧ way = []
  · obtain ⟨rfl, rfl⟩ := h
    have self : [Key.field n].isPrefixOf [.field n] = true := by
      rw [List.isPrefixOf_cons_cons, beq_self_eq_true]
      rfl
    simp only [rearrange, below?, self, if_true]
    rfl
  · simp only [rearrange, below?, isPrefixOf_field h, Bool.false_eq_true, if_false]

end Known

/-! ## Confinement -/

/-- A change of a draft that stays below the fields `tops`: all other fields are as they were, and
    the known value follows the identifier field, which is among `tops` if it was written. A known
    value that is no container stays what it is. -/
structure Confined (idField : String) (tops : List String) (d d' : Draft) : Prop where
  isObject : d'.doc.isObject = true
  same : ∀ name, name ∉ tops → Fields.get? d'.doc.fields name = Fields.get? d.doc.fields name
  distinct : Fields.Distinct d.doc.fields → Fields.Distinct d'.doc.fields
  tracked : d.Tracked idField → d'.Tracked idField
  known : d.known = .within [.field idField] →
    d'.known = .within [.field idField] ∨ idField ∈ tops
  steady : d.Tracked idField → d.knownValue.isContainer = false → d'.knownValue = d.knownValue

theorem Draft.doc_eq_object {d : Draft} (obj : d.doc.isObject = true) :
    d.doc = .object d.doc.fields := by
  cases h : d.doc with
  | object fs => rfl
  | _ => rw [h] at obj; cases obj

theorem Draft.knownValue_within {idField : String} {d : Draft} (obj : d.doc.isObject = true)
    (within : d.known = .within [.field idField]) :
    d.knownValue = Fields.getD d.doc.fields idField := by
  unfold Draft.knownValue
  rw [within, Draft.doc_eq_object obj]
  show ((Value.object d.doc.fields).at? [.field idField]).getD .null = _
  rw [Value.at?_field]
  rfl

theorem Draft.knownValue_apart {d : Draft} {v : Value} (apart : d.known = .apart v) :
    d.knownValue = v := by
  unfold Draft.knownValue
  rw [apart]
  rfl

namespace Confined

variable {idField n : String} {tops more : List String} {d d' e f : Draft}

/-- A change of the supply alone. -/
theorem of_supply (obj : d.doc.isObject = true) (supply : Supply) :
    Confined idField tops d { d with supply := supply } :=
  ⟨obj, fun _ _ => rfl, fun h => h, fun h => h, fun h => .inl h, fun _ _ => rfl⟩

theorem refl (obj : d.doc.isObject = true) : Confined idField tops d d :=
  of_supply obj d.supply

theorem mono (h : Confined idField tops d e) (sub : ∀ name ∈ tops, name ∈ more) :
    Confined idField more d e where
  isObject := h.isObject
  same name hname := h.same name fun hin => hname (sub name hin)
  distinct := h.distinct
  tracked := h.tracked
  known hk := (h.known hk).imp_right (sub idField)
  steady := h.steady

/-- A change below one field is one below any fields with it among them. -/
theorem among (h : Confined idField [n] d e) (hn : n ∈ more) : Confined idField more d e := by
  refine h.mono fun name hname => ?_
  rw [List.mem_singleton.1 hname]
  exact hn

theorem trans (h : Confined idField tops d e) (k : Confined idField tops e f) :
    Confined idField tops d f where
  isObject := k.isObject
  same name hname := (k.same name hname).trans (h.same name hname)
  distinct := fun hd => k.distinct (h.distinct hd)
  tracked := fun t => k.tracked (h.tracked t)
  known hk := by
    rcases h.known hk with hk | hin
    · exact k.known hk
    · exact .inr hin
  steady t leaf := by
    have first := h.steady t leaf
    rw [← first] at leaf
    exact (k.steady (h.tracked t) leaf).trans first

/-- A change below one field that is not a write of the whole identifier field. -/
theorem of_below {gs : Fields} (obj : d.doc.isObject = true) (hdoc : d'.doc = .object gs)
    (same : ∀ m, m ≠ n → Fields.get? gs m = Fields.get? d.doc.fields m)
    (distinct : Fields.Distinct d.doc.fields → Fields.Distinct gs)
    (has : Fields.has d.doc.fields idField = true → Fields.has gs idField = true)
    (leaf : Fields.Leaf d.doc.fields idField →
      Fields.get? gs idField = Fields.get? d.doc.fields idField)
    (within : d.known = .within [.field idField] → d'.known = .within [.field idField])
    (apart : ∀ v, d.known = .apart v → d'.known = .apart v) : Confined idField [n] d d' := by
  have obj' : d'.doc.isObject = true := by rw [hdoc]; rfl
  have hfields : d'.doc.fields = gs := by rw [hdoc]; rfl
  refine ⟨obj', fun name hname => ?_, fun hd => ?_, fun ht => ?_, fun hk => .inl (within hk),
    fun ht scalar => ?_⟩
  · rw [hfields]
    exact same name (by simpa using hname)
  · rw [hfields]
    exact distinct hd
  · rcases ht with hw | ⟨v, hv, after⟩
    · exact .inl (within hw)
    · refine .inr ⟨v, apart v hv, ?_⟩
      rw [hfields]
      rcases after with rfl | ⟨rfl, held⟩ | ⟨i, hi⟩
      · exact .inl rfl
      · exact .inr (.inl ⟨rfl, has held⟩)
      · -- Nothing lies below an object identifier.
        refine .inr (.inr ⟨i, (leaf fun c hc => ?_).trans hi⟩)
        rw [hi] at hc
        cases hc
        rfl
  · rcases ht with hw | ⟨v, hv, _⟩
    · rw [Draft.knownValue_within obj hw] at scalar ⊢
      rw [Draft.knownValue_within obj' (within hw), hfields, Fields.getD, Fields.getD,
        leaf (Fields.leaf_of_getD scalar)]
    · rw [Draft.knownValue_apart hv, Draft.knownValue_apart (apart v hv)]

/-- A write of the whole identifier field keeps apart what it held. -/
theorem of_whole {gs : Fields} (obj : d.doc.isObject = true) (hdoc : d'.doc = .object gs)
    (same : ∀ m, m ≠ idField → Fields.get? gs m = Fields.get? d.doc.fields m)
    (distinct : Fields.Distinct d.doc.fields → Fields.Distinct gs)
    (within : d.known = .within [.field idField] →
      d'.known = .apart (Fields.getD d.doc.fields idField) ∧
        Succeeded idField gs (Fields.getD d.doc.fields idField))
    (apart : ∀ v, d.known = .apart v → Succeeded idField d.doc.fields v →
      d'.known = .apart v ∧ Succeeded idField gs v) : Confined idField [idField] d d' := by
  have obj' : d'.doc.isObject = true := by rw [hdoc]; rfl
  have hfields : d'.doc.fields = gs := by rw [hdoc]; rfl
  refine ⟨obj', fun name hname => ?_, fun hd => ?_, fun ht => ?_, fun hk => ?_, fun ht _ => ?_⟩
  · rw [hfields]
    exact same name (by simpa using hname)
  · rw [hfields]
    exact distinct hd
  · unfold Draft.Tracked
    rw [hfields]
    rcases ht with hw | ⟨v, hv, after⟩
    · exact .inr ⟨_, within hw⟩
    · exact .inr ⟨v, apart v hv after⟩
  · exact .inr (by simp)
  · rcases ht with hw | ⟨v, hv, after⟩
    · rw [Draft.knownValue_within obj hw, Draft.knownValue_apart (within hw).1]
    · rw [Draft.knownValue_apart hv, Draft.knownValue_apart (apart v hv after).1]

end Confined

/-! ## The steps -/

namespace Edit

variable {idField n : String} {way : Location} {p : Place} {d d' : Draft}

/-- **A write is confined to the field that it starts with.** Only an identifier may be written to
    the identifier field itself, or anything if there is nothing yet. -/
theorem land_confined {l : Landing} {v : Value} {u : Unit} (obj : d.doc.isObject = true)
    (hway : l.place.way = .field n :: way)
    (hid : n = idField → way = [] →
      (l.below = [] ∧ ∃ i, v = .ident i) ∨ Path.present (Fields.get? d.doc.fields n) = none)
    (run : land l v d = .ok u d') : Confined idField [n] d d' := by
  obtain ⟨doc, put, rfl⟩ := land_ok.1 run
  have hobj := Draft.doc_eq_object obj
  unfold Landing.put at put
  rw [hobj] at put
  obtain ⟨gs, rfl, written⟩ := Place.put_object hway put
  have knownAfter : (d.part l.place).known = d.known.part d.doc (.field n :: way) := by
    rw [← hway]; rfl
  have parted (w : Value) (apart : d.known = .apart w) : (d.part l.place).known = .apart w := by
    rw [knownAfter, apart]
    rfl
  by_cases own : n = idField ∧ way = []
  · -- The identifier field itself is written: what it held is kept apart from here on.
    obtain ⟨rfl, rfl⟩ := own
    cases Place.put_field hway put
    have identifier {i : ObjectId} (plain : l.below = []) (hv : v = .ident i) :
        Fields.get? (Fields.set d.doc.fields n (Landing.nest l.below v)) n = some (.ident i) := by
      rw [plain, hv]
      exact Fields.get?_set_self d.doc.fields n _
    have held : Fields.has (Fields.set d.doc.fields n (Landing.nest l.below v)) n = true := by
      unfold Fields.has
      rw [Fields.get?_set_self]
      rfl
    refine .of_whole obj rfl (fun _ hm => written.same hm) written.distinct (fun within => ?_)
      fun w apart after => ⟨parted w apart, ?_⟩
    · rw [within, Known.part_identity, hobj, Value.at?_field] at knownAfter
      refine ⟨knownAfter, ?_⟩
      rcases hid rfl rfl with ⟨plain, i, hv⟩ | nothing
      · exact .inr (.inr ⟨i, identifier plain hv⟩)
      · -- There was no identifier to be known by.
        exact (Path.getD_of_nothing nothing).imp_right fun absent => .inl ⟨absent, held⟩
    · rcases after with rfl | ⟨rfl, _⟩ | ⟨i, hi⟩
      · exact .inl rfl
      · exact .inr (.inl ⟨rfl, held⟩)
      · rcases hid rfl rfl with ⟨plain, j, hv⟩ | nothing
        · exact .inr (.inr ⟨j, identifier plain hv⟩)
        · rw [hi] at nothing
          cases nothing
  · refine .of_below obj rfl (fun _ hm => written.same hm) written.distinct written.has
      (fun leaf => Place.put_leaf leaf hway own put) (fun within => ?_) parted
    rw [within, Known.part_within own] at knownAfter
    exact knownAfter

/-- A removal of something other than the identifier field leaves the known value where it is. -/
theorem close_within (hway : p.way = .field n :: way) (other : ¬(n = idField ∧ way = []))
    (within : d.known = .within [.field idField]) :
    (d.close p).known = .within [.field idField] := by
  unfold Draft.close
  rcases Place.way_field hway with ⟨rfl, rfl⟩ | ⟨container, hp, _⟩
  · show d.known.part d.doc [.field n] = _
    rw [within]
    exact Known.part_within other
  · rw [hp]
    cases p.key with
    | field name =>
      show d.known.part d.doc (.field n :: (container ++ [.field name])) = _
      rw [within]
      exact Known.part_within fun h => absurd h.2 (by simp)
    | index i =>
      dsimp only
      rw [within]
      exact Known.rearrange_within

theorem close_apart {w : Value} (apart : d.known = .apart w) :
    (d.close p).known = .apart w := by
  unfold Draft.close
  cases p.key with
  | field name =>
    show d.known.part d.doc p.way = _
    rw [apart]
    rfl
  | index i =>
    dsimp only
    rw [apart]
    rfl

/-- **A removal is confined to the field that it starts with.** The identifier field itself must not
    be removed. -/
theorem drop_confined {v : Option Value} (obj : d.doc.isObject = true)
    (hway : p.way = .field n :: way) (other : ¬(n = idField ∧ way = []))
    (run : drop p d = .ok v d') : Confined idField [n] d d' := by
  unfold drop at run
  split at run
  · cases run
    have hobj := Draft.doc_eq_object obj
    obtain ⟨gs, hgs, change⟩ := Place.drop_object d.doc.fields hway
    have docAfter : p.drop d.doc = .object gs := by rw [hobj]; exact hgs
    have same : ∀ m, m ≠ n → Fields.get? gs m = Fields.get? d.doc.fields m := by
      intro m hm
      rcases change with written | ⟨_, rfl⟩
      · exact written.same hm
      · exact Fields.get?_erase_ne _ hm
    have distinct (hd : Fields.Distinct d.doc.fields) : Fields.Distinct gs := by
      rcases change with written | ⟨_, rfl⟩
      · exact written.distinct hd
      · exact hd.erase n
    have leaf (hl : Fields.Leaf d.doc.fields idField) :
        Fields.get? gs idField = Fields.get? d.doc.fields idField := by
      have kept := Place.drop_leaf hl hway other
      rw [hgs] at kept
      exact kept
    refine .of_below obj docAfter same distinct (fun held => ?_) leaf (close_within hway other)
      fun w => close_apart
    rcases change with written | ⟨whole, rfl⟩
    · exact written.has held
    · -- Another field was removed.
      have apartField : idField ≠ n := fun h => other ⟨h.symm, whole⟩
      unfold Fields.has
      rw [same idField apartField]
      exact held
  · cases run
    exact .refl obj

/-- New items for an array are confined to the field that leads to it, if the known value stays. -/
theorem replaceAt_confined {xs : List Value} {items : Value} {known : Known}
    (obj : d.doc.isObject = true) (hway : p.way = .field n :: way)
    (held : p.value? d.doc = some (.array xs))
    (within : d.known = .within [.field idField] → known = d.known)
    (apart : ∀ w, d.known = .apart w → known = d.known) :
    Confined idField [n] d { d with doc := d.doc.replaceAt p.way items, known := known } := by
  have hobj := Draft.doc_eq_object obj
  obtain ⟨gs, hgs, written⟩ := Value.replaceAt_object d.doc.fields n way items
  have docAfter : d.doc.replaceAt p.way items = .object gs := by rw [hobj, hway]; exact hgs
  refine .of_below obj docAfter (fun _ hm => written.same hm) written.distinct written.has
    (fun leaf => ?_) (fun hw => (within hw).trans hw) fun w hw => (apart w hw).trans hw
  -- The place holds an array, so it is not that of an identifier which is no container.
  have other : ¬(n = idField ∧ way = []) := by
    rintro ⟨rfl, rfl⟩
    rw [Place.value?_eq, hway, hobj, Value.at?_field] at held
    cases leaf _ held
  have kept := Value.replaceAt_leaf leaf other items
  rw [hgs] at kept
  exact kept

theorem setItems_confined {xs items : List Value} {u : Unit} (obj : d.doc.isObject = true)
    (hway : p.way = .field n :: way) (held : p.value? d.doc = some (.array xs))
    (run : setItems p items d = .ok u d') : Confined idField [n] d d' := by
  cases run
  exact replaceAt_confined obj hway held (fun _ => rfl) fun _ _ => rfl

theorem keepItems_confined {xs items : List Value} {stays : Nat → Bool} {u : Unit}
    (obj : d.doc.isObject = true) (hway : p.way = .field n :: way)
    (held : p.value? d.doc = some (.array xs))
    (run : keepItems p items stays d = .ok u d') : Confined idField [n] d d' := by
  cases run
  refine replaceAt_confined obj hway held (fun within => ?_) fun w apart => ?_
  · rw [hway, within]
    exact Known.rearrange_within
  · rw [apart]
    rfl

end Edit

end DocRepair

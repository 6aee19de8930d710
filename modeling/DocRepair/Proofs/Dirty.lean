import DocRepair.Edit.Duplicates
import DocRepair.Edit.Query
import DocRepair.Proofs.Confined
/-!
# `DocRepair.Proofs.Dirty` — the fields that an edit reports are all that it touches

A store writes only the fields that an edit reports. Every edit that goes by paths reports, for each
path that it wrote through, the first segment; and it was confined to just that field.

## Contents

* `write_confined` — a write to a path;
* `applyChanges_confined` / `deleteFields_confined` / `move_confined` / … — one lemma an edit;
* `PathEdit` — the edits that go by paths, with their arguments;
* `PathEdit.unreported_untouched` — a field that is not reported is as it was.
-/

namespace DocRepair

namespace Edit

variable {idField n : String} {rest : List String} {d d' : Draft} {dirty : DirtySet}

/-! ## Parts of edits -/

theorem touched_ok {path : Value} (run : touched path d = .ok dirty d') :
    ∃ n rest, Path.split path = .ok (n :: rest) ∧ dirty.fields = [n] ∧ d = d' := by
  obtain ⟨touch, rfl⟩ := lift_ok.1 run
  obtain ⟨n, rest, hsplit, rfl⟩ := DirtySet.touch_ok touch
  exact ⟨n, rest, hsplit, rfl, rfl⟩

/-- What keeps the identifier field as it is lets only other paths through. -/
theorem keepIdentity_ok {verb : String} {path : Value} {u : Unit}
    (run : keepIdentity idField verb path = .ok u) : Path.split path ≠ .ok [idField] := by
  intro hsplit
  simp only [keepIdentity, isIdentity, hsplit] at run
  simp [bind, Except.bind, fail] at run

theorem guardIdentity_ok {op : Operation} {path : Value} {u : Unit}
    (run : guardIdentity idField op path = .ok u) : Path.split path ≠ .ok [idField] := by
  intro hsplit
  simp only [guardIdentity, isIdentity, hsplit] at run
  simp [bind, Except.bind, fail] at run

/-- A value found at a path lies below the first segment of the path. -/
theorem target_ok {path : Value} {p : Place} {v : Value} (obj : d.doc.isObject = true)
    (run : target? idField path d = .ok (some (p, v)) d') :
    d = d' ∧ p.value? d.doc = some v ∧
      ∃ n rest way, Path.split path = .ok (n :: rest) ∧ p.way = .field n :: way := by
  obtain ⟨found, rfl⟩ := look_ok.1 run
  obtain ⟨place, hplace, found⟩ := bind_eq_ok.1 found
  cases place with
  | none => cases found
  | some q =>
    cases held : q.value? d.doc with
    | none => simp [held] at found
    | some w =>
      simp only [Option.bind_some, held, Option.map_some, Except.ok.injEq, Option.some.injEq,
        Prod.mk.injEq] at found
      obtain ⟨rfl, rfl⟩ := found
      rw [Draft.doc_eq_object obj] at hplace
      obtain ⟨n, rest, way, hsplit, hway, _⟩ := Path.resolve_way hplace
      exact ⟨rfl, held, n, rest, way, hsplit, hway⟩

theorem array_ok {path : Value} {p : Place} {xs : List Value} (obj : d.doc.isObject = true)
    (run : array idField path d = .ok (p, xs) d') :
    d = d' ∧ p.value? d.doc = some (.array xs) ∧
      ∃ n rest way, Path.split path = .ok (n :: rest) ∧ p.way = .field n :: way := by
  obtain ⟨target, e, htarget, run⟩ := run_bind_ok.1 run
  split at run
  · obtain ⟨heq, rfl⟩ := run_pure_ok.1 run
    cases heq
    exact target_ok obj htarget
  · exact absurd (lift_ok.1 run).1 failShowing_ne_ok

/-- **A write to a path is confined to its first segment.** The identifier field itself may only be
    given an identifier, or anything if there is nothing yet. -/
theorem write_confined {limit : Option Int} {path v : Value} {u : Unit}
    (obj : d.doc.isObject = true)
    (guarded : Path.split path ≠ .ok [idField] ∨ (∃ i, v = .ident i) ∨
      Path.present (Fields.get? d.doc.fields idField) = none)
    (run : write limit path v d = .ok u d') :
    ∃ n rest, Path.split path = .ok (n :: rest) ∧ Confined idField [n] d d' := by
  obtain ⟨l, hl, run⟩ := write_ok.1 run
  rw [Draft.doc_eq_object obj] at hl
  obtain ⟨n, rest, way, hsplit, hway, whole⟩ := Path.landing_way hl
  refine ⟨n, rest, hsplit, land_confined obj hway ?_ run⟩
  rintro rfl hw
  rcases whole hw with ⟨rfl, plain⟩ | nothing
  · exact (guarded.resolve_left fun h => h hsplit).imp_left fun hv => ⟨plain, hv⟩
  · exact .inr nothing

/-! ## Changes -/

theorem append_confined {path v : Value} {u : Unit} (obj : d.doc.isObject = true)
    (other : Path.split path ≠ .ok [idField]) (run : append idField path v d = .ok u d') :
    ∃ n rest, Path.split path = .ok (n :: rest) ∧ Confined idField [n] d d' := by
  obtain ⟨place, e, resolved, run⟩ := run_bind_ok.1 run
  obtain ⟨hplace, rfl⟩ := look_ok.1 resolved
  obtain ⟨target, e, found, run⟩ := run_bind_ok.1 run
  obtain ⟨htarget, rfl⟩ := look_ok.1 found
  cases htarget
  cases place with
  | none => exact write_confined obj (.inl other) run
  | some p =>
    have target : Path.valueAt? d.doc (some p) = p.value? d.doc := rfl
    cases held : p.value? d.doc with
    | none =>
      rw [target, held] at run
      exact write_confined obj (.inl other) run
    | some w =>
      rw [target, held] at run
      cases w with
      | array xs =>
        rw [Draft.doc_eq_object obj] at hplace
        obtain ⟨n, rest, way, hsplit, hway, _⟩ := Path.resolve_way hplace
        exact ⟨n, rest, hsplit, setItems_confined obj hway held run⟩
      | _ => exact absurd (lift_ok.1 run).1 failShowing_ne_ok

/-- Each operation is confined to the first segment of its path. -/
theorem applyOperation_confined {op : Operation} {path v : Value} {u : Unit}
    (obj : d.doc.isObject = true) (run : applyOperation idField op path v d = .ok u d') :
    ∃ n rest, Path.split path = .ok (n :: rest) ∧ Confined idField [n] d d' := by
  cases op with
  | set =>
    obtain ⟨_, e, checked, run⟩ := run_bind_ok.1 run
    obtain ⟨guard, rfl⟩ := lift_ok.1 checked
    exact write_confined obj (.inl (guardIdentity_ok guard)) run
  | setIdentifier =>
    obtain ⟨id, e, converted, run⟩ := run_bind_ok.1 run
    obtain ⟨_, rfl⟩ := lift_ok.1 converted
    exact write_confined obj (.inr (.inl ⟨id, rfl⟩)) run
  | setStatus =>
    obtain ⟨_, e, checked, run⟩ := run_bind_ok.1 run
    obtain ⟨guard, rfl⟩ := lift_ok.1 checked
    obtain ⟨t, e, ticked, run⟩ := run_bind_ok.1 run
    cases ticked
    have later : Confined idField [] d { d with supply := d.supply.tick.2 } := .of_supply obj _
    obtain ⟨n, rest, hsplit, wrote⟩ :=
      write_confined later.isObject (.inl (guardIdentity_ok guard)) run
    exact ⟨n, rest, hsplit, (later.mono fun _ h => absurd h List.not_mem_nil).trans wrote⟩
  | append =>
    obtain ⟨_, e, checked, run⟩ := run_bind_ok.1 run
    obtain ⟨guard, rfl⟩ := lift_ok.1 checked
    exact append_confined obj (guardIdentity_ok guard) run

/-- **Changes are confined to the fields they report**, and report those touched before. -/
theorem applyFrom_confined {applied : Nat} {before : DirtySet} {changes : List Change}
    (obj : d.doc.isObject = true)
    (run : applyFrom idField applied before changes d = .ok dirty d') :
    (∀ x ∈ before.fields, x ∈ dirty.fields) ∧ Confined idField dirty.fields d d' := by
  induction changes generalizing applied before d with
  | nil =>
    obtain ⟨rfl, rfl⟩ := run_pure_ok.1 run
    exact ⟨fun _ h => h, .refl obj⟩
  | cons c rest ih =>
    unfold applyFrom at run
    split at run
    · cases run
    · rename_i u e applied
      split at run
      · cases run
      · rename_i more touch
        obtain ⟨n, names, hsplit, change⟩ := applyOperation_confined obj applied
        obtain ⟨m, _, hm, rfl⟩ := DirtySet.touch_ok touch
        obtain ⟨rfl, _⟩ : n = m ∧ _ := by simpa [hsplit] using hm
        obtain ⟨sub, others⟩ := ih change.isObject run
        refine ⟨fun x hx => sub x (DirtySet.mem_insert.2 (.inr hx)), ?_⟩
        exact (change.among (sub n (DirtySet.mem_insert.2 (.inl rfl)))).trans others

theorem applyChanges_confined {changes : List Change} (obj : d.doc.isObject = true)
    (run : applyChanges idField changes d = .ok dirty d') :
    Confined idField dirty.fields d d' :=
  (applyFrom_confined obj run).2

theorem applyRaw_confined {raw : Value} (obj : d.doc.isObject = true)
    (run : applyRaw idField raw d = .ok dirty d') : Confined idField dirty.fields d d' := by
  obtain ⟨changes, e, parsed, run⟩ := run_bind_ok.1 run
  obtain ⟨_, rfl⟩ := lift_ok.1 parsed
  exact applyChanges_confined obj run

/-! ## Removing and moving -/

/-- The place of a path that is not the identifier field is neither. -/
theorem place_ok {path : Value} {p : Place} (obj : d.doc.isObject = true)
    (other : Path.split path ≠ .ok [idField])
    (found : Path.resolve idField d.doc path .null = .ok (some p)) :
    ∃ n rest way, Path.split path = .ok (n :: rest) ∧ p.way = .field n :: way ∧
      ¬(n = idField ∧ way = []) := by
  rw [Draft.doc_eq_object obj] at found
  obtain ⟨n, rest, way, hsplit, hway, whole⟩ := Path.resolve_way found
  refine ⟨n, rest, way, hsplit, hway, ?_⟩
  rintro ⟨rfl, hw⟩
  rw [whole hw] at hsplit
  exact other hsplit

theorem deleteField_confined {path : Value} {u : Unit} (obj : d.doc.isObject = true)
    (hsplit : Path.split path = .ok (n :: rest)) (run : deleteField idField path d = .ok u d') :
    Confined idField [n] d d' := by
  obtain ⟨_, e, checked, run⟩ := run_bind_ok.1 run
  obtain ⟨guard, rfl⟩ := lift_ok.1 checked
  obtain ⟨place, e, resolved, run⟩ := run_bind_ok.1 run
  obtain ⟨hplace, rfl⟩ := look_ok.1 resolved
  cases place with
  | none =>
    obtain ⟨_, rfl⟩ := run_pure_ok.1 run
    exact .refl obj
  | some p =>
    obtain ⟨m, names, way, hm, hway, other⟩ := place_ok obj (keepIdentity_ok guard) hplace
    obtain ⟨rfl, _⟩ : n = m ∧ _ := by simpa [hsplit] using hm
    obtain ⟨v, e, dropped, run⟩ := run_bind_ok.1 run
    obtain ⟨_, rfl⟩ := run_pure_ok.1 run
    exact drop_confined obj hway other dropped

theorem deleteFrom_confined {before : DirtySet} {paths : List Value} (obj : d.doc.isObject = true)
    (run : deleteFrom idField before paths d = .ok dirty d') :
    (∀ x ∈ before.fields, x ∈ dirty.fields) ∧ Confined idField dirty.fields d d' := by
  induction paths generalizing before d with
  | nil =>
    obtain ⟨rfl, rfl⟩ := run_pure_ok.1 run
    exact ⟨fun _ h => h, .refl obj⟩
  | cons path rest ih =>
    obtain ⟨_, e, deleted, run⟩ := run_bind_ok.1 run
    obtain ⟨more, f, touched, run⟩ := run_bind_ok.1 run
    obtain ⟨touch, rfl⟩ := lift_ok.1 touched
    obtain ⟨n, names, hsplit, rfl⟩ := DirtySet.touch_ok touch
    have change := deleteField_confined obj hsplit deleted
    obtain ⟨sub, others⟩ := ih change.isObject run
    refine ⟨fun x hx => sub x (DirtySet.mem_insert.2 (.inr hx)), ?_⟩
    exact (change.among (sub n (DirtySet.mem_insert.2 (.inl rfl)))).trans others

/-- **Deletions are confined to the fields they report.** -/
theorem deleteFields_confined {paths : Value} (obj : d.doc.isObject = true)
    (run : deleteFields idField paths d = .ok dirty d') : Confined idField dirty.fields d d' := by
  obtain ⟨members, e, listed, run⟩ := run_bind_ok.1 run
  obtain ⟨_, rfl⟩ := lift_ok.1 listed
  exact (deleteFrom_confined obj run).2

theorem take_confined {source : Value} {start : Option Place} {v : Option Value}
    (obj : d.doc.isObject = true) (hsplit : Path.split source = .ok (n :: rest))
    (other : Path.split source ≠ .ok [idField])
    (found : Path.resolve idField d.doc source .null = .ok start)
    (run : take start d = .ok v d') : Confined idField [n] d d' := by
  cases start with
  | none =>
    obtain ⟨_, rfl⟩ := run_pure_ok.1 run
    exact .refl obj
  | some p =>
    obtain ⟨m, names, way, hm, hway, apart⟩ := place_ok obj other found
    obtain ⟨rfl, _⟩ : n = m ∧ _ := by simpa [hsplit] using hm
    exact drop_confined obj hway apart run

/-- A tracked value never lies at the place of another path, so it is never moved with it. -/
theorem knownIn_tracked {source : Value} {start : Option Place} {known : Option Location}
    (obj : d.doc.isObject = true) (other : Path.split source ≠ .ok [idField])
    (found : Path.resolve idField d.doc source .null = .ok start)
    (run : knownIn start d = .ok known d') (ht : d.Tracked idField) : known = none := by
  cases start with
  | none => exact (run_pure_ok.1 run).1.symm
  | some p =>
    obtain ⟨n, _, way, _, hway, apart⟩ := place_ok obj other found
    cases run
    rw [hway]
    rcases ht with within | ⟨v, separate, _⟩
    · simp only [within, Known.below?, Known.isPrefixOf_field apart, Bool.false_eq_true, if_false]
    · rw [separate]
      rfl

/-- **A move is confined to the two fields it reports.** -/
theorem move_confined {source target : Value} (obj : d.doc.isObject = true)
    (run : move idField source target d = .ok dirty d') : Confined idField dirty.fields d d' := by
  obtain ⟨_, e, checked, run⟩ := run_bind_ok.1 run
  obtain ⟨guardSource, rfl⟩ := lift_ok.1 checked
  obtain ⟨_, e, checked, run⟩ := run_bind_ok.1 run
  obtain ⟨guardTarget, rfl⟩ := lift_ok.1 checked
  obtain ⟨one, e, touched, run⟩ := run_bind_ok.1 run
  obtain ⟨touchSource, rfl⟩ := lift_ok.1 touched
  obtain ⟨two, e, touched, run⟩ := run_bind_ok.1 run
  obtain ⟨touchTarget, rfl⟩ := lift_ok.1 touched
  obtain ⟨n, rest, hsource, rfl⟩ := DirtySet.touch_ok touchSource
  obtain ⟨m, more, htarget, rfl⟩ := DirtySet.touch_ok touchTarget
  obtain ⟨start, e, resolved, run⟩ := run_bind_ok.1 run
  obtain ⟨hstart, rfl⟩ := look_ok.1 resolved
  obtain ⟨known, e, located, run⟩ := run_bind_ok.1 run
  obtain rfl : d = e := by
    cases start with
    | none => exact (run_pure_ok.1 located).2
    | some p => cases located; rfl
  obtain ⟨v, e, taken, run⟩ := run_bind_ok.1 run
  have sourceIn : n ∈ ((DirtySet.insert ∅ n).insert m).fields :=
    DirtySet.mem_insert.2 (.inr (DirtySet.mem_insert.2 (.inl rfl)))
  have targetIn : m ∈ ((DirtySet.insert ∅ n).insert m).fields :=
    DirtySet.mem_insert.2 (.inl rfl)
  have emptied :=
    (take_confined obj hsource (keepIdentity_ok guardSource) hstart taken).among sourceIn
  split at run
  · obtain ⟨rfl, rfl⟩ := run_pure_ok.1 run; exact emptied
  · obtain ⟨rfl, rfl⟩ := run_pure_ok.1 run; exact emptied
  · obtain ⟨rfl, rfl⟩ := run_pure_ok.1 run; exact emptied
  · rename_i w _ _
    obtain ⟨place, f, resolved, run⟩ := run_bind_ok.1 run
    obtain ⟨hplace, rfl⟩ := look_ok.1 resolved
    cases place with
    | none =>
      obtain ⟨rfl, rfl⟩ := run_pure_ok.1 run
      exact emptied
    | some p =>
      obtain ⟨_, f, wrote, run⟩ := run_bind_ok.1 run
      obtain ⟨m', _, way, hm, hway, apart⟩ :=
        place_ok emptied.isObject (keepIdentity_ok guardTarget) hplace
      obtain ⟨rfl, _⟩ : m = m' ∧ _ := by simpa [htarget] using hm
      have filled :=
        land_confined emptied.isObject hway (fun hn hw => absurd ⟨hn, hw⟩ apart) wrote
      have whole := emptied.trans (filled.among targetIn)
      cases known with
      | none =>
        obtain ⟨rfl, rfl⟩ := run_pure_ok.1 run
        exact whole
      | some rest =>
        -- Only a value that is not tracked is followed to its new place.
        obtain ⟨_, g, followed, run⟩ := run_bind_ok.1 run
        obtain ⟨rfl, rfl⟩ := run_pure_ok.1 run
        cases followed
        have untracked : ¬ d.Tracked idField := fun ht =>
          absurd (knownIn_tracked obj (keepIdentity_ok guardSource) hstart located ht) (by simp)
        exact ⟨whole.isObject, whole.same, whole.distinct, fun ht => absurd ht untracked,
          fun hk => absurd (.inl hk) untracked, fun ht => absurd ht untracked⟩

theorem moveFrom_confined {before : DirtySet} {moves : List Move} (obj : d.doc.isObject = true)
    (run : moveFrom idField before moves d = .ok dirty d') :
    (∀ x ∈ before.fields, x ∈ dirty.fields) ∧ Confined idField dirty.fields d d' := by
  induction moves generalizing before d with
  | nil =>
    obtain ⟨rfl, rfl⟩ := run_pure_ok.1 run
    exact ⟨fun _ h => h, .refl obj⟩
  | cons m rest ih =>
    obtain ⟨more, e, moved, run⟩ := run_bind_ok.1 run
    have change := move_confined obj moved
    obtain ⟨sub, others⟩ := ih change.isObject run
    refine ⟨fun x hx => sub x (DirtySet.mem_union.2 (.inl hx)), ?_⟩
    exact (change.mono fun x hx => sub x (DirtySet.mem_union.2 (.inr hx))).trans others

/-- **Moves are confined to the fields they report.** -/
theorem moveAll_confined {moves : List Move} (obj : d.doc.isObject = true)
    (run : moveAll idField moves d = .ok dirty d') : Confined idField dirty.fields d d' :=
  (moveFrom_confined obj run).2

/-! ## Arrays -/

/-- What reports the first segment of a path is confined to what it reports, if it is confined to
    that segment. -/
theorem Confined.report {path : Value} {e : Draft} {names : List String}
    (hsplit : Path.split path = .ok (n :: names)) (h : Confined idField [n] d e)
    (run : touched path e = .ok dirty d') : Confined idField dirty.fields d d' := by
  obtain ⟨m, _, hm, hdirty, rfl⟩ := touched_ok run
  obtain ⟨rfl, _⟩ : n = m ∧ _ := by simpa [hsplit] using hm
  rw [hdirty]
  exact h

theorem push_confined {path v ids : Value} (obj : d.doc.isObject = true)
    (run : push idField path v ids d = .ok dirty d') : Confined idField dirty.fields d d' := by
  obtain ⟨target, e, found, run⟩ := run_bind_ok.1 run
  split at run
  · obtain ⟨rfl, held, n, names, way, hsplit, hway⟩ := target_ok obj found
    obtain ⟨item, f, converted, run⟩ := run_bind_ok.1 run
    obtain ⟨_, rfl⟩ := lift_ok.1 converted
    obtain ⟨_, f, added, run⟩ := run_bind_ok.1 run
    exact Confined.report hsplit (setItems_confined obj hway held added) run
  · obtain ⟨_, rfl⟩ := look_ok.1 found
    obtain ⟨rfl, rfl⟩ := run_pure_ok.1 run
    exact .refl obj

theorem inject_confined {language path ids data : Value} (obj : d.doc.isObject = true)
    (run : inject idField language path ids data d = .ok dirty d') :
    Confined idField dirty.fields d d' := by
  obtain ⟨names, e, segments, run⟩ := run_bind_ok.1 run
  obtain ⟨hsplit, rfl⟩ := lift_ok.1 segments
  obtain ⟨wanted, e, selected, run⟩ := run_bind_ok.1 run
  obtain ⟨_, rfl⟩ := lift_ok.1 selected
  obtain ⟨n, rest, rfl⟩ := Path.split_cons hsplit
  split at run
  · cases (lift_ok.1 run).1
  · obtain ⟨place, e, resolved, run⟩ := run_bind_ok.1 run
    obtain ⟨hplace, rfl⟩ := look_ok.1 resolved
    obtain ⟨target, e, found, run⟩ := run_bind_ok.1 run
    obtain ⟨htarget, rfl⟩ := look_ok.1 found
    cases htarget
    cases place with
    | none =>
      obtain ⟨rfl, rfl⟩ := run_pure_ok.1 run
      exact .refl obj
    | some p =>
      rw [Draft.doc_eq_object obj] at hplace
      obtain ⟨way, hway, _⟩ := Path.resolveFrom_way hplace
      cases held : p.value? d.doc with
      | none =>
        simp only [Path.valueAt?, Option.bind_some, held] at run
        obtain ⟨rfl, rfl⟩ := run_pure_ok.1 run
        exact .refl obj
      | some w =>
        simp only [Path.valueAt?, Option.bind_some, held] at run
        cases w with
        | array xs =>
          obtain ⟨items, f, listed, run⟩ := run_bind_ok.1 run
          obtain ⟨_, rfl⟩ := lift_ok.1 listed
          obtain ⟨_, f, added, run⟩ := run_bind_ok.1 run
          obtain ⟨rfl, rfl⟩ := run_pure_ok.1 run
          exact setItems_confined obj hway held added
        | _ =>
          obtain ⟨rfl, rfl⟩ := run_pure_ok.1 run
          exact .refl obj

theorem duplicate_confined {path : Value} {count : Nat} (obj : d.doc.isObject = true)
    (run : duplicate idField path d = .ok (dirty, count) d') :
    Confined idField dirty.fields d d' := by
  obtain ⟨⟨p, xs⟩, e, found, run⟩ := run_bind_ok.1 run
  obtain ⟨rfl, held, n, names, way, hsplit, hway⟩ := array_ok obj found
  obtain ⟨_, f, added, run⟩ := run_bind_ok.1 run
  obtain ⟨reported, g, touch, run⟩ := run_bind_ok.1 run
  obtain ⟨heq, rfl⟩ := run_pure_ok.1 run
  cases heq
  exact Confined.report hsplit (setItems_confined obj hway held added) touch

theorem removeDuplicates_confined {path keyField : Value} {report : Fields}
    (obj : d.doc.isObject = true)
    (run : removeDuplicates idField path keyField d = .ok (dirty, report) d') :
    Confined idField dirty.fields d d' := by
  obtain ⟨⟨p, xs⟩, e, found, run⟩ := run_bind_ok.1 run
  obtain ⟨rfl, held, n, names, way, hsplit, hway⟩ := array_ok obj found
  obtain ⟨key, f, keyed, run⟩ := run_bind_ok.1 run
  obtain ⟨_, rfl⟩ := lift_ok.1 keyed
  obtain ⟨_, f, kept, run⟩ := run_bind_ok.1 run
  obtain ⟨reported, g, touch, run⟩ := run_bind_ok.1 run
  obtain ⟨heq, rfl⟩ := run_pure_ok.1 run
  cases heq
  exact Confined.report hsplit (keepItems_confined obj hway held kept) touch

/-- Where a path of one segment finds nothing, nothing is present in that field. -/
theorem target_nothing {path : Value} {t : Option (Place × Value)} (obj : d.doc.isObject = true)
    (run : target? idField path d = .ok t d') (nothing : ∀ p v, t = some (p, v) → v = .absent)
    (hsplit : Path.split path = .ok [n]) : Path.present (Fields.get? d.doc.fields n) = none := by
  obtain ⟨found, _⟩ := look_ok.1 run
  have resolved : Path.resolve idField d.doc path .null = .ok (some ⟨[], .field n⟩) := by
    rw [Draft.doc_eq_object obj]
    simp only [Path.resolve, hsplit]
    rfl
  rw [resolved] at found
  have held : (⟨[], .field n⟩ : Place).value? d.doc = Fields.get? d.doc.fields n := by
    rw [Draft.doc_eq_object obj]
    rfl
  cases value : Fields.get? d.doc.fields n with
  | none => rfl
  | some v =>
    rw [value] at held
    have target : t = some (⟨[], .field n⟩, v) := by
      have := found
      simp only [bind, Except.bind, Option.bind_some, held, Option.map_some, Except.ok.injEq] at this
      exact this.symm
    rw [nothing _ _ target]
    rfl

theorem addIds_confined {path ids : Value} {added : List ObjectId} (obj : d.doc.isObject = true)
    (run : addIds idField path ids d = .ok (dirty, added) d') :
    Confined idField dirty.fields d d' := by
  obtain ⟨converted, e, listed, run⟩ := run_bind_ok.1 run
  obtain ⟨_, rfl⟩ := lift_ok.1 listed
  obtain ⟨t, e, found, run⟩ := run_bind_ok.1 run
  have making (nothing : ∀ p v, t = some (p, v) → v = .absent) {u : Unit} {e : Draft}
      {items : Value} (wrote : write none path items d = .ok u e) :
      ∃ n rest, Path.split path = .ok (n :: rest) ∧ Confined idField [n] d e := by
    refine write_confined obj ?_ wrote
    by_cases own : Path.split path = .ok [idField]
    · exact .inr (.inr (target_nothing obj found nothing own))
    · exact .inl own
  split at run
  · rename_i p xs
    obtain ⟨rfl, held, n, names, way, hsplit, hway⟩ := target_ok obj found
    obtain ⟨new, f, sought, run⟩ := run_bind_ok.1 run
    obtain ⟨_, rfl⟩ := lift_ok.1 sought
    obtain ⟨_, f, appended, run⟩ := run_bind_ok.1 run
    obtain ⟨reported, g, touch, run⟩ := run_bind_ok.1 run
    obtain ⟨heq, rfl⟩ := run_pure_ok.1 run
    cases new with
    | nil =>
      -- Nothing is reported, and nothing was appended.
      cases heq
      obtain ⟨_, _, _, _, rfl⟩ := touched_ok touch
      rw [Place.value?_eq] at held
      cases appended
      rw [List.map_nil, List.append_nil, Value.replaceAt_self held]
      exact .refl obj
    | cons id more =>
      cases heq
      exact Confined.report hsplit (setItems_confined obj hway held appended) touch
  · obtain ⟨_, rfl⟩ := look_ok.1 found
    obtain ⟨_, f, sought, run⟩ := run_bind_ok.1 run
    obtain ⟨_, rfl⟩ := lift_ok.1 sought
    obtain ⟨_, f, wrote, run⟩ := run_bind_ok.1 run
    obtain ⟨reported, g, touch, run⟩ := run_bind_ok.1 run
    obtain ⟨heq, rfl⟩ := run_pure_ok.1 run
    cases heq
    obtain ⟨n, names, hsplit, change⟩ := making (by simp) wrote
    exact Confined.report hsplit change touch
  · obtain ⟨_, rfl⟩ := look_ok.1 found
    obtain ⟨_, f, sought, run⟩ := run_bind_ok.1 run
    obtain ⟨_, rfl⟩ := lift_ok.1 sought
    obtain ⟨_, f, wrote, run⟩ := run_bind_ok.1 run
    obtain ⟨reported, g, touch, run⟩ := run_bind_ok.1 run
    obtain ⟨heq, rfl⟩ := run_pure_ok.1 run
    cases heq
    obtain ⟨n, names, hsplit, change⟩ := making (by simp) wrote
    exact Confined.report hsplit change touch
  · exact absurd (lift_ok.1 run).1 failShowing_ne_ok

/-- **The removal of an element is confined to the field it reports.** -/
theorem removeElement_confined {steps : List IdStep} {removed : Value} (obj : d.doc.isObject = true)
    (run : removeElement idField steps d = .ok (dirty, removed) d') :
    Confined idField dirty.fields d d' := by
  by_cases none : steps.isEmpty = true
  · simp only [removeElement, none, if_true] at run
    cases (lift_ok.1 run).1
  · simp only [removeElement, none, Bool.false_eq_true, if_false] at run
    obtain ⟨place, e, resolved, run⟩ := run_bind_ok.1 run
    obtain ⟨hplace, rfl⟩ := look_ok.1 resolved
    cases place with
    | none => cases (lift_ok.1 run).1
    | some p =>
      obtain ⟨target, e, found, run⟩ := run_bind_ok.1 run
      obtain ⟨_, rfl⟩ := look_ok.1 found
      obtain ⟨container, key⟩ := p
      cases target with
      | none => cases (lift_ok.1 run).1
      | some w =>
        cases key with
        | field name => cases (lift_ok.1 run).1
        | index i =>
          rw [Draft.doc_eq_object obj] at hplace
          obtain ⟨n, rest, way, hsplit, hway, _⟩ := Path.resolve_way hplace
          -- An element of an array is never a field of the document.
          have other : ¬(n = idField ∧ way = []) := by
            rintro ⟨_, rfl⟩
            rcases Place.way_field hway with ⟨heq, _⟩ | ⟨_, _, hc⟩
            · cases heq
            · exact absurd hc (by simp)
          obtain ⟨_, f, dropped, run⟩ := run_bind_ok.1 run
          obtain ⟨reported, g, touch, run⟩ := run_bind_ok.1 run
          obtain ⟨heq, rfl⟩ := run_pure_ok.1 run
          cases heq
          exact Confined.report hsplit (drop_confined obj hway other dropped) touch

theorem clear_confined {path : Value} (obj : d.doc.isObject = true)
    (run : clear idField path d = .ok dirty d') : Confined idField dirty.fields d d' := by
  obtain ⟨_, e, checked, run⟩ := run_bind_ok.1 run
  obtain ⟨guard, rfl⟩ := lift_ok.1 checked
  obtain ⟨_, e, wrote, run⟩ := run_bind_ok.1 run
  obtain ⟨n, rest, hsplit, change⟩ := write_confined obj (.inl (keepIdentity_ok guard)) wrote
  exact Confined.report hsplit change run

end Edit

/-! ## All of them -/

/-- The edits that go by paths, with their arguments. -/
inductive PathEdit
  | applyChanges (changes : List Change)
  | applyRaw (changes : Value)
  | deleteFields (paths : Value)
  | move (source target : Value)
  | moveAll (moves : List Move)
  | push (path v ids : Value)
  | inject (language path ids data : Value)
  | duplicate (path : Value)
  | removeDuplicates (path keyField : Value)
  | addIds (path ids : Value)
  | removeElement (steps : List IdStep)
  | clear (path : Value)

namespace PathEdit

/-- Makes an edit, for the fields it reports. -/
def run (idField : String) : PathEdit → Edit DirtySet
  | .applyChanges changes => Edit.applyChanges idField changes
  | .applyRaw changes => Edit.applyRaw idField changes
  | .deleteFields paths => Edit.deleteFields idField paths
  | .move source target => Edit.move idField source target
  | .moveAll moves => Edit.moveAll idField moves
  | .push path v ids => Edit.push idField path v ids
  | .inject language path ids data => Edit.inject idField language path ids data
  | .duplicate path => do return (← Edit.duplicate idField path).1
  | .removeDuplicates path keyField => do return (← Edit.removeDuplicates idField path keyField).1
  | .addIds path ids => do return (← Edit.addIds idField path ids).1
  | .removeElement steps => do return (← Edit.removeElement idField steps).1
  | .clear path => Edit.clear idField path

variable {idField : String} {dirty : DirtySet} {d d' : Draft}

/-- **Every edit that goes by paths is confined to the fields it reports.** -/
theorem run_confined (edit : PathEdit) (obj : d.doc.isObject = true)
    (run : edit.run idField d = .ok dirty d') : Confined idField dirty.fields d d' := by
  cases edit with
  | applyChanges changes => exact Edit.applyChanges_confined obj run
  | applyRaw changes => exact Edit.applyRaw_confined obj run
  | deleteFields paths => exact Edit.deleteFields_confined obj run
  | move source target => exact Edit.move_confined obj run
  | moveAll moves => exact Edit.moveAll_confined obj run
  | push path v ids => exact Edit.push_confined obj run
  | inject language path ids data => exact Edit.inject_confined obj run
  | duplicate path =>
    obtain ⟨⟨_, count⟩, e, done, run⟩ := run_bind_ok.1 run
    obtain ⟨rfl, rfl⟩ := run_pure_ok.1 run
    exact Edit.duplicate_confined obj done
  | removeDuplicates path keyField =>
    obtain ⟨⟨_, report⟩, e, done, run⟩ := run_bind_ok.1 run
    obtain ⟨rfl, rfl⟩ := run_pure_ok.1 run
    exact Edit.removeDuplicates_confined obj done
  | addIds path ids =>
    obtain ⟨⟨_, added⟩, e, done, run⟩ := run_bind_ok.1 run
    obtain ⟨rfl, rfl⟩ := run_pure_ok.1 run
    exact Edit.addIds_confined obj done
  | removeElement steps =>
    obtain ⟨⟨_, removed⟩, e, done, run⟩ := run_bind_ok.1 run
    obtain ⟨rfl, rfl⟩ := run_pure_ok.1 run
    exact Edit.removeElement_confined obj done
  | clear path => exact Edit.clear_confined obj run

/-- **A field that is not reported is as it was**: present after an edit exactly if it was present
    before, and with the same value. The document stays an object. -/
theorem unreported_untouched (edit : PathEdit) {fs : Fields} (hdoc : d.doc = .object fs)
    (run : edit.run idField d = .ok dirty d') :
    ∃ gs, d'.doc = .object gs ∧
      ∀ name, name ∉ dirty.fields → Fields.get? gs name = Fields.get? fs name := by
  have obj : d.doc.isObject = true := by rw [hdoc]; rfl
  have confined := edit.run_confined obj run
  refine ⟨d'.doc.fields, Draft.doc_eq_object confined.isObject, fun name hname => ?_⟩
  have same := confined.same name hname
  rw [hdoc] at same
  exact same

/-- A move out of an array, to a place without a container: the fields `a` and `c` are reported. -/
theorem unreported_untouched_move :
    let fs : Fields := [("a", .array [.int 1, .int 2]), ("b", .int 3)]
    let d : Draft := { doc := .object fs, supply := { origin := 0, last := 0, pace := 1 } }
    let edit : PathEdit := .move (.text "a.0") (.text "c.d")
    ∃ dirty d', edit.run "_id" d = .ok dirty d' ∧ ∃ gs, d'.doc = .object gs ∧
      ∀ name, name ∉ dirty.fields → Fields.get? gs name = Fields.get? fs name := by
  intro fs d edit
  have runs : ∃ dirty d', edit.run "_id" d = .ok dirty d' := ⟨_, _, rfl⟩
  obtain ⟨dirty, d', run⟩ := runs
  exact ⟨dirty, d', run, unreported_untouched edit rfl run⟩

end PathEdit

end DocRepair

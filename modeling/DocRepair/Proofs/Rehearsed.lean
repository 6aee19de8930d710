import DocRepair.Proofs.Transferred
/-!
# `DocRepair.Proofs.Rehearsed` — a transfer that is only shown, and the transfer itself

A transfer can be shown before it is carried out. The one that is shown finds the target untouched
at every source, the other one finds what it has written so far; so from the first link on they go
through different documents. But a document that took a value is one that takes the next value as if
it had not, and it is linked to the same sources. So the two go side by side: the same links, the
same failures, a save for every preview, and each document that is stored is the last preview of it.

Refused saves are kept out of account: a document whose save is refused stays behind its previews.

## Contents

* `Transfer.lastPreview` — the last preview of a document;
* `TransferReport.refused` — how many saves were refused;
* `Transfer.Abreast` — a transfer that saves beside the same one that shows;
* `Transfer.copyInto_abreast` / `copyIntoAll_abreast` — one linked document, and all of a source;
* `Transfer.fromSource_abreast` / `fromSources_abreast` — one source, and all of them;
* `transfer_rehearsed` — the two reports and the store at the end.
-/

namespace DocRepair

namespace Collection

variable {c : Collection} {doc other : Fields}

/-- The key under which a collection files a document. -/
def keyOf (c : Collection) (doc : Fields) : Option String :=
  Identity.key (Fields.getD doc c.idField)

/-- Documents of a collection that belong under one key are one. -/
theorem Filed.eq_of_keyOf (filed : c.Filed) (among : doc ∈ c.all) (too : other ∈ c.all)
    (same : c.keyOf doc = c.keyOf other) : doc = other := by
  have found := filed.lookup_own among
  have found' := filed.lookup_own too
  unfold keyOf at same
  rw [same, found'] at found
  exact (Option.some.inj found).symm

/-- What a document has become is found under the key of the document. -/
theorem Becomes.lookup {f : Fields → Fields} {d : Collection} (h : Becomes f c d) (filed : c.Filed)
    (among : doc ∈ c.all) : Collection.lookup d.docs (c.keyOf doc) = some (f doc) := by
  obtain ⟨entry, hentry, rfl⟩ := List.mem_map.1 among
  have keys : (d.docs.map (·.1)).Nodup := by
    rw [h.docs, List.map_map]
    exact filed.keys
  refine lookup_of_mem keys ?_
  rw [h.docs, keyOf, ← filed.under entry hentry]
  exact List.mem_map.2 ⟨entry, hentry, rfl⟩

/-- A lookup lends what its filter selects, or stops where that stops. -/
theorem find_eq (c : Collection) (filter : Value) :
    c.find filter = (selectFrom filter c.all).map (List.map (loan c.idField)) := by
  unfold find
  cases selectFrom filter c.all <;> rfl

/-- Among documents filed under different keys, one that is replaced is the one under its key. -/
theorem replace_eq_map {docs : List (Option String × Fields)} (keys : (docs.map (·.1)).Nodup)
    (key : Option String) (new : Fields) (f : Fields → Fields) :
    replace (docs.map fun entry => (entry.1, f entry.2)) key new =
      docs.map fun entry => (entry.1, if entry.1 = key then new else f entry.2) := by
  induction docs with
  | nil => rfl
  | cons entry rest ih =>
    obtain ⟨fresh, keys⟩ := List.nodup_cons.1 keys
    rw [List.map_cons, List.map_cons, replace]
    by_cases own : entry.1 = key
    · rw [if_pos own, if_pos own]
      congr 1
      refine List.map_congr_left fun other among => ?_
      have apart : ¬ other.1 = key := fun same =>
        fresh (List.mem_map.2 ⟨other, among, same.trans own.symm⟩)
      rw [if_neg apart]
    · rw [if_neg own, if_neg own, ih keys]

end Collection

/-- How many saves of a transfer were refused. -/
def TransferReport.refused (r : TransferReport) : Nat :=
  r.setbacks.countP (·.stage == .save)

namespace Transfer

open Collection Access

variable {start : Collection} {plan : Plan} {source toField v : Value} {doc : Fields}
  {g : Fields → Fields} {dry dry' wet wet' : TransferReport} {s t u u' : Session Collection}

/-- The last of some previews that is of a document, told by its key; the document itself if there
    is none. -/
def lastPreview (c : Collection) (previews : List Fields) (doc : Fields) : Fields :=
  ((previews.filter fun p => c.keyOf doc = c.keyOf p).getLast?).getD doc

theorem lastPreview_concat (c : Collection) (previews : List Fields) (p doc : Fields) :
    lastPreview c (previews ++ [p]) doc =
      if c.keyOf doc = c.keyOf p then p else lastPreview c previews doc := by
  unfold lastPreview
  rw [List.filter_append, List.filter_cons]
  by_cases own : c.keyOf doc = c.keyOf p
  · simp [own]
  · simp [own]

/-- A document, or what a write to a path makes of it. -/
def Variant (toField : Value) (doc new : Fields) : Prop :=
  new = doc ∨ ∃ v, Path.write (some 1) (.object doc) toField v = .ok (.object new)

theorem Variant.written {new : Fields} (variant : Variant toField doc new) :
    new = doc ∨ ∃ n, Path.top toField = .ok n ∧ Fields.Written n doc new := by
  refine variant.imp_right fun ⟨v, wrote⟩ => ?_
  obtain ⟨n, gs, top, same, written⟩ := Path.write_written wrote
  cases same
  exact ⟨n, top, written⟩

theorem Variant.identifier {c : Collection} {new : Fields} (variant : Variant toField doc new)
    (other : Path.top toField ≠ .ok c.idField) :
    Fields.getD new c.idField = Fields.getD doc c.idField := by
  rcases variant.written with rfl | ⟨n, top, written⟩
  · rfl
  · unfold Fields.getD
    rw [written.same fun own => other (top.trans (congrArg Except.ok own.symm))]

/-- **A write to a variant of a document** goes as the one to the document itself. -/
theorem Variant.write_eq {new : Fields} (variant : Variant toField doc new) (v : Value) :
    Path.write (some 1) (.object new) toField v = Path.write (some 1) (.object doc) toField v := by
  rcases variant with rfl | ⟨w, wrote⟩
  · rfl
  · rw [Path.write_write wrote]

/-- A plan whose lookups do not see its writes: these go neither to the identifier nor to the field at
    which the documents are linked, which is no connective. -/
structure Plan.Aside (plan : Plan) (c : Collection) : Prop where
  filed : c.Filed
  other : Path.top plan.toField ≠ .ok c.idField
  apart : ∀ n, Path.top plan.toField = .ok n → Path.top plan.linkField ≠ .ok n
  noConnective : plan.linkField ≠ .text "$and" ∧ plan.linkField ≠ .text "$or"

/-! ## Side by side -/

/-- A transfer that saves beside the same transfer that only shows: they count alike, but for saves
    that were refused; and as long as none was, every document is the last preview of it. -/
structure Abreast (start : Collection) (toField : Value) (g : Fields → Fields)
    (dry wet : TransferReport) (now : Collection) : Prop where
  shows : dry.persisted = false
  saves : wet.persisted = true
  becomes : Becomes g start now
  variant : ∀ doc ∈ start.all, Variant toField doc (g doc)
  sources : wet.sources = dry.sources
  links : wet.links = dry.links
  skipped : wet.skipped = dry.skipped
  setbacks : wet.setbacks.filter (·.stage != .save) = dry.setbacks
  counted : wet.saved + wet.refused = dry.previews.length
  latest : wet.refused = 0 → ∀ doc ∈ start.all, g doc = lastPreview start dry.previews doc

section Abreast

variable {now : Collection} {b : Setback}

/-- One more link. -/
theorem Abreast.link (a : Abreast start toField g dry wet now) :
    Abreast start toField g { dry with links := dry.links + 1 }
      { wet with links := wet.links + 1 } now :=
  { a with links := congrArg (· + 1) a.links }

/-- One more source. -/
theorem Abreast.begin (a : Abreast start toField g dry wet now) :
    Abreast start toField g { dry with sources := dry.sources + 1 }
      { wet with sources := wet.sources + 1 } now :=
  { a with sources := congrArg (· + 1) a.sources }

/-- A source that is skipped. -/
theorem Abreast.skip (a : Abreast start toField g dry wet now) (source : String) :
    Abreast start toField g { dry with skipped := dry.skipped ++ [source] }
      { wet with skipped := wet.skipped ++ [source] } now :=
  { a with skipped := congrArg (· ++ [source]) a.skipped }

theorem refused_setback (r : TransferReport) (b : Setback) :
    (r.setback b).refused = r.refused + if b.stage == .save then 1 else 0 := by
  unfold TransferReport.refused TransferReport.setback
  rw [List.countP_append, List.countP_singleton]

/-- A lookup or an edit that fails in both. -/
theorem Abreast.setback (a : Abreast start toField g dry wet now) (early : b.stage ≠ .save) :
    Abreast start toField g (dry.setback b) (wet.setback b) now := by
  have same : (wet.setback b).refused = wet.refused := by
    rw [refused_setback, if_neg fun save => early (beq_iff_eq.1 save)]
    rfl
  refine { a with setbacks := ?_, counted := ?_, latest := ?_ }
  · show (wet.setbacks ++ [b]).filter _ = dry.setbacks ++ [b]
    rw [List.filter_append, a.setbacks, List.filter_cons, if_pos (by simpa using early)]
    rfl
  · rw [same]
    exact a.counted
  · rw [same]
    exact a.latest

/-- A document is shown, but its save is refused. -/
theorem Abreast.refuse (a : Abreast start toField g dry wet s.store) (late : b.stage = .save)
    (preview : Fields) (idField : t.store.idField = s.store.idField)
    (rejects : t.store.rejects = s.store.rejects) (docs : t.store.docs = s.store.docs) :
    Abreast start toField g { dry with previews := dry.previews ++ [preview] }
      (wet.setback b) t.store := by
  have more : (wet.setback b).refused = wet.refused + 1 := by
    rw [refused_setback, if_pos (beq_iff_eq.2 late)]
  refine { a with becomes := ⟨idField.trans a.becomes.idField, rejects.trans a.becomes.rejects,
                    docs.trans a.becomes.docs⟩,
                  setbacks := ?_, counted := ?_, latest := ?_ }
  · show (wet.setbacks ++ [b]).filter _ = dry.setbacks
    rw [List.filter_append, a.setbacks, List.filter_cons, if_neg (by simp [late])]
    exact List.append_nil _
  · rw [more, List.length_append, ← a.counted]
    rfl
  · rw [more]
    exact fun none => absurd none (Nat.succ_ne_zero _)

/-- A document is shown, and saved: it is its last preview from then on. -/
theorem Abreast.store (a : Abreast start toField g dry wet s.store) (filed : start.Filed)
    (other : Path.top toField ≠ .ok start.idField) (among : doc ∈ start.all) {preview : Fields}
    (wrote : Path.write (some 1) (.object doc) toField v = .ok (.object preview))
    (idField : t.store.idField = s.store.idField) (rejects : t.store.rejects = s.store.rejects)
    (docs : t.store.docs = replace s.store.docs (start.keyOf doc) preview) :
    Abreast start toField (fun d => if start.keyOf d = start.keyOf doc then preview else g d)
      { dry with previews := dry.previews ++ [preview] } { wet with saved := wet.saved + 1 }
      t.store := by
  have key : start.keyOf preview = start.keyOf doc :=
    congrArg Identity.key (Variant.identifier (.inr ⟨v, wrote⟩) other)
  refine { a with becomes := ⟨idField.trans a.becomes.idField, rejects.trans a.becomes.rejects, ?_⟩,
                  variant := ?_, counted := ?_, latest := ?_ }
  · rw [docs, a.becomes.docs, replace_eq_map filed.keys]
    refine List.map_congr_left fun entry hentry => ?_
    rw [filed.under entry hentry]
    rfl
  · intro d present
    split
    · rename_i own
      rw [filed.eq_of_keyOf present among own]
      exact .inr ⟨v, wrote⟩
    · exact a.variant d present
  · show wet.saved + 1 + wet.refused = _
    rw [List.length_append, ← a.counted, Nat.add_right_comm]
    rfl
  · intro none d present
    rw [lastPreview_concat, key, a.latest none d present]

end Abreast

/-- **One linked document**: where the value cannot be written, both note the same failure; else the
    one shows what the other saves. -/
theorem copyInto_abreast (filed : start.Filed) (other : Path.top toField ≠ .ok start.idField)
    (abreast : Abreast start toField g dry wet s.store) (among : doc ∈ start.all)
    (shown : copyInto source v toField (loan start.idField doc) dry u = .ok dry' u')
    (saved : copyInto source v toField (loan start.idField (g doc)) wet s = .ok wet' t) :
    u' = u ∧ ∃ g', Abreast start toField g' dry' wet' t.store ∧
      ∀ d, start.keyOf d ≠ start.keyOf doc → g' d = g d := by
  have variant := abreast.variant doc among
  have ident := variant.identifier other
  rw [copyInto_eq other] at shown saved
  rw [variant.write_eq, ident] at saved
  cases wrote : Path.write (some 1) (.object doc) toField v with
  | error fault =>
    rw [wrote] at shown saved
    cases fault with
    | failure f =>
      dsimp only at shown saved
      split at shown
      · rename_i setback noted
        rw [noted] at saved
        cases shown
        cases saved
        refine ⟨rfl, g, abreast.link.setback fun save => ?_, fun _ _ => rfl⟩
        cases (setbackAt_ok noted).1.symm.trans save
      · cases shown
    | _ => cases shown
  | ok new =>
    rw [wrote] at shown saved
    rw [← variant.write_eq] at wrote
    obtain ⟨n, preview, top, rfl, written⟩ := Path.write_written wrote
    rw [variant.write_eq] at wrote
    dsimp only at shown saved
    rw [if_neg (by rw [abreast.shows]; exact Bool.false_ne_true)] at shown
    rw [if_pos abreast.saves] at saved
    cases shown
    have field := abreast.becomes.idField
    have found := abreast.becomes.lookup filed among
    rw [keyOf, ← ident, ← field] at found
    rw [← field] at saved
    obtain ⟨idField, rejects, marked, left⟩ := saveLink_stores top written
      (fun own => other (top.trans (congrArg Except.ok (own.trans field)))) found saved
    split at left
    · obtain ⟨docs, setback, atSave, rfl⟩ := left
      exact ⟨rfl, g, abreast.link.refuse atSave preview idField rejects docs, fun _ _ => rfl⟩
    · obtain ⟨docs, rfl⟩ := left
      rw [field, ident] at docs
      refine ⟨rfl, _, abreast.link.store filed other among wrote idField rejects docs, ?_⟩
      exact fun d apart => if_neg apart

/-- **All documents linked to a source.** They were lent as they had become, and each is reached
    before another one under its key could have been written. -/
theorem copyIntoAll_abreast {docs : List Fields} (filed : start.Filed)
    (other : Path.top toField ≠ .ok start.idField) (abreast : Abreast start toField g dry wet s.store)
    (among : ∀ doc ∈ docs, doc ∈ start.all) (keys : (docs.map start.keyOf).Nodup)
    (shown : copyIntoAll source v toField (docs.map (loan start.idField)) dry u = .ok dry' u')
    (saved : copyIntoAll source v toField ((docs.map g).map (loan start.idField)) wet s =
      .ok wet' t) :
    u' = u ∧ ∃ g', Abreast start toField g' dry' wet' t.store := by
  induction docs generalizing g dry wet s u with
  | nil =>
    obtain ⟨rfl, rfl⟩ := run_pure_ok.1 shown
    obtain ⟨rfl, rfl⟩ := run_pure_ok.1 saved
    exact ⟨rfl, g, abreast⟩
  | cons doc rest ih =>
    obtain ⟨fresh, keys⟩ := List.nodup_cons.1 keys
    obtain ⟨between, w, shows, showing⟩ := run_bind_ok.1 shown
    obtain ⟨between', w', saves, saving⟩ := run_bind_ok.1 saved
    obtain ⟨rfl, g', abreast, others⟩ :=
      copyInto_abreast filed other abreast (among doc List.mem_cons_self) shows saves
    have same : rest.map g = rest.map g' := by
      refine List.map_congr_left fun d present => (others d fun own => fresh ?_).symm
      exact List.mem_map.2 ⟨d, present, own⟩
    rw [same] at saving
    exact ih abreast (fun d present => among d (List.mem_cons_of_mem doc present)) keys showing saving

/-- **A lookup** finds the same documents in both, in the contents that they have there, or stops
    with the same fault. -/
theorem selectFrom_abreast {linkValue filter : Value} {now : Collection} (aside : plan.Aside start)
    (abreast : Abreast start plan.toField g dry wet now)
    (given : linkFilter plan.linkField linkValue = .ok filter) :
    selectFrom filter now.all = (selectFrom filter start.all).map (List.map g) := by
  rw [abreast.becomes.all]
  exact selectFrom_map fun doc present =>
    matches_written aside.apart aside.noConnective given (abreast.variant doc present).written

/-- **One more source.** -/
theorem fromSource_abreast {lender : Handle} (aside : plan.Aside start)
    (abreast : Abreast start plan.toField g dry wet s.store) (untouched : u.store = start)
    (shown : fromSource plan lender dry u = .ok dry' u')
    (saved : fromSource plan lender wet s = .ok wet' t) :
    u' = u ∧ ∃ g', Abreast start plan.toField g' dry' wet' t.store := by
  obtain ⟨linkValue, w, read, shown⟩ := run_bind_ok.1 shown
  obtain ⟨linking, rfl⟩ := lift_ok.1 read
  obtain ⟨linkValue', w, read, saved⟩ := run_bind_ok.1 saved
  obtain ⟨linking', rfl⟩ := lift_ok.1 read
  cases linking.symm.trans linking'
  cases linkValue with
  | none =>
    obtain ⟨name, found, rfl, rfl⟩ := lift_return_ok.1 shown
    obtain ⟨name', found', rfl, rfl⟩ := lift_return_ok.1 saved
    cases found.symm.trans found'
    exact ⟨rfl, g, abreast.begin.skip _⟩
  | some linkValue =>
    obtain ⟨v, w, read, shown⟩ := run_bind_ok.1 shown
    obtain ⟨lending, rfl⟩ := lift_ok.1 read
    obtain ⟨v', w, read, saved⟩ := run_bind_ok.1 saved
    obtain ⟨lending', rfl⟩ := lift_ok.1 read
    cases lending.symm.trans lending'
    rw [run_bind, attempt_look] at shown saved
    cases given : linkFilter plan.linkField linkValue with
    | error fault =>
      rw [given] at shown saved
      obtain ⟨name, found, rfl, rfl⟩ := lift_return_ok.1 shown
      obtain ⟨name', found', rfl, rfl⟩ := lift_return_ok.1 saved
      cases found.symm.trans found'
      exact ⟨rfl, g, abreast.begin.setback fun save => nomatch save⟩
    | ok filter =>
      rw [given] at shown saved
      have finds := selectFrom_abreast aside abreast given
      have found : (do Store.find u.store (← (Except.ok filter : Except Fault Value))) =
          (selectFrom filter start.all).map (List.map (loan start.idField)) := by
        rw [untouched]
        exact find_eq start filter
      have found' : (do Store.find s.store (← (Except.ok filter : Except Fault Value))) =
          ((selectFrom filter start.all).map (List.map g)).map (List.map (loan start.idField)) := by
        rw [← finds, ← abreast.becomes.idField]
        exact find_eq s.store filter
      rw [found] at shown
      rw [found'] at saved
      cases selects : selectFrom filter start.all with
      | error fault =>
        rw [selects] at shown saved
        obtain ⟨name, found, rfl, rfl⟩ := lift_return_ok.1 shown
        obtain ⟨name', found', rfl, rfl⟩ := lift_return_ok.1 saved
        cases found.symm.trans found'
        exact ⟨rfl, g, abreast.begin.setback fun save => nomatch save⟩
      | ok chosen =>
        rw [selects] at shown saved
        have among := selectFrom_sublist selects
        have keys := aside.filed.keys
        rw [aside.filed.keys_eq] at keys
        exact copyIntoAll_abreast aside.filed aside.other abreast.begin
          (fun d present => among.subset present) (keys.sublist (among.map start.keyOf)) shown saved

/-- **One source after the other.** -/
theorem fromSources_abreast {lenders : List Handle} (aside : plan.Aside start)
    (abreast : Abreast start plan.toField g dry wet s.store) (untouched : u.store = start)
    (shown : fromSources plan lenders dry u = .ok dry' u')
    (saved : fromSources plan lenders wet s = .ok wet' t) :
    ∃ g', Abreast start plan.toField g' dry' wet' t.store := by
  induction lenders generalizing g dry wet s u with
  | nil =>
    obtain ⟨rfl, rfl⟩ := run_pure_ok.1 shown
    obtain ⟨rfl, rfl⟩ := run_pure_ok.1 saved
    exact ⟨g, abreast⟩
  | cons lender rest ih =>
    obtain ⟨between, w, shows, showing⟩ := run_bind_ok.1 shown
    obtain ⟨between', w', saves, saving⟩ := run_bind_ok.1 saved
    obtain ⟨rfl, g', abreast⟩ :=
      fromSource_abreast aside abreast untouched shows saves
    exact ih abreast untouched showing saving

end Transfer

/-- **A transfer that is only shown tells what the transfer does.** If both return, and no save is
    refused, they count the same sources and links, skip the same sources and note the same failures.
    There is a save for every preview; and every document of the target that has previews is stored
    as the last of them, while the others stay as they are. -/
theorem transfer_rehearsed {σ : Type} [Store σ] {plan : Transfer.Plan} {fromQuery : Value}
    {source : σ} {s t u : Session Collection} {dry wet : TransferReport}
    (aside : plan.Aside s.store) (shown : transfer plan fromQuery source false s = .ok dry u)
    (saved : transfer plan fromQuery source true s = .ok wet t)
    (accepted : ∀ setback ∈ wet.setbacks, setback.stage ≠ .save) :
    wet.sources = dry.sources ∧ wet.links = dry.links ∧ wet.skipped = dry.skipped ∧
      wet.setbacks = dry.setbacks ∧ wet.saved = dry.previews.length ∧
      t.store.docs = s.store.docs.map fun entry =>
        (entry.1, Transfer.lastPreview s.store dry.previews entry.2) := by
  obtain ⟨c, w, looked, showing⟩ := run_bind_ok.1 shown
  obtain ⟨_, rfl⟩ := Access.look_ok.1 looked
  obtain ⟨_, w, checked, showing⟩ := run_bind_ok.1 showing
  obtain ⟨_, rfl⟩ := Access.lift_ok.1 checked
  obtain ⟨lenders, w, fetched, showing⟩ := run_bind_ok.1 showing
  obtain ⟨finds, rfl⟩ := Access.lift_ok.1 fetched
  obtain ⟨c, w, looked, saving⟩ := run_bind_ok.1 saved
  obtain ⟨_, rfl⟩ := Access.look_ok.1 looked
  obtain ⟨_, w, checked, saving⟩ := run_bind_ok.1 saving
  obtain ⟨_, rfl⟩ := Access.lift_ok.1 checked
  obtain ⟨lenders', w, fetched, saving⟩ := run_bind_ok.1 saving
  obtain ⟨finds', rfl⟩ := Access.lift_ok.1 fetched
  cases finds.symm.trans finds'
  have begins : Transfer.Abreast s.store plan.toField id { persisted := false }
      { persisted := true } s.store :=
    { shows := rfl, saves := rfl, becomes := ⟨rfl, rfl, (List.map_id _).symm⟩,
      variant := fun _ _ => .inl rfl, sources := rfl, links := rfl, skipped := rfl,
      setbacks := rfl, counted := rfl, latest := fun _ _ _ => rfl }
  obtain ⟨g, abreast⟩ := Transfer.fromSources_abreast aside begins rfl showing saving
  have none : wet.refused = 0 :=
    List.countP_eq_zero.2 fun b among save => accepted b among (beq_iff_eq.1 save)
  have setbacks : wet.setbacks = dry.setbacks := by
    rw [← abreast.setbacks]
    exact (List.filter_eq_self.2 fun b among => bne_iff_ne.2 (accepted b among)).symm
  have counted := abreast.counted
  rw [none] at counted
  refine ⟨abreast.sources, abreast.links, abreast.skipped, setbacks, counted, ?_⟩
  rw [abreast.becomes.docs]
  refine List.map_congr_left fun entry among => ?_
  rw [abreast.latest none entry.2 (List.mem_map.2 ⟨entry, among, rfl⟩)]

/-- Two sources are linked to two documents. In one of these the first write appends to an array, and
    the second replaces what was appended; the other one holds a scalar on the way, and fails
    twice. -/
theorem transfer_rehearsed_append :
    let plan : Transfer.Plan := ⟨.text "k", .text "v", .text "w.1"⟩
    let source : Collection := { name := "from", docs := [
      (some "a", [("_id", .text "a"), ("k", .int 1), ("v", .text "x")]),
      (some "b", [("_id", .text "b"), ("k", .int 1), ("v", .text "y")])] }
    let target : Collection := { name := "to", docs := [
      (some "d", [("_id", .text "d"), ("k", .int 1), ("w", .array [.int 0])]),
      (some "e", [("_id", .text "e"), ("k", .int 1), ("w", .int 0)])] }
    let s : Session Collection := ⟨target, { origin := 0, last := 0, pace := 1 }⟩
    plan.Aside s.store ∧ ∃ dry wet u t,
      transfer plan (.object []) source false s = .ok dry u ∧
      transfer plan (.object []) source true s = .ok wet t ∧
      (∀ setback ∈ wet.setbacks, setback.stage ≠ .save) ∧
      wet.setbacks.length = 2 ∧ wet.setbacks = dry.setbacks ∧
      dry.previews.length = 2 ∧ wet.saved = dry.previews.length ∧
      t.store.docs = [
        (some "d", [("_id", .text "d"), ("k", .int 1), ("w", .array [.int 0, .text "y"])]),
        (some "e", [("_id", .text "e"), ("k", .int 1), ("w", .int 0)])] := by
  intro plan source target s
  have aside : plan.Aside s.store := by
    refine ⟨⟨by decide, ?_, ?_⟩, ?_, ?_, ?_⟩
    · intro entry among
      simp only [s, target, List.mem_cons, List.not_mem_nil, or_false] at among
      rcases among with rfl | rfl <;> rfl
    · intro entry among
      simp only [s, target, List.mem_cons, List.not_mem_nil, or_false] at among
      rcases among with rfl | rfl
      · show ["_id", "k", "w"].Nodup
        decide
      · show ["_id", "k", "w"].Nodup
        decide
    · intro same
      have own : "w" = "_id" := Except.ok.inj same
      exact absurd own (by decide)
    · intro n written linking
      have own : "w" = "k" := Except.ok.inj (written.trans linking.symm)
      exact absurd own (by decide)
    · exact ⟨fun same => absurd (Value.text.inj same) (by decide),
        fun same => absurd (Value.text.inj same) (by decide)⟩
  let appended (value : String) : Fields :=
    [("_id", .text "d"), ("k", .int 1), ("w", .array [.int 0, .text value])]
  let failed (lender : String) : Setback :=
    ⟨lender, some "e", .apply, (Failure.scalarOnTheWay ["w"] ["w", "1"]).toValue⟩
  let lent (ident value : String) : Handle :=
    Collection.loan "_id" [("_id", .text ident), ("k", .int 1), ("v", .text value)]
  let left (value : String) : List (Option String × Fields) :=
    [(some "d", appended value), (some "e", [("_id", .text "e"), ("k", .int 1), ("w", .int 0)])]
  let dry : TransferReport :=
    { persisted := false, sources := 1, links := 2, setbacks := [failed "a"],
      previews := [appended "x"] }
  let wet : TransferReport :=
    { persisted := true, sources := 1, links := 2, saved := 1, setbacks := [failed "a"] }
  let between : Session Collection :=
    { s with store := { target with docs := left "x", saves := 1, changes := 1 } }
  have firstShown : Transfer.fromSource plan (lent "a" "x") { persisted := false } s =
    .ok dry s := rfl
  have secondShown : Transfer.fromSource plan (lent "b" "y") dry s = .ok
    { persisted := false, sources := 2, links := 4, setbacks := [failed "a", failed "b"],
      previews := [appended "x", appended "y"] } s := rfl
  have firstSaved : Transfer.fromSource plan (lent "a" "x") { persisted := true } s =
    .ok wet between := rfl
  have secondSaved : Transfer.fromSource plan (lent "b" "y") wet between = .ok
    { persisted := true, sources := 2, links := 4, saved := 2,
      setbacks := [failed "a", failed "b"] }
    { s with store := { target with docs := left "y", saves := 2, changes := 2 } } := rfl
  have shown : transfer plan (.object []) source false s = .ok _ _ :=
    run_bind_ok.2 ⟨_, _, rfl, run_bind_ok.2 ⟨_, _, rfl, run_bind_ok.2 ⟨_, _, rfl,
      run_bind_ok.2 ⟨_, _, firstShown, run_bind_ok.2 ⟨_, _, secondShown, rfl⟩⟩⟩⟩⟩
  have saved : transfer plan (.object []) source true s = .ok _ _ :=
    run_bind_ok.2 ⟨_, _, rfl, run_bind_ok.2 ⟨_, _, rfl, run_bind_ok.2 ⟨_, _, rfl,
      run_bind_ok.2 ⟨_, _, firstSaved, run_bind_ok.2 ⟨_, _, secondSaved, rfl⟩⟩⟩⟩⟩
  have accepted (setback : Setback) (among : setback ∈ [failed "a", failed "b"]) :
      setback.stage ≠ .save := by
    simp only [List.mem_cons, List.not_mem_nil, or_false] at among
    rcases among with rfl | rfl <;> exact fun save => nomatch save
  obtain ⟨_, _, _, setbacks, counted, docs⟩ := transfer_rehearsed aside shown saved accepted
  exact ⟨aside, _, _, _, _, shown, saved, accepted, rfl, setbacks, rfl, counted, docs⟩

end DocRepair

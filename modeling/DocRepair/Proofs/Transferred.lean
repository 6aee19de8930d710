import DocRepair.Proofs.Interleaving
import DocRepair.Proofs.Linked
import DocRepair.Proofs.Rewritten
/-!
# `DocRepair.Proofs.Transferred` — what a transfer leaves

A transfer writes while it goes on looking documents up. But its lookups read the field at which the
documents are linked, and its writes go to another one, so every lookup finds what it would have
found at the start, in the present contents. And of the writes to one document each replaces the one
before. So what becomes of a document is decided by the last source that is linked to it; whatever
fails on the way changes nothing for the others.

## Contents

* `Collection.received` — a document that takes a value, unless its save is refused;
* `Plan.links` / `Plan.final` — which sources are linked to a document, and what becomes of it;
* `TransferReport.Continues` — how the counts of a report go on;
* `Transfer.saveLink_stores` / `Transfer.copyInto_eq` — a save, and a copy by the outcome of its write;
* `Transfer.copyInto_ok` / `copyIntoAll_ok` — one linked document, and all of a source;
* `Transfer.fromSource_ok` / `fromSources_ok` — one source, and all of them;
* `transfer_final` — the store and the report at the end.
-/

namespace DocRepair

/-! ## One document -/

namespace Collection

variable {c d : Collection} {toField v w : Value} {doc new : Fields}

/-- Saves are refused by the identity of the document alone. -/
def JudgesIdentity (c : Collection) : Prop :=
  ∀ g h : Handle, g.idField = h.idField → g.id = h.id → g.knownId = h.knownId →
    c.rejects g = c.rejects h

/-- What becomes of a document that is to take a value at a path. It stays as it is if the value
    cannot be written, or if the save is refused. -/
def received (c : Collection) (toField v : Value) (doc : Fields) : Fields :=
  if c.rejects (loan c.idField doc) then doc
  else
    match Path.write (some 1) (.object doc) toField v with
    | .ok new => new.fields
    | .error _ => doc

/-- A document changes in the field that the path begins with, if at all. -/
theorem received_written (c : Collection) (toField v : Value) (doc : Fields) :
    c.received toField v doc = doc ∨
      ∃ n, Path.top toField = .ok n ∧ Fields.Written n doc (c.received toField v doc) := by
  unfold received
  split
  · exact .inl rfl
  · split
    · rename_i new wrote
      obtain ⟨n, gs, top, rfl, written⟩ := Path.write_written wrote
      exact .inr ⟨n, top, written⟩
    · exact .inl rfl

/-- The identifier is not where the value goes. -/
theorem get?_received (other : Path.top toField ≠ .ok c.idField) (v : Value) (doc : Fields) :
    Fields.get? (c.received toField v doc) c.idField = Fields.get? doc c.idField := by
  rcases c.received_written toField v doc with same | ⟨n, top, written⟩
  · rw [same]
  · exact written.same fun own => other (own ▸ top)

/-- Copies with one identifier are judged alike, whatever was marked in one of them. -/
theorem JudgesIdentity.alike (judges : c.JudgesIdentity)
    (same : Fields.get? new c.idField = Fields.get? doc c.idField) (marked : DirtySet) :
    c.rejects { loan c.idField new with modified := marked } = c.rejects (loan c.idField doc) := by
  have ident : Fields.getD new c.idField = Fields.getD doc c.idField := by
    unfold Fields.getD
    rw [same]
  refine judges _ _ rfl ident ?_
  rw [Handle.knownId_within rfl, Handle.knownId_within rfl]
  exact ident

/-- **Of two values that a document takes the later one counts.** -/
theorem received_received (judges : c.JudgesIdentity) (other : Path.top toField ≠ .ok c.idField)
    (v w : Value) (doc : Fields) :
    c.received toField w (c.received toField v doc) = c.received toField w doc := by
  have judged : c.rejects (loan c.idField (c.received toField v doc)) =
      c.rejects (loan c.idField doc) := judges.alike (get?_received other v doc) ∅
  by_cases refused : c.rejects (loan c.idField doc) = true
  · have same : c.received toField v doc = doc := if_pos refused
    rw [same]
  · cases wrote : Path.write (some 1) (.object doc) toField v with
    | error fault =>
      have same : c.received toField v doc = doc := by
        unfold received
        rw [if_neg refused, wrote]
      rw [same]
    | ok new =>
      obtain ⟨n, gs, _, rfl, _⟩ := Path.write_written wrote
      have taken : c.received toField v doc = gs := by
        unfold received
        rw [if_neg refused, wrote]
        rfl
      rw [taken] at judged ⊢
      unfold received
      rw [judged, if_neg refused, if_neg refused, Path.write_write wrote]
      -- What cannot be written now could not have been written before.
      cases again : Path.write (some 1) (.object doc) toField w with
      | ok new => rfl
      | error fault =>
        rw [Path.write_stops again v] at wrote
        cases wrote

/-! ## All documents -/

/-- A collection that holds under every key what a function makes of what was there. -/
structure Becomes (f : Fields → Fields) (before after : Collection) : Prop where
  idField : after.idField = before.idField
  rejects : after.rejects = before.rejects
  docs : after.docs = before.docs.map fun entry => (entry.1, f entry.2)

theorem Becomes.all {f : Fields → Fields} (h : Becomes f c d) : d.all = c.all.map f := by
  unfold Collection.all
  rw [h.docs, List.map_map, List.map_map]
  rfl

theorem Becomes.received {f : Fields → Fields} (h : Becomes f c d) : d.received = c.received := by
  funext path v doc
  unfold Collection.received
  rw [h.idField, h.rejects]

/-- A collection stays as it should be if all documents keep their identifiers. -/
theorem Becomes.filed {f : Fields → Fields} (h : Becomes f c d) (filed : c.Filed)
    (same : ∀ doc, Fields.get? (f doc) c.idField = Fields.get? doc c.idField)
    (distinct : ∀ doc, Fields.Distinct doc → Fields.Distinct (f doc)) : d.Filed := by
  refine ⟨?_, ?_, ?_⟩
  · rw [h.docs, List.map_map]
    exact filed.keys
  · intro entry among
    rw [h.docs] at among
    obtain ⟨old, hold, rfl⟩ := List.mem_map.1 among
    rw [h.idField, filed.under old hold]
    unfold Fields.getD
    rw [same]
  · intro entry among
    rw [h.docs] at among
    obtain ⟨old, hold, rfl⟩ := List.mem_map.1 among
    exact distinct _ (filed.distinct old hold)

/-! ## Replacing some of the documents -/

theorem foldl_replace_cons {k : Option String} {x : Fields} {rest : List (Option String × Fields)}
    (keyOf : Fields → Option String) (g : Fields → Fields) {docs : List Fields}
    (others : ∀ doc ∈ docs, k ≠ keyOf doc) :
    docs.foldl (fun all doc => replace all (keyOf doc) (g doc)) ((k, x) :: rest) =
      (k, x) :: docs.foldl (fun all doc => replace all (keyOf doc) (g doc)) rest := by
  induction docs generalizing rest with
  | nil => rfl
  | cons doc more ih =>
    rw [List.foldl_cons, List.foldl_cons, replace, if_neg (others doc List.mem_cons_self)]
    exact ih fun d among => others d (List.mem_cons_of_mem doc among)

/-- Documents that pass a test are replaced one after the other: each is found under its key. -/
theorem foldl_replace (keyOf : Fields → Option String) (p : Fields → Bool) (g : Fields → Fields)
    {docs : List (Option String × Fields)} (keys : (docs.map (·.1)).Nodup)
    (under : ∀ entry ∈ docs, entry.1 = keyOf entry.2) :
    ((docs.map (·.2)).filter p).foldl (fun all doc => replace all (keyOf doc) (g doc)) docs =
      docs.map fun entry => (entry.1, if p entry.2 then g entry.2 else entry.2) := by
  induction docs with
  | nil => rfl
  | cons entry rest ih =>
    obtain ⟨k, doc⟩ := entry
    obtain ⟨fresh, keys⟩ := List.nodup_cons.1 keys
    have own : k = keyOf doc := under _ List.mem_cons_self
    have ih := ih keys fun e among => under e (List.mem_cons_of_mem _ among)
    have others : ∀ d ∈ (rest.map (·.2)).filter p, k ≠ keyOf d := by
      intro d among same
      obtain ⟨e, he, rfl⟩ := List.mem_map.1 (List.mem_filter.1 among).1
      exact fresh (List.mem_map.2 ⟨e, he, by rw [same]; exact under e (List.mem_cons_of_mem _ he)⟩)
    rw [List.map_cons, List.map_cons, List.filter_cons, ← ih]
    by_cases passes : p doc = true
    · rw [if_pos passes, if_pos passes, List.foldl_cons, replace, if_pos own]
      exact foldl_replace_cons keyOf g others
    · rw [if_neg passes, if_neg passes]
      exact foldl_replace_cons keyOf g others

end Collection

/-! ## Sources and links -/

namespace Transfer

variable {plan : Plan} {c d : Collection} {sources : List Fields} {source doc : Fields}

/-- The filter of the lookup for a source, if the source has a linking value. -/
def Plan.lookup? (plan : Plan) (source : Fields) : Option Value :=
  match Path.find? (.object source) plan.linkField with
  | .ok (some linkValue) => (linkFilter plan.linkField linkValue).toOption
  | _ => none

/-- Whether a source is linked to a document of a collection: its lookup succeeds, and selects the
    document. -/
def Plan.links (plan : Plan) (c : Collection) (source doc : Fields) : Bool :=
  match plan.lookup? source with
  | some filter => (c.find filter).isOk && Filter.holds filter doc
  | none => false

/-- The value that a source lends, null if there is none. -/
def Plan.lent (plan : Plan) (source : Fields) : Value :=
  match Path.read? (.object source) plan.fromField with
  | .ok found => found.getD .null
  | .error _ => .null

/-- What becomes of a document of a collection: it takes the value of the last source that is linked
    to it, if there is one. -/
def Plan.final (plan : Plan) (c : Collection) (sources : List Fields) (doc : Fields) : Fields :=
  match (sources.filter (plan.links c · doc)).getLast? with
  | some source => c.received plan.toField (plan.lent source) doc
  | none => doc

/-- Only the field that the path begins with can have changed. -/
theorem final_written (plan : Plan) (c : Collection) (sources : List Fields) (doc : Fields) :
    plan.final c sources doc = doc ∨
      ∃ n, Path.top plan.toField = .ok n ∧ Fields.Written n doc (plan.final c sources doc) := by
  unfold Plan.final
  split
  · exact c.received_written _ _ _
  · exact .inl rfl

/-- **One more source**: what the document has become so far takes its value, if it is linked. -/
theorem final_concat (judges : c.JudgesIdentity) (other : Path.top plan.toField ≠ .ok c.idField)
    (sources : List Fields) (source doc : Fields) :
    plan.final c (sources ++ [source]) doc =
      if plan.links c source doc then
        c.received plan.toField (plan.lent source) (plan.final c sources doc)
      else plan.final c sources doc := by
  by_cases linked : plan.links c source doc = true
  · have last : ((sources ++ [source]).filter (plan.links c · doc)).getLast? = some source := by
      rw [List.filter_append, List.filter_cons, if_pos linked, List.filter_nil,
        List.getLast?_concat]
    rw [if_pos linked]
    unfold Plan.final
    rw [last]
    dsimp only
    split
    · exact (Collection.received_received judges other _ _ doc).symm
    · rfl
  · rw [if_neg linked]
    unfold Plan.final
    rw [List.filter_append, List.filter_cons, if_neg linked, List.filter_nil, List.append_nil]

/-- A source that is linked to nothing changes nothing. -/
theorem final_unlinked (unlinked : ∀ doc, plan.links c source doc = false) (sources : List Fields) :
    plan.final c (sources ++ [source]) = plan.final c sources := by
  funext doc
  have none : ¬ plan.links c source doc = true := by
    rw [unlinked doc]
    exact Bool.false_ne_true
  unfold Plan.final
  rw [List.filter_append, List.filter_cons, if_neg none, List.filter_nil, List.append_nil]

theorem get?_final (other : Path.top plan.toField ≠ .ok c.idField) (sources : List Fields)
    (doc : Fields) :
    Fields.get? (plan.final c sources doc) c.idField = Fields.get? doc c.idField := by
  rcases final_written plan c sources doc with same | ⟨n, top, written⟩
  · rw [same]
  · exact written.same fun own => other (own ▸ top)

theorem final_distinct (distinct : Fields.Distinct doc) :
    Fields.Distinct (plan.final c sources doc) := by
  rcases final_written plan c sources doc with same | ⟨n, _, written⟩
  · rw [same]
    exact distinct
  · exact written.distinct distinct

/-- A lookup goes the same way, whatever was written at the path of a plan. -/
theorem matches_written {linkValue filter : Value} {new : Fields}
    (apart : ∀ n, Path.top plan.toField = .ok n → Path.top plan.linkField ≠ .ok n)
    (noConnective : plan.linkField ≠ .text "$and" ∧ plan.linkField ≠ .text "$or")
    (given : linkFilter plan.linkField linkValue = .ok filter)
    (changed : new = doc ∨ ∃ n, Path.top plan.toField = .ok n ∧ Fields.Written n doc new) :
    Filter.matches? (.object new) filter = Filter.matches? (.object doc) filter := by
  obtain ⟨name, rfl, segments, own⟩ := linkFilter_ok given
  have plainName : name ≠ "$and" ∧ name ≠ "$or" := by
    rcases own with own | plainName
    · exact ⟨fun h => noConnective.1 (own.trans (h ▸ rfl)),
        fun h => noConnective.2 (own.trans (h ▸ rfl))⟩
    · exact plainName
  refine Filter.matches_entry_local plainName fun m rest hm => ?_
  rcases changed with same | ⟨n, top, written⟩
  · rw [same]
  · rw [segments] at hm
    exact written.same fun same => apart n top (same ▸ Path.top_of_split hm)

/-- A lookup goes the same way, whatever documents have become. -/
theorem matches_final {linkValue filter : Value}
    (apart : ∀ n, Path.top plan.toField = .ok n → Path.top plan.linkField ≠ .ok n)
    (noConnective : plan.linkField ≠ .text "$and" ∧ plan.linkField ≠ .text "$or")
    (given : linkFilter plan.linkField linkValue = .ok filter) (sources : List Fields)
    (doc : Fields) :
    Filter.matches? (.object (plan.final c sources doc)) filter =
      Filter.matches? (.object doc) filter :=
  matches_written apart noConnective given (final_written plan c sources doc)

end Transfer

/-! ## Reports -/

namespace TransferReport

variable {m n : Nat} {a b r : TransferReport}

/-- How many failures of a report concern a linked document: its edit, or its save. -/
def unwritten (r : TransferReport) : Nat :=
  r.setbacks.countP fun setback => setback.stage == .apply || setback.stage == .save

/-- A report goes on with another one, that counts more sources. If every link was accounted for as
    saved or failed, it still is. -/
structure Continues (n : Nat) (before after : TransferReport) : Prop where
  persisted : after.persisted = before.persisted
  sources : after.sources = before.sources + n
  balanced : before.links = before.saved + before.unwritten →
    after.links = after.saved + after.unwritten

theorem Continues.refl (r : TransferReport) : Continues 0 r r := ⟨rfl, rfl, id⟩

theorem Continues.trans (first : Continues m a b) (second : Continues n b r) :
    Continues (m + n) a r :=
  ⟨second.persisted.trans first.persisted,
    by rw [second.sources, first.sources, Nat.add_assoc],
    fun start => second.balanced (first.balanced start)⟩

theorem unwritten_setback (r : TransferReport) (s : Setback) :
    (r.setback s).unwritten =
      r.unwritten + if s.stage == .apply || s.stage == .save then 1 else 0 := by
  unfold unwritten setback
  rw [List.countP_append, List.countP_singleton]

end TransferReport

/-! ## The edit of a linked document -/

namespace Edit

variable {limit : Option Int} {path v after : Value} {d : Draft}

/-- An edit that writes to a path stops where that stops, and leaves the draft. -/
theorem write_stop {fault : Fault} (stop : Path.write limit d.doc path v = .error fault) :
    write limit path v d = .error fault d := by
  unfold write
  rw [run_bind_error]
  unfold Path.write at stop
  cases found : Path.landing limit d.doc path with
  | error cause =>
    rw [found] at stop
    cases stop
    exact .inl (by simp only [look, found])
  | ok l =>
    rw [found] at stop
    have puts : l.put d.doc v = .error fault := stop
    refine .inr ⟨l, d, look_ok.2 ⟨found, rfl⟩, ?_⟩
    unfold land
    rw [puts]

/-- An edit that writes to a path leaves the document that the write leaves. -/
theorem write_done (wrote : Path.write limit d.doc path v = .ok after) :
    ∃ l, Path.landing limit d.doc path = .ok l ∧
      write limit path v d = .ok () { d.part l.place with doc := after } := by
  obtain ⟨l, found, puts⟩ := bind_eq_ok.1 wrote
  exact ⟨l, found, write_ok.2 ⟨l, found, land_ok.2 ⟨after, puts, rfl⟩⟩⟩

end Edit

namespace Access

variable {σ : Type} {limit : Option Int} {path v : Value} {doc gs : Fields} {idField : String}
  {s : Session σ}

theorem edit_write_stop {fault : Fault}
    (stop : Path.write limit (.object doc) path v = .error fault) :
    edit (Collection.loan idField doc) (Edit.write limit path v) s = .error fault s := by
  unfold edit
  rw [Edit.write_stop (d := (Collection.loan idField doc).draft s.supply) stop]
  rfl

/-- A copy that was lent is still one that was just lent when something was written elsewhere than
    to its identifier. -/
theorem edit_write_done (other : Path.top path ≠ .ok idField)
    (wrote : Path.write limit (.object doc) path v = .ok (.object gs)) :
    edit (Collection.loan idField doc) (Edit.write limit path v) s =
      .ok (Collection.loan idField gs, ()) s := by
  obtain ⟨l, found, run⟩ :=
    Edit.write_done (d := (Collection.loan idField doc).draft s.supply) wrote
  obtain ⟨n, rest, way, segments, below, _⟩ := Path.landing_way found
  have apart : ¬ n = idField := fun own => other (own ▸ Path.top_of_split segments)
  have outside : l.place.way.isPrefixOf [.field idField] = false := by
    simp [below, List.isPrefixOf, apart]
  have known : (Known.within [.field idField]).part (.object doc) l.place.way =
      .within [.field idField] := by
    simp only [Known.part, outside, Bool.false_eq_true, if_false]
  unfold edit
  rw [run]
  show EStateM.Result.ok ((⟨gs, idField, (Known.within [.field idField]).part (.object doc)
    l.place.way, ∅⟩ : Handle), ()) s = _
  rw [known]
  rfl

end Access

namespace Collection

/-- A write of the one field in which two documents differ makes the one of the other. -/
theorem writeField_written {idField n : String} {fs gs : Fields} (written : Fields.Written n fs gs)
    (other : n ≠ idField) : writeField idField gs fs n = gs := by
  unfold writeField
  rw [if_neg other]
  rcases written with rfl | ⟨v, rfl⟩
  · split
    · rename_i held
      exact Fields.set_self held
    · rename_i missing
      exact Fields.erase_of_missing missing
  · rw [Fields.get?_set_self]

end Collection

namespace Transfer

open Collection Access

variable {source toField v : Value} {doc : Fields} {report after : TransferReport}
  {s t : Session Collection}

/-- A setback that can be noted shows the source and the linked document. -/
theorem setbackAt_ok {link error : Value} {stage : Stage} {setback : Setback}
    (noted : setbackAt source link stage error = .ok setback) :
    setback.stage = stage ∧ link.hasPlain = true := by
  obtain ⟨_, _, noted⟩ := bind_eq_ok.1 noted
  obtain ⟨_, shown, noted⟩ := bind_eq_ok.1 noted
  cases noted
  exact ⟨rfl, (Value.plainText_ok.1 shown).1⟩

/-- **The save of a linked document** whose copy took a value: the collection refuses it, and keeps
    the document as it is, or it stores the document as the copy is. An identifier that cannot be
    shown would end the transfer, since the setback has to show it. -/
theorem saveLink_stores {gs : Fields} {n : String} (top : Path.top toField = .ok n)
    (written : Fields.Written n doc gs) (other : n ≠ s.store.idField)
    (found : lookup s.store.docs (Identity.key (Fields.getD doc s.store.idField)) = some doc)
    (run : saveLink source (loan s.store.idField gs) toField report s = .ok after t) :
    t.store.idField = s.store.idField ∧ t.store.rejects = s.store.rejects ∧
      ∃ marked, if s.store.rejects { loan s.store.idField gs with modified := marked } then
        t.store.docs = s.store.docs ∧
          ∃ setback : Setback, setback.stage = .save ∧ after = report.setback setback
      else
        t.store.docs = replace s.store.docs (Identity.key (Fields.getD doc s.store.idField)) gs ∧
          after = { report with saved := report.saved + 1 } := by
  obtain ⟨marked, hmarked⟩ :=
    DirtySet.notify_handle ((∅ : DirtySet).insert n).fields (loan s.store.idField gs)
  have told : DirtySet.notify Handle.mark ((∅ : DirtySet).insert n).fields
      (loan s.store.idField gs) =
        ((∅ : DirtySet).insert n, { loan s.store.idField gs with modified := marked }) :=
    Prod.ext (DirtySet.notify_fields _ _) hmarked
  have touches : (∅ : DirtySet).touch toField = .ok ((∅ : DirtySet).insert n) :=
    bind_eq_ok.2 ⟨n, top, rfl⟩
  have same : Fields.getD gs s.store.idField = Fields.getD doc s.store.idField := by
    unfold Fields.getD
    rw [written.same other.symm]
  rw [← same] at found ⊢
  have unreported : s.store.idField ∉ ((∅ : DirtySet).insert n).fields :=
    fun among => other (List.mem_singleton.1 among).symm
  obtain ⟨final, saved, u, saves, idField, rejects, left⟩ :=
    save_within (h := { loan s.store.idField gs with modified := marked }) rfl found unreported
  have fields : writeFields s.store.idField gs doc ((∅ : DirtySet).insert n).fields = gs :=
    writeField_written written other
  obtain ⟨dirty, v, lifted, run⟩ := run_bind_ok.1 run
  obtain ⟨touched, rfl⟩ := lift_ok.1 lifted
  cases touches.symm.trans touched
  rw [told] at run
  obtain ⟨result, w, called, run⟩ := run_bind_ok.1 run
  cases saves.symm.trans called
  unfold turnsAway at left
  split at left
  · rename_i refused
    obtain ⟨rfl, ⟨fault, rfl⟩, docs⟩ := left
    obtain ⟨setback, x, lifted, run⟩ := run_bind_ok.1 run
    obtain ⟨noted, rfl⟩ := lift_ok.1 lifted
    obtain ⟨atSave, shown⟩ := setbackAt_ok noted
    obtain ⟨rfl, rfl⟩ := run_pure_ok.1 run
    rw [shown, Bool.not_true, Bool.or_false] at refused
    refine ⟨idField, rejects, marked, ?_⟩
    rw [if_pos refused]
    exact ⟨docs, setback, atSave, rfl⟩
  · rename_i accepted
    obtain ⟨⟨now, rfl⟩, docs⟩ := left
    obtain ⟨rfl, rfl⟩ := run_pure_ok.1 run
    refine ⟨idField, rejects, marked, ?_⟩
    rw [if_neg fun refused => accepted (Bool.or_eq_true_iff.2 (.inl refused))]
    exact ⟨docs.trans (congrArg (replace _ _) fields), rfl⟩

/-- Where saves are refused by the identity of the document alone, the document as it was before
    tells whether the save goes through. Either way the link is counted. -/
theorem saveLink_ok {gs : Fields} {n : String} (top : Path.top toField = .ok n)
    (written : Fields.Written n doc gs) (other : n ≠ s.store.idField)
    (judges : s.store.JudgesIdentity)
    (found : lookup s.store.docs (Identity.key (Fields.getD doc s.store.idField)) = some doc)
    (run : saveLink source (loan s.store.idField gs) toField report s = .ok after t) :
    t.store.idField = s.store.idField ∧ t.store.rejects = s.store.rejects ∧
      (t.store.docs =
        if s.store.rejects (loan s.store.idField doc) then s.store.docs
        else replace s.store.docs (Identity.key (Fields.getD doc s.store.idField)) gs) ∧
      after.persisted = report.persisted ∧ after.sources = report.sources ∧
      after.links = report.links ∧
      after.saved + after.unwritten = report.saved + report.unwritten + 1 := by
  obtain ⟨idField, rejects, marked, left⟩ := saveLink_stores top written other found run
  rw [judges.alike (written.same other.symm) marked] at left
  split at left
  · rename_i refused
    obtain ⟨docs, setback, atSave, rfl⟩ := left
    rw [if_pos refused]
    refine ⟨idField, rejects, docs, rfl, rfl, rfl, ?_⟩
    rw [TransferReport.unwritten_setback, atSave]
    rfl
  · rename_i accepted
    obtain ⟨docs, rfl⟩ := left
    rw [if_neg accepted]
    exact ⟨idField, rejects, docs, rfl, rfl, rfl, Nat.add_right_comm _ _ _⟩

/-- **One linked document**, by what becomes of its copy: where the value cannot be written, a
    failure is noted, and any other fault ends the transfer; else the copy is saved, or shown. -/
theorem copyInto_eq {σ : Type} [Store σ] {idField : String} (other : Path.top toField ≠ .ok idField)
    (source v : Value) (doc : Fields) (report : TransferReport) (s : Session σ) :
    copyInto source v toField (loan idField doc) report s =
      match Path.write (some 1) (.object doc) toField v with
      | .ok new =>
        if report.persisted then
          saveLink source (loan idField new.fields) toField
            { report with links := report.links + 1 } s
        else .ok { report with
          links := report.links + 1, previews := report.previews ++ [new.fields] } s
      | .error (.failure f) =>
        match setbackAt source (Fields.getD doc idField) .apply f.toValue with
        | .ok setback => .ok ({ report with links := report.links + 1 }.setback setback) s
        | .error fault => .error fault s
      | .error fault => .error fault s := by
  unfold copyInto
  rw [run_bind]
  cases wrote : Path.write (some 1) (.object doc) toField v with
  | error fault =>
    have stops : attempt (edit (loan idField doc) (Edit.write (some 1) toField v)) s =
        .ok (.error fault) s := by
      unfold attempt
      rw [edit_write_stop wrote]
    rw [stops]
    cases fault with
    | failure f =>
      dsimp only
      rw [run_bind]
      have ident : (loan idField doc).id = Fields.getD doc idField := rfl
      rw [ident]
      cases setbackAt source (Fields.getD doc idField) .apply f.toValue <;> rfl
    | _ => rfl
  | ok new =>
    obtain ⟨n, gs, _, rfl, _⟩ := Path.write_written wrote
    have goes : attempt (edit (loan idField doc) (Edit.write (some 1) toField v)) s =
        .ok (.ok (loan idField gs, ())) s := by
      unfold attempt
      rw [edit_write_done other wrote]
    rw [goes]
    dsimp only
    split <;> rfl

/-- **One linked document of a transfer that saves.** It takes the value, if that can be written and
    is not refused, and it is counted as saved or failed. -/
theorem copyInto_ok (other : Path.top toField ≠ .ok s.store.idField)
    (judges : s.store.JudgesIdentity)
    (found : lookup s.store.docs (Identity.key (Fields.getD doc s.store.idField)) = some doc)
    (persists : report.persisted = true)
    (run : copyInto source v toField (loan s.store.idField doc) report s = .ok after t) :
    t.store.idField = s.store.idField ∧ t.store.rejects = s.store.rejects ∧
      t.store.docs = replace s.store.docs (Identity.key (Fields.getD doc s.store.idField))
        (s.store.received toField v doc) ∧
      report.Continues 0 after := by
  rw [copyInto_eq other] at run
  unfold received
  cases wrote : Path.write (some 1) (.object doc) toField v with
  | error fault =>
    rw [wrote] at run
    rw [ite_self, replace_self found]
    cases fault with
    | failure f =>
      dsimp only at run
      split at run
      · rename_i setback noted
        cases run
        refine ⟨rfl, rfl, rfl, rfl, rfl, fun start => ?_⟩
        rw [TransferReport.unwritten_setback, (setbackAt_ok noted).1]
        exact congrArg (· + 1) start
      · cases run
    | _ => cases run
  | ok new =>
    rw [wrote] at run
    obtain ⟨n, gs, top, rfl, written⟩ := Path.write_written wrote
    dsimp only at run ⊢
    rw [if_pos persists] at run
    obtain ⟨idField, rejects, docs, persisted, sources, links, counted⟩ :=
      saveLink_ok top written (fun own => other (own ▸ top)) judges found run
    refine ⟨idField, rejects, docs.trans ?_, persisted, sources, fun start => ?_⟩
    · split
      · rw [replace_self found]
      · rfl
    · rw [links, counted]
      exact congrArg (· + 1) start

/-- **All documents linked to a source**, one after the other: each is found as it was looked up. -/
theorem copyIntoAll_ok {docs : List Fields} (other : Path.top toField ≠ .ok s.store.idField)
    (judges : s.store.JudgesIdentity)
    (found : ∀ doc ∈ docs,
      lookup s.store.docs (Identity.key (Fields.getD doc s.store.idField)) = some doc)
    (keys : (docs.map fun doc => Identity.key (Fields.getD doc s.store.idField)).Nodup)
    (persists : report.persisted = true)
    (run : copyIntoAll source v toField (docs.map (loan s.store.idField)) report s = .ok after t) :
    t.store.idField = s.store.idField ∧ t.store.rejects = s.store.rejects ∧
      t.store.docs = docs.foldl (fun all doc =>
        replace all (Identity.key (Fields.getD doc s.store.idField))
          (s.store.received toField v doc)) s.store.docs ∧
      report.Continues 0 after := by
  induction docs generalizing s report with
  | nil =>
    obtain ⟨rfl, rfl⟩ := run_pure_ok.1 run
    exact ⟨rfl, rfl, rfl, .refl _⟩
  | cons doc rest ih =>
    obtain ⟨between, u, first, run⟩ := run_bind_ok.1 run
    obtain ⟨idField, rejects, left, goes⟩ :=
      copyInto_ok other judges (found doc List.mem_cons_self) persists first
    obtain ⟨fresh, keys⟩ := List.nodup_cons.1 keys
    have judges' : u.store.JudgesIdentity := by
      unfold JudgesIdentity
      rw [rejects]
      exact judges
    have received' : u.store.received = s.store.received := by
      funext path w d
      unfold received
      rw [idField, rejects]
    rw [← idField] at other run keys
    have found' (d : Fields) (among : d ∈ rest) :
        lookup u.store.docs (Identity.key (Fields.getD d u.store.idField)) = some d := by
      rw [left, idField, lookup_replace_ne fun same => fresh (List.mem_map.2 ⟨d, among, same⟩)]
      exact found d (List.mem_cons_of_mem doc among)
    obtain ⟨idField', rejects', docs, more⟩ :=
      ih other judges' found' keys (goes.persisted.trans persists) run
    rw [received', left, idField] at docs
    exact ⟨idField'.trans idField, rejects'.trans rejects, docs, goes.trans more⟩

/-! ## One source after the other -/

variable {plan : Plan} {start : Collection} {before : List Fields} {lender : Fields}
  {sourceField : String}

/-- A plan that can be followed to the end: its writes go neither to the identifier nor to the field
    at which the documents are linked, which is no connective; and saves are refused by the identity
    of the document alone. -/
structure Plan.Steady (plan : Plan) (c : Collection) : Prop where
  filed : c.Filed
  judges : c.JudgesIdentity
  other : Path.top plan.toField ≠ .ok c.idField
  apart : ∀ n, Path.top plan.toField = .ok n → Path.top plan.linkField ≠ .ok n
  noConnective : plan.linkField ≠ .text "$and" ∧ plan.linkField ≠ .text "$or"

/-- **A lookup among what documents have become** finds what those have become that it would have
    found at the start. -/
theorem find_final {linkValue filter : Value} (steady : plan.Steady start)
    (becomes : Becomes (plan.final start before) start s.store)
    (given : linkFilter plan.linkField linkValue = .ok filter) :
    (s.store.find filter).isOk = (start.find filter).isOk := by
  have alike := fun doc (_ : doc ∈ start.all) =>
    matches_final steady.apart steady.noConnective given before doc (c := start)
  unfold Collection.find
  rw [becomes.all, selectFrom_map alike]
  cases selectFrom filter start.all <;> rfl

/-- **The documents that a source is linked to**, as its lookup finds them, take its value. -/
theorem copyLinks_ok {filter : Value} (steady : plan.Steady start)
    (becomes : Becomes (plan.final start before) start s.store)
    (persists : report.persisted = true)
    (run : copyIntoAll source v plan.toField
      ((s.store.selected filter).map (loan s.store.idField)) report s = .ok after t) :
    Becomes (fun doc =>
        if Filter.holds filter doc then s.store.received plan.toField v doc else doc)
      s.store t.store ∧ report.Continues 0 after := by
  have filed : s.store.Filed :=
    becomes.filed steady.filed (get?_final steady.other before) fun _ => final_distinct
  have judges : s.store.JudgesIdentity := by
    unfold JudgesIdentity
    rw [becomes.rejects]
    exact steady.judges
  have other : Path.top plan.toField ≠ .ok s.store.idField := by
    rw [becomes.idField]
    exact steady.other
  have chosen : (s.store.selected filter).Sublist s.store.all := List.filter_sublist
  have keys := filed.keys
  rw [filed.keys_eq] at keys
  obtain ⟨idField, rejects, docs, counts⟩ := copyIntoAll_ok other judges
    (fun doc among => filed.lookup_own (chosen.subset among))
    (keys.sublist (chosen.map fun doc => Identity.key (Fields.getD doc s.store.idField)))
    persists run
  refine ⟨⟨idField, rejects, docs.trans ?_⟩, counts⟩
  exact foldl_replace (fun doc => Identity.key (Fields.getD doc s.store.idField))
    (Filter.holds filter) (s.store.received plan.toField v) filed.keys filed.under

/-- Documents that took the value of a source linked to them have become what they are to become with
    that source. -/
theorem becomes_linked {linkValue filter : Value} (steady : plan.Steady start)
    (becomes : Becomes (plan.final start before) start s.store)
    (given : linkFilter plan.linkField linkValue = .ok filter)
    (links : ∀ doc, plan.links start lender doc = Filter.holds filter doc)
    (stored : Becomes (fun doc =>
        if Filter.holds filter doc then s.store.received plan.toField (plan.lent lender) doc
        else doc) s.store t.store) :
    Becomes (plan.final start (before ++ [lender])) start t.store := by
  refine ⟨stored.idField.trans becomes.idField, stored.rejects.trans becomes.rejects, ?_⟩
  rw [stored.docs, becomes.docs, List.map_map]
  refine List.map_congr_left fun entry _ => ?_
  have seen : Filter.holds filter (plan.final start before entry.2) =
      Filter.holds filter entry.2 := by
    unfold Filter.holds
    rw [matches_final steady.apart steady.noConnective given]
  show (entry.1, _) = (entry.1, _)
  rw [final_concat steady.judges steady.other, links, seen, becomes.received]

/-- **One more source.** Where its lookup fails, or is not made, nothing changes. -/
theorem fromSource_ok (steady : plan.Steady start)
    (becomes : Becomes (plan.final start before) start s.store)
    (persists : report.persisted = true)
    (run : fromSource plan (loan sourceField lender) report s = .ok after t) :
    Becomes (plan.final start (before ++ [lender])) start t.store ∧ report.Continues 1 after := by
  unfold fromSource at run
  obtain ⟨linkValue, u, read, run⟩ := run_bind_ok.1 run
  obtain ⟨linking, rfl⟩ := lift_ok.1 read
  cases linkValue with
  | none =>
    have none : plan.lookup? lender = none := by
      unfold Plan.lookup?
      rw [show Path.find? (.object lender) plan.linkField = .ok none from linking]
    obtain ⟨_, _, rfl, rfl⟩ := lift_return_ok.1 run
    rw [final_unlinked fun doc => by unfold Plan.links; rw [none]]
    exact ⟨becomes, rfl, rfl, id⟩
  | some linkValue =>
    have lookup : plan.lookup? lender = (linkFilter plan.linkField linkValue).toOption := by
      unfold Plan.lookup?
      rw [show Path.find? (.object lender) plan.linkField = .ok (some linkValue) from linking]
    obtain ⟨v, u, read, run⟩ := run_bind_ok.1 run
    obtain ⟨lending, rfl⟩ := lift_ok.1 read
    have lent : plan.lent lender = v.getD .null := by
      unfold Plan.lent
      rw [show Path.read? (.object lender) plan.fromField = .ok v from lending]
    rw [run_bind, attempt_look] at run
    cases given : linkFilter plan.linkField linkValue with
    | error fault =>
      rw [given] at lookup run
      obtain ⟨_, _, rfl, rfl⟩ := lift_return_ok.1 run
      rw [final_unlinked fun doc => by unfold Plan.links; rw [lookup]; rfl]
      refine ⟨becomes, rfl, rfl, fun start => ?_⟩
      rw [TransferReport.unwritten_setback]
      exact start
    | ok filter =>
      rw [given] at lookup run
      have same := find_final steady becomes given
      have links (doc : Fields) :
          plan.links start lender doc = ((start.find filter).isOk && Filter.holds filter doc) := by
        unfold Plan.links
        rw [lookup]
        rfl
      cases finds : s.store.find filter with
      | error fault =>
        have finds' : Store.find s.store filter = .error fault := finds
        have stops : (do Store.find s.store (← (Except.ok filter : Except Fault Value))) =
            .error fault := finds'
        rw [finds] at same
        rw [stops] at run
        obtain ⟨_, _, rfl, rfl⟩ := lift_return_ok.1 run
        rw [final_unlinked fun doc => by rw [links, ← same]; rfl]
        refine ⟨becomes, rfl, rfl, fun start => ?_⟩
        rw [TransferReport.unwritten_setback]
        exact start
      | ok handles =>
        have finds' : Store.find s.store filter = .ok handles := finds
        rw [finds] at same
        simp only [bind, Except.bind, finds'] at run
        rw [Collection.find_ok finds] at run
        have persists' : { report with sources := report.sources + 1 }.persisted = true := persists
        obtain ⟨stored, counts⟩ := copyLinks_ok steady becomes persists' run
        rw [← lent] at stored
        exact ⟨becomes_linked steady becomes given (fun doc => by rw [links, ← same]; rfl) stored,
          counts.persisted, counts.sources, counts.balanced⟩

/-- **One source after the other**: what documents become follows the sources, in their order. -/
theorem fromSources_ok {sources : List Fields} (steady : plan.Steady start)
    (becomes : Becomes (plan.final start before) start s.store)
    (persists : report.persisted = true)
    (run : fromSources plan (sources.map (loan sourceField)) report s = .ok after t) :
    Becomes (plan.final start (before ++ sources)) start t.store ∧
      report.Continues sources.length after := by
  induction sources generalizing before report s with
  | nil =>
    obtain ⟨rfl, rfl⟩ := run_pure_ok.1 run
    rw [List.append_nil]
    exact ⟨becomes, .refl _⟩
  | cons lender rest ih =>
    obtain ⟨between, u, first, run⟩ := run_bind_ok.1 run
    obtain ⟨becomes, goes⟩ := fromSource_ok steady becomes persists first
    obtain ⟨becomes, more⟩ := ih becomes (goes.persisted.trans persists) run
    rw [List.append_assoc] at becomes
    refine ⟨becomes, ?_⟩
    rw [List.length_cons, Nat.add_comm]
    exact goes.trans more

end Transfer

/-- **What a transfer leaves.** Every document of the target has become what the last source linked
    to it makes of it: it has taken that source's value, unless the value cannot be written there or
    the save is refused. The report counts every source that the query selects, and accounts for
    every link as saved, or as failed in its edit or its save. The source may be the target itself:
    what it lends is fetched before the first write. -/
theorem transfer_final {plan : Transfer.Plan} {fromQuery : Value} {source : Collection}
    {s t : Session Collection} {report : TransferReport} (steady : plan.Steady s.store)
    (run : transfer plan fromQuery source true s = .ok report t) :
    (t.store.docs = s.store.docs.map fun entry =>
        (entry.1, plan.final s.store (source.selected fromQuery) entry.2)) ∧
      report.sources = (source.selected fromQuery).length ∧
      report.links = report.saved + report.unwritten := by
  obtain ⟨c, u, looked, run⟩ := run_bind_ok.1 run
  obtain ⟨_, rfl⟩ := Access.look_ok.1 looked
  obtain ⟨_, u, checked, run⟩ := run_bind_ok.1 run
  obtain ⟨_, rfl⟩ := Access.lift_ok.1 checked
  obtain ⟨handles, u, fetched, run⟩ := run_bind_ok.1 run
  obtain ⟨finds, rfl⟩ := Access.lift_ok.1 fetched
  rw [Collection.find_ok finds] at run
  have begins : Collection.Becomes (plan.final s.store []) s.store s.store :=
    ⟨rfl, rfl, (List.map_id _).symm⟩
  obtain ⟨becomes, goes⟩ := Transfer.fromSources_ok steady begins rfl run
  refine ⟨becomes.docs, ?_, goes.balanced rfl⟩
  rw [goes.sources]
  exact Nat.zero_add _

/-- Two sources are linked to two documents, and the saves of one of these are refused: the other
    one ends with the value of the second source. -/
theorem transfer_final_refused :
    let plan : Transfer.Plan := ⟨.text "k", .text "v", .text "w"⟩
    let source : Collection := { name := "from", docs := [
      (some "a", [("_id", .text "a"), ("k", .int 1), ("v", .text "x")]),
      (some "b", [("_id", .text "b"), ("k", .int 1), ("v", .text "y")])] }
    let target : Collection := {
      name := "to"
      docs := [(some "c", [("_id", .text "c"), ("k", .int 1)]),
        (some "d", [("_id", .text "d"), ("k", .int 1)])]
      rejects := fun h => h.id.plain == "d" }
    let s : Session Collection := ⟨target, { origin := 0, last := 0, pace := 1 }⟩
    plan.Steady s.store ∧
      ∃ report t, transfer plan (.object []) source true s = .ok report t ∧
        t.store.docs = [(some "c", [("_id", .text "c"), ("k", .int 1), ("w", .text "y")]),
          (some "d", [("_id", .text "d"), ("k", .int 1)])] ∧
        report.sources = 2 ∧ report.links = report.saved + report.unwritten := by
  intro plan source target s
  have steady : plan.Steady s.store := by
    refine ⟨⟨by decide, ?_, ?_⟩, fun g h _ same _ => ?_, ?_, ?_, ?_⟩
    · intro entry among
      simp only [s, target, List.mem_cons, List.not_mem_nil, or_false] at among
      rcases among with rfl | rfl <;> rfl
    · intro entry among
      simp only [s, target, List.mem_cons, List.not_mem_nil, or_false] at among
      rcases among with rfl | rfl
      · show ["_id", "k"].Nodup
        decide
      · show ["_id", "k"].Nodup
        decide
    · show (g.id.plain == "d") = (h.id.plain == "d")
      rw [same]
    · intro same
      have own : "w" = "_id" := Except.ok.inj same
      exact absurd own (by decide)
    · intro n written linking
      have own : "w" = "k" := Except.ok.inj (written.trans linking.symm)
      exact absurd own (by decide)
    · exact ⟨fun same => absurd (Value.text.inj same) (by decide),
        fun same => absurd (Value.text.inj same) (by decide)⟩
  let refused (lender : String) : Setback :=
    ⟨lender, some "d", .save,
      .text (target.refusal (Collection.loan "_id" [("_id", .text "d")])).literal⟩
  let left (value : String) : List (Option String × Fields) :=
    [(some "c", [("_id", .text "c"), ("k", .int 1), ("w", .text value)]),
      (some "d", [("_id", .text "d"), ("k", .int 1)])]
  have first : Transfer.fromSource plan
      (Collection.loan "_id" [("_id", .text "a"), ("k", .int 1), ("v", .text "x")])
      { persisted := true } s = .ok
        { persisted := true, sources := 1, links := 2, saved := 1, setbacks := [refused "a"] }
        { s with store := { target with docs := left "x", saves := 2, changes := 1 } } := rfl
  have second : Transfer.fromSource plan
      (Collection.loan "_id" [("_id", .text "b"), ("k", .int 1), ("v", .text "y")])
      { persisted := true, sources := 1, links := 2, saved := 1, setbacks := [refused "a"] }
      { s with store := { target with docs := left "x", saves := 2, changes := 1 } } = .ok
        { persisted := true, sources := 2, links := 4, saved := 2,
          setbacks := [refused "a", refused "b"] }
        { s with store := { target with docs := left "y", saves := 4, changes := 2 } } := rfl
  have run : transfer plan (.object []) source true s = .ok _ _ :=
    run_bind_ok.2 ⟨_, _, rfl, run_bind_ok.2 ⟨_, _, rfl, run_bind_ok.2 ⟨_, _, rfl,
      run_bind_ok.2 ⟨_, _, first, run_bind_ok.2 ⟨_, _, second, rfl⟩⟩⟩⟩⟩
  obtain ⟨docs, sources, balanced⟩ := transfer_final steady run
  exact ⟨steady, _, _, run, rfl, sources, balanced⟩

end DocRepair

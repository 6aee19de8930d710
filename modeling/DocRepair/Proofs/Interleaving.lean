import Mathlib.Data.Fin.VecNotation
import DocRepair.Proofs.Kept
import DocRepair.Proofs.Loans
import DocRepair.Proofs.Locality
/-!
# `DocRepair.Proofs.Interleaving` — requests that do not get in each other's way

Requests that change the same document each fetch a copy, make their changes on it, and save the
fields that they touched. In between, others may have saved theirs, so that a copy is older than what
is stored. If no field is touched by two of the requests, that does no harm: what a request makes of
its fields depends on these fields only, and its save writes no others. So the steps of the requests
may come in any order, unless a hook judges a save by fields of the others.

## Contents

* `ChangeRequest` — `fetch` / `finish` / `perform`: changes to a document with a given identifier;
* `Collection.JudgesBy` — refusals of saves that look only at given fields;
* `ChangeRequest.written` / `ChangeRequest.finish_docs` — what a save of an old copy leaves;
* `Collection.fetch_replaced` — a document is found again after it was written;
* `Race.Underway` — the document in a race, for any number of requests;
* `Race.Step` / `Race.Run` — requests whose steps come in any order;
* `Race.Step.underway` / `Race.Run.underway` — what every step, and so every run, keeps;
* `Race.Run.same` / `Race.no_update_lost` — every order of the steps leaves the same;
* `Race.order_matters_to_hook` — a hook that looks at the fields of two requests.
-/

namespace DocRepair

/-! ## Requests -/

/-- A request to change a document: its changes, the field that they take for the identifier, and
    the supply from which they are given instants, the same whenever they are made. -/
structure ChangeRequest where
  idField : String := Identity.defaultField
  changes : Value
  supply : Supply

namespace ChangeRequest

/-- The request is about a field: the path of one of its changes begins with it. -/
def Touches (r : ChangeRequest) (n : String) : Prop := (PathEdit.applyRaw r.changes).Begins n

/-- The document with an identifier, on loan. -/
def fetch (ident : Value) (c : Collection) : Option Handle :=
  match c.findOne (.object [(c.idField, ident)]) with
  | .ok found => found
  | .error _ => none

/-- Makes the changes on a copy and, if that succeeds, saves the fields that they touched. -/
def finish (r : ChangeRequest) (copy : Handle) (s : Session Collection) : Session Collection :=
  match Edit.applyRaw r.idField r.changes (copy.draft r.supply) with
  | .ok dirty d => (Collection.save (copy.afterDraft d) dirty).sessionAfter s
  | .error _ _ => s

/-- The whole request, with no other in between. -/
def perform (r : ChangeRequest) (ident : Value) (s : Session Collection) : Session Collection :=
  match fetch ident s.store with
  | some copy => r.finish copy s
  | none => s

end ChangeRequest

/-- Fields that are the same but for their order. -/
def Fields.Same (fs gs : Fields) : Prop := ∀ n, get? fs n = get? gs n

namespace Collection

/-- Collections with the same documents under the same keys, in the same order; fields may be in
    another order. -/
def Same (c d : Collection) : Prop :=
  List.Forall₂ (fun left right => left.1 = right.1 ∧ Fields.Same left.2 right.2) c.docs d.docs

/-- Saves of copies that agree on the identifier and on given fields are refused alike. So it is
    where no save is refused, or where the identifier alone decides. -/
def JudgesBy (c : Collection) (names : String → Prop) : Prop :=
  ∀ left right : Fields, Fields.get? left c.idField = Fields.get? right c.idField →
    (∀ n, names n → Fields.get? left n = Fields.get? right n) →
    c.rejects (loan c.idField left) = c.rejects (loan c.idField right)

/-- The save of a copy is refused, or stops at an identifier that cannot be shown. -/
def turnsAway (c : Collection) (h : Handle) : Bool :=
  c.rejects h || !h.id.hasPlain

end Collection

/-! ## One request -/

namespace Edit

variable {idField : String} {d d' : Draft} {dirty : DirtySet}

theorem applyFrom_dirty {applied : Nat} {before : DirtySet} {changes : List Change}
    (run : applyFrom idField applied before changes d = .ok dirty d') {n : String}
    (h : n ∈ dirty.fields) : n ∈ before.fields ∨ ChangesBegin n changes := by
  induction changes generalizing applied before d with
  | nil =>
    obtain ⟨rfl, rfl⟩ := run_pure_ok.1 run
    exact .inl h
  | cons c rest ih =>
    unfold applyFrom at run
    split at run
    · cases run
    · split at run
      · cases run
      · rename_i more touch
        obtain ⟨m, segments, splits, rfl⟩ := DirtySet.touch_ok touch
        rcases ih run with known | ⟨c', hc, begins⟩
        · rcases DirtySet.mem_insert.1 known with rfl | known
          · exact .inr ⟨c, List.mem_cons_self, segments, splits⟩
          · exact .inl known
        · exact .inr ⟨c', List.mem_cons_of_mem _ hc, begins⟩

/-- Changes report only fields with which one of their paths begins. -/
theorem applyRaw_dirty {raw : Value} (run : applyRaw idField raw d = .ok dirty d') {n : String}
    (h : n ∈ dirty.fields) : (PathEdit.applyRaw raw).Begins n := by
  obtain ⟨changes, e, parsed, run⟩ := run_bind_ok.1 run
  obtain ⟨given, rfl⟩ := lift_ok.1 parsed
  exact ⟨changes, given, (applyFrom_dirty run h).resolve_left List.not_mem_nil⟩

end Edit

namespace ChangeRequest

open Collection

variable {r : ChangeRequest} {c : Collection} {copy copy' stored stored' : Fields} {dirty : DirtySet}
  {d : Draft}

/-- What is stored after a request has tried to save an old copy over a document: the save may be
    refused, and a copy with an identifier that cannot be shown finds no document. -/
def written (r : ChangeRequest) (c : Collection) (copy stored : Fields) : Fields :=
  match Edit.applyRaw r.idField r.changes ((loan c.idField copy).draft r.supply) with
  | .ok dirty d =>
    if c.turnsAway (loan c.idField d.doc.fields) then stored
    else writeFields c.idField d.doc.fields stored dirty.fields
  | .error _ _ => stored

/-- A request of one change touches one field. -/
theorem Touches.of_single {n name : String} {rest : List String} {c : Change}
    (touched : r.Touches n) (given : Change.parse r.changes = .ok [c])
    (segments : Path.split (.text c.path) = .ok (name :: rest)) : n = name := by
  obtain ⟨changes, parsed, change, among, more, splits⟩ := touched
  rw [given] at parsed
  cases parsed
  rw [List.mem_singleton.1 among, segments] at splits
  cases splits
  rfl

/-- Changes that do not touch the identifier leave a copy as one that was just lent. -/
theorem edited_copy (spared : ¬ r.Touches c.idField)
    (run : Edit.applyRaw r.idField r.changes ((loan c.idField copy).draft r.supply) = .ok dirty d) :
    (loan c.idField copy).afterDraft d = loan c.idField d.doc.fields ∧
      Fields.get? d.doc.fields c.idField = Fields.get? copy c.idField ∧ c.idField ∉ dirty.fields := by
  have steps : Draft.Steps r.idField _ r.Touches ((loan c.idField copy).draft r.supply) d :=
    Edit.Goes.ok ((PathEdit.applyRaw r.changes).run_goes r.idField rfl) run
  obtain ⟨same, within⟩ := steps.untouched rfl spared
  refine ⟨?_, same, fun reported => spared (Edit.applyRaw_dirty run reported)⟩
  unfold Handle.afterDraft loan
  rw [within rfl]

theorem written_distinct (distinct : Fields.Distinct stored) :
    Fields.Distinct (r.written c copy stored) := by
  unfold written
  split
  · split
    · exact distinct
    · exact writeFields_distinct distinct _
  · exact distinct

/-- **A save leaves alone what the request does not touch**, however old the copy is. -/
theorem written_other (distinct : Fields.Distinct stored) {n : String} (other : ¬ r.Touches n) :
    Fields.get? (r.written c copy stored) n = Fields.get? stored n := by
  unfold written
  split
  · rename_i dirty d run
    have unreported : n ∉ dirty.fields := fun reported => other (Edit.applyRaw_dirty run reported)
    split
    · rfl
    · rw [get?_writeFields distinct, if_neg fun both => unreported both.1]
  · rfl

/-- **What a save leaves in the fields that the request touches** depends on these fields only, of
    the copy and of what was stored. -/
theorem written_touched (spared : ¬ r.Touches c.idField) (fair : c.JudgesBy r.Touches)
    (distinct : Fields.Distinct stored) (distinct' : Fields.Distinct stored')
    (known : Fields.get? copy c.idField = Fields.get? copy' c.idField)
    (copies : ∀ n, r.Touches n → Fields.get? copy n = Fields.get? copy' n) {n : String}
    (before : Fields.get? stored n = Fields.get? stored' n) (touched : r.Touches n) :
    Fields.get? (r.written c copy stored) n = Fields.get? (r.written c copy' stored') n := by
  have agree : ((loan c.idField copy).draft r.supply).Agree r.Touches
      ((loan c.idField copy').draft r.supply) := ⟨rfl, rfl, rfl, copies⟩
  have twin : Edit.SameOutcome r.Touches
      (Edit.applyRaw r.idField r.changes ((loan c.idField copy).draft r.supply))
      (Edit.applyRaw r.idField r.changes ((loan c.idField copy').draft r.supply)) :=
    Edit.applyRaw_twin agree
  unfold written
  cases left : Edit.applyRaw r.idField r.changes ((loan c.idField copy).draft r.supply) with
  | error fault d =>
    rw [left] at twin
    cases right : Edit.applyRaw r.idField r.changes ((loan c.idField copy').draft r.supply) with
    | error fault' e => exact before
    | ok dirty e =>
      rw [right] at twin
      cases twin
  | ok dirty d =>
    rw [left] at twin
    cases right : Edit.applyRaw r.idField r.changes ((loan c.idField copy').draft r.supply) with
    | error fault e =>
      rw [right] at twin
      cases twin
    | ok dirty' e =>
      rw [right] at twin
      cases twin with
      | ok _ agree =>
        obtain ⟨_, identL, _⟩ := edited_copy spared left
        obtain ⟨_, identR, _⟩ := edited_copy spared right
        have ident := identL.trans (known.trans identR.symm)
        have shown : (loan c.idField d.doc.fields).id = (loan c.idField e.doc.fields).id :=
          congrArg (·.getD .null) ident
        have judged : c.turnsAway (loan c.idField d.doc.fields) =
            c.turnsAway (loan c.idField e.doc.fields) := by
          unfold turnsAway
          rw [fair d.doc.fields e.doc.fields ident agree.same, shown]
        dsimp only
        rw [judged]
        split
        · exact before
        · rw [get?_writeFields distinct, get?_writeFields distinct', agree.same n touched, before]

end ChangeRequest

/-! ## One document of a collection -/

namespace Collection

variable {s : Session Collection} {c d : Collection} {doc new stored : Fields} {filter : Value}

/-- A save that finds its document, and is not to file it anew, writes the given fields over it. -/
theorem store_in_place {h : Handle} {fields : DirtySet} (shown : h.addressId.hasPlain = true)
    (found : lookup s.store.docs (Identity.key h.addressId) = some stored)
    (stays : h.renamedBy s.store.idField fields = .ok false) :
    store h fields s = .ok (writeFields s.store.idField h.data stored fields.fields)
      { s with store := { s.store with
          docs := replace s.store.docs (Identity.key h.addressId)
            (writeFields s.store.idField h.data stored fields.fields) } } := by
  rw [store_over shown found, overwrite_eq, stays]
  rfl

/-- A save that finds its document, and is not to file it anew: unless it is refused, the given fields
    are written over the document. -/
theorem save_in_place {h : Handle} {fields : DirtySet} (shown : h.addressId.hasPlain = true)
    (found : lookup s.store.docs (Identity.key h.addressId) = some stored)
    (stays : h.renamedBy s.store.idField fields = .ok false) :
    save h fields s =
      let final := writeFields s.store.idField h.data stored fields.fields
      if s.store.rejects h then
        .ok (h, .error (s.store.refusal h)) { s with store := s.store.attempted }
      else
        .ok (h.settle (.apart (Fields.getD final s.store.idField)),
            .ok (loan s.store.idField final))
          { s with store := { s.store.attempted with
              docs := replace s.store.docs (Identity.key h.addressId) final }.changed } := by
  have stored := store_in_place (s := { s with store := s.store.attempted }) shown found stays
  rw [save_eq]
  dsimp only
  rw [stored]
  rfl

/-- A save of a copy whose identifier cannot be shown finds no document. -/
theorem save_hidden {h : Handle} {fields : DirtySet} (hidden : h.addressId.hasPlain = false) :
    ∃ fault, save h fields s =
      .ok (h, .error fault) { s with store := s.store.attempted } := by
  rw [save_eq]
  dsimp only
  split
  · exact ⟨_, rfl⟩
  · rw [store_eq, Identity.filing_error.2 ⟨hidden, rfl⟩]
    exact ⟨_, rfl⟩

/-- A save of a copy that is known by its identifier, which is not to be written: unless it is turned
    away, the given fields are written over the document with this identifier. -/
theorem save_within {h : Handle} {fields : DirtySet} (within : h.known = .within [.field h.idField])
    (found : lookup s.store.docs (Identity.key h.id) = some stored)
    (unreported : s.store.idField ∉ fields.fields) :
    ∃ final saved t, save h fields s = .ok (final, saved) t ∧
      t.store.idField = s.store.idField ∧ t.store.rejects = s.store.rejects ∧
      if s.store.turnsAway h then
        final = h ∧ (∃ fault, saved = .error fault) ∧ t.store.docs = s.store.docs
      else (∃ now, saved = .ok now) ∧
        t.store.docs = replace s.store.docs (Identity.key h.id)
          (writeFields s.store.idField h.data stored fields.fields) := by
  have address := Handle.addressId_within within
  unfold turnsAway
  cases shown : h.id.hasPlain with
  | false =>
    rw [← address] at shown
    obtain ⟨fault, stops⟩ : ∃ fault, save h fields s = .ok (h, .error fault) _ :=
      save_hidden shown
    refine ⟨_, _, _, stops, rfl, rfl, ?_⟩
    rw [Bool.not_false, Bool.or_true, if_pos rfl]
    exact ⟨rfl, ⟨_, rfl⟩, rfl⟩
  | true =>
    rw [← address] at shown found ⊢
    have stays : h.renamedBy s.store.idField fields = .ok false := by
      unfold Handle.renamedBy DirtySet.contains
      rw [if_neg (by simpa using unreported)]
    rw [save_in_place shown found stays, Bool.not_true, Bool.or_false]
    by_cases refused : s.store.rejects h = true
    · rw [if_pos refused]
      refine ⟨_, _, _, rfl, rfl, rfl, ?_⟩
      rw [if_pos refused]
      exact ⟨rfl, ⟨_, rfl⟩, rfl⟩
    · rw [if_neg refused]
      refine ⟨_, _, _, rfl, rfl, rfl, ?_⟩
      rw [if_neg refused]
      exact ⟨⟨_, rfl⟩, rfl⟩

theorem firstOf_matches {docs : List Fields} (run : firstOf filter docs = .ok (some doc)) :
    Filter.matches? (.object doc) filter = .ok true := by
  induction docs with
  | nil => cases run
  | cons first rest ih =>
    obtain ⟨matched, tested, run⟩ := bind_eq_ok.1 run
    cases matched with
    | true =>
      cases run
      exact tested
    | false => exact ih run

/-- The document that a filter finds is found again after it was written, if the filter makes no
    difference between the two. -/
theorem firstOf_replace {docs : List (Option String × Fields)} (keyOf : Fields → Option String)
    (keys : (docs.map (·.1)).Nodup) (under : ∀ entry ∈ docs, entry.1 = keyOf entry.2)
    (run : firstOf filter (docs.map (·.2)) = .ok (some doc))
    (alike : Filter.matches? (.object new) filter = Filter.matches? (.object doc) filter) :
    firstOf filter ((replace docs (keyOf doc) new).map (·.2)) = .ok (some new) := by
  have found := firstOf_matches run
  induction docs with
  | nil => cases run
  | cons entry rest ih =>
    obtain ⟨k, first⟩ := entry
    have own : k = keyOf first := under _ List.mem_cons_self
    obtain ⟨matched, tested, run⟩ := bind_eq_ok.1 run
    cases matched with
    | true =>
      cases run
      unfold replace firstOf
      rw [if_pos own, List.map_cons]
      dsimp only
      rw [alike, tested]
      rfl
    | false =>
      -- The document that was found is filed further down, so under another key.
      obtain ⟨fresh, more⟩ := List.nodup_cons.1 keys
      have others : ∀ entry ∈ rest, entry.1 = keyOf entry.2 :=
        fun entry h => under entry (List.mem_cons_of_mem _ h)
      have apart : ¬ k = keyOf doc := by
        intro same
        obtain ⟨entry, hentry, rfl⟩ := List.mem_map.1 (firstOf_mem run)
        rw [same, ← others entry hentry] at fresh
        exact fresh (List.mem_map.2 ⟨entry, hentry, rfl⟩)
      unfold replace
      rw [if_neg apart, List.map_cons]
      unfold firstOf
      rw [tested]
      exact ih more others run

/-- What a request finds is the first document that the filter finds, on loan. -/
theorem fetch_eq_some {ident : Value} {copy : Handle} :
    ChangeRequest.fetch ident c = some copy ↔
      ∃ doc, firstOf (.object [(c.idField, ident)]) c.all = .ok (some doc) ∧
        loan c.idField doc = copy := by
  unfold ChangeRequest.fetch findOne
  cases firstOf (.object [(c.idField, ident)]) c.all with
  | error fault =>
    constructor
    · intro found
      cases found
    · rintro ⟨doc, run, _⟩
      cases run
  | ok first =>
    cases first with
    | none =>
      constructor
      · intro found
        cases found
      · rintro ⟨doc, run, _⟩
        cases run
    | some doc =>
      constructor
      · intro found
        exact ⟨doc, rfl, Option.some.inj found⟩
      · rintro ⟨other, run, lent⟩
        cases run
        exact congrArg some lent

/-- **A request finds its document again** after it was written, as long as its identifier stays. -/
theorem fetch_replaced {ident : Value} (filed : c.Filed)
    (plain : Path.split (.text c.idField) = .ok [c.idField]) (scalar : ident.isArray = false)
    (found : firstOf (.object [(c.idField, ident)]) c.all = .ok (some doc))
    (known : Fields.get? new c.idField = Fields.get? doc c.idField)
    (field : d.idField = c.idField)
    (docs : d.docs = replace c.docs (Identity.key (Fields.getD doc c.idField)) new) :
    ChangeRequest.fetch ident d = some (loan c.idField new) := by
  refine fetch_eq_some.2 ⟨new, ?_, by rw [field]⟩
  unfold all
  rw [field, docs]
  exact firstOf_replace (fun doc => Identity.key (Fields.getD doc c.idField)) filed.keys
    filed.under found (Filter.matches_local plain scalar known)

end Collection

namespace ChangeRequest

open Collection

variable {r : ChangeRequest} {s : Session Collection} {c : Collection} {copy stored : Fields}

/-- **What a request does to the store when it finishes**: it writes over the document with the
    identifier of its copy what its changes make of the copy. -/
theorem finish_docs (field : s.store.idField = c.idField) (rejects : s.store.rejects = c.rejects)
    (spared : ¬ r.Touches c.idField)
    (found : lookup s.store.docs (Identity.key (Fields.getD copy c.idField)) = some stored) :
    (r.finish (loan c.idField copy) s).store.idField = c.idField ∧
      (r.finish (loan c.idField copy) s).store.rejects = c.rejects ∧
      (r.finish (loan c.idField copy) s).store.docs =
        replace s.store.docs (Identity.key (Fields.getD copy c.idField))
          (r.written c copy stored) := by
  unfold finish written
  rw [← field] at spared found ⊢
  have turns : c.turnsAway = s.store.turnsAway := by
    funext h
    unfold turnsAway
    rw [rejects]
  rw [← rejects, turns]
  split
  · rename_i dirty d run
    obtain ⟨lent, ident, unreported⟩ := edited_copy (c := s.store) spared run
    have same : Fields.getD copy s.store.idField = Fields.getD d.doc.fields s.store.idField := by
      unfold Fields.getD
      rw [ident]
    rw [same] at found ⊢
    rw [lent]
    obtain ⟨final, saved, t, saves, idField', rejects', left⟩ :=
      save_within (h := loan s.store.idField d.doc.fields) rfl found unreported
    rw [Access.sessionAfter_ok saves]
    refine ⟨idField', rejects', ?_⟩
    split
    · rename_i refused
      rw [if_pos refused] at left
      rw [replace_self found]
      exact left.2.2
    · rename_i accepted
      rw [if_neg accepted] at left
      exact left.2
  · rw [replace_self found]
    exact ⟨rfl, rfl, rfl⟩

end ChangeRequest

/-! ## Races -/

/-- How far a request has come. -/
inductive Phase
  | waiting
  | holding (copy : Handle)
  | done

/-- Requests for one document, each as far as it has come, and the store they share. -/
structure Race (ι : Type) where
  session : Session Collection
  phase : ι → Phase

namespace Race

open Collection

variable {ι : Type}

/-- No request has begun. -/
def start (s : Session Collection) : Race ι := ⟨s, fun _ => .waiting⟩

/-- Every request has come to its end. -/
def Over (t : Race ι) : Prop := ∀ i, t.phase i = .done

/-- Requests that leave the fields of each other alone, and the identifier. Saves of a request may
    be refused for what they hold in its own fields only. -/
structure Disjoint (requests : ι → ChangeRequest) (c : Collection) : Prop where
  spared : ∀ i, ¬ (requests i).Touches c.idField
  apart : ∀ i j n, (requests i).Touches n → (requests j).Touches n → i = j
  fair : ∀ i, c.JudgesBy (requests i).Touches

/-- What the fields of a request hold in the document that was once `doc`: what they held, until
    the request is done, and then what it makes of `doc`. A copy may be old, but not in them. -/
def Progress (r : ChangeRequest) (c : Collection) (doc now : Fields) : Phase → Prop
  | .waiting => ∀ n, r.Touches n → Fields.get? now n = Fields.get? doc n
  | .holding copy => (∀ n, r.Touches n → Fields.get? now n = Fields.get? doc n) ∧
      ∃ old, copy = loan c.idField old ∧ Fields.get? old c.idField = Fields.get? doc c.idField ∧
        ∀ n, r.Touches n → Fields.get? old n = Fields.get? doc n
  | .done => ∀ n, r.Touches n → Fields.get? now n = Fields.get? (r.written c doc doc) n

/-- A race in a collection that was `c`, for a document that was `doc` and is `now`. -/
structure Underway (requests : ι → ChangeRequest) (c : Collection) (doc now : Fields)
    (t : Race ι) : Prop where
  idField : t.session.store.idField = c.idField
  rejects : t.session.store.rejects = c.rejects
  docs : t.session.store.docs =
    replace c.docs (Identity.key (Fields.getD doc c.idField)) now
  distinct : Fields.Distinct now
  others : ∀ n, (∀ i, ¬ (requests i).Touches n) → Fields.get? now n = Fields.get? doc n
  progress : ∀ i, Progress (requests i) c doc now (t.phase i)

variable {requests : ι → ChangeRequest} {ident : Value} {c : Collection} {doc now now' : Fields}
  {s : Session Collection} {t t' u : Race ι}

/-- What happens elsewhere does not matter to a request. -/
theorem Progress.frame {r : ChangeRequest} {phase : Phase} (h : Progress r c doc now phase)
    (same : ∀ n, r.Touches n → Fields.get? now' n = Fields.get? now n) :
    Progress r c doc now' phase := by
  cases phase with
  | waiting => exact fun n hn => (same n hn).trans (h n hn)
  | holding copy => exact ⟨fun n hn => (same n hn).trans (h.1 n hn), h.2⟩
  | done => exact fun n hn => (same n hn).trans (h n hn)

theorem Underway.begin (filed : s.store.Filed) (lent : doc ∈ s.store.all) :
    Underway requests s.store doc doc (start s) where
  idField := rfl
  rejects := rfl
  docs := (replace_self (filed.lookup_own lent)).symm
  distinct := filed.distinct_all lent
  others _ _ := rfl
  progress _ _ _ := rfl

/-- Replacements that differ in the order of fields only. -/
theorem same_replace {docs : List (Option String × Fields)} {key : Option String}
    (same : Fields.Same now now') :
    List.Forall₂ (fun left right => left.1 = right.1 ∧ Fields.Same left.2 right.2)
      (replace docs key now) (replace docs key now') := by
  have rest (docs : List (Option String × Fields)) :
      List.Forall₂ (fun left right : Option String × Fields =>
        left.1 = right.1 ∧ Fields.Same left.2 right.2) docs docs :=
    List.forall₂_same.2 fun _ _ => ⟨rfl, fun _ => rfl⟩
  induction docs with
  | nil => exact .nil
  | cons entry docs ih =>
    obtain ⟨k, d⟩ := entry
    unfold replace
    by_cases own : k = key
    · rw [if_pos own, if_pos own]
      exact .cons ⟨rfl, same⟩ (rest docs)
    · rw [if_neg own, if_neg own]
      exact .cons ⟨rfl, fun _ => rfl⟩ ih

/-- At the end, what every field holds is settled by the document as it was. -/
theorem Underway.same (h : Underway requests c doc now t) (ended : t.Over)
    (h' : Underway requests c doc now' t') (ended' : t'.Over) :
    t.session.store.Same t'.session.store := by
  unfold Collection.Same
  rw [h.docs, h'.docs]
  refine same_replace fun n => ?_
  by_cases touched : ∃ i, (requests i).Touches n
  · -- The request whose field it is has left in it what it makes of the document as it was.
    obtain ⟨i, touched⟩ := touched
    have left := h.progress i
    have right := h'.progress i
    rw [ended i] at left
    rw [ended' i] at right
    exact (left n touched).trans (right n touched).symm
  · have none (i : ι) : ¬ (requests i).Touches n := fun mine => touched ⟨i, mine⟩
    exact (h.others n none).trans (h'.others n none).symm

/-! ## Steps and runs -/

variable [DecidableEq ι]

/-- One request takes its next step: it fetches its copy, or finds that there is no document, or
    finishes with the copy that it holds. -/
inductive Step (requests : ι → ChangeRequest) (ident : Value) : Race ι → Race ι → Prop
  | fetch {t : Race ι} {i : ι} {copy : Handle} (waits : t.phase i = .waiting)
      (found : ChangeRequest.fetch ident t.session.store = some copy) :
      Step requests ident t ⟨t.session, Function.update t.phase i (.holding copy)⟩
  | miss {t : Race ι} {i : ι} (waits : t.phase i = .waiting)
      (nothing : ChangeRequest.fetch ident t.session.store = none) :
      Step requests ident t ⟨t.session, Function.update t.phase i .done⟩
  | finish {t : Race ι} {i : ι} {copy : Handle} (holds : t.phase i = .holding copy) :
      Step requests ident t
        ⟨(requests i).finish copy t.session, Function.update t.phase i .done⟩

/-- The requests take their steps in any order. -/
def Run (requests : ι → ChangeRequest) (ident : Value) : Race ι → Race ι → Prop :=
  Relation.ReflTransGen (Step requests ident)

/-- **A step of a race**, of whichever request, leaves the race underway. -/
theorem Step.underway (filed : c.Filed) (plain : Path.split (.text c.idField) = .ok [c.idField])
    (scalar : ident.isArray = false) (disjoint : Disjoint requests c)
    (found : firstOf (.object [(c.idField, ident)]) c.all = .ok (some doc))
    (h : Underway requests c doc now t) (step : Step requests ident t u) :
    ∃ next, Underway requests c doc next u := by
  have lent : doc ∈ c.all := firstOf_mem found
  have known : Fields.get? now c.idField = Fields.get? doc c.idField :=
    h.others c.idField disjoint.spared
  have here : ChangeRequest.fetch ident t.session.store = some (loan c.idField now) :=
    fetch_replaced filed plain scalar found known h.idField h.docs
  cases step with
  | @fetch i copy waits looked =>
    -- The copy has the saves of others in it, but none of them wrote a field of this request.
    rw [here] at looked
    cases looked
    have before := h.progress i
    rw [waits] at before
    refine ⟨now, h.idField, h.rejects, h.docs, h.distinct, h.others, fun j => ?_⟩
    dsimp only
    by_cases own : j = i
    · subst own
      rw [Function.update_self]
      exact ⟨before, now, rfl, known, before⟩
    · rw [Function.update_of_ne own]
      exact h.progress j
  | miss waits nothing =>
    rw [here] at nothing
    cases nothing
  | @finish i copy holds =>
    have before := h.progress i
    rw [holds] at before
    obtain ⟨same, old, rfl, ident, copies⟩ := before
    have key : Fields.getD old c.idField = Fields.getD doc c.idField := by
      unfold Fields.getD
      rw [ident]
    have stored : lookup t.session.store.docs (Identity.key (Fields.getD old c.idField)) =
        some now := by
      rw [h.docs, key]
      exact lookup_replace_self (filed.lookup_own lent)
    obtain ⟨idField, rejects, docs⟩ :=
      ChangeRequest.finish_docs h.idField h.rejects (disjoint.spared i) stored
    rw [h.docs, key, replace_replace] at docs
    refine ⟨_, idField, rejects, docs, ChangeRequest.written_distinct h.distinct, fun n none => ?_,
      fun j => ?_⟩
    · rw [ChangeRequest.written_other h.distinct (none i)]
      exact h.others n none
    · dsimp only
      by_cases own : j = i
      · subst own
        rw [Function.update_self]
        exact fun n touched => ChangeRequest.written_touched (disjoint.spared j) (disjoint.fair j)
          h.distinct (filed.distinct_all lent) ident copies (same n touched) touched
      · -- The fields of another request are not among those that were saved.
        rw [Function.update_of_ne own]
        exact (h.progress j).frame fun n touched =>
          ChangeRequest.written_other h.distinct fun mine =>
            own (disjoint.apart j i n touched mine)

theorem Run.underway (filed : s.store.Filed)
    (plain : Path.split (.text s.store.idField) = .ok [s.store.idField])
    (scalar : ident.isArray = false) (disjoint : Disjoint requests s.store)
    (found : firstOf (.object [(s.store.idField, ident)]) s.store.all = .ok (some doc))
    (run : Run requests ident (start s) t) : ∃ now, Underway requests s.store doc now t := by
  induction run with
  | refl => exact ⟨doc, .begin filed (firstOf_mem found)⟩
  | tail _ step ih =>
    obtain ⟨now, h⟩ := ih
    exact step.underway filed plain scalar disjoint found h

/-- Where no document is found, nothing happens. -/
theorem Run.idle (nothing : ChangeRequest.fetch ident s.store = none)
    (run : Run requests ident (start s) t) :
    t.session = s ∧ ∀ i copy, t.phase i ≠ .holding copy := by
  induction run with
  | refl => exact ⟨rfl, fun i copy holds => Phase.noConfusion holds⟩
  | tail _ step ih =>
    obtain ⟨same, idle⟩ := ih
    cases step with
    | fetch waits looked =>
      rw [same, nothing] at looked
      cases looked
    | @miss i waits _ =>
      refine ⟨same, fun j copy => ?_⟩
      dsimp only
      by_cases own : j = i
      · subst own
        rw [Function.update_self]
        exact fun holds => Phase.noConfusion holds
      · rw [Function.update_of_ne own]
        exact idle j copy
    | finish holds => exact absurd holds (idle _ _)

/-! ## The end of a race -/

/-- **All races end alike**, in whatever order the requests take their steps. -/
theorem Run.same (filed : s.store.Filed)
    (plain : Path.split (.text s.store.idField) = .ok [s.store.idField])
    (scalar : ident.isArray = false) (disjoint : Disjoint requests s.store)
    (run : Run requests ident (start s) t) (ended : t.Over)
    (run' : Run requests ident (start s) t') (ended' : t'.Over) :
    t.session.store.Same t'.session.store := by
  cases found : ChangeRequest.fetch ident s.store with
  | none =>
    rw [(Run.idle found run).1, (Run.idle found run').1]
    exact List.forall₂_same.2 fun _ _ => ⟨rfl, fun _ => rfl⟩
  | some copy =>
    obtain ⟨doc, first, _⟩ := fetch_eq_some.1 found
    obtain ⟨now, h⟩ := run.underway filed plain scalar disjoint first
    obtain ⟨now', h'⟩ := run'.underway filed plain scalar disjoint first
    exact h.same ended h' ended'

/-- A request that takes both its steps with no other in between. -/
theorem Run.perform {i : ι} (waits : t.phase i = .waiting) :
    Run requests ident t
      ⟨(requests i).perform ident t.session, Function.update t.phase i .done⟩ := by
  unfold ChangeRequest.perform
  cases looked : ChangeRequest.fetch ident t.session.store with
  | none => exact .single (.miss waits looked)
  | some copy =>
    let held : Race ι := ⟨t.session, Function.update t.phase i (.holding copy)⟩
    have first : Step requests ident t held := .fetch waits looked
    have holds : held.phase i = .holding copy := Function.update_self i _ t.phase
    have second : Step requests ident held _ := .finish holds
    have last : Function.update held.phase i .done = Function.update t.phase i .done :=
      Function.update_idem _ _ _
    rw [last] at second
    exact .tail (.single first) second

/-- **No update is lost.** Two requests change the document with a given identifier, no path of the
    one begins with a field with which a path of the other begins, and none with the identifier
    field. However their steps follow each other, the collection is in the end the same, but for the
    order of fields, as if the one had come after the other, whichever was first. -/
theorem no_update_lost {a b : ChangeRequest} {t : Race (Fin 2)} (filed : s.store.Filed)
    (nonempty : s.store.idField ≠ "") (undotted : '.' ∉ s.store.idField.toList)
    (kind : (∃ i, ident = .ident i) ∨ ∃ x, ident = .text x)
    (apart : ∀ n, a.Touches n → ¬ b.Touches n)
    (spared : ¬ a.Touches s.store.idField ∧ ¬ b.Touches s.store.idField)
    (fair : s.store.JudgesBy a.Touches ∧ s.store.JudgesBy b.Touches)
    (run : Run ![a, b] ident (start s) t) (ended : t.Over) :
    t.session.store.Same (b.perform ident (a.perform ident s)).store ∧
      t.session.store.Same (a.perform ident (b.perform ident s)).store := by
  have plain := Path.split_name nonempty undotted
  have scalar : ident.isArray = false := by
    rcases kind with ⟨i, rfl⟩ | ⟨x, rfl⟩
    · rfl
    · rfl
  have disjoint : Disjoint ![a, b] s.store := by
    refine ⟨Fin.forall_fin_two.2 spared, ?_, Fin.forall_fin_two.2 fair⟩
    refine Fin.forall_fin_two.2 ⟨Fin.forall_fin_two.2 ⟨?_, ?_⟩, Fin.forall_fin_two.2 ⟨?_, ?_⟩⟩
    · exact fun _ _ _ => rfl
    · exact fun n mine other => absurd other (apart n mine)
    · exact fun n mine other => absurd mine (apart n other)
    · exact fun _ _ _ => rfl
  -- One request after the other is an order of the steps like any other.
  have ahead : Run ![a, b] ident (start s) _ :=
    (Run.perform (i := 0) rfl).trans (Run.perform (i := 1) rfl)
  have behind : Run ![a, b] ident (start s) _ :=
    (Run.perform (i := 1) rfl).trans (Run.perform (i := 0) rfl)
  refine ⟨run.same filed plain scalar disjoint ended ahead ?_,
    run.same filed plain scalar disjoint ended behind ?_⟩
  · exact Fin.forall_fin_two.2 ⟨rfl, rfl⟩
  · exact Fin.forall_fin_two.2 ⟨rfl, rfl⟩

/-! ### Two requests, and two collections in which they do not come to the same -/

namespace Pair

/-- A clock that stands still. -/
def clock : Supply := { origin := 0, last := 0, pace := 0 }

/-- A request to set a field. -/
def a : ChangeRequest := ⟨"_id", .object [("x", .object [("$set", .int 2)])], clock⟩

/-- A request to set a part of another field. -/
def b : ChangeRequest := ⟨"_id", .object [("y.z", .object [("$set", .int 3)])], clock⟩

theorem a_touches {n : String} (touched : a.Touches n) : n = "x" :=
  touched.of_single (c := ⟨"x", .set, .int 2⟩) rfl rfl

theorem b_touches {n : String} (touched : b.Touches n) : n = "y" :=
  touched.of_single (c := ⟨"y.z", .set, .int 3⟩) rfl rfl

theorem apart (n : String) (mine : a.Touches n) : ¬ b.Touches n := fun other =>
  absurd ((a_touches mine).symm.trans (b_touches other)) (by decide)

theorem spared : ¬ a.Touches "_id" ∧ ¬ b.Touches "_id" :=
  ⟨fun touched => absurd (a_touches touched) (by decide),
    fun touched => absurd (b_touches touched) (by decide)⟩

/-- A collection with one document. -/
def forms (rejects : Handle → Bool) : Collection where
  name := "forms"
  docs := [(some "d1", [("_id", .text "d1"), ("x", .int 1)])]
  rejects := rejects

theorem filed (rejects : Handle → Bool) : (forms rejects).Filed := by
  refine ⟨List.pairwise_singleton _ _, fun entry h => ?_, fun entry h => ?_⟩
  · rw [List.mem_singleton.1 h]
    rfl
  · rw [List.mem_singleton.1 h]
    show List.Nodup ["_id", "x"]
    decide

/-- The collection, and a supply. -/
def session (rejects : Handle → Bool) : Session Collection :=
  ⟨forms rejects, { origin := 0, last := 0, pace := 1 }⟩

/-- A hook refuses copies without the field that one of the requests sets. -/
def picky : Session Collection := session fun h => !Fields.has h.data "y"

theorem picky_accepts : (a.perform (.text "d1") (b.perform (.text "d1") picky)).store.docs =
    [(some "d1", [("_id", .text "d1"), ("x", .int 2), ("y", .object [("z", .int 3)])])] := rfl

theorem picky_refuses : (b.perform (.text "d1") (a.perform (.text "d1") picky)).store.docs =
    [(some "d1", [("_id", .text "d1"), ("x", .int 1), ("y", .object [("z", .int 3)])])] := rfl

end Pair

/-- Both requests fetch the document before either of them saves it. -/
theorem no_update_lost_old_copy :
    let s := Pair.session fun _ => false
    ∃ t : Race (Fin 2), Run ![Pair.a, Pair.b] (.text "d1") (start s) t ∧ t.Over ∧
      t.session.store.get? (.text "d1") =
        .ok (some [("_id", .text "d1"), ("x", .int 2), ("y", .object [("z", .int 3)])]) ∧
      t.session.store.Same (Pair.b.perform (.text "d1") (Pair.a.perform (.text "d1") s)).store ∧
      t.session.store.Same (Pair.a.perform (.text "d1") (Pair.b.perform (.text "d1") s)).store := by
  intro s
  have runs : ∃ t : Race (Fin 2), Run ![Pair.a, Pair.b] (.text "d1") (start s) t ∧ t.Over ∧
      t.session.store.get? (.text "d1") =
        .ok (some [("_id", .text "d1"), ("x", .int 2), ("y", .object [("z", .int 3)])]) := by
    let copy : Handle := loan "_id" [("_id", .text "d1"), ("x", .int 1)]
    have found : firstOf (.object [("_id", .text "d1")]) s.store.all = .ok (some copy.data) := rfl
    have looked : ChangeRequest.fetch (.text "d1") s.store = some copy :=
      fetch_eq_some.2 ⟨_, found, rfl⟩
    let one : Race (Fin 2) := ⟨s, Function.update (start s).phase 0 (.holding copy)⟩
    let both : Race (Fin 2) := ⟨s, Function.update one.phase 1 (.holding copy)⟩
    let half : Race (Fin 2) := ⟨Pair.a.finish copy s, Function.update both.phase 0 .done⟩
    have fetchFirst : Step ![Pair.a, Pair.b] (.text "d1") (start s) one :=
      .fetch (t := start s) (i := 0) rfl looked
    have fetchSecond : Step ![Pair.a, Pair.b] (.text "d1") one both :=
      .fetch (t := one) (i := 1) rfl looked
    have finishFirst : Step ![Pair.a, Pair.b] (.text "d1") both half :=
      .finish (t := both) (i := 0) rfl
    have finishSecond : Step ![Pair.a, Pair.b] (.text "d1") half
        ⟨Pair.b.finish copy half.session, Function.update half.phase 1 .done⟩ :=
      .finish (t := half) (i := 1) rfl
    have fetching : Run ![Pair.a, Pair.b] (.text "d1") (start s) both :=
      .tail (.single fetchFirst) fetchSecond
    exact ⟨_, .tail (.tail fetching finishFirst) finishSecond, Fin.forall_fin_two.2 ⟨rfl, rfl⟩, rfl⟩
  obtain ⟨t, run, ended, stored⟩ := runs
  exact ⟨t, run, ended, stored, no_update_lost (Pair.filed _) (by decide) (by decide)
    (.inr ⟨"d1", rfl⟩) Pair.apart Pair.spared ⟨fun _ _ _ _ => rfl, fun _ _ _ _ => rfl⟩ run ended⟩

/-- A hook refuses copies without the field that one of the requests sets. Then it matters which of
    them comes first. And by an identifier field with the name of a connective a request does not
    find the document that is filed under the identifier. -/
theorem order_matters_to_hook :
    let s := Pair.session fun h => !Fields.has h.data "y"
    let c : Collection :=
      { name := "forms", idField := "$and", docs := [(some "d1", [("$and", .text "d1")])] }
    (s.store.Filed ∧ s.store.idField = "_id" ∧ (∀ n, Pair.a.Touches n → ¬ Pair.b.Touches n) ∧
      (¬ Pair.a.Touches "_id" ∧ ¬ Pair.b.Touches "_id") ∧
      ∃ t : Race (Fin 2), Run ![Pair.a, Pair.b] (.text "d1") (start s) t ∧ t.Over ∧
        ¬ t.session.store.Same
          (Pair.b.perform (.text "d1") (Pair.a.perform (.text "d1") s)).store) ∧
    c.get? (.text "d1") = .ok (some [("$and", .text "d1")]) ∧
      ChangeRequest.fetch (.text "d1") c = none := by
  intro s c
  have behind : Run ![Pair.a, Pair.b] (.text "d1") (start s) _ :=
    (Run.perform (i := 1) rfl).trans (Run.perform (i := 0) rfl)
  refine ⟨⟨Pair.filed _, rfl, Pair.apart, Pair.spared, _, behind,
    Fin.forall_fin_two.2 ⟨rfl, rfl⟩, fun same => ?_⟩, rfl, rfl⟩
  have same : (Pair.a.perform (.text "d1") (Pair.b.perform (.text "d1") s)).store.Same
      (Pair.b.perform (.text "d1") (Pair.a.perform (.text "d1") s)).store := same
  unfold Collection.Same at same
  rw [show s = Pair.picky from rfl, Pair.picky_accepts, Pair.picky_refuses,
    List.forall₂_cons] at same
  cases same.1.2 "x"

end Race

end DocRepair

import DocRepair.Proofs.Accepted
import DocRepair.Proofs.ShowableEdits
import DocRepair.Proofs.Stops
/-!
# `DocRepair.Proofs.Escapes` — what escapes from a requested edit

Callers of an edit act on the failures that it reports, and expect nothing else to stop it. Arguments
that were accepted as a request list what an edit wants listed, so only three things can escape: what
stops whoever follows a path that trips, what stops the write of a move beyond the end of an array,
and an integer with too many digits. Which edits come to the first two is told by the document alone;
the third is in the document or in the arguments.

## Contents

* `Request.idValues_parts` / `fieldIds_select` / `uniqueField_hashable` / … — accepted arguments;
* `PathEdit.Requested` — edits with such arguments;
* `PathEdit.Trips` / `PathEdit.run_wild` — the edits from which something escapes;
* `PathEdit.fails_unless_trips` — all others return or stop with a failure, if all can be shown;
* `PathEdit.index_faults_escape` — a move and a removal that do not.
-/

namespace DocRepair

/-! ## Accepted arguments -/

namespace Request

variable {payload v : Value} {fs : Fields}

theorem split_tame_of_text (text : Shape.text.Fits v) : Tame (Path.split v) := by
  obtain ⟨s, rfl⟩ := text
  exact Path.split_text_tame s

/-- The parts of a pushed value that are to be identifiers are named by texts. -/
theorem idValues_parts (read : Request.push.parse payload = .ok fs) :
    Edit.NamesParts (Fields.getD fs "id_values") := by
  intro given
  rcases parse_nullable read (.tail _ (.tail _ (.tail _ (.head _)))) with
    null | ⟨word, _, text⟩ | ⟨xs, listed, texts⟩
  · rw [null] at given
    cases given
  · rw [text]
    refine ⟨_, rfl, fun n among => ?_⟩
    obtain ⟨letter, _, rfl⟩ := List.mem_map.1 among
    rfl
  · rw [listed]
    refine ⟨xs, rfl, fun n among => ?_⟩
    obtain ⟨t, rfl⟩ := texts n among
    rfl

theorem idValues_listed (read : Request.addIds.parse payload = .ok fs) :
    Tame (Fields.getD fs "id_values").members := by
  obtain ⟨xs, listed, _⟩ := parse_required read (.tail _ (.tail _ (.head _)))
  rw [listed]
  exact .ok xs

theorem fieldIds_select (read : Request.inject.parse payload = .ok fs) :
    Tame (Path.selectors (Fields.getD fs "field_ids")) := by
  rcases parse_field read (.tail _ (.tail _ (.head _))) with
    (⟨t, text⟩ | ⟨xs, listed, _⟩) | default
  · rw [text]
    exact .ok _
  · rw [listed]
    exact .ok _
  · rw [← Option.some.inj default]
    exact .ok _

theorem data_listed (read : Request.inject.parse payload = .ok fs) :
    Tame (Fields.getD fs "data").members := by
  obtain ⟨xs, listed, _⟩ := parse_required read (.tail _ (.tail _ (.tail _ (.head _))))
  rw [listed]
  exact .ok xs

/-- The field by which elements are compared is a text, if it is given. -/
theorem uniqueField_hashable (read : Request.arrayField.parse payload = .ok fs) :
    (Fields.getD fs "unique_field").isHashable = true := by
  rcases parse_nullable read (.tail _ (.tail _ (.head _))) with null | ⟨t, text⟩
  · rw [null]
    rfl
  · rw [text]
    rfl

end Request

/-! ## Requested edits -/

/-- Changes of which one trips, in what the ones before it have left. -/
def Edit.ChangesTrip (idField : String) (changes : List Change) (d : Draft) : Prop :=
  ∃ front c rest dirty e, changes = front ++ c :: rest ∧
    applyChanges idField front d = .ok dirty e ∧ ChangeTrips c e.doc

namespace PathEdit

/-- Edits with arguments of an accepted request: the fields of its record, or the changes, moves or
    steps that were read from them. -/
inductive Requested : PathEdit → Prop
  | applyChanges (changes : List Change) : Requested (.applyChanges changes)
  | deleteFields {payload : Value} {fs : Fields} (read : Request.delete.parse payload = .ok fs)
      (given : Fields.getD fs "fields" ≠ .null) : Requested (.deleteFields (Fields.getD fs "fields"))
  | removeElement (steps : List IdStep) : Requested (.removeElement steps)
  | clear {payload : Value} {fs : Fields} (read : Request.delete.parse payload = .ok fs)
      (given : Fields.getD fs "clear_array" ≠ .null) : Requested (.clear (Fields.getD fs "clear_array"))
  | move (m : Move) : Requested (.move (.text m.source) (.text m.target))
  | moveAll (moves : List Move) : Requested (.moveAll moves)
  | push {payload : Value} {fs : Fields} (read : Request.push.parse payload = .ok fs) :
      Requested (.push (Fields.getD fs "field") (Fields.getD fs "value") (Fields.getD fs "id_values"))
  | addIds {payload : Value} {fs : Fields} (read : Request.addIds.parse payload = .ok fs) :
      Requested (.addIds (Fields.getD fs "field") (Fields.getD fs "id_values"))
  | inject {payload : Value} {fs : Fields} (language : String)
      (read : Request.inject.parse payload = .ok fs) :
      Requested (.inject (.text language) (Fields.getD fs "field") (Fields.getD fs "field_ids")
        (Fields.getD fs "data"))
  | duplicate {payload : Value} {fs : Fields} (read : Request.arrayField.parse payload = .ok fs) :
      Requested (.duplicate (Fields.getD fs "array_field"))
  | removeDuplicates {payload : Value} {fs : Fields}
      (read : Request.arrayField.parse payload = .ok fs) :
      Requested (.removeDuplicates (Fields.getD fs "array_field") (Fields.getD fs "unique_field"))

/-- Edits that something other than a failure stops. A path trips in the document as it is when it
    is looked up: of a list, after the changes, removals or moves before have been made. -/
def Trips (idField : String) (d : Draft) : PathEdit → Prop
  | .applyChanges changes => Edit.ChangesTrip idField changes d
  | .applyRaw raw => Wild (Change.parse raw) ∨
      ∃ changes, Change.parse raw = .ok changes ∧ Edit.ChangesTrip idField changes d
  | .deleteFields paths => ∃ front path rest dirty e, paths = .array (front ++ path :: rest) ∧
      Edit.deleteFields idField (.array front) d = .ok dirty e ∧ Path.Trips e.doc path
  | .move source target => Edit.MoveTrips idField source target d.doc
  | .moveAll moves => ∃ front m rest dirty e, moves = front ++ m :: rest ∧
      Edit.moveAll idField front d = .ok dirty e ∧
      Edit.MoveTrips idField (.text m.source) (.text m.target) e.doc
  | .push path _ _ | .duplicate path | .removeDuplicates path _ | .clear path =>
    Path.Trips d.doc path
  | .inject _ path ids _ => ∃ names wanted, Path.split path = .ok names ∧
      Path.selectors ids = .ok wanted ∧ wanted.getD (names.length - 1) none = none ∧
      Path.StumblesBy idField d.doc names wanted
  | .addIds path ids => (∃ converted, (do (← ids.members).mapM Identity.convert) = .ok converted) ∧
      Path.Trips d.doc path
  | .removeElement steps =>
    Path.TripsBy idField d.doc (.array (steps.map fun s => .text s.field))
      (.array (steps.map IdStep.id))

variable {idField : String} {edit : PathEdit} {d : Draft}

/-- **Something other than a failure stops a requested edit just if it trips.** -/
theorem run_wild (obj : d.doc.isObject = true) (requested : edit.Requested) :
    WildAt (edit.run idField) d ↔ edit.Trips idField d := by
  cases requested with
  | applyChanges changes => exact Edit.applyFrom_wild obj
  | deleteFields read given =>
    obtain ⟨paths, listed, texts⟩ :=
      (Request.parse_nullable read (.tail _ (.head _))).resolve_left given
    rw [listed]
    refine (Edit.deleteFrom_wild (fun path among => ?_) obj).trans ?_
    · exact Request.split_tame_of_text (texts path among)
    · simp only [Trips, Value.array.injEq]
      rfl
  | removeElement steps =>
    exact (wildAt_bind_tame fun _ _ _ => .pure _).trans Edit.removeElement_wild
  | clear read given =>
    have text :=
      (Request.parse_nullable read (.tail _ (.tail _ (.tail _ (.head _))))).resolve_left given
    exact Edit.clear_wild (Request.split_tame_of_text text) obj
  | move m => exact Edit.move_wild (Path.split_text_tame _) (Path.split_text_tame _) obj
  | moveAll moves => exact Edit.moveFrom_wild obj
  | push read =>
    have text := Request.parse_required read (.tail _ (.head _))
    exact Edit.push_wild (Request.split_tame_of_text text) (Request.idValues_parts read)
  | addIds read =>
    have text := Request.parse_required read (.tail _ (.head _))
    exact (wildAt_bind_tame fun _ _ _ => .pure _).trans
      (Edit.addIds_wild (Request.split_tame_of_text text) (Request.idValues_listed read) obj)
  | inject language read =>
    have text := Request.parse_required read (.tail _ (.head _))
    exact Edit.inject_wild (Request.split_tame_of_text text) (Request.fieldIds_select read)
      (Request.data_listed read)
  | duplicate read =>
    have text := Request.parse_required read (.tail _ (.head _))
    exact (wildAt_bind_tame fun _ _ _ => .pure _).trans
      (Edit.duplicate_wild (Request.split_tame_of_text text))
  | removeDuplicates read =>
    have text := Request.parse_required read (.tail _ (.head _))
    exact (wildAt_bind_tame fun _ _ _ => .pure _).trans
      (Edit.removeDuplicates_wild (Request.split_tame_of_text text)
        (Request.uniqueField_hashable read))

/-- What stops a tame edit is a failure, or an integer that is too long to be shown. The latter lies
    in the document or in the arguments. -/
theorem answers_of_tame {α : Type} {P : α → Prop} {a : Edit α} {arguments : Prop}
    (tame : TameAt a d) (shows : arguments → Edit.Shows P a) :
    (∃ x e, a d = .ok x e) ∨ (∃ f e, a d = .error (.failure f) e) ∨
      (∃ e, a d = .error .endlessInteger e) ∧ ¬ (d.doc.Showable ∧ arguments) := by
  cases run : a d with
  | ok x e => exact .inl ⟨x, e, rfl⟩
  | error fault e =>
    have failure := tame fault e run
    cases fault with
    | failure f => exact .inr (.inl ⟨f, e, rfl⟩)
    | endlessInteger =>
      exact .inr (.inr ⟨⟨e, rfl⟩, fun ⟨shown, given⟩ => (shows given d shown).ne run⟩)
    | _ => cases failure

/-- **A requested edit returns or stops with a failure, unless it trips.** Whatever the document and
    the accepted arguments: if the edit trips, what stops it is no failure, and escapes its callers.
    If it does not, only an integer with too many digits to be shown can still escape, and only if
    there is one in the document or in the arguments. From an array query nothing else escapes,
    whatever its steps. -/
theorem fails_unless_trips (obj : d.doc.isObject = true) (requested : edit.Requested) :
    (¬ edit.Trips idField d → (∃ dirty e, edit.run idField d = .ok dirty e) ∨
      (∃ f e, edit.run idField d = .error (.failure f) e) ∨
      (∃ e, edit.run idField d = .error .endlessInteger e) ∧
        ¬ (d.doc.Showable ∧ edit.Showable)) ∧
    (edit.Trips idField d →
      ∃ fault e, edit.run idField d = .error fault e ∧ fault.isFailure = false) ∧
    ∀ steps, (∃ dirty e, Edit.modify steps d = .ok dirty e) ∨
      (∃ f e, Edit.modify steps d = .error (.failure f) e) ∨
      (∃ e, Edit.modify steps d = .error .endlessInteger e) ∧
        ¬ (d.doc.Showable ∧ Edit.StepsShowable steps) := by
  have wild : WildAt (edit.run idField) d ↔ _ := run_wild obj requested
  refine ⟨fun calm => ?_, fun trips => ?_, fun steps => ?_⟩
  · exact answers_of_tame (.of_wild wild calm) fun given => run_shows given idField
  · obtain ⟨fault, e, stop, other⟩ := wild.2 trips
    exact ⟨fault, e, stop, Fault.isFailure_of_isTame other⟩
  · exact answers_of_tame (Edit.modify_tame steps) Edit.modify_shows

/-- A move to the end of an array returns. Just beyond the end it trips. -/
theorem fails_unless_trips_at_end :
    let d : Draft := {
      doc := .object [("a", .int 1), ("xs", .array [])]
      supply := { origin := 0, last := 0, pace := 1 } }
    let within : PathEdit := .move (.text "a") (.text "xs.0")
    let beyond : PathEdit := .move (.text "a") (.text "xs.1")
    (∃ dirty e, within.run "_id" d = .ok dirty e) ∧ ¬ within.Trips "_id" d ∧
      beyond.Trips "_id" d ∧
      ∃ fault e, beyond.run "_id" d = .error fault e ∧ fault.isFailure = false := by
  intro d within beyond
  obtain ⟨dirty, e, returns⟩ : ∃ dirty e, within.run "_id" d = .ok dirty e := ⟨_, _, rfl⟩
  have calm : ¬ within.Trips "_id" d := by
    intro trips
    obtain ⟨fault, f, stop, _⟩ := (fails_unless_trips rfl (.move ⟨"a", "xs.0"⟩)).2.1 trips
    rw [returns] at stop
    cases stop
  have trips : beyond.Trips "_id" d := by
    refine ⟨⟨["a"], rfl, by simp⟩, ⟨["xs", "1"], rfl, by simp⟩, .inr ?_⟩
    refine ⟨⟨[], .field "a"⟩, .int 1, ["xs", "1"], rfl, rfl, ⟨rfl, rfl⟩, rfl, .inr ?_⟩
    exact ⟨["xs"], "1", [.field "xs"], [], 1, rfl, .cons rfl rfl (.nil _), rfl, by decide⟩
  exact ⟨⟨dirty, e, returns⟩, calm, trips, (fails_unless_trips rfl (.move ⟨"a", "xs.1"⟩)).2.1 trips⟩

/-- A move beyond the end of an array, and a removal by a superscript in the place of an index. What
    stops them is no failure, and the moved value is gone by then. -/
theorem index_faults_escape :
    let doc : Value := .object [("a", .int 1), ("xs", .array [])]
    let d : Draft := { doc := doc, supply := { origin := 0, last := 0, pace := 1 } }
    let move : PathEdit := .move (.text "a") (.text "xs.5")
    let removal : PathEdit := .deleteFields (.array [.text "xs.²"])
    move.Requested ∧ removal.Requested ∧
      (∃ e, move.run "_id" d = .error .outOfRange e ∧ e.doc = .object [("xs", .array [])]) ∧
      ¬ ((∃ dirty e, move.run "_id" d = .ok dirty e) ∨
        ∃ f e, move.run "_id" d = .error (.failure f) e) ∧
      ¬ ((∃ dirty e, removal.run "_id" d = .ok dirty e) ∨
        ∃ f e, removal.run "_id" d = .error (.failure f) e) := by
  intro doc d move removal
  have asked : removal.Requested := by
    have read : Request.delete.parse (.object [("fields", .array [.text "xs.²"])]) = .ok
        [("query", .null), ("fields", .array [.text "xs.²"]), ("by_id_path", .null),
          ("clear_array", .null), ("whole", .bool false)] := rfl
    exact .deleteFields read (by simp [Fields.getD, Fields.get?])
  refine ⟨.move ⟨"a", "xs.5"⟩, asked, ⟨_, rfl, rfl⟩, ?_, ?_⟩
  · rintro (⟨_, _, run⟩ | ⟨_, _, run⟩) <;> cases run
  · rintro (⟨_, _, run⟩ | ⟨_, _, run⟩) <;> cases run

end PathEdit

end DocRepair

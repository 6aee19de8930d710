import DocRepair.Proofs.Computations
import DocRepair.Request
/-!
# `DocRepair.Proofs.Accepted` — what an accepted request looks like

Whatever a shape accepts is read as a value that fits the shape: a text for a text, an array of
fitting items for a list, an object with just the fields of a record. A field either fits its own
shape or has its default. So whoever goes on with the fields of a request knows what stands in them.

## Contents

* `Shape.Fits` / `Shape.FieldsFit` — values and fields that fit;
* `Shape.accept_fits` — what is accepted fits;
* `Shape.FieldsFit.field` — one field of a record, by its name;
* `Request.parse_fits` — the fields of an accepted request.
-/

namespace DocRepair

namespace Shape

mutual

/-- What a value looks like that was read by a shape. -/
def Fits : Shape → Value → Prop
  | .anything, _ => True
  | .text, v => ∃ s, v = .text s
  | .flag, v => ∃ b, v = .bool b
  | .positive, v => ∃ x, v = .float x
  | .oneOf words, v => ∃ s ∈ words, v = .text s
  | .mapping, v => v.isObject = true
  | .list item, v => ∃ xs, v = .array xs ∧ ∀ x ∈ xs, item.Fits x
  | .optional shape, v => v = .null ∨ shape.Fits v
  | .either _ first _ second, v => first.Fits v ∨ second.Fits v
  | .record _ entries _, v => ∃ fs, v = .object fs ∧ FieldsFit entries fs

/-- The fields of a record in order, each fitting or with its default. -/
def FieldsFit : List (String × Shape × Option Value) → Fields → Prop
  | [], fs => fs = []
  | (name, shape, default) :: rest, fs =>
    ∃ v more, fs = (name, v) :: more ∧ (shape.Fits v ∨ default = some v) ∧ FieldsFit rest more

end

variable {v w : Value}

theorem asValue_ok {α : Type} {wrap : α → Value} {r : Except Issue α}
    (read : asValue wrap r = .ok w) : ∃ a, r = .ok a ∧ w = wrap a := by
  cases r with
  | ok a =>
    cases read
    exact ⟨a, rfl, rfl⟩
  | error i => cases read

theorem whole_ok {s t : String} (read : whole s = .ok t) : t = s := by
  unfold whole at read
  split at read
  · cases read
    rfl
  · cases read

theorem readWord_mem {words : List String} {s : String} (read : readWord words v = .ok s) :
    s ∈ words := by
  unfold readWord at read
  dsimp only at read
  split at read
  · rename_i t _
    cases found : whole t with
    | error i =>
      rw [found] at read
      cases read
    | ok u =>
      rw [found] at read
      obtain rfl := whole_ok found
      change (if words.contains u = true then _ else _) = _ at read
      split at read
      · rename_i among
        cases read
        exact List.contains_iff_mem.1 among
      · cases read
  · cases read

/-- What is gathered was found one by one. -/
theorem mem_gather {α : Type} {rs : List (Except (List Issue) α)} {as : List α}
    (found : gather rs = .ok as) {a : α} (among : a ∈ as) : .ok a ∈ rs := by
  induction rs generalizing as with
  | nil =>
    cases found
    cases among
  | cons r rest ih =>
    unfold gather at found
    split at found
    · rename_i b bs others
      cases found
      rcases List.mem_cons.1 among with rfl | among
      · exact List.mem_cons_self
      · exact List.mem_cons_of_mem _ (ih others among)
    all_goals cases found

theorem located_ok {α : Type} {name : String} {r : Except (List Issue) α} {a : α}
    (found : located name r = .ok a) : r = .ok a := by
  cases r with
  | ok b =>
    cases found
    rfl
  | error issues => cases found

theorem mem_acceptItems {accept : Value → Except (List Issue) Value} {items vs : List Value}
    (found : acceptItems accept items = .ok vs) (among : w ∈ vs) : ∃ x ∈ items, accept x = .ok w := by
  obtain ⟨⟨x, i⟩, held, accepted⟩ := List.mem_map.1 (mem_gather found among)
  exact ⟨x, List.fst_mem_of_mem_zipIdx held, located_ok accepted⟩

theorem conclude_ok {fields : Except (List Issue) Fields} {issues : List Issue}
    {rule : Fields → Option String} (found : conclude fields issues rule = .ok w) :
    ∃ fs, fields = .ok fs ∧ w = .object fs := by
  unfold conclude at found
  split at found
  · split at found
    · cases found
    · cases found
      exact ⟨_, rfl, rfl⟩
  · cases found

mutual

/-- **What is accepted fits.** -/
theorem accept_fits (shape : Shape) : ∀ {v w : Value}, shape.accept v = .ok w → shape.Fits w := by
  intro v w read
  cases shape with
  | anything => exact trivial
  | text =>
    obtain ⟨s, _, rfl⟩ := asValue_ok read
    exact ⟨s, rfl⟩
  | flag =>
    obtain ⟨b, _, rfl⟩ := asValue_ok read
    exact ⟨b, rfl⟩
  | positive =>
    obtain ⟨x, _, rfl⟩ := asValue_ok read
    exact ⟨x, rfl⟩
  | oneOf words =>
    obtain ⟨s, word, rfl⟩ := asValue_ok read
    exact ⟨s, readWord_mem word, rfl⟩
  | mapping =>
    unfold accept at read
    split at read
    · rename_i obj
      cases read
      exact obj
    · cases read
  | list item =>
    unfold accept at read
    split at read
    · split at read
      · rename_i vs found
        cases read
        refine ⟨vs, rfl, fun x among => ?_⟩
        obtain ⟨y, _, accepted⟩ := mem_acceptItems found among
        exact accept_fits item accepted
      · cases read
    · cases read
  | optional inner =>
    unfold accept at read
    split at read
    · cases read
      exact .inl rfl
    · exact .inr (accept_fits inner read)
  | either firstName first secondName second =>
    unfold accept at read
    split at read
    · rename_i found
      cases read
      exact .inl (accept_fits first found)
    · rename_i _ found
      cases read
      exact .inr (accept_fits second found)
    · cases read
  | record title entries rule =>
    unfold accept at read
    split at read
    · obtain ⟨fs, found, rfl⟩ := conclude_ok read
      exact ⟨fs, rfl, acceptFields_fit entries found⟩
    · cases read

theorem acceptFields_fit (entries : List (String × Shape × Option Value)) :
    ∀ {given fs : Fields}, acceptFields entries given = .ok fs → FieldsFit entries fs := by
  intro given fs read
  match entries with
  | [] =>
    cases read
    exact rfl
  | (name, shape, default) :: rest =>
    unfold acceptFields at read
    dsimp only at read
    split at read
    · rename_i v more here others
      cases read
      refine ⟨v, more, rfl, ?_, acceptFields_fit rest others⟩
      split at here
      · exact .inl (accept_fits shape (located_ok here))
      · cases here
        exact .inr rfl
      · cases here
    all_goals cases read

end

/-- **One field of a record**, by its name. -/
theorem FieldsFit.field {entries : List (String × Shape × Option Value)} {fs : Fields}
    (fit : FieldsFit entries fs) (names : (entries.map (·.1)).Nodup) {name : String}
    {shape : Shape} {default : Option Value} (among : (name, shape, default) ∈ entries) :
    shape.Fits (Fields.getD fs name) ∨ default = some (Fields.getD fs name) := by
  induction entries generalizing fs with
  | nil => cases among
  | cons entry rest ih =>
    obtain ⟨first, firstShape, firstDefault⟩ := entry
    obtain ⟨v, more, rfl, here, others⟩ := fit
    obtain ⟨fresh, distinct⟩ := List.nodup_cons.1 names
    rcases List.mem_cons.1 among with same | further
    · cases same
      have own : Fields.getD ((name, v) :: more) name = v := by simp [Fields.getD, Fields.get?]
      rw [own]
      exact here
    · have other : first ≠ name := by
        rintro rfl
        exact fresh (List.mem_map.2 ⟨_, further, rfl⟩)
      have behind : Fields.getD ((first, v) :: more) name = Fields.getD more name := by
        simp [Fields.getD, Fields.get?, other]
      rw [behind]
      exact ih others distinct further

end Shape

namespace Request

/-- The fields of the record for a request. -/
def entries (r : Request) : List (String × Shape × Option Value) :=
  match r.shape with
  | .record _ entries _ => entries
  | _ => []

/-- **The fields of an accepted request** fit its record. -/
theorem parse_fits {r : Request} {payload : Value} {fs : Fields}
    (read : r.parse payload = .ok fs) : Shape.FieldsFit r.entries fs := by
  unfold parse at read
  split at read
  · rename_i v accepted
    cases read
    have fits := Shape.accept_fits r.shape accepted
    unfold entries
    cases r <;> obtain ⟨fs, rfl, fit⟩ := fits <;> exact fit
  · cases read

/-- **One field of an accepted request** fits its shape, or it has its default. -/
theorem parse_field {r : Request} {payload : Value} {fs : Fields}
    (read : r.parse payload = .ok fs) {name : String} {shape : Shape} {default : Option Value}
    (among : (name, shape, default) ∈ r.entries) :
    shape.Fits (Fields.getD fs name) ∨ default = some (Fields.getD fs name) := by
  refine (parse_fits read).field ?_ among
  cases r <;> decide

theorem parse_required {r : Request} {payload : Value} {fs : Fields}
    (read : r.parse payload = .ok fs) {name : String} {shape : Shape}
    (among : required name shape ∈ r.entries) : shape.Fits (Fields.getD fs name) :=
  (parse_field read among).resolve_right (nomatch ·)

theorem parse_nullable {r : Request} {payload : Value} {fs : Fields}
    (read : r.parse payload = .ok fs) {name : String} {shape : Shape}
    (among : nullable name shape ∈ r.entries) :
    Fields.getD fs name = .null ∨ shape.Fits (Fields.getD fs name) := by
  rcases parse_field read among with fits | default
  · exact fits
  · exact .inl (Option.some.inj default).symm

end Request

end DocRepair

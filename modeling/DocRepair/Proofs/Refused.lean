import DocRepair.Proofs.Accepted
/-!
# `DocRepair.Proofs.Refused` — why a request is refused

A refused request is reported by the first objection to it. Objections come in the order of the
fields, one behind another, and those to an item stand where the item does; so the report is of an
absent field just if that is what the reading comes to first.

## Contents

* `Shape.firstAbsent?` — the absent field that is the first thing to object to;
* `Shape.Complete` — no required field is absent, at any depth;
* `Shape.accept_error` — the first objection;
* `Shape.firstAbsent?_complete` / `Shape.firstAbsentField?_required` — when it is of an absent field;
* `Request.parse_refused` — the failure that a refused request is reported by.
-/

namespace DocRepair

/-- The failure that reports an absent field, by its location. -/
def Failure.fieldRequired (location : List String) : Failure :=
  ⟨.missingField, "missing required field " ++ ".".intercalate location,
    [("field_path", .array (location.map .text)), ("reason", .text "Field required")]⟩

namespace Shape

/-! ## Absent fields -/

/-- Whether all names that a record does not know are whole. One that is not hides what else there
    is to object to. -/
def strangersWhole (entries : List (String × Shape × Option Value)) (given : Fields) : Bool :=
  ((given.map (·.1)).filter fun name => !(entries.map (·.1)).contains name).all
    Text.Surrogate.isWhole

/-- The absent field that comes first among items, by its location: it lies in the first item that
    is refused. -/
def firstAbsentItem? (accept : Value → Except (List Issue) Value)
    (absent? : Value → Option (List String)) : List Value → Nat → Option (List String)
  | [], _ => none
  | v :: rest, i =>
    match accept v with
    | .ok _ => firstAbsentItem? accept absent? rest (i + 1)
    | .error _ => (absent? v).map (toString i :: ·)

mutual

/-- The absent field of a value that is the first thing to object to, by its location; none if the
    value is accepted, or if something else is to be objected to first. -/
def firstAbsent? : Shape → Value → Option (List String)
  | .list item, v => firstAbsentItem? item.accept item.firstAbsent? v.items 0
  | .optional shape, v => if v.isNull then none else shape.firstAbsent? v
  | .either firstName first _ second, v =>
    match first.accept v, second.accept v with
    | .error _, .error _ => (first.firstAbsent? v).map (firstName :: ·)
    | _, _ => none
  | .record _ entries _, v =>
    if v.isObject && strangersWhole entries v.fields then firstAbsentField? entries v.fields
    else none
  | _, _ => none

/-- The absent field that comes first among the fields of a record: itself a field of the record, or
    in the value of the first that is refused. -/
def firstAbsentField? :
    List (String × Shape × Option Value) → Fields → Option (List String)
  | [], _ => none
  | (name, shape, default) :: rest, given =>
    match Fields.get? given name with
    | some v =>
      match shape.accept v with
      | .ok _ => firstAbsentField? rest given
      | .error _ => (shape.firstAbsent? v).map (name :: ·)
    | none => if default.isSome then firstAbsentField? rest given else some [name]

end

mutual

/-- No required field is absent from the records that a value is to be read as, however deep they
    lie. -/
def Complete : Shape → Value → Prop
  | .list item, v => ∀ x ∈ v.items, item.Complete x
  | .optional shape, v => shape.Complete v
  | .either _ first _ second, v => first.Complete v ∧ second.Complete v
  | .record _ entries _, v => v.isObject = true → FieldsComplete entries v.fields
  | _, _ => True

/-- No required field is absent from a record, nor from the values of its fields. -/
def FieldsComplete : List (String × Shape × Option Value) → Fields → Prop
  | [], _ => True
  | (name, shape, default) :: rest, given =>
    (match Fields.get? given name with
      | some v => shape.Complete v
      | none => default.isSome = true) ∧ FieldsComplete rest given

end

/-! ## The first objection -/

/-- What the first objection says: that the field at a location is absent, or something else. -/
def Says : Option (List String) → Issue → Prop
  | some location, i => i = ⟨"missing", location, "Field required"⟩
  | none, i => i.category ≠ "missing"

/-- A list of objections whose first says something of an absent field. -/
def Leads (absent? : Option (List String)) (issues : List Issue) : Prop :=
  ∃ i rest, issues = i :: rest ∧ Says absent? i

variable {v w : Value} {i : Issue} {issues more : List Issue} {absent? : Option (List String)}

theorem Leads.append (leads : Leads absent? issues) (more : List Issue) :
    Leads absent? (issues ++ more) := by
  obtain ⟨i, rest, rfl, told⟩ := leads
  exact ⟨i, rest ++ more, rfl, told⟩

theorem Leads.inside (leads : Leads absent? issues) (name : String) :
    Leads (absent?.map (name :: ·)) (inside name issues) := by
  obtain ⟨i, rest, rfl, told⟩ := leads
  refine ⟨_, _, rfl, ?_⟩
  cases absent? with
  | none => exact told
  | some location =>
    cases told
    rfl

theorem Leads.single (other : i.category ≠ "missing") : Leads none [i] :=
  ⟨i, [], rfl, other⟩

/-! ## Scalars -/

/-- A reading of a scalar never finds a field absent. -/
def NeverAbsent {α : Type} (r : Except Issue α) : Prop :=
  ∀ i, r = .error i → i.category ≠ "missing"

theorem NeverAbsent.ok {α : Type} (a : α) : NeverAbsent (.ok a) := nofun

theorem NeverAbsent.error {α : Type} (other : i.category ≠ "missing") :
    NeverAbsent (.error i : Except Issue α) := by
  rintro _ ⟨⟩
  exact other

theorem NeverAbsent.bind {α β : Type} {r : Except Issue α} {f : α → Except Issue β}
    (first : NeverAbsent r) (rest : ∀ a, NeverAbsent (f a)) : NeverAbsent (r >>= f) := by
  cases r with
  | ok a => exact rest a
  | error i => exact .error (first i rfl)

theorem NeverAbsent.getD {α : Type} {r : Option (Except Issue α)} {d : Except Issue α}
    (found : ∀ x, r = some x → NeverAbsent x) (default : NeverAbsent d) :
    NeverAbsent (r.getD d) := by
  cases r with
  | none => exact default
  | some x => exact found x rfl

theorem whole_error (s : String) : NeverAbsent (whole s) := by
  unfold whole
  split
  · exact .ok s
  · exact .error (by decide)

theorem readText_error (v : Value) : NeverAbsent (readText v) := by
  unfold readText
  split
  · exact .ok _
  · exact whole_error _
  · refine .getD (fun x found => ?_) (.error (by decide))
    obtain ⟨s, _, rfl⟩ := Option.map_eq_some_iff.1 found
    exact .ok s
  · exact .error (by decide)

theorem writtenText?_error (v : Value) (other : i.category ≠ "missing") :
    NeverAbsent (writtenText? v i) := by
  unfold writtenText?
  split
  · unfold whole
    split
    · exact .ok _
    · exact .error (by decide)
  · refine .getD (fun x found => ?_) (.error other)
    obtain ⟨s, _, rfl⟩ := Option.map_eq_some_iff.1 found
    exact .ok _
  · exact .ok none

/-- What is read, or else the same objection. -/
theorem known_error {α : Type} (found : Option α) (other : i.category ≠ "missing") :
    NeverAbsent ((found.map Except.ok).getD (.error i)) := by
  cases found with
  | none => exact .error other
  | some a => exact .ok a

theorem readFlag_error (v : Value) : NeverAbsent (readFlag v) := by
  refine (writtenText?_error v (by decide)).bind fun text => ?_
  dsimp only
  split
  · exact .ok _
  · exact known_error _ (by decide)
  · exact known_error _ (by decide)
  · exact .error (by decide)

theorem readNumber_error (v : Value) : NeverAbsent (readNumber v) := by
  -- which number an integer is takes long to compute and does not matter
  obtain ⟨number, same⟩ : ∃ number, Double.ofInt = number := ⟨_, rfl⟩
  unfold readNumber
  rw [same]
  refine NeverAbsent.bind (writtenText?_error v (by decide)) fun text => ?_
  split
  · exact known_error _ (by decide)
  · exact .ok _
  · exact .ok _
  · split
    · exact .error (by decide)
    · exact .ok _
  · split
    · exact .error (by decide)
    · exact .ok _
  · exact .error (by decide)

theorem readPositive_error (v : Value) : NeverAbsent (readPositive v) := by
  refine (readNumber_error v).bind fun x => ?_
  split
  · exact .error (by decide)
  · exact .ok x

theorem readWord_error (words : List String) (v : Value) : NeverAbsent (readWord words v) := by
  have other : (issue "literal_error" ("Input should be " ++ alternatives words)).category ≠
      "missing" := by
    show "literal_error" ≠ "missing"
    decide
  unfold readWord
  split
  · refine (whole_error _).bind fun s => ?_
    split
    · exact .ok _
    · exact .error other
  · exact .error other

theorem asValue_error {α : Type} {wrap : α → Value} {r : Except Issue α}
    (scalar : NeverAbsent r) (refused : asValue wrap r = .error issues) : Leads none issues := by
  cases r with
  | ok a => cases refused
  | error i =>
    cases refused
    exact .single (scalar i rfl)

/-! ## Items and fields -/

theorem located_error {α : Type} {name : String} {r : Except (List Issue) α}
    (refused : located name r = .error issues) :
    ∃ inner, r = .error inner ∧ issues = inside name inner := by
  cases r with
  | ok a => cases refused
  | error inner =>
    cases refused
    exact ⟨inner, rfl, rfl⟩

/-- Objections to several readings begin with those to the first, or there are none to it. -/
theorem gather_error {α : Type} {r : Except (List Issue) α} {rest : List (Except (List Issue) α)}
    (refused : gather (r :: rest) = .error issues) :
    (∃ a, r = .ok a ∧ gather rest = .error issues) ∨
      ∃ first more, r = .error first ∧ issues = first ++ more := by
  unfold gather at refused
  split at refused
  · cases refused
  · rename_i others
    cases refused
    exact .inl ⟨_, rfl, others⟩
  · cases refused
    exact .inr ⟨issues, [], rfl, (List.append_nil issues).symm⟩
  · cases refused
    exact .inr ⟨_, _, rfl, rfl⟩

/-- The objections to items begin with those to the first that is refused. -/
theorem acceptItems_error {accept : Value → Except (List Issue) Value}
    {absent? : Value → Option (List String)}
    (each : ∀ v issues, accept v = .error issues → Leads (absent? v) issues) {items : List Value}
    {start : Nat} (refused : gather ((items.zipIdx start).map fun (item, i) =>
      located (toString i) (accept item)) = .error issues) :
    Leads (firstAbsentItem? accept absent? items start) issues := by
  induction items generalizing start issues with
  | nil => cases refused
  | cons v rest ih =>
    rw [List.zipIdx_cons, List.map_cons] at refused
    rw [firstAbsentItem?]
    rcases gather_error refused with ⟨w, read, others⟩ | ⟨first, more, stop, rfl⟩
    · rw [located_ok read]
      exact ih others
    · obtain ⟨inner, cause, rfl⟩ := located_error stop
      rw [cause]
      exact ((each v inner cause).inside _).append more

theorem recordIssues_error {entries : List (String × Shape × Option Value)} {given : Fields}
    (first : Leads absent? issues) :
    Leads (if strangersWhole entries given then absent? else none)
      (recordIssues issues (entries.map (·.1)) given) := by
  unfold recordIssues
  by_cases whole : strangersWhole entries given = true
  · have all := whole
    unfold strangersWhole at all
    rw [if_pos whole, if_pos all]
    exact first.append _
  -- a name that is not whole is all that is reported
  · have all := whole
    unfold strangersWhole at all
    rw [if_neg whole, if_neg all]
    exact .single (by decide)

/-- The reading of one field of a record. -/
def acceptField (given : Fields) (name : String) (shape : Shape) (default : Option Value) :
    Except (List Issue) Value :=
  match Fields.get? given name, default with
  | some v, _ => located name (shape.accept v)
  | none, some v => .ok v
  | none, none => .error [⟨"missing", [name], "Field required"⟩]

section Fields

variable {name : String} {shape : Shape} {default : Option Value}
  {entries rest : List (String × Shape × Option Value)} {given fs : Fields}

theorem acceptFields_cons_ok (read : acceptFields ((name, shape, default) :: rest) given = .ok fs) :
    ∃ v more, acceptField given name shape default = .ok v ∧
      acceptFields rest given = .ok more := by
  unfold acceptFields at read
  dsimp only at read
  split at read
  · rename_i here others
    exact ⟨_, _, here, others⟩
  all_goals cases read

/-- Objections to fields begin with those to the first, or there are none to it. -/
theorem acceptFields_cons_error
    (refused : acceptFields ((name, shape, default) :: rest) given = .error issues) :
    (∃ v, acceptField given name shape default = .ok v ∧
        acceptFields rest given = .error issues) ∨
      ∃ first more, acceptField given name shape default = .error first ∧
        issues = first ++ more := by
  unfold acceptFields at refused
  dsimp only at refused
  split at refused
  · cases refused
  · rename_i here others
    cases refused
    exact .inl ⟨_, here, others⟩
  · rename_i here others
    cases refused
    exact .inr ⟨issues, [], here, (List.append_nil issues).symm⟩
  · rename_i here others
    cases refused
    exact .inr ⟨_, _, here, rfl⟩

/-- Behind a field that is read comes the next. -/
theorem firstAbsentField?_read {v : Value} (read : acceptField given name shape default = .ok v) :
    firstAbsentField? ((name, shape, default) :: rest) given = firstAbsentField? rest given := by
  unfold acceptField at read
  rw [firstAbsentField?]
  split at read
  · rename_i u held
    rw [held]
    dsimp only
    rw [located_ok read]
  · rename_i held
    rw [held]
    rfl
  · cases read

/-- Of accepted fields none is absent. -/
theorem firstAbsentField?_accepted (read : acceptFields entries given = .ok fs) :
    firstAbsentField? entries given = none := by
  induction entries generalizing fs with
  | nil => rfl
  | cons entry rest ih =>
    obtain ⟨name, shape, default⟩ := entry
    obtain ⟨v, more, here, others⟩ := acceptFields_cons_ok read
    rw [firstAbsentField?_read here, ih others]

/-- Names that a record does not know are no absent fields. -/
theorem recordIssues_unknown (known : List String) (given : Fields) :
    recordIssues [] known given = [] ∨ Leads none (recordIssues [] known given) := by
  unfold recordIssues
  dsimp only
  split
  · cases (given.map (·.1)).filter fun name => !known.contains name with
    | nil => exact .inl rfl
    | cons name others => exact .inr ⟨_, _, rfl, (by decide : "extra_forbidden" ≠ "missing")⟩
  · exact .inr (.single (by decide))

/-- Beside fields that are accepted, a record may have other names, or break its rule. -/
theorem conclude_error {rule : Fields → Option String}
    (unknown : more = [] ∨ Leads none more)
    (refused : conclude (.ok fs) more rule = .error issues) : Leads none issues := by
  unfold conclude at refused
  split at refused
  · split at refused
    · cases refused
      exact .single (by decide : "value_error" ≠ "missing")
    · cases refused
  · rename_i objected
    cases refused
    rcases unknown with rfl | leads
    · exact (objected _ rfl rfl).elim
    · exact leads

end Fields

mutual

/-- **The first objection** to a value is of an absent field if that comes first. -/
theorem accept_error (shape : Shape) :
    ∀ {v : Value} {issues : List Issue}, shape.accept v = .error issues →
      Leads (shape.firstAbsent? v) issues := by
  -- by recursion over the shape, which `accept` and `firstAbsent?` descend alike
  intro v issues refused
  cases shape with
  | anything => cases refused
  | text => exact asValue_error (readText_error v) refused
  | flag => exact asValue_error (readFlag_error v) refused
  | positive => exact asValue_error (readPositive_error v) refused
  | oneOf words => exact asValue_error (readWord_error words v) refused
  | mapping =>
    unfold accept at refused
    split at refused
    · cases refused
    · cases refused
      exact .single (by decide)
  | list item =>
    unfold accept at refused
    split at refused
    · split at refused
      · cases refused
      · rename_i found
        cases refused
        exact acceptItems_error (fun w inner => accept_error item) found
    · rename_i noArray
      cases refused
      -- what is no array has no items in which a field could be absent
      have noItems : v.items = [] := by
        cases v with
        | array items => exact absurd rfl (noArray items)
        | _ => rfl
      rw [firstAbsent?, noItems]
      exact .single (by decide)
  | optional inner =>
    unfold accept at refused
    unfold firstAbsent?
    split at refused
    · cases refused
    · rename_i given
      rw [if_neg given]
      exact accept_error inner refused
  | either firstName first secondName second =>
    unfold accept at refused
    unfold firstAbsent?
    split at refused
    · cases refused
    · cases refused
    · rename_i a b one other
      cases refused
      rw [one, other]
      exact ((accept_error first one).inside _).append _
  | record title entries rule =>
    unfold accept at refused
    split at refused
    · rename_i given
      dsimp only at refused
      rw [firstAbsent?, Value.isObject, Bool.true_and, Value.fields]
      cases read : acceptFields entries given with
      | error found =>
        rw [read] at refused
        cases refused
        exact recordIssues_error (acceptFields_error entries read)
      | ok fs =>
        rw [read] at refused
        rw [firstAbsentField?_accepted read, ite_self]
        exact conclude_error (recordIssues_unknown _ _) refused
    · rename_i noObject
      cases refused
      have other : v.isObject = false := by
        cases v with
        | object given => exact absurd rfl (noObject given)
        | _ => rfl
      rw [firstAbsent?, other, Bool.false_and]
      exact ⟨_, [], rfl, (by decide : "model_type" ≠ "missing")⟩

theorem acceptFields_error (entries : List (String × Shape × Option Value)) :
    ∀ {given : Fields} {issues : List Issue}, acceptFields entries given = .error issues →
      Leads (firstAbsentField? entries given) issues := by
  intro given issues refused
  match entries with
  | [] => cases refused
  | (name, shape, default) :: rest =>
    rcases acceptFields_cons_error refused with ⟨v, read, others⟩ | ⟨first, more, stop, rfl⟩
    · rw [firstAbsentField?_read read]
      exact acceptFields_error rest others
    -- the fields behind are read all the same, but objections to them come behind
    · refine Leads.append ?_ more
      unfold acceptField at stop
      unfold firstAbsentField?
      split at stop
      · rename_i v held
        obtain ⟨inner, cause, rfl⟩ := located_error stop
        rw [held]
        dsimp only
        rw [cause]
        exact (accept_error shape cause).inside name
      · cases stop
      · rename_i held
        cases stop
        rw [held]
        exact ⟨_, [], rfl, rfl⟩

end

/-! ## When a field is absent -/

theorem firstAbsentItem?_none {accept : Value → Except (List Issue) Value}
    {absent? : Value → Option (List String)} {items : List Value}
    (each : ∀ x ∈ items, absent? x = none) (start : Nat) :
    firstAbsentItem? accept absent? items start = none := by
  induction items generalizing start with
  | nil => rfl
  | cons v rest ih =>
    rw [firstAbsentItem?, each v List.mem_cons_self]
    cases accept v with
    | ok w => exact ih (fun x hx => each x (List.mem_cons_of_mem v hx)) (start + 1)
    | error inner => rfl

mutual

/-- Where no required field is absent, nothing of the kind is objected to. -/
theorem firstAbsent?_complete (shape : Shape) :
    ∀ {v : Value}, shape.Complete v → shape.firstAbsent? v = none := by
  intro v complete
  cases shape with
  | anything | text | flag | positive | oneOf _ | mapping => rfl
  | list item =>
    rw [firstAbsent?]
    exact firstAbsentItem?_none (fun x hx => firstAbsent?_complete item (complete x hx)) 0
  | optional inner =>
    rw [firstAbsent?, firstAbsent?_complete inner complete, ite_self]
  | either firstName first secondName second =>
    rw [firstAbsent?, firstAbsent?_complete first complete.1]
    split <;> rfl
  | record title entries rule =>
    rw [firstAbsent?]
    split
    · rename_i both
      exact firstAbsentField?_complete entries (complete (Bool.and_eq_true_iff.1 both).1)
    · rfl

theorem firstAbsentField?_complete (entries : List (String × Shape × Option Value)) :
    ∀ {given : Fields}, FieldsComplete entries given → firstAbsentField? entries given = none := by
  intro given complete
  match entries with
  | [] => rfl
  | (name, shape, default) :: rest =>
    obtain ⟨here, others⟩ := complete
    have behind := firstAbsentField?_complete rest others
    rw [firstAbsentField?]
    cases held : Fields.get? given name with
    | some v =>
      rw [held] at here
      dsimp only
      rw [firstAbsent?_complete shape here, behind]
      split <;> rfl
    | none =>
      rw [held] at here
      replace here : default.isSome = true := here
      rw [if_pos here, behind]

end

/-- An absent field is what is objected to first, as long as each field in front of it that is given
    is accepted. -/
theorem firstAbsentField?_required {name : String} {shape : Shape}
    {front rest : List (String × Shape × Option Value)} {given : Fields}
    (absent : Fields.get? given name = none)
    (accepted : ∀ e ∈ front, ∀ v, Fields.get? given e.1 = some v → ∃ w, e.2.1.accept v = .ok w) :
    ∃ location, firstAbsentField? (front ++ (name, shape, none) :: rest) given = some location := by
  induction front with
  | nil => exact ⟨[name], by rw [List.nil_append, firstAbsentField?, absent]; rfl⟩
  | cons e others ih =>
    obtain ⟨first, firstShape, default⟩ := e
    have behind := ih fun e he => accepted e (List.mem_cons_of_mem _ he)
    rw [List.cons_append, firstAbsentField?]
    cases held : Fields.get? given first with
    | some v =>
      obtain ⟨w, read⟩ := accepted _ List.mem_cons_self v held
      dsimp only at read ⊢
      rw [read]
      exact behind
    | none =>
      cases default with
      | some d => exact behind
      | none => exact ⟨[first], rfl⟩

end Shape

/-! ## Requests -/

/-- A refused request is reported by its first objection. -/
theorem Failure.ofIssues_leads {absent? : Option (List String)} {issues : List Issue}
    (leads : Shape.Leads absent? issues) :
    (∀ location, absent? = some location → ofIssues issues = fieldRequired location) ∧
      (absent? = none → (ofIssues issues).kind = .invalidOperation) := by
  obtain ⟨i, rest, rfl, told⟩ := leads
  constructor
  · rintro location rfl
    cases told
    have whole : String.ofList ("Field required".toList.take 200) = "Field required" := by decide
    unfold ofIssues fieldRequired
    dsimp only [List.headD_cons]
    rw [if_pos rfl, whole]
  · rintro rfl
    unfold ofIssues
    dsimp only [List.headD_cons]
    rw [if_neg told]

namespace Request

/-- **How a refused request is reported.** If an absent field is the first thing to object to, by
    its location; otherwise as an invalid operation. The latter is so whenever no required field is
    absent at any depth. A required field that is absent from the request itself is reported, or one
    in front of it, if each field in front of it that is given is accepted and the names that the
    record does not know are whole. -/
theorem parse_refused (r : Request) {payload : Value} {fault : Fault}
    (refused : r.parse payload = .error fault) :
    ∃ f, fault = .failure f ∧
      (∀ location, r.shape.firstAbsent? payload = some location →
        f = .fieldRequired location) ∧
      (r.shape.firstAbsent? payload = none → f.kind = .invalidOperation) ∧
      (r.shape.Complete payload → f.kind = .invalidOperation) ∧
      (∀ given front name shape rest, payload = .object given →
        r.entries = front ++ required name shape :: rest → Fields.get? given name = none →
        Shape.strangersWhole r.entries given = true →
        (∀ e ∈ front, ∀ v, Fields.get? given e.1 = some v → ∃ w, e.2.1.accept v = .ok w) →
        f.kind = .missingField) := by
  unfold parse at refused
  split at refused
  · cases refused
  · rename_i issues stop
    cases refused
    obtain ⟨named, other⟩ := Failure.ofIssues_leads (Shape.accept_error r.shape stop)
    refine ⟨_, rfl, named, other,
      fun complete => other (Shape.firstAbsent?_complete r.shape complete), ?_⟩
    rintro given front name shape rest rfl entries absent whole accepted
    obtain ⟨location, found⟩ : ∃ location,
        Shape.firstAbsentField? (front ++ required name shape :: rest) given = some location :=
      Shape.firstAbsentField?_required absent accepted
    have first : r.shape.firstAbsent? (.object given) = some location := by
      obtain ⟨title, rule, record⟩ : ∃ title rule, r.shape = .record title r.entries rule := by
        cases r <;> exact ⟨_, _, rfl⟩
      rw [record, Shape.firstAbsent?, Value.isObject, Bool.true_and, Value.fields, if_pos whole,
        entries]
      exact found
    rw [named location first]
    rfl

/-- The second of two moves has no source. -/
theorem parse_refused_second_move :
    let payload : Value := .object [("moves", .array
      [.object [("from_field", .text "a"), ("to_field", .text "b")],
       .object [("to_field", .text "c")]])]
    ∃ fault, Request.translate.parse payload = .error fault ∧
      fault = .failure (.fieldRequired ["moves", "1", "from_field"]) := by
  intro payload
  obtain ⟨fault, refused⟩ : ∃ fault, Request.translate.parse payload = .error fault := ⟨_, rfl⟩
  obtain ⟨f, rfl, named, -⟩ := parse_refused .translate refused
  exact ⟨_, refused, congrArg Fault.failure (named _ rfl)⟩

/-- A filter of the wrong kind is objected to before an absent field. -/
theorem absence_hidden :
    let payload : Value := .object [("query", .int 5), ("value", .int 1)]
    Fields.get? payload.fields "field" = none ∧
      (∃ shape, required "field" shape ∈ Request.push.entries) ∧
      ∃ f, Request.push.parse payload = .error (.failure f) ∧ f.kind = .invalidOperation := by
  intro payload
  exact ⟨rfl, ⟨.text, by simp [entries, shape, required]⟩, _, rfl, rfl⟩

end Request

end DocRepair

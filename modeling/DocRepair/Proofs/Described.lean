import DocRepair.Change
import DocRepair.Proofs.Linked
import DocRepair.Proofs.Refused
import DocRepair.Proofs.Register
/-!
# `DocRepair.Proofs.Described` — changes and what describes them

A list of changes is read item by item, up to the first item that describes none. What is read has
the path, the operation and the value of its item; what is refused is refused by a failure. Nothing
else can happen to a change that a path is mapped to. Where the parts of a change are named, the
name of its operation is looked up before anything is known of it, so a value that cannot be looked
up stops the reading.

## Contents

* `mapM_eq_ok` / `mapM_eq_error` — readings item by item;
* `Change.Maps` / `Change.Describes` / `Change.Lists` — what describes a change, and a list of them;
* `Change.build_ok` / `Change.build_error` — the checks that both spellings end in;
* `Change.ofPair_ok` / `Change.ofItem_ok` — one item of a list;
* `Change.Settled` / `Change.parse_settled` — when lists are read or refused with a failure.
-/

namespace DocRepair

/-! ## Readings item by item -/

section Items

variable {α β : Type} {f : β → Except Fault α} {xs : List β} {ys : List α} {fault : Fault}

/-- What is read of items, one of each. -/
theorem mapM_eq_ok : xs.mapM f = .ok ys ↔ List.Forall₂ (fun x y => f x = .ok y) xs ys := by
  induction xs generalizing ys with
  | nil =>
    rw [List.mapM_nil]
    constructor
    · rintro ⟨⟩
      exact .nil
    · rintro ⟨⟩
      rfl
  | cons x rest ih =>
    rw [List.mapM_cons, List.forall₂_cons_left_iff]
    constructor
    · intro run
      obtain ⟨y, first, run⟩ := bind_eq_ok.1 run
      obtain ⟨others, more, run⟩ := bind_eq_ok.1 run
      cases run
      exact ⟨y, others, first, ih.1 more, rfl⟩
    · rintro ⟨y, others, first, more, rfl⟩
      rw [first, ih.2 more]
      rfl

/-- What stops the reading of items stops that of the first item that cannot be read. -/
theorem mapM_eq_error : xs.mapM f = .error fault ↔
    ∃ front x rest ys, xs = front ++ x :: rest ∧ front.mapM f = .ok ys ∧ f x = .error fault := by
  constructor
  · intro stop
    induction xs with
    | nil => cases stop
    | cons x rest ih =>
      rw [List.mapM_cons] at stop
      cases first : f x with
      | error cause =>
        rw [first] at stop
        cases stop
        exact ⟨[], x, rest, [], rfl, rfl, first⟩
      | ok y =>
        rw [first] at stop
        cases more : rest.mapM f with
        | ok others =>
          rw [more] at stop
          cases stop
        | error cause =>
          rw [more] at stop
          cases stop
          obtain ⟨front, z, behind, ys, rfl, run, stop⟩ := ih more
          refine ⟨x :: front, z, behind, y :: ys, rfl, ?_, stop⟩
          rw [List.mapM_cons, first, run]
          rfl
  · rintro ⟨front, x, rest, ys, rfl, run, stop⟩
    rw [List.mapM_append, run, List.mapM_cons, stop]
    rfl

end Items

/-! ## The kind of a refusal -/

/-- The two kinds of failure that a change is refused with. -/
def Failure.Refuses (f : Failure) : Prop :=
  f.kind = .missingField ∨ f.kind = .invalidOperation

theorem Failure.ofIssues_refuses (issues : List Issue) : (ofIssues issues).Refuses := by
  unfold ofIssues
  dsimp only
  split
  · exact .inl rfl
  · exact .inr rfl

namespace Change

variable {op : Operation} {given : Fields} {c : Change} {cs : List Change} {fault : Fault}
  {tag path v : Value}

/-! ## What describes a change -/

/-- A path that is mapped to an operation and its value describes a change. -/
def Maps (pair : String × Value) (c : Change) : Prop :=
  ∃ tag, pair = (c.path, .object [(tag, c.value)]) ∧ Operation.ofTag? tag = some c.operation

/-- An object describes a change if it names the parts of it: a path that is read as a text, a name
    of the operation, and the value. -/
def Describes (item : Value) (c : Change) : Prop :=
  ∃ given path tag, item = .object given ∧
    Fields.get? given "path" = some path ∧ Shape.readText path = .ok c.path ∧
    Fields.get? given "operation" = some (.text tag) ∧ Operation.ofTag? tag = some c.operation ∧
    Fields.get? given "value" = some c.value

/-- Changes in order, one for each item of a list in either spelling. -/
def Lists : Value → List Change → Prop
  | .object pairs, cs => List.Forall₂ Maps pairs cs
  | .array items, cs => List.Forall₂ Describes items cs
  | _, _ => False

/-- A change to a path of at least one segment, none of them empty. -/
def Sound (c : Change) : Prop :=
  ∃ segments, Path.split (.text c.path) = .ok segments ∧ segments ≠ [] ∧ "" ∉ segments

/-! ## The checks of a change -/

theorem recordIssues_nil {issues : List Issue} {known : List String}
    (none : Shape.recordIssues issues known given = []) : issues = [] := by
  unfold Shape.recordIssues at none
  dsimp only at none
  split at none
  · exact (List.append_eq_nil_iff.1 none).1
  · cases none

/-- Without objections all fields are read. -/
theorem acceptFields_of_objections {entries : List (String × Shape × Option Value)}
    (none : Shape.objections (Shape.acceptFields entries given) = []) :
    ∃ fs, Shape.acceptFields entries given = .ok fs := by
  cases read : Shape.acceptFields entries given with
  | ok fs => exact ⟨fs, rfl⟩
  | error found =>
    obtain ⟨i, rest, rfl, _⟩ := Shape.acceptFields_error entries read
    rw [read] at none
    cases none

/-- A path that nothing is objected to has segments. -/
theorem splits_of_pathIssues {path : Value} (none : pathIssues path = []) :
    ∃ segments, Path.split path = .ok segments := by
  unfold pathIssues at none
  split at none
  · rename_i segments splits
    exact ⟨segments, splits⟩
  · cases none

/-- Of parts that nothing is objected to, the path splits and the value is there. -/
theorem issues_nil (none : issues given = []) :
    (∃ path, Fields.get? given "path" = some path ∧
      ∀ s, Shape.readText path = .ok s → ∃ segments, Path.split (.text s) = .ok segments) ∧
      ∃ v, Fields.get? given "value" = some v := by
  unfold issues at none
  obtain ⟨ofPath, others⟩ := List.append_eq_nil_iff.1 (recordIssues_nil none)
  constructor
  · split at ofPath
    · cases ofPath
    · rename_i path held
      refine ⟨path, held, fun s read => ?_⟩
      have accepted : Shape.accept .text path = .ok (.text s) := by
        rw [Shape.accept, read]
        rfl
      rw [accepted] at ofPath
      exact splits_of_pathIssues ofPath
  · obtain ⟨fs, read⟩ := acceptFields_of_objections others
    obtain ⟨_, _, _, read⟩ := Shape.acceptFields_cons_ok read
    obtain ⟨v, _, read, _⟩ := Shape.acceptFields_cons_ok read
    unfold Shape.acceptField at read
    split at read
    · rename_i v held
      exact ⟨v, held⟩
    · rename_i noDefault
      cases noDefault
    · cases read

/-- A change that passes all checks has the parts that it was built of. -/
theorem build_ok (read : build op given = .ok c) :
    c.operation = op ∧ c.Sound ∧
      (∃ path, Fields.get? given "path" = some path ∧ Shape.readText path = .ok c.path) ∧
      Fields.get? given "value" = some c.value := by
  have named := build_operation read
  unfold build at read
  dsimp only at read
  split at read
  · rename_i none
    obtain ⟨⟨path, held, splits⟩, v, valued⟩ := issues_nil none
    rw [Fields.getD, Fields.getD, held, valued, Option.getD_some, Option.getD_some] at read
    -- the name of the operation has been replaced, the other parts are as given
    rw [Fields.get?_set_ne _ _ (by decide)] at held valued
    split at read
    · rename_i p accepted
      cases read
      obtain ⟨s, reads, rfl⟩ := Shape.asValue_ok accepted
      obtain ⟨segments, split⟩ := splits s reads
      exact ⟨named, ⟨segments, split, Path.split_ok split⟩, ⟨path, held, reads⟩, valued⟩
    · cases read
  · cases read

theorem build_error (stop : build op given = .error fault) :
    ∃ f, fault = .failure f ∧ f.Refuses := by
  unfold build at stop
  dsimp only at stop
  split at stop
  · split at stop
    · cases stop
    · cases stop
      exact ⟨_, rfl, Failure.ofIssues_refuses _⟩
  · cases stop
    exact ⟨_, rfl, Failure.ofIssues_refuses _⟩

/-! ## Names of operations -/

theorem operationOf_ok (named : operationOf tag path = .ok op) :
    ∃ s, tag = .text s ∧ Operation.ofTag? s = some op := by
  unfold operationOf at named
  split at named
  · rename_i found
    cases named
    obtain ⟨s, spelled, known⟩ := Option.bind_eq_some_iff.1 found
    cases tag with
    | text t =>
      cases spelled
      exact ⟨s, rfl, known⟩
    | _ => cases spelled
  · split at named <;> cases named

theorem operationOf_error (stop : operationOf tag path = .error fault) :
    (∃ f, fault = .failure f ∧ f.Refuses) ∨ tag.isHashable = false ∧ fault = .unhashable tag := by
  unfold operationOf at stop
  split at stop
  · cases stop
  · split at stop
    · cases stop
      exact .inl ⟨_, rfl, .inr rfl⟩
    · rename_i unhashable
      cases stop
      exact .inr ⟨Bool.of_not_eq_true unhashable, rfl⟩

theorem operationOf_unhashable (unhashable : tag.isHashable = false) (path : Value) :
    operationOf tag path = .error (.unhashable tag) := by
  have noText : tag.text? = none := by
    cases tag with
    | text s => cases unhashable
    | _ => rfl
  unfold operationOf
  rw [noText, unhashable]
  rfl

/-! ## One item -/

theorem ofPair_ok {path : String} (read : ofPair path v = .ok c) : Maps (path, v) c ∧ c.Sound := by
  unfold ofPair at read
  split at read
  · obtain ⟨op, named, built⟩ := bind_eq_ok.1 read
    obtain ⟨s, same, known⟩ := operationOf_ok named
    cases same
    obtain ⟨operation, sound, ⟨p, held, reads⟩, valued⟩ := build_ok built
    cases held
    cases reads
    cases valued
    exact ⟨⟨_, rfl, operation ▸ known⟩, sound⟩
  · cases read

/-- Nothing but a failure stops the reading of a change that a path is mapped to. -/
theorem ofPair_error {path : String} (stop : ofPair path v = .error fault) :
    ∃ f, fault = .failure f ∧ f.Refuses := by
  unfold ofPair at stop
  split at stop
  · rename_i tag value
    cases named : operationOf (.text tag) (.text path) with
    | ok op =>
      rw [named] at stop
      exact build_error stop
    | error cause =>
      rw [named] at stop
      cases stop
      exact (operationOf_error named).resolve_right fun other => nomatch other.1
  · cases stop
    exact ⟨_, rfl, .inr rfl⟩

theorem ofItem_ok {item : Value} (read : ofItem item = .ok c) : Describes item c ∧ c.Sound := by
  unfold ofItem at read
  split at read
  · rename_i given
    split at read
    · cases read
    · cases read
    · rename_i path tag _ tagged
      obtain ⟨op, named, built⟩ := bind_eq_ok.1 read
      obtain ⟨s, rfl, known⟩ := operationOf_ok named
      obtain ⟨operation, sound, ⟨p, held, reads⟩, valued⟩ := build_ok built
      exact ⟨⟨given, p, s, rfl, held, reads, tagged, operation ▸ known, valued⟩, sound⟩
  · cases read

/-- An object names a path, and an operation by something that cannot be looked up. -/
def Misnames (item tag : Value) : Prop :=
  ∃ given path, item = .object given ∧ Fields.get? given "path" = some path ∧
    Fields.get? given "operation" = some tag ∧ tag.isHashable = false

theorem ofItem_error {item : Value} (stop : ofItem item = .error fault) :
    (∃ f, fault = .failure f ∧ f.Refuses) ∨ ∃ tag, Misnames item tag := by
  unfold ofItem at stop
  split at stop
  · rename_i given
    split at stop
    · cases stop
      exact .inl ⟨_, rfl, .inl rfl⟩
    · cases stop
      exact .inl ⟨_, rfl, .inr rfl⟩
    · rename_i path tag named tagged
      cases known : operationOf tag path with
      | ok op =>
        rw [known] at stop
        exact .inl (build_error stop)
      | error cause =>
        rw [known] at stop
        cases stop
        exact (operationOf_error known).imp_right fun other =>
          ⟨tag, given, path, rfl, named, tagged, other.1⟩
  · cases stop
    exact .inl ⟨_, rfl, .inr rfl⟩

theorem ofItem_misnamed {item : Value} (misnamed : Misnames item tag) :
    ofItem item = .error (.unhashable tag) := by
  obtain ⟨given, path, rfl, named, tagged, unhashable⟩ := misnamed
  unfold ofItem
  dsimp only
  rw [named, tagged]
  dsimp only
  rw [operationOf_unhashable unhashable]
  rfl

/-! ## Lists -/

variable {items : List Value}

theorem parse_object (pairs : Fields) :
    parse (.object pairs) = pairs.mapM fun (path, change) => ofPair path change := rfl

theorem parse_array (items : List Value) : parse (.array items) = items.mapM ofItem := rfl

/-- Changes are read, one sound change for each item of the list in order, or they are refused with
    one of two kinds of failure. -/
def Settled (raw : Value) : Prop :=
  (∃ cs, parse raw = .ok cs ∧ Lists raw cs ∧ ∀ c ∈ cs, c.Sound) ∨
    ∃ f, parse raw = .error (.failure f) ∧ f.Refuses

/-- Of some items, the first that cannot be read names its operation by something that cannot be
    looked up. -/
def TripsOver (items : List Value) (tag : Value) : Prop :=
  ∃ front item rest cs, items = front ++ item :: rest ∧ parse (.array front) = .ok cs ∧
    Misnames item tag

theorem parse_trips (trips : TripsOver items tag) :
    parse (.array items) = .error (.unhashable tag) := by
  obtain ⟨front, item, rest, cs, rfl, before, misnamed⟩ := trips
  rw [parse_array] at before ⊢
  exact mapM_eq_error.2 ⟨front, item, rest, cs, rfl, before, ofItem_misnamed misnamed⟩

theorem sound_of_forall₂ {α : Type} {R : α → Change → Prop} {xs : List α}
    (each : List.Forall₂ (fun x c => R x c ∧ c.Sound) xs cs) :
    List.Forall₂ R xs cs ∧ ∀ c ∈ cs, c.Sound := by
  induction each with
  | nil => exact ⟨.nil, nofun⟩
  | cons here _ ih => exact ⟨.cons here.1 ih.1, List.forall_mem_cons.2 ⟨here.2, ih.2⟩⟩

/-- **Lists of changes are read or refused.** Always so where paths are mapped to changes; where the
    parts of a change are named, just if the first item that cannot be read does not name its
    operation by something that cannot be looked up. -/
theorem parse_settled (pairs : Fields) (items : List Value) :
    Settled (.object pairs) ∧ (Settled (.array items) ↔ ¬ ∃ tag, TripsOver items tag) := by
  refine ⟨?_, ?_, ?_⟩
  · unfold Settled
    rw [parse_object]
    cases run : pairs.mapM fun (path, change) => ofPair path change with
    | ok cs =>
      have each := (mapM_eq_ok.1 run).imp fun _ _ read => ofPair_ok read
      exact .inl ⟨cs, rfl, sound_of_forall₂ each⟩
    | error fault =>
      obtain ⟨_, pair, _, _, _, _, stop⟩ := mapM_eq_error.1 run
      obtain ⟨f, rfl, refuses⟩ := ofPair_error stop
      exact .inr ⟨f, rfl, refuses⟩
  · rintro settled ⟨tag, trips⟩
    rcases settled with ⟨cs, read, _⟩ | ⟨f, stop, _⟩
    · rw [parse_trips trips] at read
      cases read
    · rw [parse_trips trips] at stop
      cases stop
  · intro calm
    unfold Settled
    cases run : parse (.array items) with
    | ok cs =>
      rw [parse_array] at run
      have each := (mapM_eq_ok.1 run).imp fun _ _ read => ofItem_ok read
      exact .inl ⟨cs, rfl, sound_of_forall₂ each⟩
    | error fault =>
      rw [parse_array] at run
      obtain ⟨front, item, rest, cs, rfl, before, stop⟩ := mapM_eq_error.1 run
      rcases ofItem_error stop with ⟨f, rfl, refuses⟩ | ⟨tag, misnamed⟩
      · exact .inr ⟨f, rfl, refuses⟩
      · exact absurd ⟨tag, front, item, rest, cs, rfl, before, misnamed⟩ calm

/-- An operation named by a list is no operation that is not known. -/
theorem listed_operation_stops :
    let item : Value := .object
      [("path", .text "a"), ("operation", .array [.text "Set"]), ("value", .int 1)]
    parse (.array [item]) = .error (.unhashable (.array [.text "Set"])) ∧
      (Fault.unhashable (.array [.text "Set"])).isFailure = false := by
  intro item
  exact ⟨rfl, rfl⟩

end Change

end DocRepair

import DocRepair.Proofs.Kept
import DocRepair.Proofs.Walks
import DocRepair.Transfer
/-!
# `DocRepair.Proofs.Identifier` — a document keeps its identifier

Only the setting of an identifier may give a document another one. Each edit guards the identifier
field by its own check, and each of these compares the whole path with the field. A path that goes
on below the field is not caught by any of them; what stops it there is that nothing lies below a
scalar. So an identifier that is a scalar is kept by every edit, and one that is a mapping or an
array only by the edits none of whose paths begins with its field.

## Contents

* `DocumentEdit` — every edit of one document;
* `Edit.Refused` — an edit that stops, saying that the operation does not belong there;
* `Edit.AtIdentifier` / `Edit.applyOperation_refused` — writes to the identifier;
* `DocumentEdit.Aimed` — edits that would write the identifier;
* `DocumentEdit.identifier_kept` — the identifier is kept, and edits aimed at it are refused;
* `DocumentEdit.container_identifier_changed` — a value set below an identifier.
-/

namespace DocRepair

/-- Every edit of one document: a single change, an edit that goes by paths, an array query, or the
    write of a transfer, whose plan is checked first. -/
inductive DocumentEdit
  | change (op : Operation) (path v : Value)
  | byPaths (edit : PathEdit)
  | query (steps : List QueryStep)
  | link (plan : Transfer.Plan) (fromQuery v : Value)

namespace DocumentEdit

/-- Makes an edit. -/
def run (idField : String) : DocumentEdit → Edit Unit
  | .change op path v => Edit.applyOperation idField op path v
  | .byPaths edit => do let _ ← edit.run idField
  | .query steps => do let _ ← Edit.modify steps
  | .link plan fromQuery v => do
    Edit.lift (plan.check fromQuery idField)
    Edit.write (some 1) plan.toField v

/-- The edit gives another identifier: it sets an identifier at the identifier field itself. -/
def Renames (idField : String) : DocumentEdit → Prop
  | .change op path _ => op = .setIdentifier ∧ Path.split path = .ok [idField]
  | .byPaths edit => edit.Renames idField
  | _ => False

/-- Some path of an edit begins with a name; an array query begins with the field of its first
    step. -/
def Begins (n : String) : DocumentEdit → Prop
  | .change _ path _ => Edit.Begins n path
  | .byPaths edit => edit.Begins n
  | .query steps => ∃ first rest, steps = first :: rest ∧ first.field = n
  | .link plan _ _ => Edit.Begins n plan.toField

end DocumentEdit

namespace Edit

variable {idField second : String} {rest : List String} {path v new : Value} {d : Draft}

/-! ## Checks of the identifier field -/

/-- What passes the check of a plan is not the identifier field. -/
theorem check_ok {plan : Transfer.Plan} {fromQuery : Value} {u : Unit}
    (run : plan.check fromQuery idField = .ok u) : Path.split plan.toField ≠ .ok [idField] := by
  intro own
  unfold Transfer.Plan.check at run
  split at run
  · cases run
  · split at run
    · cases run
    · simp only [isIdentity, own] at run
      simp [bind, Except.bind] at run

theorem guardIdentity_own {op : Operation} (own : Path.split path = .ok [idField]) :
    guardIdentity idField op path = fail (.identityRewrite op idField path) := by
  simp only [guardIdentity, isIdentity, own]
  simp [bind, Except.bind]

theorem guardIdentity_below {op : Operation}
    (below : Path.split path = .ok (idField :: second :: rest)) :
    guardIdentity idField op path = .ok () := by
  simp only [guardIdentity, isIdentity, below]
  simp [bind, Except.bind, pure, Except.pure]

theorem keepIdentity_own {verb : String} (own : Path.split path = .ok [idField]) :
    keepIdentity idField verb path = fail (.identityKept verb idField path) := by
  simp only [keepIdentity, isIdentity, own]
  simp [bind, Except.bind]

theorem keepIdentity_other {verb : String} {names : List String}
    (splits : Path.split path = .ok names) (other : names ≠ [idField]) :
    keepIdentity idField verb path = .ok () := by
  simp only [keepIdentity, isIdentity, splits]
  simp [bind, Except.bind, pure, Except.pure, other]

/-! ## Refusals -/

/-- An edit that stops with a failure which says that the operation does not belong there. -/
def Refused {α : Type} (a : Edit α) (d : Draft) : Prop :=
  ∃ f e, a d = .error (.failure f) e ∧ (f.kind = .invalidOperation ∨ f.kind = .typeMismatch)

theorem Refused.bind {α β : Type} {a : Edit α} {f : α → Edit β} (h : Refused a d) :
    Refused (a >>= f) d := by
  obtain ⟨failure, e, run, kind⟩ := h
  exact ⟨failure, e, run_bind_error.2 (.inl run), kind⟩

theorem Refused.bind_of {α β : Type} {a : Edit α} {f : α → Edit β} {x : α} {e : Draft}
    (run : a d = .ok x e) (h : Refused (f x) e) : Refused (a >>= f) d := by
  obtain ⟨failure, g, stop, kind⟩ := h
  exact ⟨failure, g, run_bind_error.2 (.inr ⟨x, e, run, stop⟩), kind⟩

theorem Refused.check {α : Type} {r : Except Fault Unit} {f : Unit → Edit α} {failure : Failure}
    (stops : r = fail failure) (kind : failure.kind = .invalidOperation) :
    Refused (lift r >>= f) d :=
  Refused.bind ⟨failure, d, by rw [stops]; rfl, .inl kind⟩

/-- A path that is the identifier field, or begins with it while the identifier is a scalar. -/
def AtIdentifier (idField : String) (v path : Value) : Prop :=
  Path.split path = .ok [idField] ∨ (Begins idField path ∧ v.isContainer = false)

section Scalar

variable (below : Path.split path = .ok (idField :: second :: rest))
  (held : Path.present (Fields.get? d.doc.fields idField) = some v) (obj : d.doc.isObject = true)
  (scalar : v.isContainer = false)

include below held obj scalar

/-- **Nothing is written below a scalar.** -/
theorem write_refused {limit : Option Int} : Refused (write limit path new) d := by
  have nowhere : Path.landing limit d.doc path =
      fail (.scalarOnTheWay [idField] (idField :: second :: rest)) := by
    rw [Draft.doc_eq_object obj, Path.landing, below]
    simp only [bind, Except.bind, Path.landingFrom, Path.writableChild, held, Option.map_some,
      scalar]
    rfl
  refine Refused.bind ⟨.scalarOnTheWay [idField] (idField :: second :: rest), d, ?_, .inr rfl⟩
  simp only [look, nowhere]
  rfl

theorem append_refused : Refused (append idField path new) d := by
  have nowhere : Path.resolve idField d.doc path .null = .ok none := by
    have child : Fields.get? d.doc.fields idField = some v := (Path.present_eq_some.1 held).1
    rw [Draft.doc_eq_object obj, Path.resolve, below]
    simp only [bind, Except.bind, Path.selectors, Path.resolveFrom, Path.step, Path.childAt, child,
      Option.map_some, List.headD_nil, scalar]
    rfl
  refine Refused.bind_of (look_ok.2 ⟨nowhere, rfl⟩) ?_
  refine Refused.bind_of (look_ok.2 ⟨rfl, rfl⟩) ?_
  exact write_refused below held obj scalar

end Scalar

/-- The identifier field itself is only written by the setting of an identifier. -/
theorem applyOperation_own {op : Operation} (own : Path.split path = .ok [idField])
    (other : op ≠ .setIdentifier) : Refused (applyOperation idField op path new) d := by
  have stops : guardIdentity idField op path = fail (.identityRewrite op idField path) :=
    guardIdentity_own own
  cases op with
  | set => exact .check stops rfl
  | setIdentifier => exact absurd rfl other
  | setStatus => exact .check stops rfl
  | append => exact .check stops rfl

section AtIdentifier

variable (aimed : AtIdentifier idField v path)
  (held : Path.present (Fields.get? d.doc.fields idField) = some v) (obj : d.doc.isObject = true)

include aimed held obj

/-- **No operation but the setting of an identifier writes the identifier**, nor anything below one
    that is a scalar. -/
theorem applyOperation_refused {op : Operation} (other : op ≠ .setIdentifier) :
    Refused (applyOperation idField op path new) d := by
  by_cases own : Path.split path = .ok [idField]
  · exact applyOperation_own own other
  · obtain ⟨⟨names, splits⟩, scalar⟩ := aimed.resolve_left own
    obtain ⟨second, rest, rfl⟩ : ∃ second rest, names = second :: rest :=
      List.exists_cons_of_ne_nil fun none => own (none ▸ splits)
    have passes : lift (guardIdentity idField op path) d = .ok () d :=
      lift_ok.2 ⟨guardIdentity_below splits, rfl⟩
    cases op with
    | set => exact .bind_of passes (write_refused splits held obj scalar)
    | setIdentifier => exact absurd rfl other
    | setStatus =>
      have later (supply : Supply) (new : Value) :
          Refused (write (some 1) path new) { d with supply := supply } :=
        write_refused (d := { d with supply := supply }) splits held obj scalar
      exact .bind_of passes (.bind_of rfl (later _ _))
    | append => exact .bind_of passes (append_refused splits held obj scalar)

theorem clear_refused : Refused (clear idField path) d := by
  by_cases own : Path.split path = .ok [idField]
  · exact .check (keepIdentity_own own) rfl
  · obtain ⟨⟨names, splits⟩, scalar⟩ := aimed.resolve_left own
    obtain ⟨second, rest, rfl⟩ : ∃ second rest, names = second :: rest :=
      List.exists_cons_of_ne_nil fun none => own (none ▸ splits)
    have passes : lift (keepIdentity idField "clear" path) d = .ok () d :=
      lift_ok.2 ⟨keepIdentity_other splits (by simp), rfl⟩
    exact .bind_of passes (.bind (write_refused splits held obj scalar))

end AtIdentifier

/-! ## Lists of changes and of removals -/

/-- A failure of a change is one of the list, with the progress made. -/
theorem applyFrom_refused {c : Change} {after : List Change} {applied : Nat} {dirty : DirtySet}
    (h : Refused (applyChange idField c) d) :
    Refused (applyFrom idField applied dirty (c :: after)) d := by
  obtain ⟨f, e, run, kind⟩ := h
  refine ⟨(f.addContext "applied" (.int applied)).addContext "dirty" dirty.toValue, e, ?_, ?_⟩
  · unfold applyFrom
    rw [run]
    rfl
  · have same (g : Failure) (name : String) (w : Value) : (g.addContext name w).kind = g.kind := by
      unfold Failure.addContext
      split <;> rfl
    rw [same, same]
    exact kind

/-- What follows changes that go through is applied behind them. -/
theorem applyFrom_append {before after : List Change} {applied : Nat} {start dirty : DirtySet}
    {e : Draft} (run : applyFrom idField applied start before d = .ok dirty e) :
    applyFrom idField applied start (before ++ after) d =
      applyFrom idField (applied + before.length) dirty after e := by
  induction before generalizing applied start d with
  | nil =>
    obtain ⟨rfl, rfl⟩ := run_pure_ok.1 run
    rfl
  | cons c rest ih =>
    rw [List.cons_append]
    unfold applyFrom at run
    conv => lhs; unfold applyFrom
    cases first : applyChange idField c d with
    | error fault f => rw [first] at run; cases run
    | ok u f =>
      rw [first] at run
      dsimp only at run ⊢
      cases touch : start.touch (.text c.path) with
      | error fault => rw [touch] at run; cases run
      | ok more =>
        rw [touch] at run
        dsimp only at run ⊢
        rw [ih run, List.length_cons, Nat.add_right_comm, Nat.add_assoc]

theorem deleteFrom_append {before after : List Value} {start dirty : DirtySet} {e : Draft}
    (run : deleteFrom idField start before d = .ok dirty e) :
    deleteFrom idField start (before ++ after) d = deleteFrom idField dirty after e := by
  induction before generalizing start d with
  | nil =>
    obtain ⟨rfl, rfl⟩ := run_pure_ok.1 run
    rfl
  | cons path rest ih =>
    obtain ⟨u, f, deleted, run⟩ := run_bind_ok.1 run
    obtain ⟨more, g, touched, run⟩ := run_bind_ok.1 run
    rw [List.cons_append]
    show (deleteField idField path >>= _) d = _
    rw [run_bind, deleted]
    show (lift (start.touch path) >>= _) f = _
    rw [run_bind, touched]
    exact ih run

theorem moveFrom_append {before after : List Move} {start dirty : DirtySet} {e : Draft}
    (run : moveFrom idField start before d = .ok dirty e) :
    moveFrom idField start (before ++ after) d = moveFrom idField dirty after e := by
  induction before generalizing start d with
  | nil =>
    obtain ⟨rfl, rfl⟩ := run_pure_ok.1 run
    rfl
  | cons m rest ih =>
    obtain ⟨more, f, moved, run⟩ := run_bind_ok.1 run
    rw [List.cons_append]
    show (move idField _ _ >>= _) d = _
    rw [run_bind, moved]
    exact ih run

/-- A move from or to the identifier field. -/
def MovesIdentifier (idField : String) (source target : Value) : Prop :=
  Path.split source = .ok [idField] ∨
    (∃ names, Path.split source = .ok names) ∧ Path.split target = .ok [idField]

theorem move_refused {source target : Value} (aimed : MovesIdentifier idField source target) :
    Refused (move idField source target) d := by
  by_cases own : Path.split source = .ok [idField]
  · exact .check (keepIdentity_own own) rfl
  · obtain ⟨⟨names, splits⟩, aim⟩ := aimed.resolve_left own
    have passes : lift (keepIdentity idField "move" source) d = .ok () d :=
      lift_ok.2 ⟨keepIdentity_other splits fun same => own (same ▸ splits), rfl⟩
    exact .bind_of passes (.check (keepIdentity_own aim) rfl)

end Edit

/-! ## All edits -/

namespace PathEdit

/-- An edit that comes to a path which would write the identifier: in a list, behind others that go
    through. -/
def Aimed (idField : String) (v : Value) (d : Draft) : PathEdit → Prop
  | .applyChanges changes => ∃ before c after dirty e, changes = before ++ c :: after ∧
      Edit.applyChanges idField before d = .ok dirty e ∧ c.operation ≠ .setIdentifier ∧
      Edit.AtIdentifier idField v (.text c.path)
  | .deleteFields paths => ∃ before path after dirty e,
      paths.members = .ok (before ++ path :: after) ∧
      Edit.deleteFrom idField ∅ before d = .ok dirty e ∧ Path.split path = .ok [idField]
  | .move source target => Edit.MovesIdentifier idField source target
  | .moveAll moves => ∃ before m after dirty e, moves = before ++ m :: after ∧
      Edit.moveAll idField before d = .ok dirty e ∧
      Edit.MovesIdentifier idField (.text m.source) (.text m.target)
  | .clear path => Edit.AtIdentifier idField v path
  | _ => False

end PathEdit

namespace DocumentEdit

variable {idField : String} {d : Draft} {v : Value}

/-- An edit that would write the identifier field itself, other than by setting an identifier, or
    that would write below an identifier that is a scalar. The refusal of a transfer shows its path,
    as any text and any list of texts can be. -/
def Aimed (idField : String) (v : Value) (d : Draft) : DocumentEdit → Prop
  | .change op path _ => op ≠ .setIdentifier ∧ Edit.AtIdentifier idField v path
  | .byPaths edit => edit.Aimed idField v d
  | .query _ => False
  | .link plan fromQuery _ => fromQuery.isNull = false ∧ plan.missing? = none ∧
      plan.toField.hasPlain = true ∧ Edit.AtIdentifier idField v plan.toField

/-- Every edit of a document goes by steps below the fields that its paths begin with. -/
theorem run_goes (edit : DocumentEdit) (idField : String) (obj : d.doc.isObject = true) :
    Edit.Goes idField (edit.Renames idField) (fun n => edit.Begins n) (edit.run idField) d := by
  cases edit with
  | change op path v =>
    exact Edit.applyOperation_goes obj (fun _ rest h => ⟨rest, h⟩) fun set own => ⟨set, own⟩
  | byPaths edit => exact (edit.run_goes idField obj).bind fun _ _ _ => .pure _
  | query steps =>
    refine Edit.Goes.bind ?_ fun _ _ _ => .pure _
    exact Edit.modify_goes obj fun first rest h => ⟨first, rest, h, rfl⟩
  | link plan fromQuery v =>
    refine Edit.Goes.lift_bind fun _ checked => ?_
    exact Edit.write_goes obj (fun _ rest h => ⟨rest, h⟩) (.inl (Edit.check_ok checked))

/-- An edit that does not rename keeps the identifier, whichever way it ends. -/
theorem kept (edit : DocumentEdit) (obj : d.doc.isObject = true) (keeps : ¬ edit.Renames idField)
    (held : Path.present (Fields.get? d.doc.fields idField) = some v)
    (safe : v.isContainer = false ∨ ¬ edit.Begins idField) :
    Path.present (Fields.get? ((edit.run idField).draftAfter d).doc.fields idField) = some v :=
  Draft.Steps.identifier (edit.run_goes idField obj) obj keeps held safe

/-- Changes that go through keep a scalar identifier, if none of them renames. -/
theorem kept_of_changes {before : List Change} {dirty : DirtySet} {e : Draft}
    (obj : d.doc.isObject = true) (keeps : ¬ Edit.ChangesRename idField before)
    (held : Path.present (Fields.get? d.doc.fields idField) = some v) (scalar : v.isContainer = false)
    (run : Edit.applyChanges idField before d = .ok dirty e) :
    e.doc.isObject = true ∧ Path.present (Fields.get? e.doc.fields idField) = some v := by
  have goes := (PathEdit.applyChanges before).run_goes idField obj
  have steps := Edit.Goes.ok goes run
  exact ⟨Draft.Steps.isObject steps obj, Draft.Steps.identifier steps obj keeps held (.inl scalar)⟩

/-- **An edit aimed at the identifier is refused.** -/
theorem refused (edit : DocumentEdit) (obj : d.doc.isObject = true)
    (keeps : ¬ edit.Renames idField)
    (held : Path.present (Fields.get? d.doc.fields idField) = some v)
    (aimed : edit.Aimed idField v d) : Edit.Refused (edit.run idField) d := by
  cases edit with
  | change op path new => exact Edit.applyOperation_refused aimed.2 held obj aimed.1
  | query steps => exact aimed.elim
  | link plan fromQuery new =>
    obtain ⟨given, complete, shown, aim⟩ := aimed
    by_cases own : Path.split plan.toField = .ok [idField]
    · have stops : plan.check fromQuery idField =
          fail (.transferIntoIdentity plan.toField plan.toField.plain) := by
        simp only [Transfer.Plan.check, given, complete, Edit.isIdentity, own, failShowing,
          Value.plainText_ok.2 ⟨shown, rfl⟩]
        simp [bind, Except.bind]
      exact .check stops rfl
    · obtain ⟨⟨names, splits⟩, scalar⟩ := aim.resolve_left own
      obtain ⟨second, rest, rfl⟩ : ∃ second rest, names = second :: rest :=
        List.exists_cons_of_ne_nil fun none => own (none ▸ splits)
      have passes : plan.check fromQuery idField = .ok () := by
        simp only [Transfer.Plan.check, given, complete, Edit.isIdentity, splits]
        simp [bind, Except.bind, pure, Except.pure]
      exact .bind_of (Edit.lift_ok.2 ⟨passes, rfl⟩) (Edit.write_refused splits held obj scalar)
  | byPaths edit =>
    refine .bind ?_
    cases edit with
    | applyChanges changes =>
      obtain ⟨before, c, after, dirty, e, rfl, run, other, aim⟩ := aimed
      suffices stops : Edit.Refused (Edit.applyChange idField c) e by
        have rest : Edit.Refused (Edit.applyFrom idField (0 + before.length) dirty (c :: after)) e :=
          Edit.applyFrom_refused stops
        obtain ⟨f, g, stop, kind⟩ := rest
        exact ⟨f, g, (Edit.applyFrom_append run).trans stop, kind⟩
      by_cases own : Path.split (.text c.path) = .ok [idField]
      · exact Edit.applyOperation_own own other
      · -- The changes before keep a scalar.
        have scalar := (aim.resolve_left own).2
        have before : ¬ Edit.ChangesRename idField before := by
          rintro ⟨b, hb, renames⟩
          exact keeps ⟨b, List.mem_append_left _ hb, renames⟩
        obtain ⟨objE, heldE⟩ := kept_of_changes obj before held scalar run
        exact Edit.applyOperation_refused aim heldE objE other
    | deleteFields paths =>
      obtain ⟨before, path, after, dirty, e, listed, run, own⟩ := aimed
      have stops : Edit.Refused (Edit.deleteFrom idField dirty (path :: after)) e :=
        .bind (.check (Edit.keepIdentity_own own) rfl)
      refine .bind_of (Edit.lift_ok.2 ⟨listed, rfl⟩) ?_
      unfold Edit.Refused
      rw [Edit.deleteFrom_append run]
      exact stops
    | move source target => exact Edit.move_refused aimed
    | moveAll moves =>
      obtain ⟨before, m, after, dirty, e, rfl, run, aim⟩ := aimed
      have stops : Edit.Refused (Edit.moveFrom idField dirty (m :: after)) e :=
        .bind (Edit.move_refused aim)
      obtain ⟨f, g, stop, kind⟩ := stops
      exact ⟨f, g, (Edit.moveFrom_append run).trans stop, kind⟩
    | clear path => exact Edit.clear_refused aimed held obj
    | _ => exact aimed.elim

/-- **A document keeps its identifier.** Let an edit not set an identifier at the identifier field
    itself. Whichever way it ends, the document has the identifier that it had, if that is no
    container or no path of the edit begins with its field. An edit that would write the field, or
    below a scalar in it, stops with a failure that says so. -/
theorem identifier_kept (edit : DocumentEdit) {fs : Fields} (hdoc : d.doc = .object fs)
    (held : Path.present (Fields.get? fs idField) = some v) (keeps : ¬ edit.Renames idField) :
    (v.isContainer = false ∨ ¬ edit.Begins idField →
      ∃ gs, ((edit.run idField).draftAfter d).doc = .object gs ∧
        Fields.get? gs idField = some v) ∧
    (edit.Aimed idField v d → Edit.Refused (edit.run idField) d) := by
  have obj : d.doc.isObject = true := by rw [hdoc]; rfl
  have held : Path.present (Fields.get? d.doc.fields idField) = some v := by rw [hdoc]; exact held
  refine ⟨fun safe => ?_, edit.refused obj keeps held⟩
  have still : ((edit.run idField).draftAfter d).doc.isObject = true :=
    Draft.Steps.isObject (edit.run_goes idField obj) obj
  exact ⟨_, Draft.doc_eq_object still, (Path.present_eq_some.1 (edit.kept obj keeps held safe)).1⟩

/-- A field is set, and then a value is to be appended below the identifier, which is a text. -/
theorem identifier_kept_second_change :
    let d : Draft :=
      { doc := .object [("_id", .text "d1")], supply := { origin := 0, last := 0, pace := 1 } }
    let edit : DocumentEdit :=
      .byPaths (.applyChanges [⟨"a", .set, .int 1⟩, ⟨"_id.x", .append, .int 2⟩])
    (∃ gs, ((edit.run "_id").draftAfter d).doc = .object gs ∧
      Fields.get? gs "_id" = some (.text "d1")) ∧ Edit.Refused (edit.run "_id") d := by
  intro d edit
  have keeps : ¬ edit.Renames "_id" := by
    rintro ⟨c, hc, sets, _⟩
    simp only [List.mem_cons, List.not_mem_nil, or_false] at hc
    rcases hc with rfl | rfl
    · cases sets
    · cases sets
  have held : Path.present (Fields.get? [("_id", Value.text "d1")] "_id") = some (.text "d1") := rfl
  have start : d.doc = .object [("_id", .text "d1")] := rfl
  obtain ⟨kept, refused⟩ := identifier_kept edit start held keeps
  have aimed : edit.Aimed "_id" (.text "d1") d :=
    ⟨[⟨"a", .set, .int 1⟩], ⟨"_id.x", .append, .int 2⟩, [], _, _, rfl, rfl, by decide,
      .inr ⟨⟨["x"], rfl⟩, rfl⟩⟩
  exact ⟨kept (.inl rfl), refused aimed⟩

/-- The setting of a value below an identifier that is a mapping: the guard does not stop it, and
    the document has another identifier. -/
theorem container_identifier_changed :
    let fs : Fields := [("_id", .object [("k", .int 1)])]
    let d : Draft := { doc := .object fs, supply := { origin := 0, last := 0, pace := 1 } }
    let edit : DocumentEdit := .change .set (.text "_id.k") (.int 2)
    Path.present (Fields.get? fs "_id") = some (.object [("k", .int 1)]) ∧ ¬ edit.Renames "_id" ∧
      ∃ e, edit.run "_id" d = .ok () e ∧
        Fields.get? e.doc.fields "_id" = some (.object [("k", .int 2)]) :=
  ⟨rfl, fun renames => Operation.noConfusion renames.1, _, rfl, rfl⟩

end DocumentEdit

end DocRepair

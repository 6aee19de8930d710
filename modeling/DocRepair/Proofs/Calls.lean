import DocRepair.Gateway.Edits
import DocRepair.Gateway.Reads
import DocRepair.Proofs.Computations
/-!
# `DocRepair.Proofs.Calls` — every call that may write, as a value

A call checks its arguments and then does one of three things: it runs an edit on what a query
selects, it removes a document, or it creates documents. Statements about all calls are proved for
these three actions.

## Contents

* `Call` / `Call.run` — a call with its arguments, and what it does;
* `Action` / `Action.perform` — the three actions;
* `Call.action` — the action of a call, or why its arguments are refused;
* `Call.run_eq` — a call is its action;
* `Call.action_create` / `Call.action_remove` — only the call to create documents creates any, and only
  the one to delete a whole document removes one.
-/

namespace DocRepair.Gateway

variable {σ : Type} [Store σ]

/-- A call that is told whether to persist, with its other arguments. -/
inductive Call
  | execute (query changes : Value) (many : Bool)
  | setStatus (query path code : Value)
  | push (query field v ids : Value)
  | addIds (query field ids : Value)
  | inject (query field ids data : Value)
  | duplicate (query field : Value)
  | dedupe (query field keyField : Value)
  | modifyArray (query steps : Value)
  | translate (query moves : Value)
  | delete (query : Value) (target : Deletion)
  | create (documents : Value)

/-- Makes a call. -/
def Call.run (settings : Settings) (persist : Bool) : Call → Access σ Outcome
  | .execute query changes many => Gateway.execute settings query changes many persist
  | .setStatus query path code => Gateway.setStatus settings query path code persist
  | .push query field v ids => Gateway.push settings query field v ids persist
  | .addIds query field ids => Gateway.addIds settings query field ids persist
  | .inject query field ids data => Gateway.inject settings query field ids data persist
  | .duplicate query field => Gateway.duplicate settings query field persist
  | .dedupe query field keyField => Gateway.dedupe settings query field keyField persist
  | .modifyArray query steps => Gateway.modifyArray query steps persist
  | .translate query moves => Gateway.translate settings query moves persist
  | .delete query target => Gateway.delete settings query target persist
  | .create documents => Gateway.create settings documents persist

/-- What a call comes to once its arguments are accepted. -/
inductive Action
  /-- Runs an edit on the documents that a query selects: all of them, or the first. -/
  | edit (query : Value) (many : Bool) (task : Task)
  /-- Removes the first document that a query selects. -/
  | remove (query : Value)
  /-- Stores new documents. -/
  | create (documents : Value)

/-- Does an action. -/
def Action.perform (settings : Settings) (persist : Bool) : Action → Access σ Outcome
  | .edit query many task => Gateway.run query many persist task
  | .remove query => deleteDocument query persist
  | .create documents => Gateway.create settings documents persist

/-- The action of a call, or why its arguments are refused. -/
def Call.action (settings : Settings) : Call → Except Fault Action
  | .execute query changes many => do
    .ok (.edit query many (quiet (Edit.applyChanges settings.idField (← Change.parse changes))))
  | .setStatus query path code => do
    let changes ← Change.parse
      (.array [.object [("path", path), ("operation", .text Operation.setStatus.name),
        ("value", code)]])
    .ok (.edit query true (quiet (Edit.applyChanges settings.idField changes)))
  | .push query field v ids =>
    .ok (.edit query false (quiet (Edit.push settings.idField field v ids)))
  | .addIds query field ids =>
    .ok (.edit query false do
      let (dirty, added) ← Edit.addIds settings.idField field ids
      return (dirty, some [("added", .array (added.map fun id => .text id.text))]))
  | .inject query field ids data =>
    .ok (.edit query false (quiet (Edit.inject settings.idField (.text settings.language) field ids
      (.array data.listed))))
  | .duplicate query field =>
    .ok (.edit query false do
      let (dirty, count) ← Edit.duplicate settings.idField field
      return (dirty, some [("count", .int count)]))
  | .dedupe query field keyField =>
    .ok (.edit query false do
      let (dirty, report) ← Edit.removeDuplicates settings.idField field keyField
      return (dirty, some report))
  | .modifyArray query steps =>
    if !steps.truthy then fail .noQuerySteps
    else do .ok (.edit query false (quiet (Edit.modify (← parseMembers QueryStep.parse steps))))
  | .translate query moves =>
    if !moves.truthy then fail .noMoves
    else do
      .ok (.edit query true
        (quiet (Edit.moveAll settings.idField (← parseMembers Move.parse moves))))
  | .delete query target =>
    match target.given with
    | [] => fail .nothingToDelete
    | [_] =>
      if target.whole.truthy then .ok (.remove query)
      else do .ok (.edit query false (← deletionTask settings target))
    | names => fail (.severalTargets names)
  | .create documents => .ok (.create documents)

/-- **A call is its action**, done once its arguments are accepted. -/
theorem Call.run_eq (settings : Settings) (persist : Bool) (call : Call) :
    (call.run settings persist : Access σ Outcome) =
      (do (← Access.lift (call.action settings)).perform settings persist) := by
  cases call with
  | execute query changes many => simp only [Call.action, Access.lift_bind_map]; rfl
  | setStatus query path code => simp only [Call.action, Access.lift_bind_map]; rfl
  | push query field v ids => rfl
  | addIds query field ids => rfl
  | inject query field ids data => rfl
  | duplicate query field => rfl
  | dedupe query field keyField => rfl
  | modifyArray query steps =>
    show Gateway.modifyArray query steps persist = _
    unfold Gateway.modifyArray
    by_cases h : steps.truthy
    · simp only [Call.action, h, Bool.not_true, Bool.false_eq_true, if_false, Access.lift_bind_map]; rfl
    · simp only [Call.action, h]; rfl
  | translate query moves =>
    show Gateway.translate settings query moves persist = _
    unfold Gateway.translate
    by_cases h : moves.truthy
    · simp only [Call.action, h, Bool.not_true, Bool.false_eq_true, if_false, Access.lift_bind_map]; rfl
    · simp only [Call.action, h]; rfl
  | delete query target =>
    show Gateway.delete settings query target persist = _
    unfold Gateway.delete
    cases given : target.given with
    | nil => simp only [Call.action, given]; rfl
    | cons name more =>
      cases more with
      | cons other names => simp only [Call.action, given]; rfl
      | nil =>
        by_cases h : target.whole.truthy
        · simp only [Call.action, given, h, if_true]; rfl
        · simp only [Call.action, given, h, Bool.false_eq_true, if_false, Access.lift_bind_map]; rfl
  | create documents => rfl

/-- Only the call to create documents creates any. -/
theorem Call.action_create {settings : Settings} {call : Call} {documents : Value}
    (h : call.action settings = .ok (.create documents)) : call = .create documents := by
  cases call with
  | create given => cases h; rfl
  | execute query changes many =>
    obtain ⟨_, _, h⟩ := bind_eq_ok.1 h
    cases h
  | setStatus query path code =>
    obtain ⟨_, _, h⟩ := bind_eq_ok.1 h
    cases h
  | modifyArray query steps =>
    simp only [Call.action] at h
    split at h
    · cases h
    · obtain ⟨_, _, h⟩ := bind_eq_ok.1 h
      cases h
  | translate query moves =>
    simp only [Call.action] at h
    split at h
    · cases h
    · obtain ⟨_, _, h⟩ := bind_eq_ok.1 h
      cases h
  | delete query target =>
    simp only [Call.action] at h
    split at h
    · cases h
    · split at h
      · cases h
      · obtain ⟨_, _, h⟩ := bind_eq_ok.1 h
        cases h
    · cases h
  | _ => cases h

/-- Only the call to delete a whole document removes one. -/
theorem Call.action_remove {settings : Settings} {call : Call} {query : Value}
    (h : call.action settings = .ok (.remove query)) :
    ∃ target, call = .delete query target ∧ target.whole.truthy = true := by
  cases call with
  | delete given target =>
    simp only [Call.action] at h
    split at h
    · cases h
    · split at h
      · rename_i whole
        cases h
        exact ⟨target, rfl, whole⟩
      · obtain ⟨_, _, h⟩ := bind_eq_ok.1 h
        cases h
    · cases h
  | execute query changes many =>
    obtain ⟨_, _, h⟩ := bind_eq_ok.1 h
    cases h
  | setStatus query path code =>
    obtain ⟨_, _, h⟩ := bind_eq_ok.1 h
    cases h
  | modifyArray query steps =>
    simp only [Call.action] at h
    split at h
    · cases h
    · obtain ⟨_, _, h⟩ := bind_eq_ok.1 h
      cases h
  | translate query moves =>
    simp only [Call.action] at h
    split at h
    · cases h
    · obtain ⟨_, _, h⟩ := bind_eq_ok.1 h
      cases h
  | _ => cases h

end DocRepair.Gateway

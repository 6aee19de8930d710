import DocRepair.Proofs.Reworked
import DocRepair.Proofs.Sent
/-!
# `DocRepair.Proofs.Addressed` — which document the updates of a handle address

A handle is fetched from a server, and then edited in place and saved any number of times. What the
server holds in the identifier field of its document is what was fetched there, as changed by the
updates that were sent since. After each save the handle is taken to be known by its present
identifier. So it goes on to address its document as long as no save keeps a change of the identifier
back: the present identifier is the known one, or the update has it. The first save that keeps a
change back leaves the handle astray.

## Contents

* `Remote.Fetched` — handles that a server was asked for;
* `Remote.Career` — what becomes of a handle, and of the identifier field of its document;
* `Handle.Candid` — saves that keep no change of the identifier back;
* `Career.known` — what a handle is known by;
* `Career.aimed` — which document the next update addresses, and whether the handle goes astray;
* `Career.aimed_renamed` — a document is given another identifier and saved again;
* `Career.aimed_astray` — a change of the identifier is kept back.
-/

namespace DocRepair

/-- A save that keeps no change of the identifier back: the identifier is the known one, or is among
    what the save writes. -/
def Handle.Candid (h : Handle) (idField : String) (fields : DirtySet) : Prop :=
  idField ∈ Remote.written h idField fields ∨ h.id = h.knownId

/-- Such a save looks for the document under what the handle is known by. A handle that is known by
    nothing has no change of the identifier to write. -/
theorem Handle.Candid.addressId {h : Handle} {idField : String} {fields : DirtySet}
    (candid : h.Candid idField fields) : h.addressId = h.knownId := by
  unfold Handle.addressId
  split
  · rename_i unnamed
    rcases candid with inside | same
    · have changed := (Remote.mem_written.1 inside).2 rfl
      unfold Handle.idChanged at changed
      rw [unnamed] at changed
      cases changed
    · exact same
  · rfl

namespace Remote

variable {r : Remote} {h after now : Handle} {fields : DirtySet} {s t : Session Remote}
  {idField : String} {held : Option Value}

/-! ## Handles in use -/

/-- A handle that a server was just asked for. -/
def Fetched (r : Remote) (h : Handle) : Prop :=
  (∃ filter handles, r.find filter = .ok handles ∧ h ∈ handles) ∨
    ∃ filter, r.findOne filter = .ok (some h)

/-- What is fetched is a copy on loan. -/
theorem Fetched.lent (fetched : r.Fetched h) : ∃ doc, h = Collection.loan r.idField doc := by
  rcases fetched with ⟨filter, handles, run, listed⟩ | ⟨filter, run⟩
  · obtain ⟨conditions, _, run⟩ := bind_eq_ok.1 run
    obtain ⟨chosen, _, run⟩ := bind_eq_ok.1 run
    cases run
    obtain ⟨doc, _, rfl⟩ := List.mem_map.1 listed
    exact ⟨doc, rfl⟩
  · obtain ⟨conditions, _, run⟩ := bind_eq_ok.1 run
    obtain ⟨chosen, _, run⟩ := bind_eq_ok.1 run
    obtain ⟨doc, _, rfl⟩ := Option.map_eq_some_iff.1 (Except.ok.inj run)
    exact ⟨doc, rfl⟩

/-- What becomes of a handle, together with what the server holds in the identifier field of its
    document. The handle is fetched; edits of an allowed sort change it in place; saves of an allowed
    sort, whatever else was sent to the server in between, send updates. -/
inductive Career (edits : Handle → Handle → Prop) (saves : Handle → DirtySet → Prop)
    (idField : String) : Handle → Option Value → Prop
  | fetched {r : Remote} {h : Handle} (own : r.idField = idField) (fetched : r.Fetched h) :
      Career edits saves idField h (Fields.get? h.data idField)
  | edited {h g : Handle} {held : Option Value} (before : Career edits saves idField h held)
      (edit : edits h g) : Career edits saves idField g held
  | saved {h after : Handle} {held : Option Value} {fields : DirtySet}
      {outcome : Except Fault Handle} {s t : Session Remote} {commands : List Command}
      (before : Career edits saves idField h held) (chosen : saves h fields)
      (own : s.store.idField = idField) (run : save h fields s = .ok (after, outcome) t)
      (sent : t.store.sent = s.store.sent ++ commands) :
      Career edits saves idField after (commands.foldl (Command.fieldAfter idField) held)

/-! ## One save -/

/-- **Behind a save that goes through** the handle is known by the identifier that the server holds
    exactly if the save keeps no change of it back. -/
theorem knownId_saved (field : h.idField = idField) (known : h.knownId = held.getD .null)
    (run : save h fields s = .ok (after, .ok now) t) :
    after.idField = idField ∧
      (after.knownId =
          ((dispatch h idField fields).foldl (Command.fieldAfter idField) held).getD .null ↔
        h.Candid idField fields) := by
  obtain ⟨_, rfl, _⟩ := save_ok run
  refine ⟨field, ?_⟩
  have present : (h.settle (.within [.field h.idField])).knownId = h.id := Handle.knownId_within rfl
  rw [present, fieldAfter_dispatch]
  unfold Handle.Candid
  -- What is sent of the identifier is the present one; if nothing is sent, the known one stays.
  by_cases inside : idField ∈ written h idField fields
  · rw [if_pos inside]
    refine iff_of_true ?_ (.inl inside)
    rw [← field]
    rfl
  · rw [if_neg inside, ← known]
    exact (or_iff_right inside).symm

/-- A refused save sends nothing and leaves the handle alone. -/
theorem save_refused {fault : Fault} (run : save h fields s = .ok (after, .error fault) t) :
    after = h ∧ t = s := by
  cases judged : h.renamedBy s.store.idField fields with
  | error stop =>
    rw [save_unjudged judged] at run
    cases run
    exact ⟨rfl, rfl⟩
  | ok renamed =>
    rw [save_eq judged] at run
    split at run
    · cases run
      exact ⟨rfl, rfl⟩
    · cases run

/-- A save that goes through sends its commands. -/
theorem sent_saved {commands : List Command} (run : save h fields s = .ok (after, .ok now) t)
    (sent : t.store.sent = s.store.sent ++ commands) :
    commands = dispatch h s.store.idField fields := by
  rw [(save_ok run).2.2] at sent
  exact (List.append_cancel_left sent).symm

/-! ## Any number of saves -/

/-- **What a handle is known by.** As long as its edits spare what it is known by, and its saves keep
    no change of the identifier back, that is the identifier that the server holds. -/
theorem Career.known
    (career : Career Handle.Spares (fun h fields => h.Candid idField fields) idField h held) :
    h.idField = idField ∧ h.knownId = held.getD .null := by
  induction career with
  | fetched own fetched =>
    obtain ⟨doc, rfl⟩ := fetched.lent
    refine ⟨own, ?_⟩
    rw [Handle.knownId_within rfl, ← own]
    rfl
  | edited _ edit ih => exact ⟨edit.1.idField.trans ih.1, edit.knownId.trans ih.2⟩
  | @saved h after held fields outcome s t commands _ candid own run sent ih =>
    cases outcome with
    | error fault =>
      -- Nothing was sent, and nothing else has changed.
      obtain ⟨rfl, rfl⟩ := save_refused run
      rw [List.self_eq_append_right.1 sent]
      exact ih
    | ok now =>
      obtain rfl := sent_saved run sent
      obtain ⟨field, known⟩ := knownId_saved ih.1 ih.2 run
      rw [own]
      exact ⟨field, known.2 candid⟩

/-- **Which document the next update addresses.** -/
theorem Career.aimed
    (career : Career Handle.Spares (fun h fields => h.Candid idField fields) idField h held)
    (own : s.store.idField = idField) {outcome : Except Fault Handle}
    (run : save h fields s = .ok (after, outcome) t) :
    ∃ commands, t.store.sent = s.store.sent ++ commands ∧
      ((held.getD .null).isNull = false ∨ h.Candid idField fields →
        ∀ command ∈ commands, ∃ update,
          command = .updateOne [(idField, held.getD .null)] update) ∧
      (outcome.isOk = true →
        (after.knownId = (commands.foldl (Command.fieldAfter idField) held).getD .null ↔
          h.Candid idField fields)) := by
  obtain ⟨field, known⟩ := career.known
  cases outcome with
  | error fault =>
    obtain ⟨rfl, rfl⟩ := save_refused run
    exact ⟨[], (List.append_nil _).symm, fun _ _ listed => (nomatch listed), fun ok => (nomatch ok)⟩
  | ok now =>
    have sent := congrArg Remote.sent (save_ok run).2.2
    rw [own] at sent
    refine ⟨_, sent, fun aimed command listed => ?_, fun _ => (knownId_saved field known run).2⟩
    have address : h.addressId = held.getD .null := by
      rw [← known]
      rcases aimed with named | candid
      · rw [← known] at named
        exact if_neg (Bool.eq_false_iff.1 named)
      · exact candid.addressId
    unfold dispatch at listed
    split at listed
    · cases listed
    · rw [List.mem_singleton.1 listed, address]
      exact ⟨_, rfl⟩

/-- A document is given another identifier, which is saved; then another field is saved. The second
    update addresses the document by its new identifier. -/
theorem Career.aimed_renamed :
    let r : Remote :=
      { name := "forms", idField := "uid", docs := [[("uid", .text "u1"), ("n", .int 1)]] }
    let s : Session Remote := ⟨r, { origin := 0, last := 0, pace := 1 }⟩
    ∃ h g k t u, r.findOne (.object [("uid", .text "u1")]) = .ok (some h) ∧
      save (h.setField "uid" (.text "u2")) (.ofList ["uid"]) s = .ok (g, .ok g) t ∧
      save (g.setField "n" (.int 2)) (.ofList ["n"]) t = .ok (k, .ok k) u ∧
      k.knownId = .text "u2" ∧ u.store.sent.length = t.store.sent.length + 1 ∧
      ∃ commands, u.store.sent = t.store.sent ++ commands ∧
        ∀ command ∈ commands, ∃ update, command = .updateOne [("uid", .text "u2")] update := by
  intro r s
  let h := Collection.loan "uid" [("uid", .text "u1"), ("n", .int 1)]
  let g := Collection.loan "uid" [("uid", .text "u2"), ("n", .int 1)]
  let k := Collection.loan "uid" [("uid", .text "u2"), ("n", .int 2)]
  let renamed : Command :=
    .updateOne [("uid", .text "u1")] [("$set", .object [("uid", .text "u2")])]
  let t : Session Remote := { s with store := { r with sent := [renamed] } }
  have lent : r.findOne (.object [("uid", .text "u1")]) = .ok (some h) := rfl
  have first : save (h.setField "uid" (.text "u2")) (.ofList ["uid"]) s = .ok (g, .ok g) t := rfl
  have second : ∃ u, save (g.setField "n" (.int 2)) (.ofList ["n"]) t = .ok (k, .ok k) u ∧
      u.store.sent.length = 2 := ⟨_, rfl, rfl⟩
  obtain ⟨u, second, one⟩ := second
  have career : Career Handle.Spares (fun h fields => h.Candid "uid" fields) "uid" g
      (some (.text "u2")) := by
    have start : Career Handle.Spares (fun h fields => h.Candid "uid" fields) "uid" h
        (some (.text "u1")) := .fetched (r := r) rfl (.inr ⟨_, lent⟩)
    have candid : (h.setField "uid" (.text "u2")).Candid "uid" (.ofList ["uid"]) :=
      .inl List.mem_cons_self
    have given := (Handle.setField_reworked h "uid" (.text "u2")).spares rfl
    exact (start.edited given).saved candid rfl first rfl
  have changed := (Handle.setField_reworked g "n" (.int 2)).spares rfl
  obtain ⟨commands, sent, aimed, _⟩ := (career.edited changed).aimed rfl second
  have candid : (g.setField "n" (.int 2)).Candid "uid" (.ofList ["n"]) := .inr rfl
  exact ⟨h, g, k, t, u, lent, first, second, rfl, one, commands, sent, aimed (.inr candid)⟩

/-- The identifier is written in the copy, but only another field is saved; then that field is saved
    again. The server holds the identifier as it was fetched, and the second update addresses a
    document with the other one. -/
theorem Career.aimed_astray :
    let r : Remote := { name := "forms", docs := [[("_id", .text "d1"), ("n", .int 1)]] }
    let s : Session Remote := ⟨r, { origin := 0, last := 0, pace := 1 }⟩
    ∃ h g k t u, save h (.ofList ["n"]) s = .ok (g, .ok g) t ∧
      Career (fun h g => ∃ name v, g = h.setField name v) (fun _ _ => True) "_id" g
        (some (.text "d1")) ∧
      save g (.ofList ["n"]) t = .ok (k, .ok k) u ∧ u.store.sent = t.store.sent ++
        [.updateOne [("_id", .text "d2")] [("$set", .object [("n", .int 2)])]] := by
  intro r s
  let h := Collection.loan "_id" [("_id", .text "d1"), ("n", .int 1)]
  let g := Collection.loan "_id" [("_id", .text "d2"), ("n", .int 2)]
  let t : Session Remote := { s with store := { r with
    sent := [.updateOne [("_id", .text "d1")] [("$set", .object [("n", .int 2)])]] } }
  have lent : r.findOne (.object [("_id", .text "d1")]) = .ok (some h) := rfl
  have start : Career (fun h g => ∃ name v, g = h.setField name v) (fun _ _ => True) "_id" h
      (some (.text "d1")) := .fetched (r := r) rfl (.inr ⟨_, lent⟩)
  have edited := (start.edited ⟨"_id", .text "d2", rfl⟩).edited ⟨"n", .int 2, rfl⟩
  have first : save ((h.setField "_id" (.text "d2")).setField "n" (.int 2)) (.ofList ["n"]) s =
      .ok (g, .ok g) t := rfl
  exact ⟨_, g, _, t, _, first, edited.saved trivial rfl first rfl, rfl, rfl⟩

end Remote

end DocRepair

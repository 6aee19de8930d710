import DocRepair.Proofs.Deduplicated
import DocRepair.Proofs.Lawful
/-!
# `DocRepair.Proofs.Enrolled` — identifiers added to an array as to a set

Identifiers are added one after the other, each if the array holds nothing by then that agrees with
it. Object identifiers agree with each other only if they are equal, so what is added can be told from
the array as it was: the identifiers with which nothing in it agrees, each at its first place.
Afterwards something agrees with each of them, and to add them once more changes nothing.

An array that is missing is made even if nothing comes into it. That is a change, and reported as one.

What stands in an array may not be comparable with an identifier. The search for an identifier comes to
it only if nothing in front of it agrees, and whatever the first edit did not come to, the second one
does not come to either.

## Contents

* `Identity.agree_ident` — object identifiers that agree;
* `Identity.unheld` / `Identity.mem_unheld` / `Edit.newIds_ok` — the identifiers that are added;
* `Edit.holds?` — the search of an array for an identifier;
* `Edit.newIds_held` / `Edit.newIds_of_held` — what an array holds behind them, and once more;
* `Edit.ArrayAt` / `Edit.Enrolled` — the array before, and the document afterwards;
* `Edit.addIds_of_leads` / `Edit.addIds_enrolled` / `Edit.addIds_stops` — the edit;
* `Edit.addIds_as_set` — all of it.
-/

namespace DocRepair

/-! ## Identifiers that are new -/

namespace Identity

variable {held : List Value} {ids : List ObjectId}

theorem agree_ident (a b : ObjectId) : agree (.ident a) (.ident b) = (a == b) := by
  show (a.text == b.text) = (a == b)
  rw [Bool.eq_iff_iff, beq_iff_eq, beq_iff_eq]
  exact ⟨ObjectId.text_injective, congrArg ObjectId.text⟩

/-- The identifiers with which nothing held agrees, nor an earlier one of them. -/
def unheld (held : List Value) (ids : List ObjectId) : List ObjectId :=
  (ids.filter fun id => !held.any fun v => agree v (.ident id)).eraseDupsBy
    fun id earlier => agree (.ident earlier) (.ident id)

theorem unheld_eq (held : List Value) (ids : List ObjectId) :
    unheld held ids =
      (ids.filter fun id => !held.any fun v => agree v (.ident id)).eraseDups := by
  have same : (fun id earlier : ObjectId => agree (.ident earlier) (.ident id)) =
      fun id earlier => id == earlier := by
    funext id earlier
    rw [agree_ident, BEq.comm]
  unfold unheld
  rw [same]
  rfl

theorem mem_unheld {id : ObjectId} :
    id ∈ unheld held ids ↔ id ∈ ids ∧ ∀ v ∈ held, agree v (.ident id) = false := by
  rw [unheld_eq, List.mem_eraseDups, List.mem_filter, Bool.not_eq_true', List.any_eq_false]
  simp only [Bool.not_eq_true]

end Identity

namespace Edit

open DocRepair.Identity (agree unheld)

section NewIds

variable {held : List Value} {ids added : List ObjectId} {id : ObjectId} {b : Bool}

/-- The search of an array for something that agrees with an identifier. -/
def holds? (held : List Value) (id : ObjectId) : Except Fault Bool :=
  held.anyM fun v => Identity.compare v (.ident id)

theorem holds?_ok (run : holds? held id = .ok b) : (held.any fun v => agree v (.ident id)) = b :=
  anyM_ok (fun _ _ compared => (Identity.compare_ok.1 compared).2) run

/-- What is found is found in front of whatever comes behind. -/
theorem holds?_append (held more : List Value) (id : ObjectId) :
    holds? (held ++ more) id = (do if ← holds? held id then .ok true else holds? more id) := by
  induction held with
  | nil => rfl
  | cons v rest ih =>
    unfold holds? at ih ⊢
    rw [List.cons_append, List.anyM_cons, List.anyM_cons]
    cases Identity.compare v (.ident id) with
    | error fault => rfl
    | ok b =>
      cases b with
      | true => rfl
      | false => exact ih

theorem holds?_own (id : ObjectId) : holds? [.ident id] id = .ok true := by
  have same : Identity.compare (.ident id) (.ident id) = .ok true := by
    rw [Identity.compare_shown rfl rfl, Identity.agree_ident, beq_self_eq_true]
  unfold holds?
  rw [List.anyM_cons, same]
  rfl

/-- The first identifier is passed over if something agrees with it, and otherwise added. -/
theorem newIds_cons {first : ObjectId} (run : newIds held (first :: ids) = .ok added) :
    (holds? held first = .ok true ∧ newIds held ids = .ok added) ∨
      holds? held first = .ok false ∧
        ∃ rest, newIds (held ++ [.ident first]) ids = .ok rest ∧ added = first :: rest := by
  obtain ⟨known, search, run⟩ := bind_eq_ok.1 run
  cases known with
  | true => exact .inl ⟨search, run⟩
  | false =>
    obtain ⟨rest, more, run⟩ := bind_eq_ok.1 run
    cases run
    exact .inr ⟨search, rest, more, rfl⟩

/-- **What is added** is what the array did not hold, each identifier once. -/
theorem newIds_ok (run : newIds held ids = .ok added) : added = unheld held ids := by
  rw [Identity.unheld_eq]
  induction ids generalizing held added with
  | nil =>
    cases run
    rfl
  | cons id rest ih =>
    rcases newIds_cons run with ⟨search, more⟩ | ⟨search, others, more, rfl⟩
    · have known := holds?_ok search
      rw [ih more, List.filter_cons_of_neg (by simp [known])]
    · have new := holds?_ok search
      -- What was just added is passed over from here on.
      have later : (rest.filter fun x => !(held ++ [Value.ident id]).any fun v => agree v (.ident x)) =
          (rest.filter fun x => !held.any fun v => agree v (.ident x)).filter fun x => !x == id := by
        rw [List.filter_filter]
        refine List.filter_congr fun x _ => ?_
        rw [List.any_append, Bool.not_or, Bool.and_comm]
        simp only [List.any_cons, List.any_nil, Bool.or_false, Identity.agree_ident, BEq.comm]
      rw [ih more, later, List.filter_cons_of_pos (by simp [new]), List.eraseDups_cons]

/-- Behind what is added, each identifier is found in the array. -/
theorem newIds_held (run : newIds held ids = .ok added) :
    ∀ id ∈ ids, holds? (held ++ added.map .ident) id = .ok true := by
  induction ids generalizing held added with
  | nil => exact fun id among => nomatch among
  | cons first rest ih =>
    intro id among
    rcases newIds_cons run with ⟨search, more⟩ | ⟨search, others, more, rfl⟩
    · rcases List.mem_cons.1 among with rfl | later
      · rw [holds?_append, search]
        rfl
      · exact ih more id later
    · rcases List.mem_cons.1 among with rfl | later
      · rw [List.map_cons, List.append_cons, holds?_append, holds?_append, search]
        simp only [Bind.bind, Except.bind, Bool.false_eq_true, if_false, holds?_own, if_true]
      · rw [List.map_cons, List.append_cons]
        exact ih more id later

/-- Where each identifier is found, nothing is added. -/
theorem newIds_of_held (all : ∀ id ∈ ids, holds? held id = .ok true) :
    newIds held ids = .ok [] := by
  induction ids with
  | nil => rfl
  | cons id rest ih =>
    have known := all id List.mem_cons_self
    unfold holds? at known
    unfold newIds
    rw [known]
    exact ih fun x among => all x (List.mem_cons_of_mem id among)

end NewIds

/-! ## The edit -/

variable {idField : String} {path ids : Value} {names : List String} {way : Location}
  {xs : List Value} {converted added : List ObjectId} {dirty : DirtySet} {d d' : Draft}

/-- The array at a path. Where nothing is, it has no items. -/
def ArrayAt (doc path : Value) (xs : List Value) : Prop :=
  Path.find? doc path = .ok (some (.array xs)) ∨ Path.find? doc path = .ok none ∧ xs = []

theorem touched_of (splits : Path.split path = .ok names) (d : Draft) :
    ∃ dirty, touched path d = .ok dirty d ∧ dirty ≠ ∅ := by
  obtain ⟨n, rest, rfl⟩ := Path.split_cons splits
  refine ⟨(∅ : DirtySet).insert n, ?_, fun none => ?_⟩
  · refine lift_ok.2 ⟨?_, rfl⟩
    unfold DirtySet.touch Path.top
    rw [splits]
    rfl
  · have among : n ∈ ((∅ : DirtySet).insert n).fields := DirtySet.mem_insert.2 (.inl rfl)
    rw [none] at among
    cases among

/-- Identifiers for an array that is there. -/
theorem addIds_of_leads (idField : String) (splits : Path.split path = .ok names)
    (leads : Path.Leads d.doc names way (.array xs))
    (converts : (do (← ids.members).mapM Identity.convert) = .ok converted)
    (new : newIds xs converted = .ok added) :
    ∃ dirty, dirty ≠ ∅ ∧ addIds idField path ids d =
      .ok (if added.isEmpty then ∅ else dirty, added)
        { d with doc := d.doc.replaceAt way (.array (xs ++ added.map .ident)) } := by
  obtain ⟨p, rfl, found⟩ := target_of_leads idField splits leads
  obtain ⟨e, appends, left⟩ : ∃ e, setItems p (xs ++ added.map .ident) d = .ok () e ∧
      e = { d with doc := d.doc.replaceAt p.way (.array (xs ++ added.map .ident)) } :=
    ⟨_, rfl, rfl⟩
  obtain ⟨dirty, touch, some⟩ := touched_of splits e
  refine ⟨dirty, some, ?_⟩
  unfold addIds
  rw [run_bind_of_ok (lift_ok.2 ⟨converts, rfl⟩), run_bind_of_ok found]
  dsimp only
  rw [run_bind_of_ok (lift_ok.2 ⟨new, rfl⟩), run_bind_of_ok appends, run_bind_of_ok touch, ← left]
  rfl

/-- Where a lookup that returns has led. -/
theorem target_walk {t : Option (Place × Value)} (run : target? idField path d = .ok t d') :
    d = d' ∧ ∃ names, Path.split path = .ok names ∧ Path.walk d.doc names = .ok (t.map Prod.snd) ∧
      ∀ p v, t = some (p, v) → Path.Leads d.doc names p.way v := by
  obtain ⟨found, rfl⟩ := look_ok.1 run
  obtain ⟨place, resolved, found⟩ := bind_eq_ok.1 found
  obtain ⟨names, splits, resolved⟩ := bind_eq_ok.1 resolved
  obtain ⟨n, rest, rfl⟩ := Path.split_cons splits
  cases found
  refine ⟨rfl, n :: rest, splits, ?_, fun p v same => ?_⟩
  · rw [← Path.resolveFrom_walk idField]
    have plain : Path.resolveFrom idField d.doc (n :: rest) [] = .ok place := resolved
    rw [plain]
    show Except.ok (place.bind fun p => p.value? d.doc) = _
    cases place with
    | none => rfl
    | some p => cases held : p.value? d.doc <;> simp [held]
  · cases place with
    | none => cases same
    | some q =>
      obtain ⟨w, held, pair⟩ := Option.map_eq_some_iff.1 same
      cases pair
      exact Path.leads_of_place resolved held

/-- A write that returns leads to what was written. -/
theorem write_leads {limit : Option Int} {v : Value} {u : Unit} (obj : d.doc.isObject = true)
    (splits : Path.split path = .ok names) (run : write limit path v d = .ok u d') :
    ∃ way, Path.Leads d'.doc names way v := by
  obtain ⟨l, found, lands⟩ := write_ok.1 run
  obtain ⟨after, puts, rfl⟩ := land_ok.1 lands
  obtain ⟨names', splits', lands⟩ := bind_eq_ok.1 found
  rw [splits] at splits'
  cases splits'
  exact ⟨l.way, (Path.wrote_of_landing (Value.isContainer_of_isObject obj) lands puts).1.leads⟩

/-! ## As to a set -/

/-- What identifiers leave behind that were added to the array at a path. -/
structure Enrolled (idField : String) (path ids : Value) (d d' : Draft) (dirty : DirtySet)
    (added : List ObjectId) (old : List Value) (converted : List ObjectId) : Prop where
  before : ArrayAt d.doc path old
  converts : (do (← ids.members).mapM Identity.convert) = .ok converted
  /-- The array has the added identifiers behind what it had. -/
  after : Path.read? d'.doc path = .ok (some (.array (old ++ added.map .ident)))
  /-- Added are those that it did not hold, each once. -/
  chosen : added = unheld old converted
  /-- It holds something for each identifier. -/
  held : ∀ id ∈ converted, ∃ v ∈ old ++ added.map .ident, agree v (.ident id) = true
  /-- A report that is empty means that nothing has changed. -/
  reports : dirty = ∅ ↔ d'.doc = d.doc
  /-- A second time there is nothing to do. -/
  again : addIds idField path ids d' = .ok (∅, []) d'

/-- What comes of an array that holds the identifiers afterwards. -/
theorem enrolled_of_leads (before : ArrayAt d.doc path xs)
    (converts : (do (← ids.members).mapM Identity.convert) = .ok converted)
    (new : newIds xs converted = .ok added) (splits : Path.split path = .ok names)
    (leads : Path.Leads d'.doc names way (.array (xs ++ added.map .ident)))
    (reports : dirty = ∅ ↔ d'.doc = d.doc) :
    Enrolled idField path ids d d' dirty added xs converted := by
  have held := newIds_held new
  have nothing := newIds_of_held held
  obtain ⟨_, _, again⟩ := addIds_of_leads idField splits leads converts nothing
  rw [List.map_nil, List.append_nil, Value.replaceAt_self leads.at?] at again
  have found (id : ObjectId) (among : id ∈ converted) :=
    List.any_eq_true.1 (holds?_ok (held id among))
  refine ⟨before, converts, ?_, newIds_ok new, found, reports, again⟩
  rw [Path.read?_eq splits]
  exact Path.walk_eq_some.2 ⟨way, leads⟩

theorem find?_eq {doc : Value} (splits : Path.split path = .ok names) :
    Path.find? doc path = (Path.walk doc names).map Path.present := by
  unfold Path.find?
  rw [Path.read?_eq splits]
  rfl

/-- Identifiers for an array that is there. They change it if there are any new ones. -/
theorem enrolled_present (idField : String) (splits : Path.split path = .ok names)
    (leads : Path.Leads d.doc names way (.array xs))
    (converts : (do (← ids.members).mapM Identity.convert) = .ok converted)
    (new : newIds xs converted = .ok added) :
    ∃ dirty d', addIds idField path ids d = .ok (dirty, added) d' ∧
      Enrolled idField path ids d d' dirty added xs converted := by
  obtain ⟨dirty, some, run⟩ := addIds_of_leads idField splits leads converts new
  have before : ArrayAt d.doc path xs := by
    refine .inl ?_
    rw [find?_eq splits, Path.walk_eq_some.2 ⟨way, leads⟩]
    rfl
  refine ⟨_, _, run, enrolled_of_leads before converts new splits (leads.replaced _) ?_⟩
  cases added with
  | nil =>
    refine iff_of_true rfl ?_
    show d.doc.replaceAt way (.array (xs ++ [])) = d.doc
    rw [List.append_nil, Value.replaceAt_self leads.at?]
  | cons id more =>
    refine iff_of_false some fun same => ?_
    have longer := (leads.replaced (.array (xs ++ (id :: more).map .ident))).at?
    have unchanged : d.doc.replaceAt way (.array (xs ++ (id :: more).map .ident)) = d.doc := same
    rw [unchanged, leads.at?] at longer
    simp at longer

/-- Identifiers for an array that is made, be there any or not. -/
theorem enrolled_made {u : Unit} (obj : d.doc.isObject = true)
    (missing : Path.find? d.doc path = .ok none)
    (converts : (do (← ids.members).mapM Identity.convert) = .ok converted)
    (new : newIds [] converted = .ok added)
    (splits : Path.split path = .ok names) (some : dirty ≠ ∅)
    (wrote : write none path (.array (added.map .ident)) d = .ok u d') :
    Enrolled idField path ids d d' dirty added [] converted := by
  obtain ⟨way, leads⟩ := write_leads obj splits wrote
  refine enrolled_of_leads (.inr ⟨missing, rfl⟩) converts new splits leads ?_
  refine iff_of_false some fun same => ?_
  rw [find?_eq splits, ← same, Path.walk_eq_some.2 ⟨way, leads⟩] at missing
  cases missing

/-- **What is left of an edit that returns.** -/
theorem addIds_enrolled (obj : d.doc.isObject = true)
    (run : addIds idField path ids d = .ok (dirty, added) d') :
    ∃ old converted, Enrolled idField path ids d d' dirty added old converted := by
  have whole := run
  obtain ⟨converted, e, first, run⟩ := run_bind_ok.1 run
  obtain ⟨converts, rfl⟩ := lift_ok.1 first
  obtain ⟨t, e, found, rest⟩ := run_bind_ok.1 run
  obtain ⟨rfl, names, splits, walked, place⟩ := target_walk found
  have made (nothing : Path.present (t.map Prod.snd) = none)
      (rest : (do
        let added ← lift (newIds [] converted)
        write none path (.array (added.map .ident))
        pure (← touched path, added)) d = .ok (dirty, added) d') :
      ∃ old converted, Enrolled idField path ids d d' dirty added old converted := by
    obtain ⟨fresh, e, chosen, rest⟩ := run_bind_ok.1 rest
    obtain ⟨new, rfl⟩ := lift_ok.1 chosen
    obtain ⟨u, e, wrote, rest⟩ := run_bind_ok.1 rest
    obtain ⟨_, touch, some⟩ := touched_of splits e
    rw [run_bind_of_ok touch] at rest
    obtain ⟨pair, rfl⟩ := run_pure_ok.1 rest
    cases pair
    have missing : Path.find? d.doc path = .ok none := by
      rw [find?_eq splits, walked]
      exact congrArg Except.ok nothing
    exact ⟨[], converted, enrolled_made obj missing converts new splits some wrote⟩
  split at rest
  · rename_i p xs
    obtain ⟨fresh, e, chosen, _⟩ := run_bind_ok.1 rest
    obtain ⟨new, rfl⟩ := lift_ok.1 chosen
    obtain ⟨_, _, same, enrolled⟩ := enrolled_present idField splits (place p _ rfl) converts new
    rw [whole] at same
    cases same
    exact ⟨xs, converted, enrolled⟩
  · exact made rfl rest
  · exact made rfl rest
  · exact absurd (lift_ok.1 rest).1 failShowing_ne_ok

/-! ## Edits that stop -/

variable {fault : Fault}

theorem lift_stops {α : Type} {r : Except Fault α} (run : lift r d = .error fault d') : d' = d := by
  cases r with
  | ok a => cases run
  | error cause =>
    cases run
    rfl

theorem look_stops {α : Type} {f : Value → Except Fault α} (run : look f d = .error fault d') :
    d' = d :=
  (look_error.1 run).2.symm

theorem write_stops {limit : Option Int} {v : Value}
    (run : write limit path v d = .error fault d') : d' = d := by
  rcases run_bind_error.1 run with stop | ⟨l, e, found, stop⟩
  · exact look_stops stop
  · obtain ⟨_, rfl⟩ := look_ok.1 found
    exact (land_error.1 stop).2.symm

/-- A report on a path that was looked up cannot fail. -/
theorem touched_never_stops {α : Type} (splits : Path.split path = .ok names) (report : DirtySet → α)
    (d : Draft) : (do pure (report (← touched path)) : Edit α) d ≠ .error fault d' := by
  obtain ⟨dirty, touch, _⟩ := touched_of splits d
  rw [run_bind_of_ok touch]
  exact fun stop => nomatch stop

/-- **An edit that stops leaves all as it was.** Whatever can stop it comes before the array is made
    or gets longer. -/
theorem addIds_stops (run : addIds idField path ids d = .error fault d') : d' = d := by
  rcases run_bind_error.1 run with stop | ⟨converted, e, first, run⟩
  · exact lift_stops stop
  obtain ⟨_, rfl⟩ := lift_ok.1 first
  rcases run_bind_error.1 run with stop | ⟨t, e, found, rest⟩
  · exact look_stops stop
  obtain ⟨rfl, names, splits, _⟩ := target_walk found
  have made (rest : (do
        let added ← lift (newIds [] converted)
        write none path (.array (added.map .ident))
        pure (← touched path, added)) d = .error fault d') : d' = d := by
    rcases run_bind_error.1 rest with stop | ⟨added, e, chosen, rest⟩
    · exact lift_stops stop
    obtain ⟨_, rfl⟩ := lift_ok.1 chosen
    rcases run_bind_error.1 rest with stop | ⟨_, e, _, rest⟩
    · exact write_stops stop
    · exact absurd rest (touched_never_stops splits _ e)
  split at rest
  · rcases run_bind_error.1 rest with stop | ⟨added, e, chosen, rest⟩
    · exact lift_stops stop
    rcases run_bind_error.1 rest with stop | ⟨_, e, _, rest⟩
    · cases stop
    · exact absurd rest (touched_never_stops splits _ e)
  · exact made rest
  · exact made rest
  · exact lift_stops rest

/-- **Identifiers are added as to a set.** If the edit returns, the array has those behind its items
    with which none of them agrees, each once; it holds something for each identifier then, and
    once more nothing is added. What is reported is empty just if the document is as it was, and an
    edit that stops leaves it so. -/
theorem addIds_as_set (idField : String) (path ids : Value) (obj : d.doc.isObject = true) :
    (∀ fault d', addIds idField path ids d = .error fault d' → d' = d) ∧
    ∀ dirty added d', addIds idField path ids d = .ok (dirty, added) d' →
      ∃ old converted, Enrolled idField path ids d d' dirty added old converted :=
  ⟨fun _ _ => addIds_stops, fun _ _ _ => addIds_enrolled obj⟩

/-- The first identifier is there as a text, and the second one is given twice. -/
theorem addIds_as_set_some_new :
    let second : ObjectId := ObjectId.ofNat 11
    let ids : Value := .array [.ident (ObjectId.ofNat 10), .ident second,
      .text "00000000000000000000000B"]
    let path : Value := .text "a.ids"
    let d : Draft := {
      doc := .object [("a", .object [("ids", .array [.null, .text "00000000000000000000000a"])])]
      supply := { origin := 0, last := 0, pace := 1 } }
    ∃ dirty d' old converted, addIds "_id" path ids d = .ok (dirty, [second]) d' ∧
      Enrolled "_id" path ids d d' dirty [second] old converted := by
  intro second ids path d
  obtain ⟨dirty, d', run⟩ : ∃ dirty d', addIds "_id" path ids d = .ok (dirty, [second]) d' :=
    ⟨_, _, rfl⟩
  obtain ⟨old, converted, enrolled⟩ := (addIds_as_set "_id" path ids rfl).2 dirty [second] d' run
  exact ⟨dirty, d', old, converted, run, enrolled⟩

end Edit

end DocRepair

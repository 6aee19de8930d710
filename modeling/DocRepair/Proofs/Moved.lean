import DocRepair.Proofs.Emptied
import DocRepair.Proofs.Landable
import DocRepair.Proofs.Walks
/-!
# `DocRepair.Proofs.Moved` — what a move leaves of a document

A move takes the value at its source out before it looks its target up. So the target is looked up
in a document that has lost a value: its container may have gone with the value, and if the value
was an item of an array, the indexes behind it mean other items than before.

Where neither is the case the move does what it should. The value is read at the target, and apart
from what lay there nothing else is lost.

## Contents

* `Path.Takes.left` / `Path.Takes.of_left` — containers that take a segment, before and after a
  removal;
* `Path.Leads.put` — the segments of a place lead to what was written there;
* `Edit.Arrived` — a document behind a move of which nothing was lost but what was overwritten;
* `Edit.take_held` / `Edit.take_missing` — the first half of a move;
* `Edit.settle` / `Edit.move_settles` — the second half of a move;
* `Edit.moved` / `Edit.move_moved` — a move, without the bookkeeping;
* `Edit.move_arrives` — where a value arrives, where it is lost, and where another one is;
* `Edit.item_behind_overwritten` — a move that destroys a value of neither path.
-/

namespace DocRepair

namespace Path

variable {idField segment last : String} {names front : List String} {c c' doc x v after : Value}
  {k : Key} {way : Location} {p : Place}

/-! ## Containers that take a segment -/

theorem containerKey_of_takes (takes : Takes c segment) :
    ∃ k, containerKey c segment = .ok k ∧ Names c segment k := by
  cases c with
  | object fs => exact ⟨.field segment, rfl, rfl⟩
  | array xs =>
    obtain ⟨i, index, bound⟩ := takes
    refine ⟨.index i, ?_, i, index, rfl⟩
    unfold containerKey
    dsimp only
    rw [index]
    exact if_pos bound
  | _ => exact takes.elim

theorem takes_of_assign (named : Names c segment k) (run : c.assign k v = .ok after) :
    Takes c segment := by
  cases c with
  | object fs => trivial
  | array xs =>
    obtain ⟨i, index, rfl⟩ := named
    refine ⟨i, index, ?_⟩
    unfold Value.assign at run
    dsimp only at run
    split at run
    · omega
    · split at run
      · omega
      · cases run
  | _ => exact named.elim

theorem takes_of_child (named : Names c segment k) (held : c.child? k = some v) :
    Takes c segment := by
  cases c with
  | object fs => trivial
  | array xs =>
    obtain ⟨i, index, rfl⟩ := named
    exact ⟨i, index, Nat.le_of_lt (List.getElem?_eq_some_iff.1 held).1⟩
  | _ => exact named.elim

/-- An array keeps its items when a value is removed, but for the one that was removed from it. -/
theorem length_spares {xs ys : List Value} (spares : p.Spares way (.array xs) (.array ys)) :
    ys.length = xs.length ∨
      ∃ i, p = ⟨way, .index i⟩ ∧ i < xs.length ∧ ys.length = xs.length - 1 := by
  rcases spares with same | ⟨⟨container, key⟩, rfl, rest⟩
  · cases same
    exact .inl rfl
  · cases container with
    | nil =>
      -- Only a removal from the array itself makes it shorter.
      cases key with
      | field n =>
        cases rest
        exact .inl rfl
      | index i =>
        cases rest
        rw [List.length_eraseIdx]
        split
        · rename_i inside
          refine .inr ⟨i, ?_, inside, rfl⟩
          rw [Place.under, List.append_nil]
        · exact .inl rfl
    | cons k container =>
      cases child : (Value.array xs).child? k with
      | none =>
        rw [Place.drop_missing child] at rest
        cases rest
        exact .inl rfl
      | some next =>
        rw [Place.drop_cons child] at rest
        cases k with
        | field n => cases child
        | index i =>
          cases rest
          exact .inl List.length_set

theorem Takes.isContainer (takes : Takes c segment) : c.isContainer = true := by
  cases c with
  | object fs => rfl
  | array xs => rfl
  | _ => exact takes.elim

/-- What took a segment still does after a removal that the segment does not follow. -/
theorem Takes.left (takes : Takes c last) (leads : Leads doc front way c)
    (steady : ¬ Follows doc (front ++ [last]) p) (spares : p.Spares way c c') : Takes c' last := by
  have alike := spares.alike takes.isContainer
  cases c' with
  | object gs => trivial
  | array ys =>
    cases c with
    | array xs =>
      obtain ⟨j, index, bound⟩ := takes
      refine ⟨j, index, ?_⟩
      rcases length_spares spares with same | ⟨i, rfl, inside, less⟩
      · rwa [same]
      · have before : ¬ i ≤ j := fun behind =>
          steady ⟨i, j, front, last, [], xs, rfl, behind, rfl, leads, index⟩
        omega
    | _ => exact alike.elim
  | _ => exact alike.symm.elim

/-- What takes a segment after a removal took it before. -/
theorem Takes.of_left (takes : Takes c' last) (spares : p.Spares way c c') : Takes c last := by
  have alike := spares.alike (spares.isContainer takes.isContainer)
  cases c with
  | object fs => trivial
  | array xs =>
    cases c' with
    | array ys =>
      obtain ⟨j, index, bound⟩ := takes
      refine ⟨j, index, ?_⟩
      rcases length_spares spares with same | ⟨i, rfl, inside, less⟩
      · rwa [← same]
      · omega
    | _ => exact alike.elim
  | _ => exact alike.elim

/-! ## What is written to a place -/

theorem assign_of_takes (takes : Takes c segment) (v : Value) :
    ∃ k after, Names c segment k ∧ c.assign k v = .ok after := by
  obtain ⟨k, key, named⟩ := containerKey_of_takes takes
  obtain ⟨after, run⟩ := assign_of_containerKey (v := v) takes.isContainer key
  exact ⟨k, after, named, run⟩

theorem assign_of_put (there : c.at? p.container = some x) (run : p.put c v = .ok after) :
    ∃ new, x.assign p.key v = .ok new := by
  unfold Place.put at run
  rw [there] at run
  dsimp only at run
  cases assigned : x.assign p.key v with
  | error fault =>
    rw [assigned] at run
    cases run
  | ok new => exact ⟨new, rfl⟩

/-- **The segments of a place lead to what was written there.** -/
theorem Leads.put (leads : Leads c front way x) (named : Names x last k)
    (run : (⟨way, k⟩ : Place).put c v = .ok after) :
    Leads after (front ++ [last]) (way ++ [k]) v := by
  induction leads generalizing after with
  | nil c =>
    rw [Place.put_here] at run
    exact .cons (named.assign run) (Value.child?_assign_self run) (.nil v)
  | @cons c next y segment m rest way named' held below ih =>
    obtain ⟨inner, inside, rfl⟩ := Place.of_put_cons held run
    exact .cons (named'.setChild _) (Value.child?_setChild_self held _) (ih named inside)

end Path

namespace Edit

open DocRepair.Path

variable {idField last : String} {front names : List String} {source target v c doc w after : Value}
  {s q : Place} {way : Location} {d : Draft}

/-! ## Moves -/

/-- A value has come to lie at a path, at a location of the document after. Apart from it that
    document is the one before without two values: the one that was moved, and one that the write
    replaced if there was any. -/
structure Arrived (target v : Value) (way source old : Location) (before after : Value) : Prop where
  reads : read? after target = .ok (some v)
  leads : ∃ names, split target = .ok names ∧ Leads after names way v
  rest : after.without [way] = before.without [source, old]

/-- The document after a move of a value that has been taken out of a place. -/
def moved (idField : String) (doc target v : Value) (s : Place) : Except Fault Value := do
  match ← resolve idField (s.drop doc) target .null with
  | some q => q.put (s.drop doc) v
  | none => .ok (s.drop doc)

theorem keepIdentity_of {path : Value} (splits : split path = .ok names)
    (other : split path ≠ .ok [idField]) (verb : String) :
    keepIdentity idField verb path = .ok () := by
  have differs : ¬ (names == [idField]) = true := fun same => by
    rw [splits, beq_iff_eq.1 same] at other
    exact other rfl
  unfold keepIdentity isIdentity
  rw [splits]
  simp only [bind, Except.bind, differs]
  rfl

theorem touch_of {path : Value} (splits : split path = .ok names) (dirty : DirtySet) :
    ∃ more, dirty.touch path = .ok more := by
  unfold DirtySet.touch top
  rw [splits]
  exact ⟨_, rfl⟩

/-- The second half of a move: the value that has been taken out is written to the target, and what
    a store knows the document by goes with it. -/
def settle (idField : String) (target v : Value) (known : Option Location) (dirty : DirtySet) :
    Edit DirtySet := do
  match ← place? idField target with
  | some q => do
    put q v
    match known with
    | some rest => follow (q.way ++ rest)
    | none => pure ()
  | none => pure ()
  pure dirty

theorem take_held (held : s.value? d.doc = some v) :
    take (some s) d = .ok (some v) { d.close s with doc := s.drop d.doc } := by
  unfold take Edit.drop
  dsimp only
  rw [held]

theorem take_missing (missing : s.value? d.doc = none) : take (some s) d = .ok none d := by
  unfold take Edit.drop
  dsimp only
  rw [missing]

theorem move_settles (start : resolve idField d.doc source .null = .ok (some s))
    (held : s.value? d.doc = some v) (there : v.isNull = false ∧ v.isAbsent = false)
    (splits : split target = .ok names) (free : split source ≠ .ok [idField])
    (free' : split target ≠ .ok [idField]) :
    ∃ dirty, move idField source target d =
      settle idField target v (d.known.below? s.way) dirty
        { d.close s with doc := s.drop d.doc } := by
  obtain ⟨names', splits', _⟩ := bind_eq_ok.1 start
  obtain ⟨one, touched⟩ := touch_of splits' ∅
  obtain ⟨two, touched'⟩ := touch_of splits one
  have guarded : lift (keepIdentity idField "move" source) d = .ok () d :=
    lift_ok.2 ⟨keepIdentity_of splits' free "move", rfl⟩
  have guarded' : lift (keepIdentity idField "move" target) d = .ok () d :=
    lift_ok.2 ⟨keepIdentity_of splits free' "move", rfl⟩
  have found : place? idField source d = .ok (some s) d := look_ok.2 ⟨start, rfl⟩
  have known : knownIn (some s) d = .ok (d.known.below? s.way) d := rfl
  refine ⟨two, ?_⟩
  unfold move
  rw [run_bind_of_ok guarded, run_bind_of_ok guarded', run_bind_of_ok (lift_ok.2 ⟨touched, rfl⟩),
    run_bind_of_ok (lift_ok.2 ⟨touched', rfl⟩), run_bind_of_ok found, run_bind_of_ok known,
    run_bind_of_ok (take_held held)]
  cases v with
  | null => cases there.1
  | absent => cases there.2
  | _ => rfl

section Settled

variable {known : Option Location} {dirty : DirtySet} {e : Draft} {fault : Fault}

theorem settle_ok (emptied : e.doc = s.drop doc) (run : moved idField doc target v s = .ok after) :
    ∃ f, settle idField target v known dirty e = .ok dirty f ∧ f.doc = after := by
  obtain ⟨place, found, run⟩ := bind_eq_ok.1 run
  rw [← emptied] at found run
  have finds : place? idField target e = .ok place e := look_ok.2 ⟨found, rfl⟩
  unfold settle
  rw [run_bind_of_ok finds]
  cases place with
  | none =>
    cases run
    exact ⟨e, rfl, rfl⟩
  | some q =>
    have written : put q v e = .ok () { e.part q with doc := after } := land_ok.2 ⟨after, run, rfl⟩
    cases known with
    | none => exact ⟨_, run_bind_ok.2 ⟨(), _, written, rfl⟩, rfl⟩
    | some rest => exact ⟨_, run_bind_ok.2 ⟨(), _, written, rfl⟩, rfl⟩

theorem settle_error (emptied : e.doc = s.drop doc)
    (run : moved idField doc target v s = .error fault) :
    settle idField target v known dirty e = .error fault e := by
  unfold moved at run
  rw [← emptied] at run
  unfold settle
  cases found : resolve idField e.doc target .null with
  | error other =>
    rw [found] at run
    cases run
    exact run_bind_error.2 (.inl (look_error.2 ⟨found, rfl⟩))
  | ok place =>
    have finds : place? idField target e = .ok place e := look_ok.2 ⟨found, rfl⟩
    rw [run_bind_of_ok finds]
    rw [found] at run
    cases place with
    | none => cases run
    | some q =>
      exact run_bind_error.2 (.inl (land_error.2 ⟨run, rfl⟩))

end Settled

/-- What a move does, apart from what it counts as touched and what a store knows the document
    by. -/
theorem move_moved (start : resolve idField d.doc source .null = .ok (some s))
    (held : s.value? d.doc = some v) (there : v.isNull = false ∧ v.isAbsent = false)
    (splits : split target = .ok names) (free : split source ≠ .ok [idField])
    (free' : split target ≠ .ok [idField]) :
    (∀ after, moved idField d.doc target v s = .ok after →
      ∃ dirty e, move idField source target d = .ok dirty e ∧ e.doc = after) ∧
    (∀ fault, moved idField d.doc target v s = .error fault →
      ∃ e, move idField source target d = .error fault e ∧ e.doc = s.drop d.doc) := by
  obtain ⟨dirty, settles⟩ := move_settles start held there splits free free'
  have emptied : ({ d.close s with doc := s.drop d.doc } : Draft).doc = s.drop d.doc := rfl
  rw [settles]
  constructor
  · intro after run
    obtain ⟨e, settled, left⟩ := settle_ok emptied run
    exact ⟨dirty, e, settled, left⟩
  · intro fault run
    exact ⟨_, settle_error emptied run, rfl⟩

/-! ## Where the value comes to lie -/

theorem moved_eq (splits : split target = .ok names) : moved idField doc target v s =
    (do match ← resolveFrom idField (s.drop doc) names [] with
        | some q => q.put (s.drop doc) v
        | none => .ok (s.drop doc)) := by
  unfold moved resolve
  rw [splits]
  rfl

/-- A write in the document that has lost the value brings it back, and costs what lies at the place
    now. That lay elsewhere if it has moved up. -/
theorem Arrived.of_put {x : Value} (distinct : doc.Distinct) (held : s.value? doc = some w)
    (splits : split target = .ok (front ++ [last]))
    (leads : Leads (s.drop doc) front q.container x) (named : Names x last q.key)
    (run : q.put (s.drop doc) v = .ok after) :
    Arrived target v q.way s.way (Location.raised s.way q.way) doc after := by
  have arrives : Leads after (front ++ [last]) q.way v := leads.put named run
  refine ⟨?_, ⟨front ++ [last], splits, arrives⟩, ?_⟩
  · rw [read?_eq splits]
    exact walk_eq_some.2 ⟨q.way, arrives⟩
  · have emptied := Place.distinct_drop distinct held
    rw [Place.without_put emptied (List.mem_singleton.2 rfl) run, Place.without_drop distinct held]
    rfl

section Cases

variable (distinct : doc.Distinct) (held : s.value? doc = some w)
  (splits : split target = .ok (front ++ [last])) (leads : Leads doc front way c)

include distinct held splits leads

/-- A value arrives in a container that is still there, that takes it, and that no index leads to
    which the removal has changed. -/
theorem moved_arrives (idField : String) (steady : ¬ Follows doc (front ++ [last]) s)
    (apart : ∀ rest, way ≠ s.way ++ rest) (takes : Takes c last) (v : Value) :
    ∃ k after, Names c last k ∧ moved idField doc target v s = .ok after ∧
      Arrived target v (way ++ [k]) s.way (way ++ [k]) doc after := by
  obtain ⟨c', still, spares⟩ := leads.drop apart fun follows => steady (follows.append [last])
  obtain ⟨k, new, named, assigned⟩ := assign_of_takes (takes.left leads steady spares) v
  have before : Names c last k := named.alike (spares.alike takes.isContainer).symm
  have finds : resolveFrom idField (s.drop doc) (front ++ [last]) [] = .ok (some ⟨way, k⟩) := by
    rw [resolveFrom_front still named.isContainer, lastPlace_of_names named]
    show Except.ok (some (Place.under way ⟨[], k⟩)) = _
    rw [Place.under, List.append_nil]
  obtain ⟨after, puts⟩ : ∃ after, (⟨way, k⟩ : Place).put (s.drop doc) v = .ok after := by
    unfold Place.put
    dsimp only
    rw [still.at?]
    dsimp only
    rw [assigned]
    exact ⟨_, rfl⟩
  refine ⟨k, after, before, ?_, ?_⟩
  · rw [moved_eq splits, finds]
    exact puts
  · have arrived :
        Arrived target v (way ++ [k]) s.way (Location.raised s.way (way ++ [k])) doc after :=
      .of_put distinct held splits still named puts
    rwa [raised_of_names leads before steady] at arrived

/-- A value is lost whose target is in what is taken out, or in a container that does not take
    it. -/
theorem moved_lost (idField : String) (container : doc.isContainer = true)
    (steady : ¬ Follows doc (front ++ [last]) s)
    (lost : (∃ rest, way = s.way ++ rest) ∨ ¬ Takes c last) (v : Value) :
    (∀ after, moved idField doc target v s = .ok after → after = s.drop doc) ∧
      ∀ x, read? (s.drop doc) target ≠ .ok (some x) := by
  have nowhere {a : Location} {x : Value} (after : Leads (s.drop doc) front a x)
      (takes : Takes x last) : False := by
    obtain ⟨rfl, apart, spares⟩ := leads.of_drop_unique distinct held
      (fun follows => steady (follows.append [last])) after
    rcases lost with ⟨rest, inside⟩ | refused
    · exact apart rest inside
    · exact refused (takes.of_left spares)
  constructor
  · intro after run
    rw [moved_eq splits] at run
    obtain ⟨place, finds, run⟩ := bind_eq_ok.1 run
    cases place with
    | none =>
      cases run
      rfl
    | some q =>
      have emptied := (Place.alike_drop container s).isContainer
      obtain ⟨x, before, _, named⟩ := front_of_resolve emptied finds
      obtain ⟨new, assigned⟩ := assign_of_put before.at? run
      exact (nowhere before (takes_of_assign named assigned)).elim
  · intro x reads
    rw [read?_eq splits] at reads
    obtain ⟨a, whole⟩ := walk_eq_some.1 reads
    obtain ⟨b, y, k, rfl, before, named, child⟩ := whole.of_last
    exact nowhere before (takes_of_child named child)

end Cases

/-- Segments that go by an index of an array do so after the removal of one of its items. -/
theorem way_behind {segment : String} {rest : List String} {xs : List Value} {x : Value} {k : Key}
    {j : Nat} {a : Location} (array : Leads doc front s.container (.array xs))
    (index : index? segment = .ok (some j)) (parts : names ++ [last] = front ++ segment :: rest)
    (leads : Leads (s.drop doc) names a x) (named : Names x last k) :
    ∃ more, a ++ [k] = s.container ++ .index j :: more := by
  -- Before it comes to the array the path cannot go by one of its indexes.
  have steady : ¬ Follows doc front s := by
    rintro ⟨_, _, front', segment', rest', _, _, _, rfl, before, _⟩
    have short := before.length
    rw [array.length, List.length_append, List.length_cons] at short
    omega
  have apart : ∀ rest, s.container ≠ s.way ++ rest := by
    intro rest ends
    have longer := congrArg List.length ends
    rw [Place.way, List.length_append, List.length_append, List.length_singleton] at longer
    omega
  obtain ⟨left, still, spares⟩ := array.drop apart steady
  obtain ⟨ys, rfl⟩ : ∃ ys, left = .array ys := by
    have alike := spares.alike rfl
    cases left with
    | array ys => exact ⟨ys, rfl⟩
    | _ => exact alike.elim
  have key {m : Key} (named : Names (.array ys) segment m) : m = .index j := by
    obtain ⟨l, spelled, rfl⟩ := named
    rw [index] at spelled
    cases spelled
    rfl
  rcases List.eq_nil_or_concat rest with rfl | ⟨others, z, rfl⟩
  · obtain ⟨rfl, same⟩ := List.append_inj' parts rfl
    cases same
    obtain ⟨rfl, rfl⟩ := leads.unique still
    exact ⟨[], by rw [key named]⟩
  · rw [List.concat_eq_append, ← List.cons_append, ← List.append_assoc] at parts
    obtain ⟨rfl, _⟩ := List.append_inj' parts rfl
    obtain ⟨b, b', y, rfl, first, second⟩ := leads.of_append
    obtain ⟨rfl, rfl⟩ := first.unique still
    cases second with
    | @cons _ _ _ _ m _ way named' held below =>
      refine ⟨way ++ [k], ?_⟩
      rw [key named', List.append_assoc, List.cons_append]

/-- A value whose target goes by an index behind it is written one item further down than that
    index says, or nowhere. -/
theorem moved_behind (distinct : doc.Distinct) (held : s.value? doc = some w)
    (splits : split target = .ok (front ++ [last])) (container : doc.isContainer = true)
    (follows : Follows doc (front ++ [last]) s) (run : moved idField doc target v s = .ok after) :
    after = s.drop doc ∨ ∃ i j more, s.key = .index i ∧ i ≤ j ∧
      Arrived target v (s.container ++ .index j :: more) s.way
        (s.container ++ .index (j + 1) :: more) doc after := by
  rw [moved_eq splits] at run
  obtain ⟨place, finds, run⟩ := bind_eq_ok.1 run
  cases place with
  | none =>
    cases run
    exact .inl rfl
  | some q =>
    have emptied := (Place.alike_drop container s).isContainer
    obtain ⟨x, leads, _, named⟩ := front_of_resolve emptied finds
    obtain ⟨i, j, front', segment, rest, xs, key, behind, parts, array, index⟩ := follows
    obtain ⟨more, way⟩ := way_behind array index parts leads named
    have arrived := Arrived.of_put distinct held splits leads named run
    have here : q.way = s.container ++ .index j :: more := way
    have taken : s.way = s.container ++ [.index i] := by rw [Place.way, key]
    rw [here] at arrived
    refine .inr ⟨i, j, more, key, behind, ?_⟩
    rw [taken] at arrived ⊢
    rwa [Location.raised_behind behind] at arrived

/-! ## Whole moves -/

/-- **What a move leaves of a document.** The document is an object whose objects have fields of
    different names, at every depth. The source has a value that is not null, and all segments of
    the target but the last lead to something. Neither path is the identifier field.

    If the target does not go by an index behind the source, nor by its own, and its container is
    not in what is taken out and takes the last segment, then the move returns. The value is read at
    the target then, and nothing else is lost but what lay there.

    If the target does not go by such an index either, but its container is in what is taken out or
    does not take the segment, then the value is lost, and nothing else.

    If it does go by such an index, then the value is lost, or it is written one item further down
    than the index says, and what lay at that place is lost. -/
theorem move_arrives (obj : d.doc.isObject = true) (distinct : d.doc.Distinct)
    (start : resolve idField d.doc source .null = .ok (some s)) (held : s.value? d.doc = some v)
    (there : v.isNull = false ∧ v.isAbsent = false)
    (splits : split target = .ok (front ++ [last])) (free : split source ≠ .ok [idField])
    (free' : split target ≠ .ok [idField]) (leads : Leads d.doc front way c) :
    (¬ Follows d.doc (front ++ [last]) s →
      ((∀ rest, way ≠ s.way ++ rest) ∧ Takes c last →
        ∃ dirty e k, move idField source target d = .ok dirty e ∧ Names c last k ∧
          Arrived target v (way ++ [k]) s.way (way ++ [k]) d.doc e.doc) ∧
      ((∃ rest, way = s.way ++ rest) ∨ ¬ Takes c last →
        ((move idField source target).draftAfter d).doc = d.doc.without [s.way] ∧
          ∀ x, read? (d.doc.without [s.way]) target ≠ .ok (some x))) ∧
    (Follows d.doc (front ++ [last]) s →
      ((move idField source target).draftAfter d).doc = d.doc.without [s.way] ∨
      ∃ dirty e i j more, move idField source target d = .ok dirty e ∧ s.key = .index i ∧ i ≤ j ∧
        Arrived target v (s.container ++ .index j :: more) s.way
          (s.container ++ .index (j + 1) :: more) d.doc e.doc) := by
  obtain ⟨returns, stops⟩ := move_moved start held there splits free free'
  have taken := Place.drop_eq_without distinct held
  have whole := Value.isContainer_of_isObject obj
  refine ⟨fun steady => ⟨?_, fun lost => ?_⟩, fun follows => ?_⟩
  · rintro ⟨apart, takes⟩
    obtain ⟨k, after, named, run, arrived⟩ :=
      moved_arrives distinct held splits leads idField steady apart takes v
    obtain ⟨dirty, e, moves, rfl⟩ := returns after run
    exact ⟨dirty, e, k, moves, named, arrived⟩
  · obtain ⟨same, nothing⟩ :=
      moved_lost distinct held splits leads idField whole steady lost v
    rw [← taken]
    refine ⟨?_, nothing⟩
    cases run : moved idField d.doc target v s with
    | error fault =>
      obtain ⟨e, moves, left⟩ := stops fault run
      rw [draftAfter_error moves, left]
    | ok after =>
      obtain ⟨dirty, e, moves, left⟩ := returns after run
      rw [draftAfter_ok moves, left, same after run]
  · rw [← taken]
    cases run : moved idField d.doc target v s with
    | error fault =>
      obtain ⟨e, moves, left⟩ := stops fault run
      exact .inl (by rw [draftAfter_error moves, left])
    | ok after =>
      obtain ⟨dirty, e, moves, left⟩ := returns after run
      rcases moved_behind distinct held splits whole follows run with
        same | ⟨i, j, more, key, behind, arrived⟩
      · exact .inl (by rw [draftAfter_ok moves, left, same])
      · rw [← left] at arrived
        exact .inr ⟨dirty, e, i, j, more, moves, key, behind, arrived⟩

/-- From an array into an object, over another value. -/
theorem move_arrives_in_object :
    let doc : Value := .object [("xs", .array [.int 1, .int 2]), ("a", .object [("b", .int 4)])]
    let d : Draft := { doc := doc, supply := { origin := 0, last := 0, pace := 1 } }
    ∃ dirty e k, move "_id" (.text "xs.0") (.text "a.b") d = .ok dirty e ∧ k = .field "b" ∧
      Arrived (.text "a.b") (.int 1) [.field "a", k] [.field "xs", .index 0] [.field "a", k]
        doc e.doc := by
  intro doc d
  have number (n : Int) : (Value.int n).Distinct := .scalar rfl
  have items : Value.Distinct (.array [.int 1, .int 2]) := .array (by simp [number])
  have inner : Value.Distinct (.object [("b", .int 4)]) :=
    .object (by decide : ["b"].Nodup) (by simp [number])
  have distinct : doc.Distinct := .object (by decide : ["xs", "a"].Nodup) (by simp [items, inner])
  have start : resolve "_id" doc (.text "xs.0") .null = .ok (some ⟨[.field "xs"], .index 0⟩) := rfl
  have splits : split (.text "a.b") = .ok (["a"] ++ ["b"]) := rfl
  have other : split (.text "xs.0") = .ok ["xs", "0"] := rfl
  have free : split (.text "xs.0") ≠ .ok ["_id"] := by rw [other]; simp
  have free' : split (.text "a.b") ≠ .ok ["_id"] := by rw [splits]; simp
  have leads : Leads doc ["a"] [.field "a"] (.object [("b", .int 4)]) := .cons rfl rfl (.nil _)
  have steady : ¬ Follows doc (["a"] ++ ["b"]) ⟨[.field "xs"], .index 0⟩ := by
    rintro ⟨_, _, front, _, _, _, _, _, parts, array, _⟩
    cases array with
    | cons named held below =>
      cases named
      simp at parts
  have apart : ∀ rest, [Key.field "a"] ≠ [.field "xs", .index 0] ++ rest := by simp
  have takes : Takes (.object [("b", .int 4)]) "b" := trivial
  have moves := (move_arrives (d := d) rfl distinct start rfl ⟨rfl, rfl⟩ splits free free' leads).1
  obtain ⟨dirty, e, k, run, named, arrived⟩ := (moves steady).1 ⟨apart, takes⟩
  exact ⟨dirty, e, k, run, named, arrived⟩

/-- An item is moved to where it is. It is written over the next one, which neither path addressed.
    A value that is moved into itself is lost, although the container of the target was there. -/
theorem item_behind_overwritten :
    let doc : Value := .object [("xs", .array [.int 1, .int 2, .int 3])]
    let d : Draft := { doc := doc, supply := { origin := 0, last := 0, pace := 1 } }
    let way : Location := [.field "xs", .index 0]
    let doc' : Value := .object [("a", .object [("c", .int 1)])]
    let d' : Draft := { doc := doc', supply := { origin := 0, last := 0, pace := 1 } }
    (∃ dirty e, move "_id" (.text "xs.0") (.text "xs.0") d = .ok dirty e ∧
      read? doc (.text "xs.0") = .ok (some (.int 1)) ∧ doc.at? way = some (.int 1) ∧
      e.doc = .object [("xs", .array [.int 1, .int 3])] ∧ e.doc.at? way = some (.int 1) ∧
      e.doc.without [way] ≠ doc.without [way]) ∧
    ∃ dirty e, move "_id" (.text "a") (.text "a.b") d' = .ok dirty e ∧
      read? doc' (.text "a") = .ok (some (.object [("c", .int 1)])) ∧
      read? e.doc (.text "a.b") = .ok none := by
  intro doc d way doc' d'
  refine ⟨⟨_, _, rfl, rfl, rfl, rfl, rfl, ?_⟩, _, _, rfl, rfl, rfl⟩
  intro same
  cases same

end Edit

end DocRepair

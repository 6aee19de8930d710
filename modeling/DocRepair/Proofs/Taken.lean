import DocRepair.Proofs.Emptied
import DocRepair.Proofs.Walks
/-!
# `DocRepair.Proofs.Taken` — what a deletion of several fields takes away

The paths of a deletion are looked up one after the other, each in the document that the ones before
have left. As long as none of them goes by an index behind an item that has been removed, they lead
where they led in the document as it was passed in, and the values that they address there are what
is removed. Otherwise as many values are removed at most, but not those.

## Contents

* `Path.address?` / `Path.addressed` — the values that paths address;
* `Path.address?_drop` — what a path addresses after a removal that does not disturb it;
* `Path.InOrder` — no path goes by an index behind an item that an earlier one addresses;
* `Edit.deleteField_takes` / `Edit.deleteFrom_takes` — one path, and many;
* `Edit.deleteFields_takes` — what is left, in order and out of order;
* `Edit.item_behind_taken` — a value that no path addressed.
-/

namespace DocRepair

namespace Path

variable {idField : String} {doc path x : Value} {names : List String} {paths : List Value}
  {p q : Place} {way : Location}

/-! ## Values that paths address -/

/-- The place that a path addresses, if it holds a value. -/
def address? (idField : String) (doc path : Value) : Option Place :=
  match resolve idField doc path .null with
  | .ok (some p) => if p.exists? doc then some p else none
  | _ => none

/-- The locations of the values that paths address. -/
def addressed (idField : String) (doc : Value) (paths : List Value) : List Location :=
  paths.filterMap fun path => (address? idField doc path).map Place.way

theorem address?_eq_some : address? idField doc path = some p ↔
    ∃ names v, split path = .ok names ∧ Leads doc names p.way v := by
  have found : address? idField doc path = some p ↔
      resolve idField doc path .null = .ok (some p) ∧ (p.value? doc).isSome = true := by
    unfold address?
    split
    · rename_i q resolved
      rw [resolved]
      by_cases held : q.exists? doc = true
      · rw [if_pos held]
        constructor
        · rintro ⟨⟩
          exact ⟨rfl, held⟩
        · rintro ⟨⟨⟩, _⟩
          rfl
      · rw [if_neg held]
        constructor
        · rintro ⟨⟩
        · rintro ⟨⟨⟩, some⟩
          exact absurd some held
    · rename_i none
      exact ⟨fun found => (nomatch found), fun found => absurd found.1 (none p)⟩
  rw [found]
  constructor
  · rintro ⟨resolved, held⟩
    obtain ⟨v, held⟩ := Option.isSome_iff_exists.1 held
    obtain ⟨names, splits, run⟩ := bind_eq_ok.1 resolved
    exact ⟨names, v, splits, leads_of_place run held⟩
  · rintro ⟨names, v, splits, leads⟩
    obtain ⟨n, rest, rfl⟩ := split_cons splits
    obtain ⟨q, run, same, held⟩ := place_of_leads leads (List.cons_ne_nil n rest) idField
    obtain rfl : q = p := Place.way_inj same
    refine ⟨bind_eq_ok.2 ⟨n :: rest, splits, run⟩, ?_⟩
    rw [held]
    rfl

theorem value_of_address? (found : address? idField doc path = some p) :
    ∃ v, p.value? doc = some v := by
  obtain ⟨names, v, _, leads⟩ := address?_eq_some.1 found
  exact ⟨v, (Place.value?_eq p doc).trans leads.at?⟩

/-- A path whose segments do not go by an index behind a place. -/
def Undisturbed (doc path : Value) (p : Place) : Prop :=
  ∀ names, split path = .ok names → ¬ Follows doc names p

/-- **A removal that does not disturb a path** leaves it what it addressed, unless that has been
    removed with the rest. -/
theorem address?_drop (distinct : doc.Distinct) (held : p.value? doc = some x)
    (steady : Undisturbed doc path p) : address? idField (p.drop doc) path = some q ↔
      address? idField doc path = some q ∧ ∀ rest, q.way ≠ p.way ++ rest := by
  rw [address?_eq_some, address?_eq_some]
  constructor
  · rintro ⟨names, v', splits, leads⟩
    obtain ⟨apart, v, before, _⟩ := leads.of_drop distinct held (steady names splits)
    exact ⟨⟨names, v, splits, before⟩, apart⟩
  · rintro ⟨⟨names, v, splits, leads⟩, apart⟩
    obtain ⟨v', after, _⟩ := leads.drop apart (steady names splits)
    exact ⟨names, v', splits, after⟩

theorem mem_addressed : way ∈ addressed idField doc paths ↔
    ∃ path ∈ paths, ∃ p, address? idField doc path = some p ∧ p.way = way := by
  unfold addressed
  simp only [List.mem_filterMap, Option.map_eq_some_iff]

/-- What paths address has not changed its location, if none of them is disturbed. -/
theorem raised_addressed (steady : ∀ path ∈ paths, Undisturbed doc path p) (distinct : doc.Distinct)
    (held : p.value? doc = some x) :
    (addressed idField (p.drop doc) paths).map (Location.raised p.way) =
      addressed idField (p.drop doc) paths := by
  refine (List.map_congr_left fun way among => ?_).trans (List.map_id _)
  obtain ⟨path, listed, q, found, rfl⟩ := mem_addressed.1 among
  obtain ⟨before, _⟩ := (address?_drop distinct held (steady path listed)).1 found
  obtain ⟨names, v, splits, leads⟩ := address?_eq_some.1 before
  exact leads.raised (steady path listed names splits)

/-- The paths after the first address what they addressed before, apart from what was removed. -/
theorem without_addressed (distinct : doc.Distinct) (held : p.value? doc = some x)
    (steady : ∀ path ∈ paths, Undisturbed doc path p) :
    (p.drop doc).without (addressed idField (p.drop doc) paths) =
      doc.without (p.way :: addressed idField doc paths) := by
  rw [Place.without_drop distinct held, raised_addressed steady distinct held]
  refine Value.without_congr fun way above => ?_
  rw [List.mem_cons, List.mem_cons]
  by_cases own : way = p.way
  · exact iff_of_true (.inl own) (.inl own)
  · -- Nothing below the removed value is told apart from it.
    have apart : ∀ rest, way ≠ p.way ++ rest := by
      rintro rest rfl
      cases rest with
      | nil => exact own (List.append_nil _)
      | cons k rest =>
        exact above p.way (k :: rest) rfl p.way_ne_nil (List.cons_ne_nil k rest) List.mem_cons_self
    rw [or_iff_right own, or_iff_right own, mem_addressed, mem_addressed]
    constructor
    · rintro ⟨path, listed, q, found, same⟩
      exact ⟨path, listed, q, ((address?_drop distinct held (steady path listed)).1 found).1, same⟩
    · rintro ⟨path, listed, q, found, rfl⟩
      have still := (address?_drop distinct held (steady path listed)).2 ⟨found, apart⟩
      exact ⟨path, listed, q, still, rfl⟩

/-! ## Paths in order -/

/-- No path goes by an index behind an item that an earlier one addresses, nor by its own. -/
def InOrder (idField : String) (doc : Value) : List Value → Prop :=
  List.Pairwise fun path later => ∀ p, address? idField doc path = some p → Undisturbed doc later p

/-- The removal of a field disturbs no path. -/
theorem undisturbed_of_field {n : String} (key : p.key = .field n) (path : Value) :
    Undisturbed doc path p := by
  rintro names _ ⟨i, _, _, _, _, _, key', _⟩
  rw [key] at key'
  cases key'

/-- Paths that address fields only are in order, whatever their order. -/
theorem inOrder_of_fields
    (fields : ∀ path ∈ paths, ∀ p, address? idField doc path = some p → ∃ n, p.key = .field n) :
    InOrder idField doc paths := by
  induction paths with
  | nil => exact .nil
  | cons path rest ih =>
    refine .cons (fun later _ p found => ?_) (ih fun later among =>
      fields later (List.mem_cons_of_mem path among))
    obtain ⟨n, key⟩ := fields path List.mem_cons_self p found
    exact undisturbed_of_field key later

theorem InOrder.drop {paths : List Value} (order : InOrder idField doc paths)
    (distinct : doc.Distinct) (held : p.value? doc = some x)
    (steady : ∀ path ∈ paths, Undisturbed doc path p) : InOrder idField (p.drop doc) paths := by
  refine List.Pairwise.imp_of_mem ?_ order
  intro path later listed listed' apart q found names splits follows
  obtain ⟨before, _⟩ := (address?_drop distinct held (steady path listed)).1 found
  have followed := follows.of_drop distinct held (steady later listed' names splits)
  exact apart q before names splits followed

end Path

namespace Edit

open DocRepair.Path

variable {idField : String} {path : Value} {paths : List Value} {d e : Draft}
  {dirty after : DirtySet} {u : Unit}

theorem deleteField_takes (run : deleteField idField path d = .ok u e) :
    address? idField d.doc path = none ∧ e.doc = d.doc ∨
      ∃ p, address? idField d.doc path = some p ∧ e.doc = p.drop d.doc := by
  obtain ⟨_, _, guarded, run⟩ := run_bind_ok.1 run
  obtain ⟨_, rfl⟩ := lift_ok.1 guarded
  obtain ⟨place, _, found, run⟩ := run_bind_ok.1 run
  obtain ⟨resolved, rfl⟩ := look_ok.1 found
  unfold address?
  rw [resolved]
  cases place with
  | none =>
    cases run
    exact .inl ⟨rfl, rfl⟩
  | some p =>
    obtain ⟨w, _, dropped, run⟩ := run_bind_ok.1 run
    cases run
    unfold Edit.drop at dropped
    dsimp only
    unfold Place.exists?
    cases held : p.value? d.doc with
    | none =>
      rw [held] at dropped
      cases dropped
      exact .inl ⟨rfl, rfl⟩
    | some v =>
      rw [held] at dropped
      cases dropped
      exact .inr ⟨p, rfl, rfl⟩

/-- **Paths in order take away what they address.** -/
theorem deleteFrom_takes (distinct : d.doc.Distinct) (order : InOrder idField d.doc paths)
    (run : deleteFrom idField dirty paths d = .ok after e) :
    e.doc = d.doc.without (addressed idField d.doc paths) := by
  induction paths generalizing dirty d with
  | nil =>
    cases run
    exact (Value.without_nil _).symm
  | cons path rest ih =>
    obtain ⟨_, f, deleted, run⟩ := run_bind_ok.1 run
    obtain ⟨touched, _, lifted, run⟩ := run_bind_ok.1 run
    obtain ⟨_, rfl⟩ := lift_ok.1 lifted
    obtain ⟨first, others⟩ := List.pairwise_cons.1 order
    have others : InOrder idField d.doc rest := others
    rcases deleteField_takes deleted with ⟨none, same⟩ | ⟨p, found, dropped⟩
    · rw [← same] at distinct others
      rw [ih distinct others run, same, addressed, addressed, List.filterMap_cons, none]
      rfl
    · obtain ⟨v, held⟩ := value_of_address? found
      have steady : ∀ later ∈ rest, Undisturbed d.doc later p := by
        intro later among
        exact first later among p found
      have emptied := Place.distinct_drop distinct held
      have ordered := others.drop distinct held steady
      rw [← dropped] at emptied ordered
      rw [ih emptied ordered run, dropped, without_addressed distinct held steady]
      unfold addressed
      rw [List.filterMap_cons, found]
      rfl

/-- Whatever their order, no more values are taken away than there are paths. -/
theorem deleteFrom_takes_few (distinct : d.doc.Distinct)
    (run : deleteFrom idField dirty paths d = .ok after e) :
    ∃ taken : List Location, taken.length ≤ paths.length ∧
      (∀ way ∈ taken, (d.doc.at? way).isSome = true) ∧ e.doc = d.doc.without taken := by
  induction paths generalizing dirty d with
  | nil =>
    cases run
    exact ⟨[], Nat.le_refl 0, List.forall_mem_nil _, (Value.without_nil _).symm⟩
  | cons path rest ih =>
    obtain ⟨_, f, deleted, run⟩ := run_bind_ok.1 run
    obtain ⟨touched, _, lifted, run⟩ := run_bind_ok.1 run
    obtain ⟨_, rfl⟩ := lift_ok.1 lifted
    rcases deleteField_takes deleted with ⟨none, same⟩ | ⟨p, found, dropped⟩
    · rw [← same] at distinct ⊢
      obtain ⟨taken, few, there, left⟩ := ih distinct run
      exact ⟨taken, Nat.le_succ_of_le few, there, left⟩
    · obtain ⟨v, held⟩ := value_of_address? found
      have emptied := Place.distinct_drop distinct held
      rw [← dropped] at emptied
      obtain ⟨taken, few, there, left⟩ := ih emptied run
      -- What the other paths take lies in what is left: here it is told by where it lay before.
      refine ⟨p.way :: taken.map (Location.raised p.way), ?_, ?_, ?_⟩
      · rw [List.length_cons, List.length_map]
        exact Nat.succ_le_succ few
      · refine List.forall_mem_cons.2 ⟨?_, fun way among => ?_⟩
        · rw [← Place.value?_eq, held]
          rfl
        · obtain ⟨w, listed, rfl⟩ := List.mem_map.1 among
          obtain ⟨x, lies⟩ := Option.isSome_iff_exists.1 (there w listed)
          rw [dropped] at lies
          exact Place.at?_raised distinct held lies
      · rw [left, dropped, Place.without_drop distinct held]

/-- **What a deletion of several fields takes away.** The document is an object whose objects have
    fields of different names, at every depth, and the deletion returns.

    Whatever the order of the paths, the document has lost no more of its values than there are
    paths. If no path goes by an index behind an item that an earlier one addresses, nor by its own,
    then it has lost exactly the values that the paths address in it as it was passed in, and every
    other order of which that is true leaves the same. -/
theorem deleteFields_takes {listed : Value} (distinct : d.doc.Distinct)
    (members : listed.members = .ok paths) (run : deleteFields idField listed d = .ok after e) :
    (∃ taken : List Location, taken.length ≤ paths.length ∧
      (∀ way ∈ taken, (d.doc.at? way).isSome = true) ∧ e.doc = d.doc.without taken) ∧
    (InOrder idField d.doc paths → e.doc = d.doc.without (addressed idField d.doc paths) ∧
      ∀ listed' paths' after' e', listed'.members = .ok paths' → paths'.Perm paths →
        InOrder idField d.doc paths' → deleteFields idField listed' d = .ok after' e' →
        e'.doc = e.doc) := by
  have goes {listed : Value} {paths : List Value} {after : DirtySet} {e : Draft}
      (members : listed.members = .ok paths) (run : deleteFields idField listed d = .ok after e) :
      deleteFrom idField ∅ paths d = .ok after e := by
    obtain ⟨_, _, found, run⟩ := run_bind_ok.1 run
    obtain ⟨found, rfl⟩ := lift_ok.1 found
    rw [members] at found
    cases found
    exact run
  refine ⟨deleteFrom_takes_few distinct (goes members run), fun order => ?_⟩
  have left := deleteFrom_takes distinct order (goes members run)
  refine ⟨left, fun listed' paths' after' e' members' same order' run' => ?_⟩
  rw [left, deleteFrom_takes distinct order' (goes members' run')]
  refine Value.without_congr fun way _ => ?_
  rw [mem_addressed, mem_addressed]
  simp only [same.mem_iff]

/-- Items of an array from the last to the first, and a field in between. -/
theorem deleteFields_takes_backwards :
    let doc : Value := .object
      [("xs", .array [.int 1, .int 2, .int 3]), ("a", .object [("b", .int 4)])]
    let d : Draft := { doc := doc, supply := { origin := 0, last := 0, pace := 1 } }
    let paths : List Value := [.text "xs.2", .text "a.b", .text "xs.0"]
    ∃ after e, deleteFields "_id" (.array paths) d = .ok after e ∧
      e.doc = doc.without
        [[.field "xs", .index 2], [.field "a", .field "b"], [.field "xs", .index 0]] := by
  intro doc d paths
  have number (n : Int) : (Value.int n).Distinct := .scalar rfl
  have items : Value.Distinct (.array [.int 1, .int 2, .int 3]) := .array (by simp [number])
  have inner : Value.Distinct (.object [("b", .int 4)]) :=
    .object (by decide : ["b"].Nodup) (by simp [number])
  have distinct : doc.Distinct := .object (by decide : ["xs", "a"].Nodup) (by simp [items, inner])
  have last : address? "_id" doc (.text "xs.2") = some ⟨[.field "xs"], .index 2⟩ := rfl
  have field : address? "_id" doc (.text "a.b") = some ⟨[.field "a"], .field "b"⟩ := rfl
  have single {front : List String} {n : String} {x : Value}
      (leads : Leads doc front [.field n] x) : front = [n] := by
    cases leads with
    | cons named held below =>
      cases named
      cases below
      rfl
  have order : InOrder "_id" doc paths := by
    refine .cons ?_ (.cons ?_ (.cons (fun _ among => nomatch among) .nil))
    · intro later among p found
      rw [last] at found
      cases found
      rintro names splits ⟨i, j, front, segment, rest, xs, ⟨⟩, behind, rfl, leads, index⟩
      obtain rfl := single leads
      rcases List.mem_cons.1 among with rfl | among
      · have other : split (.text "a.b") = .ok ["a", "b"] := rfl
        rw [other] at splits
        simp at splits
      · obtain rfl := List.mem_singleton.1 among
        have same : split (.text "xs.0") = .ok ["xs", "0"] := rfl
        rw [same] at splits
        obtain ⟨rfl, _⟩ : "0" = segment ∧ [] = rest := by simpa using splits
        have zero : index? "0" = .ok (some 0) := rfl
        rw [zero] at index
        cases index
        omega
    · intro later among p found
      rw [field] at found
      cases found
      exact undisturbed_of_field rfl later
  obtain ⟨after, e, run⟩ : ∃ after e, deleteFields "_id" (.array paths) d = .ok after e :=
    ⟨_, _, rfl⟩
  exact ⟨after, e, run, ((deleteFields_takes distinct rfl run).2 order).1⟩

/-- The second path goes by an index behind the first. So `3` is removed, which no path addressed,
    and `2` is left, which the second one did. In the other order both are removed that were
    addressed. -/
theorem item_behind_taken :
    let doc : Value := .object [("xs", .array [.int 1, .int 2, .int 3])]
    let d : Draft := { doc := doc, supply := { origin := 0, last := 0, pace := 1 } }
    let paths : List Value := [.text "xs.0", .text "xs.1"]
    ∃ after e after' e', deleteFields "_id" (.array paths) d = .ok after e ∧
      deleteFields "_id" (.array paths.reverse) d = .ok after' e' ∧
      e.doc = .object [("xs", .array [.int 2])] ∧ e'.doc = .object [("xs", .array [.int 3])] ∧
      doc.without (addressed "_id" doc paths) = .object [("xs", .array [.int 3])] ∧
      e.doc ≠ doc.without (addressed "_id" doc paths) ∧ e.doc ≠ e'.doc := by
  intro doc d paths
  refine ⟨_, _, _, _, rfl, rfl, rfl, rfl, rfl, ?_, ?_⟩
  · intro same
    cases same
  · intro same
    cases same

end Edit

end DocRepair

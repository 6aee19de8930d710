import DocRepair.Proofs.Replaced
import DocRepair.Proofs.Steps
/-!
# `DocRepair.Proofs.Walks` — the steps of every edit

Each edit goes by steps below the fields that its paths begin with, whether it returns or stops.
Only the setting of an identifier, at the identifier field itself, gives another identifier.

## Contents

* `Edit.Named.place` — a place that a path leads to;
* `Edit.applyChanges_goes` / `deleteFields_goes` / `move_goes` / … — one lemma an edit;
* `Scan.kept_of_stays` — where the elements that stay come to lie;
* `Edit.modify_goes` — array queries;
* `PathEdit.Begins` / `PathEdit.Renames` / `PathEdit.run_goes` — all edits that go by paths.
-/

namespace DocRepair

namespace Edit

variable {idField n : String} {renames : Prop} {names : String → Prop} {d : Draft}

/-! ## Places of a path -/

/-- A place that a path leads to lies below a field with one of the names. -/
theorem Named.place {path ids : Value} {p : Place} (named : Named names path)
    (obj : d.doc.isObject = true) (found : Path.resolve idField d.doc path ids = .ok (some p)) :
    ∃ n way, p.way = .field n :: way ∧ names n := by
  rw [Draft.doc_eq_object obj] at found
  obtain ⟨n, rest, way, hsplit, below, _⟩ := Path.resolve_way found
  exact ⟨n, way, below, named n rest hsplit⟩

/-- The place of a path that is not the identifier field is neither. -/
theorem Named.placeApart {path : Value} {p : Place} (named : Named names path)
    (obj : d.doc.isObject = true) (other : Path.split path ≠ .ok [idField])
    (found : Path.resolve idField d.doc path .null = .ok (some p)) :
    ∃ n way, p.way = .field n :: way ∧ names n ∧ ¬(n = idField ∧ way = []) := by
  obtain ⟨n, rest, way, hsplit, below, whole⟩ := place_ok obj other found
  exact ⟨n, way, below, named n rest hsplit, whole⟩

theorem touched_goes (path : Value) : Goes idField renames names (touched path) d := .lift _

/-! ## Changes -/

theorem append_goes {path v : Value} (obj : d.doc.isObject = true) (named : Named names path)
    (other : Path.split path ≠ .ok [idField]) :
    Goes idField renames names (append idField path v) d := by
  refine Goes.look_bind fun place resolved => Goes.look_bind fun target found => ?_
  cases found
  cases place with
  | none => exact write_goes obj named (.inl other)
  | some p =>
    obtain ⟨n, way, below, hn⟩ := named.place obj resolved
    have target : Path.valueAt? d.doc (some p) = p.value? d.doc := rfl
    rw [target]
    cases held : p.value? d.doc with
    | none => exact write_goes obj named (.inl other)
    | some w =>
      cases w with
      | array xs => exact setItems_goes below hn held [v]
      | _ => exact .lift _

/-- Each operation goes by steps below the first segment of its path. Only the setting of an
    identifier, at the identifier field itself, renames. -/
theorem applyOperation_goes {op : Operation} {path v : Value} (obj : d.doc.isObject = true)
    (named : Named names path)
    (gives : op = .setIdentifier → Path.split path = .ok [idField] → renames) :
    Goes idField renames names (applyOperation idField op path v) d := by
  cases op with
  | set =>
    refine Goes.lift_bind fun _ checked => ?_
    exact write_goes obj named (.inl (guardIdentity_ok checked))
  | setIdentifier =>
    refine Goes.lift_bind fun id _ => write_goes obj named ?_
    by_cases own : Path.split path = .ok [idField]
    · exact .inr (.inl (gives rfl own))
    · exact .inl own
  | setStatus =>
    refine Goes.lift_bind fun _ checked => Goes.bind .tick fun t e ticked => ?_
    cases ticked
    exact write_goes obj named (.inl (guardIdentity_ok checked))
  | append =>
    refine Goes.lift_bind fun _ checked => ?_
    exact append_goes obj named (guardIdentity_ok checked)

/-- A change that gives another identifier. -/
def Renaming (idField : String) (c : Change) : Prop :=
  c.operation = .setIdentifier ∧ Path.split (.text c.path) = .ok [idField]

theorem applyFrom_goes {applied : Nat} {before : DirtySet} {changes : List Change}
    (obj : d.doc.isObject = true) (named : ∀ c ∈ changes, Named names (.text c.path))
    (gives : ∀ c ∈ changes, Renaming idField c → renames) :
    Goes idField renames names (applyFrom idField applied before changes) d := by
  induction changes generalizing applied before d with
  | nil => exact .pure _
  | cons c rest ih =>
    have first : Goes idField renames names (applyChange idField c) d :=
      applyOperation_goes obj (named c List.mem_cons_self) fun set own =>
        gives c List.mem_cons_self ⟨set, own⟩
    have others {e : Draft} (objE : e.doc.isObject = true) (after : Nat) (more : DirtySet) :
        Goes idField renames names (applyFrom idField after more rest) e :=
      ih objE (fun c hc => named c (List.mem_cons_of_mem _ hc))
        fun c hc => gives c (List.mem_cons_of_mem _ hc)
    unfold Goes draftAfter applyFrom
    cases run : applyChange idField c d with
    | error fault e =>
      unfold Goes at first
      rw [draftAfter_error run] at first
      exact first
    | ok u e =>
      have gone := first.ok run
      dsimp only
      cases before.touch (.text c.path) with
      | error fault => exact gone
      | ok more => exact gone.trans (others (gone.isObject obj) (applied + 1) more)

theorem applyChanges_goes {changes : List Change} (obj : d.doc.isObject = true)
    (named : ∀ c ∈ changes, Named names (.text c.path))
    (gives : ∀ c ∈ changes, Renaming idField c → renames) :
    Goes idField renames names (applyChanges idField changes) d :=
  applyFrom_goes obj named gives

/-! ## Removing and moving -/

theorem deleteField_goes {path : Value} (obj : d.doc.isObject = true) (named : Named names path) :
    Goes idField renames names (deleteField idField path) d := by
  refine Goes.lift_bind fun _ checked => Goes.look_bind fun place resolved => ?_
  cases place with
  | none => exact .pure _
  | some p =>
    obtain ⟨n, way, below, hn, whole⟩ := named.placeApart obj (keepIdentity_ok checked) resolved
    exact (drop_goes below hn whole).bind fun _ _ _ => .pure _

theorem deleteFrom_goes {before : DirtySet} {paths : List Value} (obj : d.doc.isObject = true)
    (named : ∀ path ∈ paths, Named names path) :
    Goes idField renames names (deleteFrom idField before paths) d := by
  induction paths generalizing before d with
  | nil => exact .pure _
  | cons path rest ih =>
    have first : Goes idField renames names (deleteField idField path) d :=
      deleteField_goes obj (named path List.mem_cons_self)
    refine first.bind fun _ e deleted => Goes.lift_bind fun more _ => ?_
    exact ih ((first.ok deleted).isObject obj) fun p hp => named p (List.mem_cons_of_mem _ hp)

theorem deleteFields_goes {paths : Value} (obj : d.doc.isObject = true)
    (named : ∀ members, paths.members = .ok members → ∀ path ∈ members, Named names path) :
    Goes idField renames names (deleteFields idField paths) d :=
  Goes.lift_bind fun members listed => deleteFrom_goes obj (named members listed)

theorem knownIn_ok {start : Option Place} {known : Option Location} {e : Draft}
    (run : knownIn start d = .ok known e) :
    e = d ∧ ∀ rest, known = some rest → ∃ p, start = some p ∧ d.known = .within (p.way ++ rest) := by
  cases start with
  | none =>
    obtain ⟨rfl, rfl⟩ := run_pure_ok.1 run
    exact ⟨rfl, fun _ h => by cases h⟩
  | some p =>
    cases run
    exact ⟨rfl, fun rest h => ⟨p, rfl, Known.below?_eq_some.1 h⟩⟩

/-- A removal keeps apart what lay at the place or below. -/
theorem close_below {p : Place} {rest : Location} (within : d.known = .within (p.way ++ rest)) :
    (d.close p).known = .apart ((d.doc.at? (p.way ++ rest)).getD .null) := by
  have starts : p.way.isPrefixOf (p.way ++ rest) = true := Known.isPrefixOf_iff.2 ⟨rest, rfl⟩
  unfold Draft.close
  cases key : p.key with
  | field name =>
    show d.known.part d.doc p.way = _
    simp only [within, Known.part, starts, if_true]
  | index i =>
    have inside : d.known.below? p.container = some (.index i :: rest) := by
      refine Known.below?_eq_some.2 ?_
      rw [within, Place.way, key, List.append_assoc]
      rfl
    dsimp only
    unfold Known.rearrange
    rw [inside]
    dsimp only
    rw [if_pos rfl, within]
    rfl

theorem take_goes {source : Value} {start : Option Place} (obj : d.doc.isObject = true)
    (named : Named names source) (other : Path.split source ≠ .ok [idField])
    (resolved : Path.resolve idField d.doc source .null = .ok start) :
    Goes idField renames names (take start) d := by
  cases start with
  | none => exact .pure _
  | some p =>
    obtain ⟨n, way, below, hn, whole⟩ := named.placeApart obj other resolved
    exact drop_goes below hn whole

/-- What is known below a place that is emptied is kept apart, as part of what was taken. -/
theorem take_known {p : Place} {rest : Location} {v : Value} {e : Draft}
    (within : d.known = .within (p.way ++ rest)) (run : take (some p) d = .ok (some v) e) :
    e.known = .apart ((v.at? rest).getD .null) := by
  have dropped : drop p d = .ok (some v) e := run
  unfold drop at dropped
  cases held : p.value? d.doc with
  | none => rw [held] at dropped; cases dropped
  | some w =>
    rw [held] at dropped
    cases dropped
    show (d.close p).known = _
    rw [close_below within, Value.at?_append, ← Place.value?_eq, held]
    rfl

/-- The value that was moved is where it was written, and what is known lies in it. -/
theorem put_holds {p : Place} {v c : Value} {u : Unit} {rest : Location} {e : Draft}
    (held : d.doc.at? p.container = some c) (apart : d.known = .apart ((v.at? rest).getD .null))
    (run : put p v d = .ok u e) :
    e.known = .apart ((v.at? rest).getD .null) ∧
      (e.doc.at? (p.way ++ rest)).getD .null = (v.at? rest).getD .null := by
  obtain ⟨doc, written, rfl⟩ := land_ok.1 run
  constructor
  · show d.known.part d.doc p.way = _
    rw [apart]
    rfl
  · rw [Value.at?_append, Place.put_held held written]
    rfl

/-- **A move goes by steps**: the source is emptied, the target is written, and a known value that
    was moved is looked for in its new place. -/
theorem move_goes {source target : Value} (obj : d.doc.isObject = true)
    (namedSource : Named names source) (namedTarget : Named names target) :
    Goes idField renames names (move idField source target) d := by
  refine Goes.lift_bind fun _ guardSource => Goes.lift_bind fun _ guardTarget => ?_
  refine Goes.lift_bind fun one _ => Goes.lift_bind fun two _ => ?_
  refine Goes.look_bind fun start resolved => ?_
  have locates : Goes idField renames names (knownIn start) d := by
    cases start with
    | none => exact .pure _
    | some p => exact .of_same rfl
  refine locates.bind fun known e located => ?_
  obtain ⟨rfl, lies⟩ := knownIn_ok located
  have takes : Goes idField renames names (take start) e :=
    take_goes obj namedSource (keepIdentity_ok guardSource) resolved
  refine takes.bind fun v f taken => ?_
  have objF := (takes.ok taken).isObject obj
  split
  · exact .pure _
  · exact .pure _
  · exact .pure _
  · rename_i w _ _
    refine Goes.look_bind fun place found => ?_
    cases place with
    | none => exact .pure _
    | some p =>
      obtain ⟨n, way, below, hn, whole⟩ :=
        namedTarget.placeApart objF (keepIdentity_ok guardTarget) found
      obtain ⟨c, held⟩ := Path.resolve_held found
      have puts : Goes idField renames names (put p w) f :=
        land_goes below hn fun own top => absurd ⟨own, top⟩ whole
      refine puts.bind fun _ g wrote => ?_
      cases known with
      | none => exact .pure _
      | some rest =>
        obtain ⟨q, rfl, within⟩ := lies rest rfl
        obtain ⟨out, holds⟩ := put_holds held (take_known within taken) wrote
        have follows : Goes idField renames names (follow (p.way ++ rest)) g :=
          .of_step rfl (.follow out holds)
        exact follows.bind fun _ _ _ => .pure _

theorem moveFrom_goes {before : DirtySet} {moves : List Move} (obj : d.doc.isObject = true)
    (named : ∀ m ∈ moves, Named names (.text m.source) ∧ Named names (.text m.target)) :
    Goes idField renames names (moveFrom idField before moves) d := by
  induction moves generalizing before d with
  | nil => exact .pure _
  | cons m rest ih =>
    obtain ⟨namedSource, namedTarget⟩ := named m List.mem_cons_self
    have first : Goes idField renames names (move idField (.text m.source) (.text m.target)) d :=
      move_goes obj namedSource namedTarget
    refine first.bind fun more e moved => ?_
    exact ih ((first.ok moved).isObject obj) fun m hm => named m (List.mem_cons_of_mem _ hm)

/-! ## Arrays -/

/-- A value found at a path, and the field that it lies below. -/
theorem Named.target {path v : Value} {p : Place} {e : Draft} (named : Named names path)
    (obj : d.doc.isObject = true) (found : target? idField path d = .ok (some (p, v)) e) :
    e = d ∧ p.value? d.doc = some v ∧ ∃ n way, p.way = .field n :: way ∧ names n := by
  obtain ⟨rfl, held, n, rest, way, hsplit, below⟩ := target_ok obj found
  exact ⟨rfl, held, n, way, below, named n rest hsplit⟩

theorem target_goes (path : Value) : Goes idField renames names (target? idField path) d := .look _

theorem array_goes (path : Value) : Goes idField renames names (array idField path) d := by
  refine (target_goes path).bind fun target e found => ?_
  split
  · exact .pure _
  · exact .lift _

theorem push_goes {path v ids : Value} (obj : d.doc.isObject = true) (named : Named names path) :
    Goes idField renames names (push idField path v ids) d := by
  refine (target_goes path).bind fun target e found => ?_
  split
  · obtain ⟨rfl, held, n, way, below, hn⟩ := named.target obj found
    refine Goes.lift_bind fun item _ => ?_
    exact (setItems_goes below hn held [item]).bind fun _ _ _ => touched_goes path
  · exact .pure _

theorem inject_goes {language path ids data : Value} (obj : d.doc.isObject = true)
    (named : Named names path) :
    Goes idField renames names (inject idField language path ids data) d := by
  refine Goes.lift_bind fun segments hsplit => Goes.lift_bind fun wanted _ => ?_
  split
  · exact .lift _
  · refine Goes.look_bind fun place resolved => Goes.look_bind fun target found => ?_
    cases found
    cases place with
    | none => exact .pure _
    | some p =>
      obtain ⟨n, rest, rfl⟩ := Path.split_cons hsplit
      rw [Draft.doc_eq_object obj] at resolved
      obtain ⟨way, below, _⟩ := Path.resolveFrom_way resolved
      have target : Path.valueAt? d.doc (some p) = p.value? d.doc := rfl
      rw [target]
      cases held : p.value? d.doc with
      | none => exact .pure _
      | some w =>
        cases w with
        | array xs =>
          refine Goes.lift_bind fun items _ => ?_
          have appends : Goes idField renames names
              (setItems p (xs ++ injected ((n :: rest).getLastD "") language items)) d :=
            setItems_goes below (named n rest hsplit) held _
          exact appends.bind fun _ _ _ => .pure _
        | _ => exact .pure _

theorem duplicate_goes {path : Value} (obj : d.doc.isObject = true) (named : Named names path) :
    Goes idField renames names (duplicate idField path) d := by
  refine (array_goes path).bind fun ⟨p, xs⟩ e found => ?_
  obtain ⟨rfl, held, n, rest, way, hsplit, below⟩ := array_ok obj found
  refine (setItems_goes below (named n rest hsplit) held xs).bind fun _ _ _ => ?_
  exact (touched_goes path).bind fun _ _ _ => .pure _

/-- An absent array is made below the first segment of its path. The identifier field itself is
    only written where nothing is present. -/
theorem make_goes {path items : Value} {t : Option (Place × Value)} {e : Draft}
    (obj : d.doc.isObject = true) (named : Named names path)
    (found : target? idField path d = .ok t e) (nothing : ∀ p v, t = some (p, v) → v = .absent) :
    Goes idField renames names (write none path items) d := by
  refine write_goes obj named ?_
  by_cases own : Path.split path = .ok [idField]
  · exact .inr (.inr (target_nothing obj found nothing own))
  · exact .inl own

theorem addIds_goes {path ids : Value} (obj : d.doc.isObject = true) (named : Named names path) :
    Goes idField renames names (addIds idField path ids) d := by
  refine Goes.lift_bind fun converted _ => (target_goes path).bind fun target e found => ?_
  split
  · obtain ⟨rfl, held, n, way, below, hn⟩ := named.target obj found
    refine Goes.lift_bind fun added _ => (setItems_goes below hn held _).bind fun _ _ _ => ?_
    exact (touched_goes path).bind fun _ _ _ => .pure _
  · obtain ⟨_, rfl⟩ := look_ok.1 found
    refine Goes.lift_bind fun added _ => (make_goes obj named found (by simp)).bind fun _ _ _ => ?_
    exact (touched_goes path).bind fun _ _ _ => .pure _
  · obtain ⟨_, rfl⟩ := look_ok.1 found
    refine Goes.lift_bind fun added _ => (make_goes obj named found (by simp)).bind fun _ _ _ => ?_
    exact (touched_goes path).bind fun _ _ _ => .pure _
  · exact .lift _

/-- An element of an array is never a field of the document. -/
theorem element_not_field {p : Place} {i : Nat} {way : Location} (key : p.key = .index i)
    (below : p.way = .field n :: way) : ¬(n = idField ∧ way = []) := by
  rintro ⟨_, rfl⟩
  rcases Place.way_field below with ⟨rfl, _⟩ | ⟨_, _, ends⟩
  · cases key
  · exact absurd ends (by simp)

theorem removeElement_goes {steps : List IdStep} (obj : d.doc.isObject = true)
    (named : Named names (.array (steps.map fun s => .text s.field))) :
    Goes idField renames names (removeElement idField steps) d := by
  unfold removeElement
  split
  · exact .lift _
  · refine Goes.look_bind fun place resolved => ?_
    cases place with
    | none => exact .lift _
    | some p =>
      refine Goes.look_bind fun target _ => ?_
      split
      · exact .lift _
      · exact .lift _
      · rename_i key _
        obtain ⟨n, way, below, hn⟩ := named.place obj resolved
        refine (drop_goes below hn (element_not_field key below)).bind fun _ _ _ => ?_
        exact (touched_goes _).bind fun _ _ _ => .pure _

theorem clear_goes {path : Value} (obj : d.doc.isObject = true) (named : Named names path) :
    Goes idField renames names (clear idField path) d := by
  refine Goes.lift_bind fun _ checked => ?_
  refine (write_goes obj named (.inl (keepIdentity_ok checked))).bind fun _ _ _ => ?_
  exact touched_goes path

end Edit

/-! ## Elements that stay -/

namespace Scan

variable {key : Value → Option String} {seen more : List String} {v w : Value} {rest : List Value}

/-- Whether the element at an index stays in a pass after others with the keys `seen`. -/
def staysAfter (key : Value → Option String) (seen : List String) (xs : List Value) (i : Nat) :
    Bool :=
  match xs[i]?.bind key with
  | some k => !(seen ++ (xs.take i).filterMap key).contains k
  | none => true

/-- Behind the first element, its key is among those seen. -/
theorem staysAfter_succ (grown : ∀ k, k ∈ more ↔ k ∈ seen ∨ key w = some k) (i : Nat) :
    staysAfter key seen (w :: rest) (i + 1) = staysAfter key more rest i := by
  unfold staysAfter
  rw [List.getElem?_cons_succ, List.take_succ_cons]
  cases rest[i]?.bind key with
  | none => rfl
  | some k =>
    have same : k ∈ seen ++ (w :: rest.take i).filterMap key ↔
        k ∈ more ++ (rest.take i).filterMap key := by
      simp only [List.mem_append, List.mem_filterMap, List.mem_cons, grown]
      grind
    simp only [List.contains_eq_mem, same]

/-- **Where the elements that stay come to lie**: each as far from the front as there are others
    before it that stay. -/
theorem kept_of_stays {xs : List Value} {i : Nat} (here : xs[i]? = some v)
    (stays : staysAfter key seen xs i = true) :
    (after key seen xs).kept[(List.range i).countP (staysAfter key seen xs)]? = some v := by
  induction xs generalizing seen i with
  | nil => cases here
  | cons w rest ih =>
    have front : staysAfter key seen (w :: rest) 0 =
        match key w with
        | some k => !seen.contains k
        | none => true := by
      unfold staysAfter
      simp only [List.getElem?_cons_zero, Option.bind_some, List.take_zero, List.filterMap_nil,
        List.append_nil]
    -- The rest of the pass, from the keys seen then.
    have later {more : List String} (grown : ∀ k, k ∈ more ↔ k ∈ seen ∨ key w = some k) {j : Nat}
        (hj : rest[j]? = some v) (hs : staysAfter key seen (w :: rest) (j + 1) = true) :
        (after key more rest).kept[(List.range j).countP
          (staysAfter key seen (w :: rest) ∘ Nat.succ)]? = some v := by
      have shifted : staysAfter key seen (w :: rest) ∘ Nat.succ = staysAfter key more rest :=
        funext fun j => staysAfter_succ grown j
      rw [shifted]
      rw [staysAfter_succ grown] at hs
      exact ih hj hs
    cases i with
    | zero =>
      cases here
      rw [front] at stays
      unfold after
      split
      · rfl
      · rename_i k hk
        rw [hk] at stays
        have fresh : seen.contains k = false := by simpa using stays
        simp only [fresh, Bool.false_eq_true, if_false]
        rfl
    | succ j =>
      rw [List.getElem?_cons_succ] at here
      rw [List.range_succ_eq_map, List.countP_cons, List.countP_map, front]
      unfold after
      cases hk : key w with
      | none =>
        have unkeyed : ∀ k, k ∈ seen ↔ k ∈ seen ∨ key w = some k := by simp [hk]
        exact later unkeyed here stays
      | some k =>
        by_cases old : seen.contains k = true
        · have held : k ∈ seen := by simpa using old
          simp only [old, if_true, Bool.not_true, Bool.false_eq_true, if_false, Nat.add_zero]
          refine later (fun m => ?_) here stays
          rw [hk, Option.some.injEq]
          exact ⟨.inl, fun h => h.elim id fun same => same ▸ held⟩
        · simp only [old, Bool.not_false, if_true, Bool.false_eq_true, if_false,
            List.getElem?_cons_succ]
          refine later (fun m => ?_) here stays
          rw [hk, List.mem_append, List.mem_singleton, Option.some.injEq]
          exact or_congr_right eq_comm

end Scan

namespace Edit

variable {idField : String} {renames : Prop} {names : String → Prop} {d : Draft}

theorem removeDuplicates_goes {path keyField : Value} (obj : d.doc.isObject = true)
    (named : Named names path) :
    Goes idField renames names (removeDuplicates idField path keyField) d := by
  refine (array_goes path).bind fun ⟨p, xs⟩ e found => ?_
  obtain ⟨rfl, held, n, rest, way, hsplit, below⟩ := array_ok obj found
  refine Goes.lift_bind fun key _ => ?_
  refine (keepItems_goes below (named n rest hsplit) held ?_).bind fun _ _ _ => ?_
  · intro i v here stays
    exact Scan.kept_of_stays here stays
  · exact (touched_goes path).bind fun _ _ _ => .pure _

/-! ## Array queries -/

theorem assigned_goes (step : QueryStep) : Goes idField renames names (assigned step) d := by
  unfold assigned
  split
  · exact Goes.mint.bind fun _ _ _ => .pure _
  · split
    · exact Goes.lift_bind fun _ _ => .pure _
    · exact .pure _

theorem descend_goes (here : Location) (walked : List String) (field : String) :
    Goes idField renames names (descend here walked field) d := by
  refine Goes.look_bind fun child _ => ?_
  cases child with
  | some c => exact .pure _
  | none => exact .lift _

theorem descend_ok {here there : Location} {walked : List String} {field : String} {e : Draft}
    (run : descend here walked field d = .ok there e) :
    there = here ++ [.field field] ∧ d = e ∧
      ∃ c, ((d.doc.at? here).getD .null).child? (.field field) = some c := by
  obtain ⟨child, f, looked, run⟩ := run_bind_ok.1 run
  obtain ⟨found, rfl⟩ := look_ok.1 looked
  cases child with
  | some c =>
    obtain ⟨rfl, rfl⟩ := run_pure_ok.1 run
    exact ⟨rfl, rfl, c, Except.ok.inj found⟩
  | none => cases (lift_ok.1 run).1

theorem editElement_goes {n : String} {more : Location} {walked : List String} {step : QueryStep}
    (named : names n) :
    Goes idField renames names (editElement (.field n :: more) walked step) d := by
  refine Goes.look_bind fun here _ => ?_
  split
  · refine Goes.lift_bind fun found _ => ?_
    split
    · rename_i i _
      refine (assigned_goes step).bind fun v e _ => ?_
      have deeper : (more ++ [.index i] ++ [.field step.field] : Location) ≠ [] := by simp
      exact land_goes rfl named fun _ whole => absurd whole deeper
    · exact .lift _
  · exact .lift _

/-- A query below a field stays below it. -/
theorem walk_goes {n : String} {more : Location} {walked : List String} {steps : List QueryStep}
    (named : names n) : Goes idField renames names (walk (.field n :: more) walked steps) d := by
  induction steps generalizing more walked d with
  | nil => exact .pure _
  | cons step rest ih =>
    unfold walk
    split
    · refine (descend_goes _ walked step.field).bind fun there e descended => ?_
      obtain ⟨rfl, _⟩ := descend_ok descended
      exact ih
    · exact (editElement_goes named).bind fun _ _ _ => ih

/-- **An array query goes by steps below the field of its first step.** -/
theorem modify_goes {steps : List QueryStep} (obj : d.doc.isObject = true)
    (named : ∀ first rest, steps = first :: rest → names first.field) :
    Goes idField renames names (modify steps) d := by
  cases steps with
  | nil => exact .of_same rfl
  | cons first rest =>
    refine Goes.bind ?_ fun _ _ _ => touched_goes _
    unfold walk
    split
    · refine (descend_goes [] [] first.field).bind fun there e descended => ?_
      obtain ⟨rfl, _⟩ := descend_ok descended
      exact walk_goes (named first rest rfl)
    · -- The document itself is no array, so the edit of an element stops.
      refine Goes.bind (Goes.look_bind fun here found => ?_) fun _ e edited => ?_
      · rw [Draft.doc_eq_object obj] at found
        cases found
        exact .lift _
      · obtain ⟨here, f, looked, edited⟩ := run_bind_ok.1 edited
        obtain ⟨found, rfl⟩ := look_ok.1 looked
        rw [Draft.doc_eq_object obj] at found
        cases found
        cases (lift_ok.1 edited).1

end Edit

/-! ## All edits -/

namespace Edit

/-- A path whose first segment is a given name. -/
def Begins (n : String) (path : Value) : Prop :=
  ∃ rest, Path.split path = .ok (n :: rest)

/-- Some change has a path that begins with a name. -/
def ChangesBegin (n : String) (changes : List Change) : Prop :=
  ∃ c ∈ changes, Begins n (.text c.path)

/-- Some change gives another identifier. -/
def ChangesRename (idField : String) (changes : List Change) : Prop :=
  ∃ c ∈ changes, Renaming idField c

end Edit

namespace PathEdit

/-- Some path of an edit begins with a name. -/
def Begins (n : String) : PathEdit → Prop
  | .applyChanges changes => Edit.ChangesBegin n changes
  | .applyRaw raw => ∃ changes, Change.parse raw = .ok changes ∧ Edit.ChangesBegin n changes
  | .deleteFields paths => ∃ members, paths.members = .ok members ∧
      ∃ path ∈ members, Edit.Begins n path
  | .move source target => Edit.Begins n source ∨ Edit.Begins n target
  | .moveAll moves => ∃ m ∈ moves, Edit.Begins n (.text m.source) ∨ Edit.Begins n (.text m.target)
  | .push path _ _ | .inject _ path _ _ | .duplicate path | .removeDuplicates path _
  | .addIds path _ | .clear path => Edit.Begins n path
  | .removeElement steps => Edit.Begins n (.array (steps.map fun s => .text s.field))

/-- The edit gives another identifier: it sets an identifier at the identifier field itself. -/
def Renames (idField : String) : PathEdit → Prop
  | .applyChanges changes => Edit.ChangesRename idField changes
  | .applyRaw raw => ∃ changes, Change.parse raw = .ok changes ∧ Edit.ChangesRename idField changes
  | _ => False

/-- **Every edit that goes by paths goes by steps** below the fields that its paths begin with. -/
theorem run_goes (edit : PathEdit) (idField : String) {d : Draft} (obj : d.doc.isObject = true) :
    Edit.Goes idField (edit.Renames idField) (fun n => edit.Begins n) (edit.run idField) d := by
  cases edit with
  | applyChanges changes =>
    exact Edit.applyChanges_goes obj (fun c hc _ rest h => ⟨c, hc, rest, h⟩)
      fun c hc given => ⟨c, hc, given⟩
  | applyRaw raw =>
    refine Edit.Goes.lift_bind fun changes parsed => ?_
    exact Edit.applyChanges_goes obj (fun c hc _ rest h => ⟨changes, parsed, c, hc, rest, h⟩)
      fun c hc given => ⟨changes, parsed, c, hc, given⟩
  | deleteFields paths =>
    exact Edit.deleteFields_goes obj fun members listed path hpath _ rest h =>
      ⟨members, listed, path, hpath, rest, h⟩
  | move source target =>
    exact Edit.move_goes obj (fun _ rest h => .inl ⟨rest, h⟩) fun _ rest h => .inr ⟨rest, h⟩
  | moveAll moves =>
    exact Edit.moveFrom_goes obj fun m hm =>
      ⟨fun _ rest h => ⟨m, hm, .inl ⟨rest, h⟩⟩, fun _ rest h => ⟨m, hm, .inr ⟨rest, h⟩⟩⟩
  | push path v ids => exact Edit.push_goes obj fun _ rest h => ⟨rest, h⟩
  | inject language path ids data => exact Edit.inject_goes obj fun _ rest h => ⟨rest, h⟩
  | duplicate path =>
    exact (Edit.duplicate_goes obj fun _ rest h => ⟨rest, h⟩).bind fun _ _ _ => .pure _
  | removeDuplicates path keyField =>
    exact (Edit.removeDuplicates_goes obj fun _ rest h => ⟨rest, h⟩).bind fun _ _ _ => .pure _
  | addIds path ids =>
    exact (Edit.addIds_goes obj fun _ rest h => ⟨rest, h⟩).bind fun _ _ _ => .pure _
  | removeElement steps =>
    exact (Edit.removeElement_goes obj fun _ rest h => ⟨rest, h⟩).bind fun _ _ _ => .pure _
  | clear path => exact Edit.clear_goes obj fun _ rest h => ⟨rest, h⟩

end PathEdit

end DocRepair

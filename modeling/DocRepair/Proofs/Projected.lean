import DocRepair.Proofs.Grafted
import DocRepair.Proofs.Ways
/-!
# `DocRepair.Proofs.Projected` — what a projection is read as

A path leads to the same value in a projection as in the document. A later graft may go over an
earlier one, or into the copy that it left; it puts there what was there already, since both come
from one document. Only the levels between are objects, and so an index names a field of a level and
an item of a copy.

A graft enters no array. A path that goes through an array therefore stops the projection if a path
before it, or the identifier, has brought a copy of that array; in the other order the copy goes
over the levels that were made for it.

## Contents

* `Path.down?_eq_some` / `Path.below?_or_array` — what segments lead to, and names of fields;
* `Fields.below?_graft` / `Fields.graft_self` / `Fields.graft_keeps` — what is read behind a graft;
* `Blocked` / `Path.Crosses` / `blocked_graft` — arrays in the way;
* `selectAll_returns` / `selectAll_keeps` / `selectAll_named` — all paths of a projection;
* `project_reads_back` — which projections return, and what is read in them;
* `project_blocked` — a projection that does not return.
-/

namespace DocRepair

/-! ## Names and segments -/

namespace Path

variable {doc v w : Value} {names front : List String}

theorem down?_eq_some : down? v names = some w ↔ walk v names = .ok (some w) := by
  induction names generalizing v with
  | nil =>
    rw [down?, walk, Except.ok.injEq]
  | cons segment rest ih =>
    rw [down?_cons, walk]
    cases childAt v segment with
    | error fault => exact iff_of_false (by rintro ⟨⟩) (by rintro ⟨⟩)
    | ok child =>
      cases child with
      | none => exact iff_of_false (by rintro ⟨⟩) (by rintro ⟨⟩)
      | some child => exact ih

theorem down?_object (fs : Fields) (n : String) (rest : List String) :
    down? (.object fs) (n :: rest) = (Fields.get? fs n).bind fun c => down? c rest := by
  rw [down?_cons, childAt]
  cases Fields.get? fs n <;> rfl

/-- Names of fields are segments. -/
theorem down?_of_below? (held : v.below? names = some w) : down? v names = some w := by
  induction names generalizing v with
  | nil => exact held
  | cons n rest ih =>
    cases v with
    | object fs =>
      rw [Value.below?_object] at held
      obtain ⟨c, here, below⟩ := Option.bind_eq_some_iff.1 held
      rw [down?_object, here, Option.bind_some, ih below]
    | _ => cases held

/-- Segments are names of fields up to the first array. -/
theorem below?_or_array (found : down? v names = some w) : v.below? names = some w ∨
    ∃ front segment rest xs, names = front ++ segment :: rest ∧
      v.below? front = some (.array xs) := by
  induction names generalizing v with
  | nil => exact .inl found
  | cons n rest ih =>
    cases v with
    | object fs =>
      rw [down?_object] at found
      obtain ⟨c, here, below⟩ := Option.bind_eq_some_iff.1 found
      rw [Value.below?_object, here, Option.bind_some]
      rcases ih below with same | ⟨front, segment, more, xs, rfl, array⟩
      · exact .inl same
      · refine .inr ⟨n :: front, segment, more, xs, rfl, ?_⟩
        rw [Value.below?_object, here, Option.bind_some, array]
    | array xs => exact .inr ⟨[], n, rest, xs, rfl, rfl⟩
    | _ => cases found

end Path

/-! ## Reading behind a graft -/

namespace Fields

variable {fs gs : Fields} {names front rest : List String} {n : String} {doc v w x : Value}

theorem getD_object {inner : Fields} {c : Value} (level : (get? fs n).getD (.object []) =
    .object inner) (here : get? fs n = some c) : c = .object inner := by
  rw [here] at level
  exact level

/-- What was grafted lies at its names. -/
theorem below?_graft (run : graft fs names v = .ok gs) (some : names ≠ []) :
    (Value.object gs).below? names = .some v := by
  fun_induction graft fs names v generalizing gs with
  | case1 => exact absurd rfl some
  | case2 fs name v =>
    cases run
    rw [Value.below?_object, get?_set_self]
    rfl
  | case3 fs name second rest v inner level ih =>
    obtain ⟨grafted, deeper, run⟩ := bind_eq_ok.1 run
    cases run
    rw [Value.below?_object, get?_set_self]
    exact ih deeper (by simp)
  | case4 => cases run
  | case5 => cases run

/-- A graft of what is there changes nothing. -/
theorem graft_self (run : graft fs names v = .ok gs)
    (there : Path.down? (.object fs) names = some v) : gs = fs := by
  fun_induction graft fs names v generalizing gs with
  | case1 => exact (Except.ok.inj run).symm
  | case2 fs name v =>
    cases run
    rw [Path.down?_object] at there
    obtain ⟨c, here, same⟩ := Option.bind_eq_some_iff.1 there
    cases same
    exact set_self here
  | case3 fs name second rest v inner level ih =>
    obtain ⟨grafted, deeper, run⟩ := bind_eq_ok.1 run
    cases run
    rw [Path.down?_object] at there
    obtain ⟨c, here, below⟩ := Option.bind_eq_some_iff.1 there
    obtain rfl := getD_object level here
    rw [ih deeper below]
    exact set_self here
  | case4 => cases run
  | case5 => cases run

/-- **A graft keeps what is read as in the document**, if it comes from there itself. -/
theorem graft_keeps (run : graft fs names v = .ok gs) (source : Path.down? doc names = some v)
    (same : Path.down? doc front = some w) (read : Path.down? (.object fs) front = some w) :
    Path.down? (.object gs) front = some w := by
  fun_induction graft fs names v generalizing gs doc front with
  | case1 =>
    cases run
    exact read
  | case2 fs name v =>
    cases front with
    | nil =>
      -- The object that is read whole is the one of the document.
      have whole : graft fs [name] v = .ok gs := run
      cases same
      cases read
      rw [graft_self whole source]
      rfl
    | cons n front =>
      cases run
      rw [Path.down?_object] at read ⊢
      by_cases own : n = name
      · subst own
        rw [← List.singleton_append, Path.down?_append, source] at same
        rw [get?_set_self]
        exact same
      · rw [get?_set_ne fs v own]
        exact read
  | case3 fs name second rest v inner level ih =>
    cases front with
    | nil =>
      have whole : graft fs (name :: second :: rest) v = .ok gs := by
        unfold graft
        rw [level]
        exact run
      cases same
      cases read
      rw [graft_self whole source]
      rfl
    | cons n front =>
      obtain ⟨grafted, deeper, run⟩ := bind_eq_ok.1 run
      cases run
      rw [Path.down?_object] at read ⊢
      by_cases own : n = name
      · subst own
        obtain ⟨c, here, below⟩ := Option.bind_eq_some_iff.1 read
        obtain rfl := getD_object level here
        rw [← List.singleton_append, Path.down?_append] at source same
        obtain ⟨child, first, source⟩ := Option.bind_eq_some_iff.1 source
        rw [first] at same
        rw [get?_set_self]
        exact ih deeper source same below
      · rw [get?_set_ne fs _ own]
        exact read
  | case4 => cases run
  | case5 => cases run

/-- Nothing but an object can be entered. -/
theorem graft_enters (run : graft fs (front ++ n :: rest) v = .ok gs)
    (held : (Value.object fs).below? front = some x) : x.isObject = true := by
  induction front generalizing fs gs with
  | nil =>
    cases held
    rfl
  | cons name front ih =>
    rw [Value.below?_object] at held
    obtain ⟨c, here, below⟩ := Option.bind_eq_some_iff.1 held
    obtain ⟨second, more, goesOn⟩ : ∃ second more, front ++ n :: rest = second :: more :=
      List.exists_cons_of_ne_nil (by simp)
    rw [List.cons_append, goesOn] at run
    unfold graft at run
    split at run
    · rename_i inner level
      obtain ⟨grafted, deeper, -⟩ := bind_eq_ok.1 run
      obtain rfl := getD_object level here
      exact ih (goesOn ▸ deeper) below
    · split at run <;> cases run

/-- A graft names one field at most. -/
theorem names_graft (run : graft fs (n :: rest) v = .ok gs) {m : String}
    (held : m ∈ Fields.names gs) :
    m = n ∨ m ∈ Fields.names fs := by
  obtain ⟨x, rfl⟩ : ∃ x, gs = set fs n x := by
    cases rest with
    | nil => exact ⟨v, (Except.ok.inj run).symm⟩
    | cons second rest =>
      unfold graft at run
      split at run
      · obtain ⟨grafted, -, run⟩ := bind_eq_ok.1 run
        exact ⟨_, (Except.ok.inj run).symm⟩
      · split at run <;> cases run
  rw [names_set] at held
  split at held
  · exact .inr held
  · rcases List.mem_append.1 held with before | new
    · exact .inr before
    · exact .inl (List.mem_singleton.1 new)

end Fields

/-! ## Arrays in the way -/

/-- A text path that can be read. -/
def Path.Valid (doc : Value) (s : String) : Prop :=
  (∃ names, split (.text s) = .ok names) ∧ ∃ v, read? doc (.text s) = .ok v

/-- What lies below a value at segments, unless it is the marker of absence. -/
def Path.found? (doc : Value) (names : List String) : Option Value :=
  present (down? doc names)

/-- A path crosses another one, if it leads to something and goes on behind the other through an
    array. -/
def Path.Crosses (doc : Value) (front names : List String) : Prop :=
  (found? doc names).isSome = true ∧ ∃ behind segment rest xs,
    names = front ++ behind ++ segment :: rest ∧ down? doc (front ++ behind) = some (.array xs)

/-- Names that would enter an array. -/
def Blocked (out : Fields) (names : List String) : Prop :=
  ∃ front segment rest xs, names = front ++ segment :: rest ∧
    (Value.object out).below? front = some (.array xs)

section Projection

variable {doc v w x : Value} {fs out gs : Fields} {done : List (List String)} {s : String}
  {ss : List String} {front names : List String}

theorem Path.found?_eq_some :
    Path.found? doc names = some v ↔ Path.down? doc names = some v ∧ v.isAbsent = false :=
  Path.present_eq_some

theorem Path.Valid.split (valid : Path.Valid doc s) :
    Path.split (.text s) = .ok (Path.namesOf s) := by
  obtain ⟨⟨names, splits⟩, -⟩ := valid
  rw [Path.namesOf_of_split splits, splits]

theorem Path.Valid.some (valid : Path.Valid doc s) : Path.namesOf s ≠ [] :=
  (Path.split_ok valid.split).1

/-- What a valid path leads to is found. -/
theorem Path.Valid.find (valid : Path.Valid doc s) :
    Path.find? doc (.text s) = .ok (Path.found? doc (Path.namesOf s)) := by
  obtain ⟨found, reads⟩ := valid.2
  have walked := reads
  rw [Path.read?_eq valid.split] at walked
  have below : found = Path.down? doc (Path.namesOf s) := by
    cases found with
    | some v => exact (Path.down?_eq_some.2 walked).symm
    | none =>
      cases here : Path.down? doc (Path.namesOf s) with
      | none => rfl
      | some v =>
        rw [Path.down?_eq_some.1 here] at walked
        cases walked
  unfold Path.find?
  rw [reads, below]
  rfl

/-- A path in front of one that leads through an array leads to something, too. -/
theorem Path.Crosses.isSome (crosses : Path.Crosses doc front names) :
    (Path.found? doc front).isSome = true := by
  obtain ⟨-, behind, segment, rest, xs, -, array⟩ := crosses
  rw [Path.down?_append] at array
  obtain ⟨u, here, below⟩ := Option.bind_eq_some_iff.1 array
  have there : u.isAbsent = false := by
    cases u with
    | absent => cases behind <;> cases below
    | _ => rfl
  rw [Path.found?_eq_some.2 ⟨here, there⟩]
  rfl

/-- What is no object in a projection is from the same place of the document. -/
theorem Copied.same (copied : Copied doc done out) (named : "" ∉ names)
    (held : (Value.object out).below? names = some x) (other : x.isObject = false) :
    Path.down? doc names = some x := by
  cases names with
  | nil =>
    cases held
    cases other
  | cons n ls =>
    rcases copied n ls x held with made | blank | ⟨p, -, rest, w, behind, place, copy⟩
    · rw [made] at other
      cases other
    · exact absurd blank named
    · rw [behind, Path.down?_append, place, Option.bind_some]
      exact Path.down?_of_below? copy

/-- Where a path leads to something, a graft goes through unless there is an array in the way. -/
theorem Copied.graft_returns (copied : Copied doc done out) (named : "" ∉ names)
    (found : Path.down? doc names = some v) :
    (∃ gs, Fields.graft out names v = .ok gs) ↔ ¬ Blocked out names := by
  constructor
  · rintro ⟨gs, run⟩ ⟨front, segment, rest, xs, rfl, array⟩
    cases Fields.graft_enters run array
  · intro free
    refine Fields.graft_returns (fun front segment rest w goesOn _ held => ?_) v
    by_contra other
    rw [Bool.not_eq_true] at other
    have clear : "" ∉ front := fun blank => named (goesOn ▸ List.mem_append_left _ blank)
    have place := copied.same clear held other
    rw [goesOn, Path.down?_append, place, Option.bind_some] at found
    cases w with
    | object fs => cases other
    | array xs => exact free ⟨front, segment, rest, xs, goesOn, held⟩
    | _ => cases found

/-- **Arrays in the way of a path** behind a graft are those in the way before, and those that have
    come with it. -/
theorem blocked_graft (copied : Copied doc done out) (named : "" ∉ names)
    (present : (Path.found? doc names).isSome = true) (some : front ≠ [])
    (source : Path.down? doc front = .some v) (run : Fields.graft out front v = .ok gs) :
    Blocked gs names ↔ Path.Crosses doc front names ∨ Blocked out names := by
  constructor
  · rintro ⟨before, segment, rest, xs, goesOn, array⟩
    cases before with
    | nil => cases array
    | cons n ls =>
      rcases Fields.graft_below run some array with made | ⟨behind, whole, copy⟩ | kept
      · cases made
      · refine .inl ⟨present, behind, segment, rest, xs, whole ▸ goesOn, ?_⟩
        rw [Path.down?_append, source, Option.bind_some]
        exact Path.down?_of_below? copy
      · exact .inr ⟨n :: ls, segment, rest, xs, goesOn, kept⟩
  · -- The array is there, if it is not behind another one that has come in front of it.
    have blocks {before rest : List String} {segment : String} {xs : List Value}
        (goesOn : names = before ++ segment :: rest)
        (read : Path.down? (.object gs) before = .some (.array xs)) : Blocked gs names := by
      rcases Path.below?_or_array read with array | ⟨first, second, more, ys, earlier, array⟩
      · exact ⟨before, segment, rest, xs, goesOn, array⟩
      · refine ⟨first, second, more ++ segment :: rest, ys, ?_, array⟩
        rw [goesOn, earlier, List.append_assoc, List.cons_append]
    rintro (⟨-, behind, segment, rest, xs, goesOn, array⟩ |
      ⟨before, segment, rest, xs, goesOn, array⟩)
    · have read : Path.down? (.object gs) (front ++ behind) = .some (.array xs) := by
        have copy := Path.down?_of_below? (Fields.below?_graft run some)
        rw [Path.down?_append, source] at array
        rw [Path.down?_append, copy]
        exact array
      exact blocks goesOn read
    · have clear : "" ∉ before := fun blank => named (goesOn ▸ List.mem_append_left _ blank)
      have same := copied.same clear array rfl
      exact blocks goesOn (Fields.graft_keeps run source same (Path.down?_of_below? array))

/-! ## All paths -/

theorem selectPath_missing (valid : Path.Valid doc s)
    (missing : Path.found? doc (Path.namesOf s) = none) (out : Fields) :
    selectPath doc out (.text s) = .ok out := by
  unfold selectPath
  rw [valid.find, missing]
  rfl

theorem selectPath_present (valid : Path.Valid doc s)
    (present : Path.found? doc (Path.namesOf s) = some v) (out : Fields) :
    selectPath doc out (.text s) = Fields.graft out (Path.namesOf s) v := by
  unfold selectPath
  rw [valid.find, present]
  rfl

/-- **Which selections return**: those without an array in the way of a path, be it there at the
    start or from the place of an earlier path. -/
theorem selectAll_returns (valid : ∀ s ∈ ss, Path.Valid doc s) (copied : Copied doc done out) :
    (∃ gs, (ss.map Value.text).foldlM (selectPath doc) out = .ok gs) ↔
      (∀ s ∈ ss, (Path.found? doc (Path.namesOf s)).isSome = true →
        ¬ Blocked out (Path.namesOf s)) ∧
      (ss.map Path.namesOf).Pairwise (¬ Path.Crosses doc · ·) := by
  induction ss generalizing out done with
  | nil => exact iff_of_true ⟨out, rfl⟩ ⟨fun s among => absurd among List.not_mem_nil, .nil⟩
  | cons s rest ih =>
    obtain ⟨first, others⟩ := List.forall_mem_cons.1 valid
    rw [List.map_cons, List.foldlM_cons, List.map_cons, List.pairwise_cons, List.forall_mem_cons,
      List.forall_mem_map]
    cases here : Path.found? doc (Path.namesOf s) with
    | none =>
      rw [selectPath_missing first here]
      refine (ih others copied).trans
        ⟨fun ⟨free, apart⟩ => ?_, fun ⟨⟨_, free⟩, _, apart⟩ => ⟨free, apart⟩⟩
      refine ⟨⟨fun present => Bool.noConfusion present, free⟩, fun t _ crosses => ?_, apart⟩
      have present := crosses.isSome
      rw [here] at present
      cases present
    | some v =>
      obtain ⟨source, -⟩ := Path.found?_eq_some.1 here
      have named := (Path.split_ok first.split).2
      rw [selectPath_present first here]
      cases run : Fields.graft out (Path.namesOf s) v with
      | error fault =>
        refine iff_of_false (by rintro ⟨_, ⟨⟩⟩) fun ⟨⟨free, _⟩, _⟩ => ?_
        obtain ⟨gs, returns⟩ := (copied.graft_returns named source).2 (free rfl)
        rw [run] at returns
        cases returns
      | ok gs =>
        have free := (copied.graft_returns named source).1 ⟨gs, run⟩
        refine (ih others (copied.graft first.some (.inr source) run)).trans ?_
        have blocked (t : String) (among : t ∈ rest)
            (present : (Path.found? doc (Path.namesOf t)).isSome = true) :=
          blocked_graft copied (Path.split_ok (others t among).split).2 present first.some source
            run
        constructor
        · rintro ⟨clear, apart⟩
          refine ⟨⟨fun _ => free, fun t among present array => ?_⟩, fun t among crosses => ?_,
            apart⟩
          · exact clear t among present ((blocked t among present).2 (.inr array))
          · exact clear t among crosses.1 ((blocked t among crosses.1).2 (.inl crosses))
        · rintro ⟨⟨-, clear⟩, uncrossed, apart⟩
          refine ⟨fun t among present array => ?_, apart⟩
          rcases (blocked t among present).1 array with crosses | before
          · exact uncrossed t among crosses
          · exact clear t among present before

/-- What one selected path leaves. -/
theorem selectPath_ok (valid : Path.Valid doc s)
    (run : selectPath doc out (.text s) = .ok gs) :
    (Path.found? doc (Path.namesOf s) = none ∧ gs = out) ∨
      ∃ v, Path.found? doc (Path.namesOf s) = some v ∧
        Fields.graft out (Path.namesOf s) v = .ok gs := by
  cases here : Path.found? doc (Path.namesOf s) with
  | none =>
    rw [selectPath_missing valid here] at run
    exact .inl ⟨rfl, (Except.ok.inj run).symm⟩
  | some v =>
    rw [selectPath_present valid here] at run
    exact .inr ⟨v, rfl, run⟩

/-- **A selection keeps what is read as in the document.** -/
theorem selectAll_keeps (valid : ∀ s ∈ ss, Path.Valid doc s)
    (run : (ss.map Value.text).foldlM (selectPath doc) out = .ok gs)
    (same : Path.down? doc front = some w) (read : Path.down? (.object out) front = some w) :
    Path.down? (.object gs) front = some w := by
  induction ss generalizing out with
  | nil =>
    cases run
    exact read
  | cons s rest ih =>
    obtain ⟨first, others⟩ := List.forall_mem_cons.1 valid
    rw [List.map_cons, List.foldlM_cons] at run
    obtain ⟨next, step, run⟩ := bind_eq_ok.1 run
    refine ih others run ?_
    rcases selectPath_ok first step with ⟨-, rfl⟩ | ⟨v, present, graft⟩
    · exact read
    · exact Fields.graft_keeps graft (Path.found?_eq_some.1 present).1 same read

/-- What a selected path leads to is read there. -/
theorem selectAll_reads (valid : ∀ s ∈ ss, Path.Valid doc s)
    (run : (ss.map Value.text).foldlM (selectPath doc) out = .ok gs) (among : s ∈ ss)
    (present : Path.found? doc (Path.namesOf s) = some v) :
    Path.down? (.object gs) (Path.namesOf s) = some v := by
  induction ss generalizing out with
  | nil => cases among
  | cons t rest ih =>
    obtain ⟨first, others⟩ := List.forall_mem_cons.1 valid
    rw [List.map_cons, List.foldlM_cons] at run
    obtain ⟨next, step, more⟩ := bind_eq_ok.1 run
    rcases List.mem_cons.1 among with rfl | later
    · refine selectAll_keeps others more (Path.found?_eq_some.1 present).1 ?_
      rw [selectPath_present first present] at step
      exact Path.down?_of_below? (Fields.below?_graft step first.some)
    · exact ih others more later

/-- The fields of a selection are named by paths that lead to something. -/
theorem selectAll_named (valid : ∀ s ∈ ss, Path.Valid doc s)
    {n : String} (held : n ∈ Fields.names gs)
    (run : (ss.map Value.text).foldlM (selectPath doc) out = .ok gs) : n ∈ Fields.names out ∨
      ∃ s ∈ ss, (Path.found? doc (Path.namesOf s)).isSome = true ∧
        Path.top (.text s) = .ok n := by
  induction ss generalizing out with
  | nil =>
    cases run
    exact .inl held
  | cons s rest ih =>
    obtain ⟨first, others⟩ := List.forall_mem_cons.1 valid
    rw [List.map_cons, List.foldlM_cons] at run
    obtain ⟨next, step, run⟩ := bind_eq_ok.1 run
    rcases ih others run with before | ⟨t, among, origin⟩
    · rcases selectPath_ok first step with ⟨-, rfl⟩ | ⟨v, present, graft⟩
      · exact .inl before
      · have splits := first.split
        obtain ⟨m, more, segments⟩ := List.exists_cons_of_ne_nil first.some
        rw [segments] at graft splits
        rcases Fields.names_graft graft before with rfl | kept
        · refine .inr ⟨s, List.mem_cons_self, by rw [present]; rfl, ?_⟩
          unfold Path.top
          rw [splits]
          rfl
        · exact .inl kept
    · exact .inr ⟨t, List.mem_cons_of_mem s among, origin⟩

theorem not_blocked_nil : ¬ Blocked [] names := by
  rintro ⟨front, segment, rest, xs, -, array⟩
  cases front <;> cases array

/-- **A projection starts** with a copy of the identifier. -/
theorem identifierOf_starts (idField : String) (fs : Fields) :
    ∃ out, identifierOf idField (.object fs) = .ok out ∧
      Copied (.object fs) [[idField]] out ∧ (∀ n ∈ Fields.names out, n = idField) ∧
      ∀ names, "" ∉ names → (Path.found? (.object fs) names).isSome = true →
        (Blocked out names ↔ Path.Crosses (.object fs) [idField] names) := by
  have starts : identifierOf idField (.object fs) =
      if Fields.has fs idField = true then .ok [(idField, Fields.getD fs idField)]
      else .ok [] := rfl
  have nothing (done : List (List String)) : Copied (.object fs) done [] := by
    intro n ls x held
    cases held
  have place := Path.down?_object fs idField []
  rw [starts]
  cases here : Fields.get? fs idField with
  | none =>
    rw [if_neg (by simp [Fields.has, here])]
    refine ⟨[], rfl, nothing _, fun n held => absurd held List.not_mem_nil, fun names _ _ => ?_⟩
    refine iff_of_false not_blocked_nil fun crosses => ?_
    have present := crosses.isSome
    rw [Path.found?, place, here] at present
    cases present
  | some v =>
    rw [if_pos (by simp [Fields.has, here]), Fields.getD, here, Option.getD_some]
    rw [here] at place
    have run : Fields.graft [] [idField] v = .ok [(idField, v)] := rfl
    refine ⟨_, rfl, (nothing []).graft (by simp) (.inr place) run, ?_,
      fun names named present => ?_⟩
    · intro n held
      exact List.mem_singleton.1 held
    · rw [blocked_graft (nothing []) named present (by simp) place run]
      exact or_iff_left not_blocked_nil

/-- **Projections read back.** A projection to valid paths returns exactly if no path crosses an
    earlier one or the identifier. It then has at each path what the document has there, and no
    fields but the identifier and those that the paths begin with. -/
theorem project_reads_back {idField : String} (nonempty : ss ≠ [])
    (valid : ∀ s ∈ ss, Path.Valid (.object fs) s) :
    ((∃ out, project idField (.object fs) (.array (ss.map .text)) = .ok out) ↔
        ([idField] :: ss.map Path.namesOf).Pairwise (¬ Path.Crosses (.object fs) · ·)) ∧
      ∀ out, project idField (.object fs) (.array (ss.map .text)) = .ok out →
        (∀ s ∈ ss, ∀ v, Path.find? (.object fs) (.text s) = .ok (some v) →
          Path.read? (.object out) (.text s) = Path.read? (.object fs) (.text s)) ∧
        ∀ n ∈ Fields.names out, n = idField ∨
          ∃ s ∈ ss, (∃ v, Path.find? (.object fs) (.text s) = .ok (some v)) ∧
            Path.top (.text s) = .ok n := by
  obtain ⟨start, identifier, copied, own, blocked⟩ := identifierOf_starts idField fs
  have whole : project idField (.object fs) (.array (ss.map .text)) =
      (ss.map Value.text).foldlM (selectPath (.object fs)) start := by
    have truthy : (Value.array (ss.map .text)).truthy = true := by
      obtain ⟨s, rest, rfl⟩ := List.exists_cons_of_ne_nil nonempty
      rfl
    unfold project
    rw [if_pos truthy, Value.members_array, identifier]
    rfl
  rw [whole]
  refine ⟨?_, fun out run => ⟨fun s among v found => ?_, fun n held => ?_⟩⟩
  · rw [selectAll_returns valid copied, List.pairwise_cons, List.forall_mem_map]
    refine and_congr_left fun _ => forall₂_congr fun s among => ?_
    have named := (Path.split_ok (valid s among).split).2
    constructor
    · exact fun free crosses =>
        free crosses.1 ((blocked _ named crosses.1).2 crosses)
    · exact fun uncrossed present array =>
        uncrossed ((blocked _ named present).1 array)
  · have splits := (valid s among).split
    rw [(valid s among).find, Except.ok.injEq] at found
    have read := selectAll_reads valid run among found
    rw [Path.read?_eq splits, Path.read?_eq splits, Path.down?_eq_some.1 read,
      Path.down?_eq_some.1 (Path.found?_eq_some.1 found).1]
  · rcases selectAll_named valid held run with before | ⟨s, among, present, top⟩
    · exact .inl (own n before)
    · obtain ⟨v, found⟩ := Option.isSome_iff_exists.1 present
      refine .inr ⟨s, among, ⟨v, ?_⟩, top⟩
      rw [(valid s among).find, found]

/-- An item, and the array that it lies in. -/
theorem project_reads_back_item_first :
    let fs : Fields := [("_id", .text "e"), ("xs", .array [.int 1, .int 2])]
    ∃ out, project "_id" (.object fs) (.array [.text "xs.0", .text "xs"]) = .ok out ∧
      Path.read? (.object out) (.text "xs.0") = Path.read? (.object fs) (.text "xs.0") := by
  intro fs
  have valid : ∀ s ∈ ["xs.0", "xs"], Path.Valid (.object fs) s := by
    intro s among
    rcases List.mem_pair.1 among with rfl | rfl
    · exact ⟨⟨_, rfl⟩, _, rfl⟩
    · exact ⟨⟨_, rfl⟩, _, rfl⟩
  obtain ⟨out, run⟩ : ∃ out,
      project "_id" (.object fs) (.array (["xs.0", "xs"].map .text)) = .ok out := ⟨_, rfl⟩
  obtain ⟨-, reads⟩ := project_reads_back (by simp) valid
  exact ⟨out, run, (reads out run).1 "xs.0" List.mem_cons_self (.int 1) rfl⟩

/-- With the array first, there is no projection to the item. -/
theorem project_blocked :
    let doc : Value := .object [("xs", .array [.int 1, .int 2])]
    Path.Valid doc "xs" ∧ Path.Valid doc "xs.0" ∧
      project "_id" doc (.array [.text "xs", .text "xs.0"]) =
        .error (.notAssignable (.array [.int 1, .int 2])) := by
  intro doc
  exact ⟨⟨⟨_, rfl⟩, _, rfl⟩, ⟨⟨_, rfl⟩, _, rfl⟩, rfl⟩

end Projection

end DocRepair

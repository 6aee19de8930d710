import DocRepair.Proofs.Everywhere
import DocRepair.Proofs.Rewritten
/-!
# `DocRepair.Proofs.Without` — a document without some of its values

Several values are taken out of a document at once: each is named by its location in the document as
it is, and what stays of an array moves up. Removals one after the other do something else, as each
of them is at a location of the document that the ones before have left. Here the two are related. A
removal followed by others is a removal of all at once, if the locations of the others are told as
they were before the first: an index that is not before the removed one was higher by one.

## Contents

* `Value.prune` / `Value.without` — the document without all values at some locations;
* `Value.prune_congr` — only locations count that do not lie below others;
* `Key.lowered` / `Key.raised`, `Location.lowered` / `Location.raised` — where a value lies when
  another one has been removed, and where it lay before;
* `Value.Distinct` — objects at any depth whose fields have different names;
* `Place.prune_drop` / `Place.without_drop` — first one removal, then others;
* `Place.prune_put` / `Place.without_put` — a value that was written is removed again.
-/

namespace DocRepair

namespace Value

/-! ## Taking values out -/

mutual

/-- The document without the values at all locations that a test marks. The root is not tested. -/
def prune (gone : Location → Bool) : Value → Value
  | .array xs => .array (pruneItems gone 0 xs)
  | .object fs => .object (pruneFields gone fs)
  | v => v

/-- Items that stay, where the first one has a certain index. -/
def pruneItems (gone : Location → Bool) (i : Nat) : List Value → List Value
  | [] => []
  | x :: rest =>
    if gone [.index i] then pruneItems gone (i + 1) rest
    else prune (fun w => gone (.index i :: w)) x :: pruneItems gone (i + 1) rest

/-- Fields that stay. -/
def pruneFields (gone : Location → Bool) : List (String × Value) → List (String × Value)
  | [] => []
  | (n, v) :: rest =>
    if gone [.field n] then pruneFields gone rest
    else (n, prune (fun w => gone (.field n :: w)) v) :: pruneFields gone rest

end

/-- The document without the values at the locations listed. -/
def without (doc : Value) (ways : List Location) : Value :=
  doc.prune fun w => decide (w ∈ ways)

variable {c doc next v : Value} {F G : Location → Bool} {k m : Key}

theorem prune_scalar (scalar : v.isContainer = false) (gone : Location → Bool) :
    v.prune gone = v := by
  cases v with
  | array xs => cases scalar
  | object fs => cases scalar
  | _ => rfl

/-! ### Which locations count -/

/-- Two tests agree on all locations that have nothing marked above them. -/
def Agree (F G : Location → Bool) : Prop :=
  ∀ w, w ≠ [] → (∀ a b, w = a ++ b → a ≠ [] → b ≠ [] → F a = false) → F w = G w

theorem Agree.key (agree : Agree F G) (k : Key) : F [k] = G [k] := by
  refine agree [k] (List.cons_ne_nil k []) fun a b parts left right => ?_
  cases a with
  | nil => exact absurd rfl left
  | cons m a =>
    obtain ⟨_, parts⟩ := List.cons.inj parts
    exact absurd (List.append_eq_nil_iff.1 parts.symm).2 right

theorem Agree.below (agree : Agree F G) (stays : F [k] = false) :
    Agree (fun w => F (k :: w)) fun w => G (k :: w) := by
  intro w some above
  refine agree (k :: w) (List.cons_ne_nil k w) fun a b parts left right => ?_
  cases a with
  | nil => exact absurd rfl left
  | cons m a =>
    obtain ⟨rfl, rfl⟩ := List.cons.inj parts
    cases a with
    | nil => exact stays
    | cons l a => exact above (l :: a) b rfl (List.cons_ne_nil l a) right

/-- **Only locations count that do not lie below others.** -/
theorem prune_congr (agree : Agree F G) : doc.prune F = doc.prune G := by
  induction doc using containers generalizing F G with
  | scalar v scalar => rw [prune_scalar scalar, prune_scalar scalar]
  | array xs ih =>
    rw [prune, prune]
    congr 1
    -- The items are numbered from any index, as the rest of them starts one further up.
    generalize 0 = i
    induction xs generalizing i with
    | nil => rfl
    | cons x rest others =>
      have more := others (fun y among => ih y (List.mem_cons_of_mem x among)) (i + 1)
      have same := agree.key (.index i)
      rw [pruneItems, pruneItems, more, same]
      cases stays : F [.index i] with
      | true => rw [if_pos (same ▸ stays), if_pos (same ▸ stays)]
      | false =>
        rw [ih x List.mem_cons_self (agree.below stays)]
  | object fs ih =>
    rw [prune, prune]
    congr 1
    induction fs with
    | nil => rfl
    | cons f rest others =>
      obtain ⟨n, v⟩ := f
      have more := others fun g among => ih g (List.mem_cons_of_mem _ among)
      have same := agree.key (.field n)
      rw [pruneFields, pruneFields, more, same]
      cases stays : F [.field n] with
      | true => rw [if_pos (same ▸ stays), if_pos (same ▸ stays)]
      | false => rw [ih (n, v) List.mem_cons_self (agree.below stays)]

theorem prune_nothing (doc : Value) : doc.prune (fun _ => false) = doc := by
  induction doc using containers with
  | scalar v scalar => exact prune_scalar scalar _
  | array xs ih =>
    rw [prune]
    congr 1
    generalize 0 = i
    induction xs generalizing i with
    | nil => rfl
    | cons x rest others =>
      have more := others (fun y among => ih y (List.mem_cons_of_mem x among)) (i + 1)
      rw [pruneItems, if_neg Bool.false_ne_true, more, ih x List.mem_cons_self]
  | object fs ih =>
    rw [prune]
    congr 1
    induction fs with
    | nil => rfl
    | cons f rest others =>
      obtain ⟨n, v⟩ := f
      have more := others fun g among => ih g (List.mem_cons_of_mem _ among)
      rw [pruneFields, if_neg Bool.false_ne_true, more, ih (n, v) List.mem_cons_self]

theorem without_nil (doc : Value) : doc.without [] = doc := by
  have none : (fun w : Location => decide (w ∈ ([] : List Location))) = fun _ => false := by
    funext w
    exact decide_eq_false List.not_mem_nil
  unfold without
  rw [none]
  exact prune_nothing doc

/-- **The same is left** if locations are listed in one list only that have another above them. -/
theorem without_congr {ways ways' : List Location}
    (same : ∀ w, (∀ a b, w = a ++ b → a ≠ [] → b ≠ [] → a ∉ ways) → (w ∈ ways ↔ w ∈ ways')) :
    doc.without ways = doc.without ways' := by
  refine prune_congr fun w _ above => decide_eq_decide.2 (same w fun a b parts left right => ?_)
  exact of_decide_eq_false (above a b parts left right)

example : (Value.object [("xs", .array [.int 1, .int 2, .int 3])]).without
    [[.field "xs", .index 0], [.field "xs", .index 2]] = .object [("xs", .array [.int 2])] := rfl

/-! ### Items and fields one by one -/

/-- Two tests agree on what lies at a key or below, in one document at one key and in the other at
    another. -/
def AgreeAt (F : Location → Bool) (k : Key) (G : Location → Bool) (m : Key) : Prop :=
  ∀ w, F (k :: w) = G (m :: w)

theorem pruneItems_shift {xs : List Value} {i j : Nat}
    (same : ∀ n, AgreeAt F (.index (i + n)) G (.index (j + n))) :
    pruneItems F i xs = pruneItems G j xs := by
  induction xs generalizing i j with
  | nil => rfl
  | cons x rest ih =>
    have first : AgreeAt F (.index i) G (.index j) := same 0
    have others : pruneItems F (i + 1) rest = pruneItems G (j + 1) rest := by
      refine ih fun n => ?_
      have next := same (n + 1)
      rwa [← Nat.add_assoc, ← Nat.add_assoc, Nat.add_right_comm, Nat.add_right_comm j] at next
    have below : (fun w => F (.index i :: w)) = fun w => G (.index j :: w) := funext first
    rw [pruneItems, pruneItems, others, first [], below]

theorem pruneItems_set {xs : List Value} {i n : Nat} (held : xs[n]? = some c)
    (own : G [.index (i + n)] = F [.index (i + n)])
    (inside : next.prune (fun w => G (.index (i + n) :: w)) =
      c.prune fun w => F (.index (i + n) :: w))
    (others : ∀ m, m ≠ i + n → AgreeAt G (.index m) F (.index m)) :
    pruneItems G i (xs.set n next) = pruneItems F i xs := by
  induction xs generalizing i n with
  | nil => cases held
  | cons x rest ih =>
    cases n with
    | zero =>
      cases held
      have behind : pruneItems G (i + 1) rest = pruneItems F (i + 1) rest :=
        pruneItems_shift fun m => others _ (by omega)
      rw [List.set_cons_zero, pruneItems, pruneItems, behind]
      simp only [Nat.add_zero] at own inside
      rw [own, inside]
    | succ n =>
      have first : AgreeAt G (.index i) F (.index i) := others i (by omega)
      have below : (fun w => G (.index i :: w)) = fun w => F (.index i :: w) := funext first
      have same : i + (n + 1) = i + 1 + n := by omega
      rw [same] at own inside others
      rw [List.set_cons_succ, pruneItems, pruneItems, ih held own inside others, first [], below]

/-- An item that is marked does not count, whatever it is. -/
theorem pruneItems_assign {xs ys : List Value} {i n : Nat} (gone : F [.index (i + n)] = true)
    (run : ys = xs.set n v ∨ n = xs.length ∧ ys = xs ++ [v]) :
    pruneItems F i ys = pruneItems F i xs := by
  induction xs generalizing i n ys with
  | nil =>
    rcases run with rfl | ⟨rfl, rfl⟩
    · rfl
    · have here : F [.index i] = true := gone
      simp only [List.nil_append, pruneItems, here, if_true]
  | cons x rest ih =>
    cases n with
    | zero =>
      have here : F [.index i] = true := gone
      rcases run with rfl | ⟨none, _⟩
      · rw [List.set_cons_zero, pruneItems, pruneItems, if_pos here, if_pos here]
      · cases none
    | succ n =>
      have same : i + (n + 1) = i + 1 + n := by omega
      rw [same] at gone
      rcases run with rfl | ⟨last, rfl⟩
      · rw [List.set_cons_succ, pruneItems, pruneItems, ih gone (.inl rfl)]
      · have last : n = rest.length := Nat.succ.inj last
        rw [List.cons_append, pruneItems, pruneItems, ih gone (.inr ⟨last, rfl⟩)]

/-- What lies behind an item that was removed is one place further up. -/
theorem pruneItems_eraseIdx {xs : List Value} {i n : Nat} (inside : n < xs.length)
    (gone : F [.index (i + n)] = true)
    (before : ∀ m < i + n, AgreeAt G (.index m) F (.index m))
    (behind : ∀ m, i + n ≤ m → AgreeAt G (.index m) F (.index (m + 1))) :
    pruneItems G i (xs.eraseIdx n) = pruneItems F i xs := by
  induction xs generalizing i n with
  | nil => cases inside
  | cons x rest ih =>
    cases n with
    | zero =>
      have here : F [.index i] = true := gone
      simp only [List.eraseIdx_cons_zero, pruneItems, here, if_true]
      refine pruneItems_shift fun m => ?_
      rw [Nat.add_right_comm]
      exact behind (i + m) (Nat.le_add_right i m)
    | succ n =>
      have first : AgreeAt G (.index i) F (.index i) := before i (by omega)
      have below : (fun w => G (.index i :: w)) = fun w => F (.index i :: w) := funext first
      have same : i + (n + 1) = i + 1 + n := by omega
      rw [same] at gone before behind
      rw [List.eraseIdx_cons_succ, pruneItems, pruneItems,
        ih (Nat.lt_of_succ_lt_succ inside) gone before behind, first [], below]

section Fields

variable {fs : Fields} {n : String}

theorem pruneFields_same (same : ∀ m ∈ Fields.names fs, AgreeAt G (.field m) F (.field m)) :
    pruneFields G fs = pruneFields F fs := by
  induction fs with
  | nil => rfl
  | cons f rest ih =>
    obtain ⟨m, w⟩ := f
    have first : AgreeAt G (.field m) F (.field m) := same m List.mem_cons_self
    have below : (fun w => G (.field m :: w)) = fun w => F (.field m :: w) := funext first
    have others := ih fun l among => same l (List.mem_cons_of_mem m among)
    rw [pruneFields, pruneFields, others, first [], below]

theorem pruneFields_set (distinct : Fields.Distinct fs) (held : Fields.get? fs n = some c)
    (own : G [.field n] = F [.field n])
    (inside : next.prune (fun w => G (.field n :: w)) = c.prune fun w => F (.field n :: w))
    (others : ∀ m, m ≠ n → AgreeAt G (.field m) F (.field m)) :
    pruneFields G (Fields.set fs n next) = pruneFields F fs := by
  induction fs with
  | nil => cases held
  | cons f rest ih =>
    obtain ⟨m, w⟩ := f
    obtain ⟨fresh, more⟩ := List.nodup_cons.1 distinct
    unfold Fields.get? at held
    unfold Fields.set
    split at held
    · rename_i same
      cases held
      subst same
      have behind : pruneFields G rest = pruneFields F rest := by
        refine pruneFields_same fun l among => others l ?_
        rintro rfl
        exact fresh among
      rw [if_pos rfl, pruneFields, pruneFields, behind, own, inside]
    · rename_i other
      have first : AgreeAt G (.field m) F (.field m) := others m other
      have below : (fun w => G (.field m :: w)) = fun w => F (.field m :: w) := funext first
      rw [if_neg other, pruneFields, pruneFields, ih more held, first [], below]

/-- A field that is marked does not count, whatever it holds. -/
theorem pruneFields_assign (gone : F [.field n] = true) (v : Value) :
    pruneFields F (Fields.set fs n v) = pruneFields F fs := by
  induction fs with
  | nil => simp only [Fields.set, pruneFields, gone, if_true]
  | cons f rest ih =>
    obtain ⟨m, w⟩ := f
    unfold Fields.set
    split
    · rename_i same
      subst same
      rw [pruneFields, pruneFields, if_pos gone, if_pos gone]
    · rw [pruneFields, pruneFields, ih]

theorem pruneFields_erase (distinct : Fields.Distinct fs) (gone : F [.field n] = true)
    (others : ∀ m, m ≠ n → AgreeAt G (.field m) F (.field m)) :
    pruneFields G (Fields.erase fs n) = pruneFields F fs := by
  induction fs with
  | nil => rfl
  | cons f rest ih =>
    obtain ⟨m, w⟩ := f
    obtain ⟨fresh, more⟩ := List.nodup_cons.1 distinct
    unfold Fields.erase
    split
    · rename_i same
      subst same
      rw [pruneFields, if_pos gone]
      refine pruneFields_same fun l among => others l ?_
      rintro rfl
      exact fresh among
    · rename_i other
      have first : AgreeAt G (.field m) F (.field m) := others m other
      have below : (fun w => G (.field m :: w)) = fun w => F (.field m :: w) := funext first
      rw [pruneFields, pruneFields, ih more, first [], below]

end Fields

/-! ### Children -/

theorem prune_setChild (distinct : c.Distinct) (held : c.child? k = some v)
    (own : G [k] = F [k])
    (inside : next.prune (fun w => G (k :: w)) = v.prune fun w => F (k :: w))
    (others : ∀ m, m ≠ k → AgreeAt G m F m) : (c.setChild k next).prune G = c.prune F := by
  unfold child? at held
  split at held
  · refine congrArg object (pruneFields_set distinct.here held own inside fun m other => ?_)
    exact others (.field m) fun same => other (Key.field.inj same)
  · rename_i xs i
    refine congrArg array ?_
    rw [← Nat.zero_add i] at own inside others
    refine pruneItems_set held own inside fun m other => ?_
    exact others (.index m) fun same => other (Key.index.inj same)
  · cases held

/-- What is written under a marked key does not count. -/
theorem prune_assign (gone : F [k] = true) (run : c.assign k v = .ok next) :
    next.prune F = c.prune F := by
  unfold assign at run
  split at run
  · cases run
    exact congrArg object (pruneFields_assign gone v)
  · rename_i xs i
    rw [← Nat.zero_add i] at gone
    split at run
    · cases run
      exact congrArg array (pruneItems_assign gone (.inl rfl))
    · split at run
      · rename_i last
        cases run
        exact congrArg array (pruneItems_assign gone (.inr ⟨last, rfl⟩))
      · cases run
  · cases run

end Value

/-! ## Keys behind a removed one -/

namespace Key

/-- The key under which an item lies after the removal of what lay under another: items behind it
    move up. -/
def lowered : Key → Key → Key
  | .index i, .index j => .index (if i < j then j - 1 else j)
  | _, m => m

/-- The key under which an item lay before the removal. -/
def raised : Key → Key → Key
  | .index i, .index j => .index (if i ≤ j then j + 1 else j)
  | _, m => m

variable {k l m : Key}

theorem lowered_eq_iff (other : m ≠ k) : k.lowered m = l ↔ m = k.raised l := by
  cases k with
  | field n => exact Iff.rfl
  | index i =>
    cases m with
    | field n =>
      cases l with
      | field o => exact Iff.rfl
      | index j => exact ⟨fun same => (nomatch same), fun same => (nomatch same)⟩
    | index j =>
      have apart : j ≠ i := fun same => other (congrArg Key.index same)
      cases l with
      | field o => exact ⟨fun same => (nomatch same), fun same => (nomatch same)⟩
      | index o =>
        simp only [lowered, raised, Key.index.injEq]
        split <;> split <;> omega

/-- A key that lies at an index of an array, not before another one. -/
def Behind (k m : Key) : Prop :=
  ∃ i j, k = .index i ∧ m = .index j ∧ i ≤ j

theorem lowered_of_not_behind (before : ¬ k.Behind m) : k.lowered m = m := by
  cases k with
  | field n => rfl
  | index i =>
    cases m with
    | field n => rfl
    | index j =>
      have less : ¬ i < j := fun less => before ⟨i, j, rfl, rfl, Nat.le_of_lt less⟩
      simp only [lowered, if_neg less]

theorem raised_of_not_behind (before : ¬ k.Behind m) : k.raised m = m := by
  cases k with
  | field n => rfl
  | index i =>
    cases m with
    | field n => rfl
    | index j =>
      have less : ¬ i ≤ j := fun less => before ⟨i, j, rfl, rfl, less⟩
      simp only [raised, if_neg less]

end Key

namespace Location

/-- Where a value lies after the removal of what lay at another location. -/
def lowered : Location → Location → Location
  | [k], m :: u => k.lowered m :: u
  | k :: l :: w, m :: u => if k = m then m :: lowered (l :: w) u else m :: u
  | _, u => u

/-- Where a value lay before the removal. -/
def raised : Location → Location → Location
  | [k], m :: u => k.raised m :: u
  | k :: l :: w, m :: u => if k = m then m :: raised (l :: w) u else m :: u
  | _, u => u

theorem lowered_nil (w : Location) : lowered w [] = [] := by
  cases w with
  | nil => rfl
  | cons k w => cases w <;> rfl

theorem raised_nil (w : Location) : raised w [] = [] := by
  cases w with
  | nil => rfl
  | cons k w => cases w <;> rfl

section

variable {k m : Key} {w u : Location}

/-- A removal further down moves nothing under other keys, and under its own what it moves there. -/
theorem lowered_cons (further : w ≠ []) :
    lowered (k :: w) (m :: u) = if k = m then m :: lowered w u else m :: u := by
  obtain ⟨l, rest, rfl⟩ := List.exists_cons_of_ne_nil further
  rfl

theorem raised_cons (further : w ≠ []) :
    raised (k :: w) (m :: u) = if k = m then m :: raised w u else m :: u := by
  obtain ⟨l, rest, rfl⟩ := List.exists_cons_of_ne_nil further
  rfl

end

/-- An item behind the removed one had a higher index. -/
theorem raised_behind {i j : Nat} (behind : i ≤ j) (array more : Location) :
    raised (array ++ [.index i]) (array ++ .index j :: more) = array ++ .index (j + 1) :: more := by
  induction array with
  | nil =>
    show (Key.index i).raised (.index j) :: more = _
    simp only [Key.raised, if_pos behind, List.nil_append]
  | cons k array ih =>
    have further : array ++ [Key.index i] ≠ [] := by simp
    rw [List.cons_append, List.cons_append, List.cons_append, raised_cons further, if_pos rfl, ih]

/-- A location that is not the removed one nor below it comes from where it lay before. -/
theorem lowered_eq_iff {w u a : Location} (apart : ∀ rest, u ≠ w ++ rest) :
    lowered w u = a ↔ u = raised w a := by
  induction w generalizing u a with
  | nil => exact absurd rfl (apart u)
  | cons k w ih =>
    cases w with
    | nil =>
      cases u with
      | nil => cases a <;> simp [lowered, raised]
      | cons m u =>
        have other : m ≠ k := fun same => apart u (same ▸ rfl)
        cases a with
        | nil => simp [lowered, raised]
        | cons n a => simp only [lowered, raised, List.cons.injEq, Key.lowered_eq_iff other]
    | cons l w =>
      -- The removal is further down: it reaches only what lies under the same first key.
      cases u with
      | nil =>
        cases a with
        | nil => simp [lowered, raised]
        | cons n a => by_cases own : k = n <;> simp [lowered, raised, own]
      | cons m u =>
        by_cases same : k = m
        · subst same
          have below : ∀ rest, u ≠ l :: w ++ rest := fun rest ends => apart rest (by rw [ends]; rfl)
          cases a with
          | nil => simp [lowered, raised]
          | cons n a => by_cases own : k = n <;> simp [lowered, raised, own, ih below]
        · cases a with
          | nil => simp [lowered, raised, same]
          | cons n a =>
            by_cases own : k = n
            · subst own
              have differs : m ≠ k := fun equal => same equal.symm
              simp [lowered, raised, same, differs]
            · simp [lowered, raised, same, own]

end Location

namespace Value

variable {c v : Value} {k m : Key} {G : Location → Bool}

theorem child?_remove_of (held : c.child? m = some v) (other : m ≠ k) :
    (c.remove k).child? (k.lowered m) = some v := by
  cases c with
  | object fs =>
    cases k with
    | index i => cases m <;> exact held
    | field n =>
      cases m with
      | index j => exact held
      | field o =>
        have apart : o ≠ n := fun same => other (congrArg Key.field same)
        exact (Fields.get?_erase_ne fs apart).trans held
  | array xs =>
    cases k with
    | field n => exact held
    | index i =>
      cases m with
      | field o => cases held
      | index j =>
        have apart : j ≠ i := fun same => other (congrArg Key.index same)
        show (xs.eraseIdx i)[if i < j then j - 1 else j]? = some v
        have found : xs[j]? = some v := held
        rw [List.getElem?_eraseIdx]
        split
        · rename_i behind
          rw [if_neg (by omega), Nat.sub_add_cancel (by omega)]
          exact found
        · rw [if_pos (by omega)]
          exact found
  | _ =>
    rw [child?_leaf rfl] at held
    cases held

/-- What lies in a container after a removal lay there before, under another key than the removed
    one. -/
theorem child?_of_remove (distinct : c.Distinct) (held : (c.remove k).child? m = some v) :
    c.child? (k.raised m) = some v ∧ k.raised m ≠ k := by
  cases c with
  | object fs =>
    cases m with
    | index j => cases k <;> cases held
    | field o =>
      cases k with
      | index i => exact ⟨held, fun same => nomatch same⟩
      | field n =>
        have found : Fields.get? (Fields.erase fs n) o = some v := held
        have own : Fields.get? (Fields.erase fs n) n = none :=
          Fields.get?_erase_self distinct.here n
        have apart : o ≠ n := by
          rintro rfl
          rw [own] at found
          cases found
        rw [Fields.get?_erase_ne fs apart] at found
        exact ⟨found, fun same => apart (Key.field.inj same)⟩
  | array xs =>
    cases m with
    | field o => cases k <;> cases held
    | index j =>
      cases k with
      | field n => exact ⟨held, fun same => nomatch same⟩
      | index i =>
        have found : (xs.eraseIdx i)[j]? = some v := held
        rw [List.getElem?_eraseIdx] at found
        by_cases behind : i ≤ j
        · rw [if_neg (Nat.not_lt.2 behind)] at found
          simp only [Key.raised, if_pos behind]
          exact ⟨found, fun same => by cases same; omega⟩
        · rw [if_pos (Nat.not_le.1 behind)] at found
          simp only [Key.raised, if_neg behind]
          exact ⟨found, fun same => by cases same; omega⟩
  | _ =>
    rw [remove_leaf rfl, child?_leaf rfl] at held
    cases held

theorem Distinct.remove (distinct : c.Distinct) (k : Key) : (c.remove k).Distinct := by
  refine Everywhere.of_children ?_ fun m next held => ?_
  · cases c with
    | object fs =>
      cases k with
      | field n => exact distinct.here.erase n
      | index i => exact distinct.here
    | _ =>
      have none : Fields.Distinct [] := List.nodup_nil
      cases k <;> exact none
  · exact distinct.child (child?_of_remove distinct held).1

/-- First what lies under a key is removed, then others. -/
theorem prune_remove (distinct : c.Distinct) (held : c.child? k = some v) (G : Location → Bool) :
    (c.remove k).prune G = c.prune fun w => decide (w = [k]) || G (Location.lowered [k] w) := by
  have gone : (decide ([k] = [k]) || G (Location.lowered [k] [k])) = true := by simp
  unfold child? at held
  split at held
  · rename_i n
    refine congrArg object (pruneFields_erase distinct.here gone fun m other w => ?_)
    have apart : [Key.field n] ≠ .field m :: w := fun same => other (by cases same; rfl)
    simp [Location.lowered, Key.lowered, apart.symm]
  · rename_i xs i
    obtain ⟨inside, _⟩ := List.getElem?_eq_some_iff.1 held
    refine congrArg array
      (pruneItems_eraseIdx inside ?_ (fun m before w => ?_) fun m behind w => ?_)
    · rw [Nat.zero_add]
      exact gone
    · rw [Nat.zero_add] at before
      have apart : [Key.index i] ≠ .index m :: w := fun same => by cases same; omega
      have kept : ¬ i < m := by omega
      simp [Location.lowered, Key.lowered, apart.symm, kept]
    · rw [Nat.zero_add] at behind
      have apart : [Key.index i] ≠ .index (m + 1) :: w := fun same => by cases same; omega
      have moved : i < m + 1 := by omega
      simp [Location.lowered, Key.lowered, apart.symm, moved]
  · cases held

end Value

/-! ## Places -/

namespace Place

variable {p : Place} {c doc after next v : Value} {k key : Key} {container : Location}
  {gone : Location → Bool}

theorem way_ne_nil (p : Place) : p.way ≠ [] := by simp [way]

theorem way_cons (k : Key) (container : Location) (key : Key) :
    (⟨k :: container, key⟩ : Place).way = k :: (⟨container, key⟩ : Place).way := rfl

/-- A removal one key further down. -/
theorem drop_cons (child : c.child? k = some next) :
    (⟨k :: container, key⟩ : Place).drop c = c.setChild k ((⟨container, key⟩ : Place).drop next) := by
  unfold drop
  dsimp only
  rw [Value.at?_cons, child, Option.bind_some]
  cases next.at? container with
  | none => exact (Value.setChild_self child).symm
  | some inner =>
    dsimp only
    rw [Value.replaceAt_cons child]

theorem drop_here (k : Key) (c : Value) : (⟨[], k⟩ : Place).drop c = c.remove k := rfl

theorem put_here (k : Key) (c v : Value) : (⟨[], k⟩ : Place).put c v = c.assign k v :=
  Landing.put_here k [] c v

/-- A write one key further down. -/
theorem of_put_cons (child : c.child? k = some next)
    (run : (⟨k :: container, key⟩ : Place).put c v = .ok after) :
    ∃ inner, (⟨container, key⟩ : Place).put next v = .ok inner ∧ after = c.setChild k inner := by
  have whole : (⟨k :: container, key⟩ : Place).put c v =
      ((⟨container, key⟩ : Place).put next v).map (c.setChild k) :=
    Landing.put_under child ⟨⟨container, key⟩, []⟩ v
  rw [whole] at run
  cases inside : (⟨container, key⟩ : Place).put next v with
  | error fault =>
    rw [inside] at run
    cases run
  | ok inner =>
    rw [inside] at run
    cases run
    exact ⟨inner, rfl, rfl⟩

/-- What a place below a key holds lies in what that key holds. -/
theorem child_of_value? (held : (⟨k :: container, key⟩ : Place).value? c = some v) :
    ∃ next, c.child? k = some next ∧ (⟨container, key⟩ : Place).value? next = some v := by
  rw [value?_eq, way_cons, Value.at?_cons] at held
  obtain ⟨next, child, below⟩ := Option.bind_eq_some_iff.1 held
  exact ⟨next, child, (value?_eq _ next).trans below⟩

theorem distinct_drop (distinct : doc.Distinct) (held : p.value? doc = some v) :
    (p.drop doc).Distinct := by
  obtain ⟨container, key⟩ := p
  induction container generalizing doc with
  | nil => exact distinct.remove key
  | cons k container ih =>
    obtain ⟨next, child, below⟩ := child_of_value? held
    rw [drop_cons child]
    exact distinct.setChild child (ih (distinct.child child) below)

/-- **First one removal, then others.** -/
theorem prune_drop (distinct : doc.Distinct) (held : p.value? doc = some v)
    (gone : Location → Bool) :
    (p.drop doc).prune gone =
      doc.prune fun w => decide (w = p.way) || gone (Location.lowered p.way w) := by
  obtain ⟨container, key⟩ := p
  induction container generalizing doc gone with
  | nil =>
    have child : doc.child? key = some v := held
    exact Value.prune_remove distinct child gone
  | cons k container ih =>
    obtain ⟨next, child, below⟩ := child_of_value? held
    have further := way_ne_nil ⟨container, key⟩
    have inside := ih (distinct.child child) (fun w => gone (k :: w)) below
    rw [drop_cons child, way_cons]
    refine Value.prune_setChild distinct child ?_ (inside.trans ?_) fun m other w => ?_
    · simp [Location.lowered_cons further, further.symm, Location.lowered_nil]
    · congr 1
      funext w
      simp [Location.lowered_cons further]
    · simp [Location.lowered_cons further, other, other.symm]

/-- A value that was written is removed again, and with it what it has replaced. -/
theorem prune_put (distinct : doc.Distinct) (marked : gone p.way = true)
    (run : p.put doc v = .ok after) : after.prune gone = doc.prune gone := by
  obtain ⟨container, key⟩ := p
  induction container generalizing doc after gone with
  | nil =>
    rw [put_here] at run
    exact Value.prune_assign marked run
  | cons k container ih =>
    cases child : doc.child? k with
    | none =>
      -- The container of the place is missing, so nothing was written.
      have missing : doc.at? (k :: container) = none := by rw [Value.at?_cons, child]; rfl
      unfold put at run
      rw [missing] at run
      cases run
      rfl
    | some next =>
      obtain ⟨inner, inside, rfl⟩ := of_put_cons child run
      refine Value.prune_setChild distinct child rfl ?_ fun m other w => rfl
      exact ih (distinct.child child) marked inside

variable {ways : List Location}

/-- **First one removal, then others**: that is all of them at once, at the locations that the
    values have in the document as it is. -/
theorem without_drop (distinct : doc.Distinct) (held : p.value? doc = some v) :
    (p.drop doc).without ways = doc.without (p.way :: ways.map (Location.raised p.way)) := by
  unfold Value.without
  rw [prune_drop distinct held]
  refine Value.prune_congr fun w _ above => ?_
  by_cases apart : ∀ rest, w ≠ p.way ++ rest
  · have other : w ≠ p.way := fun same => apart [] (by rw [same, List.append_nil])
    have moved : Location.lowered p.way w ∈ ways ↔ w ∈ ways.map (Location.raised p.way) := by
      rw [List.mem_map]
      constructor
      · exact fun among => ⟨_, among, ((Location.lowered_eq_iff apart).1 rfl).symm⟩
      · rintro ⟨a, among, lay⟩
        rw [(Location.lowered_eq_iff apart).2 lay.symm]
        exact among
    rw [decide_eq_false other, Bool.false_or, decide_eq_decide, moved, List.mem_cons]
    exact (or_iff_right other).symm
  · -- Below the place nothing counts, as the place itself is marked.
    obtain ⟨rest, below⟩ := Classical.not_forall.1 apart
    obtain rfl := Classical.not_not.1 below
    cases rest with
    | nil => simp
    | cons k rest =>
      have marked := above p.way (k :: rest) rfl p.way_ne_nil (List.cons_ne_nil k rest)
      rw [decide_eq_true rfl, Bool.true_or] at marked
      cases marked

/-- A removal is that of one location. -/
theorem drop_eq_without (distinct : doc.Distinct) (held : p.value? doc = some v) :
    p.drop doc = doc.without [p.way] := by
  have alone : (p.drop doc).without [] = doc.without (p.way :: [].map (Location.raised p.way)) :=
    without_drop distinct held
  rwa [Value.without_nil] at alone

theorem without_put (distinct : doc.Distinct) (among : p.way ∈ ways)
    (run : p.put doc v = .ok after) : after.without ways = doc.without ways :=
  prune_put distinct (decide_eq_true among) run

/-- What is there after a removal was there before. -/
theorem at?_raised {w : Location} (distinct : doc.Distinct) (held : p.value? doc = some v)
    (there : (p.drop doc).at? w = some next) :
    (doc.at? (Location.raised p.way w)).isSome = true := by
  obtain ⟨container, key⟩ := p
  induction container generalizing doc w with
  | nil =>
    cases w with
    | nil => rfl
    | cons m w =>
      rw [drop_here, Value.at?_cons] at there
      obtain ⟨inner, child, below⟩ := Option.bind_eq_some_iff.1 there
      have lay := (Value.child?_of_remove distinct child).1
      show (doc.at? (key.raised m :: w)).isSome = true
      rw [Value.at?_cons, lay, Option.bind_some, below]
      rfl
  | cons k container ih =>
    obtain ⟨inner, child, below⟩ := child_of_value? held
    rw [drop_cons child] at there
    rw [way_cons]
    cases w with
    | nil => rw [Location.raised_nil]; rfl
    | cons m w =>
      rw [Location.raised_cons (way_ne_nil _)]
      rw [Value.at?_cons] at there
      by_cases same : k = m
      · subst same
        rw [Value.child?_setChild_self child, Option.bind_some] at there
        have lay := ih (distinct.child child) below there
        rw [if_pos rfl, Value.at?_cons, child]
        exact lay
      · rw [Value.child?_setChild_ne (Ne.symm same), ← Value.at?_cons] at there
        rw [if_neg same, there]
        rfl

end Place

end DocRepair

import Std.Data.String.ToInt
import DocRepair.Proofs.Quoting
import DocRepair.Proofs.Reading
/-!
# `DocRepair.Proofs.Literals` — what can be told from a literal

Between quotes a character stands for itself, or a backslash with a letter behind it says which
character it is, or how many hexadecimal digits say so. No such spelling is the beginning of another
one, so a text is told by its literal. The simple values are as well: null, truth values, whole
numbers, texts and object identifiers begin with different characters.

## Contents

* `Hex.value` / `Hex.value_padded` — a number and its hexadecimal digits;
* `Quoted.Spelling` — the ways to spell a character between quotes;
* `Quoted.Spelling.unique` / `quote_injective` — characters, and texts, are told by their spelling;
* `Value.Simple` — the simple values;
* `Value.Simple.eq_of_literal` / `eq_of_plain` — they are told by their literals, and by kind and text.
-/

namespace DocRepair

namespace Text

/-! ## Hexadecimal digits -/

namespace Hex

/-- The number that hexadecimal digits spell. -/
def value (cs : List Char) : Nat :=
  cs.foldl (fun n c => 16 * n + (digitValue? c).getD 0) 0

theorem value_toDigits (n : Nat) : value (Nat.toDigits 16 n) = n := by
  induction n using Nat.strongRecOn with
  | ind n ih =>
    rcases Nat.lt_or_ge n 16 with small | large
    · rw [Nat.toDigits_of_lt_base small]
      simp [value, Json.digitValue?_digitChar small]
    · have front := ih (n / 16) (by omega)
      unfold value at front ⊢
      rw [Nat.toDigits_of_base_le (by decide) large, List.foldl_append, front, List.foldl_cons,
        List.foldl_nil, Json.digitValue?_digitChar (Nat.mod_lt _ (by decide)), Option.getD_some]
      omega

/-- Zeros in front do not count. -/
theorem value_padded (width n : Nat) : value (padded width n).toList = n := by
  have zeros (k : Nat) : value (List.replicate k '0') = 0 := by
    induction k with
    | zero => rfl
    | succ k ih => exact ih
  have whole := value_toDigits n
  unfold padded
  unfold value at zeros whole ⊢
  rw [String.toList_ofList, List.foldl_append, zeros, whole]

theorem length_padded {width n : Nat} (pos : 0 < width) (small : n < 16 ^ width) :
    (padded width n).toList.length = width := by
  have few := (Nat.length_toDigits_le_iff (by decide) pos).2 small
  unfold padded
  rw [String.toList_ofList, List.length_append, List.length_replicate]
  exact Nat.sub_add_cancel few

end Hex

/-! ## Characters between quotes -/

namespace Quoted

variable {q c d : Char} {front back : List Char}

/-- The number by which a character is spelled. -/
def number (c : Char) : Nat := (Surrogate.unit? c).getD c.toNat

theorem number_injective (same : number c = number d) : c = d := by
  -- Half of a pair is never the number of a character that is none.
  have apart {n : Nat} {c d : Char} (half : Surrogate.unit? c = some n) : n ≠ d.toNat := by
    obtain ⟨isHalf, high, _⟩ := Json.of_unit? half
    have range := Json.char_range d
    rw [Surrogate.isHalf, Bool.and_eq_true, decide_eq_true_iff] at isHalf
    omega
  unfold number at same
  cases left : Surrogate.unit? c with
  | none =>
    cases right : Surrogate.unit? d with
    | none =>
      rw [left, right] at same
      exact Char.toNat_inj.1 same
    | some n =>
      rw [left, right] at same
      exact absurd same.symm (apart right)
  | some m =>
    cases right : Surrogate.unit? d with
    | none =>
      rw [left, right] at same
      exact absurd same (apart left)
    | some n =>
      rw [left, right] at same
      obtain rfl : m = n := same
      exact (Json.of_unit? left).2.2.symm.trans (Json.of_unit? right).2.2

theorem number_lt (c : Char) : number c < 0x110000 := by
  have range := Json.char_range c
  unfold number
  cases half : Surrogate.unit? c with
  | none =>
    show c.toNat < _
    omega
  | some n => exact (Json.of_unit? half).2.1.trans (by decide)

/-- The character that a letter behind a backslash stands for. -/
def lettered? (q e : Char) : Option Char :=
  if e = q ∨ e = '\\' then some e
  else if e = 'n' then some '\n'
  else if e = 'r' then some '\r'
  else if e = 't' then some '\t'
  else none

/-- How many digits follow a letter behind a backslash. -/
def width : Char → Nat
  | 'x' => 2
  | 'u' => 4
  | 'U' => 8
  | _ => 0

/-- The ways to spell a character between the quotes `q`. -/
inductive Spelling (q c : Char) : List Char → Prop
  | itself : c ≠ '\\' → Spelling q c [c]
  | letter {e : Char} : lettered? q e = some c → Spelling q c ['\\', e]
  | digits {e : Char} {ds : List Char} : lettered? q e = none → ds.length = width e →
    Hex.value ds = number c → Spelling q c ('\\' :: e :: ds)

theorem spelling_numeric (quote : q = single ∨ q = double) (c : Char) :
    Spelling q c (numeric (number c)).toList := by
  have below := number_lt c
  have coded {e : Char} (coding : e = 'x' ∨ e = 'u' ∨ e = 'U')
      (small : number c < 16 ^ width e) :
      Spelling q c ('\\' :: e :: (Hex.padded (width e) (number c)).toList) := by
    refine .digits ?_ (Hex.length_padded ?_ small) (Hex.value_padded _ _)
    · rcases quote with rfl | rfl <;> rcases coding with rfl | rfl | rfl <;> rfl
    · rcases coding with rfl | rfl | rfl <;> decide
  unfold numeric
  split_ifs with two four
  · rw [String.toList_append]
    exact coded (.inl rfl) two
  · rw [String.toList_append]
    exact coded (.inr (.inl rfl)) four
  · rw [String.toList_append]
    exact coded (.inr (.inr rfl)) (below.trans (by decide))

theorem spelling_escape (quote : q = single ∨ q = double) (c : Char) :
    Spelling q c (escape q c).toList := by
  unfold escape
  split_ifs with marked newline ret tab shown
  · rw [String.toList_ofList]
    exact .letter (if_pos marked)
  · subst newline
    refine .letter ?_
    rcases quote with rfl | rfl <;> rfl
  · subst ret
    refine .letter ?_
    rcases quote with rfl | rfl <;> rfl
  · subst tab
    refine .letter ?_
    rcases quote with rfl | rfl <;> rfl
  · rw [Char.toString_eq_singleton, String.toList_singleton]
    exact .itself fun backslash => marked (.inr backslash)
  · exact spelling_numeric quote c

/-- **No spelling is the beginning of another one.** -/
theorem Spelling.unique {as bs : List Char} (one : Spelling q c as) (other : Spelling q d bs)
    (same : as ++ front = bs ++ back) : c = d ∧ front = back := by
  -- The first character tells a character itself from a backslash, and the letter behind that whether
  -- digits follow, and how many.
  cases one with
  | itself plain =>
    cases other with
    | itself _ => exact List.cons.inj same
    | letter _ => exact absurd (List.cons.inj same).1 plain
    | digits _ _ _ => exact absurd (List.cons.inj same).1 plain
  | letter stands =>
    cases other with
    | itself plain => exact absurd (List.cons.inj same).1.symm plain
    | letter stands' =>
      obtain ⟨rfl, rest⟩ := List.cons.inj (List.cons.inj same).2
      exact ⟨Option.some.inj (stands.symm.trans stands'), rest⟩
    | digits none _ _ =>
      obtain ⟨rfl, _⟩ := List.cons.inj (List.cons.inj same).2
      rw [stands] at none
      cases none
  | digits none long value =>
    cases other with
    | itself plain => exact absurd (List.cons.inj same).1.symm plain
    | letter stands =>
      obtain ⟨rfl, _⟩ := List.cons.inj (List.cons.inj same).2
      rw [stands] at none
      cases none
    | digits _ long' value' =>
      obtain ⟨rfl, rest⟩ := List.cons.inj (List.cons.inj same).2
      obtain ⟨rfl, behind⟩ := List.append_inj rest (long.trans long'.symm)
      exact ⟨number_injective (value.symm.trans value'), behind⟩

theorem Spelling.ne_nil {as : List Char} (spelling : Spelling q c as) : as ≠ [] := by
  cases spelling <;> exact List.cons_ne_nil _ _

/-- Characters are told by their spellings in a row. -/
theorem spellings_injective (quote : q = single ∨ q = double) {cs ds : List Char}
    (same : (cs.flatMap fun c => (escape q c).toList) = ds.flatMap fun c => (escape q c).toList) :
    cs = ds := by
  induction cs generalizing ds with
  | nil =>
    cases ds with
    | nil => rfl
    | cons d more =>
      exact absurd (List.append_eq_nil_iff.1 same.symm).1 (spelling_escape quote d).ne_nil
  | cons c rest ih =>
    cases ds with
    | nil => exact absurd (List.append_eq_nil_iff.1 same).1 (spelling_escape quote c).ne_nil
    | cons d more =>
      rw [List.flatMap_cons, List.flatMap_cons] at same
      obtain ⟨rfl, behind⟩ := (spelling_escape quote c).unique (spelling_escape quote d) same
      rw [ih behind]

theorem mark_cases (cs : List Char) : mark cs = single ∨ mark cs = double := by
  unfold mark
  split
  · exact .inr rfl
  · exact .inl rfl

theorem toList_quote (s : String) : (quote s).toList =
    mark s.toList :: ((s.toList.flatMap fun c => (escape (mark s.toList) c).toList) ++
      [mark s.toList]) := by
  unfold quote between
  rw [String.toList_append, String.toList_append, String.toList_join, List.flatMap_map,
    Char.toString_eq_singleton, String.toList_singleton]
  rfl

/-- **A text is told by its literal.** -/
theorem quote_injective {s t : String} (same : quote s = quote t) : s = t := by
  -- The first characters are the quotes; with the same quotes, the characters between them are spelled
  -- alike.
  have chars := congrArg String.toList same
  rw [toList_quote, toList_quote] at chars
  obtain ⟨marks, rest⟩ := List.cons.inj chars
  rw [marks] at rest
  exact String.toList_injective
    (spellings_injective (mark_cases t.toList) (List.append_cancel_right rest))

end Quoted

end Text

/-! ## Simple values -/

namespace Value

open Text

variable {v w : Value}

/-- Null, truth values, whole numbers, texts and object identifiers. -/
def Simple : Value → Prop
  | .null | .bool _ | .int _ | .text _ | .ident _ => True
  | _ => False

/-- The kind of a simple value, as the first character of its literal shows it. -/
def shownKind (c : Char) : String :=
  if c = 'N' then "NoneType"
  else if c = 'T' ∨ c = 'F' then "bool"
  else if c = 'O' then "ObjectId"
  else if c = Quoted.single ∨ c = Quoted.double then "str"
  else "int"

theorem shownKind_digit {c : Char} (digit : c.isDigit = true) : shownKind c = "int" := by
  have other {d : Char} (none : d.isDigit = false) : c ≠ d := by
    rintro rfl
    rw [none] at digit
    cases digit
  unfold shownKind
  rw [if_neg (other rfl), if_neg (not_or.2 ⟨other rfl, other rfl⟩), if_neg (other rfl),
    if_neg (not_or.2 ⟨other rfl, other rfl⟩)]

/-- **The literal of a simple value shows its kind.** -/
theorem Simple.kindName_eq (simple : Simple v) :
    v.literal.toList.head?.map shownKind = some v.kindName := by
  cases v with
  | null => rfl
  | bool b => cases b <;> rfl
  | int n =>
    show (toString n).toList.head?.map shownKind = some "int"
    rw [Json.toList_int]
    by_cases negative : n < 0
    · rw [decide_eq_true negative]
      rfl
    · rw [decide_eq_false negative, if_neg Bool.false_ne_true, List.nil_append]
      cases shown : Nat.toDigits 10 n.natAbs with
      | nil => exact absurd shown Nat.toDigits_ne_nil
      | cons c rest =>
        have digit : c.isDigit = true :=
          Nat.isDigit_of_mem_toDigits (by decide) (by decide) (shown ▸ List.mem_cons_self)
        rw [List.head?_cons, Option.map_some, shownKind_digit digit]
  | text s =>
    show (Quoted.quote s).toList.head?.map shownKind = some "str"
    rw [Quoted.toList_quote, List.head?_cons, Option.map_some]
    rcases Quoted.mark_cases s.toList with same | same <;> rw [same] <;> rfl
  | ident i =>
    show (called "ObjectId" _).toList.head?.map shownKind = some "ObjectId"
    unfold called
    rw [String.toList_append, String.toList_append, String.toList_append]
    rfl
  | _ => exact simple.elim

/-- **A simple value is told by its kind and its text.** -/
theorem Simple.eq_of_plain (simple : Simple v) (kinds : v.kindName = w.kindName)
    (same : v.plain = w.plain) : v = w := by
  cases v with
  | null =>
    cases w with
    | null => rfl
    | _ => simp [kindName] at kinds
  | bool b =>
    cases w with
    | bool b' =>
      have same : boolText b = boolText b' := same
      cases b <;> cases b' <;> first | rfl | exact absurd same (by decide)
    | _ => simp [kindName] at kinds
  | int m =>
    cases w with
    | int n => exact congrArg Value.int (Int.repr_injective same)
    | _ => simp [kindName] at kinds
  | text s =>
    cases w with
    | text t => exact congrArg Value.text same
    | _ => simp [kindName] at kinds
  | ident i =>
    cases w with
    | ident j => exact congrArg Value.ident (ObjectId.text_injective same)
    | _ => simp [kindName] at kinds
  | _ => exact simple.elim

/-- **A simple value is told by its literal.** -/
theorem Simple.eq_of_literal (left : Simple v) (right : Simple w)
    (same : v.literal = w.literal) : v = w := by
  have kinds : v.kindName = w.kindName := by
    have shown := left.kindName_eq
    rw [same, right.kindName_eq] at shown
    exact (Option.some.inj shown).symm
  -- Only for texts and object identifiers is the plain text not the literal.
  refine left.eq_of_plain kinds ?_
  cases v with
  | null | bool _ | int _ =>
    cases w with
    | null | bool _ | int _ => exact same
    | _ => simp [kindName] at kinds
  | text s =>
    cases w with
    | text t => exact Quoted.quote_injective same
    | _ => simp [kindName] at kinds
  | ident i =>
    cases w with
    | ident j =>
      have inner := (String.append_right_inj _).1 ((String.append_left_inj _).1 same)
      exact Quoted.quote_injective inner
    | _ => simp [kindName] at kinds
  | _ => exact left.elim

end Value

end DocRepair

import Mathlib.Data.List.Induction
import Mathlib.Tactic.Ring
import DocRepair.Double.Decimal
/-!
# `DocRepair.Proofs.Digits` — decimal digits, written and read

A run of decimal digits is read up to the first character that is none. The number that it spells is
a fold over the values of the digits, so it is bounded by the number of digits, and zeros in front of
them do not count.

## Contents

* `Digits` / `values` — runs of digits, and their values;
* `spanDigits_digits` — a run of digits is read as a whole;
* `ofDigits_append` / `ofDigits_lt` / `le_ofDigits` — the number that digits spell;
* `digits_toDigits` / `ofDigits_toDigits` — the digits of a number spell it.
-/

namespace DocRepair.Double

variable {cs rest : List Char} {ds es : List Nat} {c : Char} {n : Nat}

/-- Characters that are all decimal digits. -/
def Digits (cs : List Char) : Prop := ∀ c ∈ cs, c.isDigit = true

/-- The values of digits. -/
def values (cs : List Char) : List Nat := cs.map fun c => c.toNat - 48

/-- A text that starts with no digit. -/
def Stops (text : List Char) : Prop := ∀ c ∈ text.head?, asciiDigit? c = none

/-! ## Reading -/

theorem asciiDigit?_digit (digit : c.isDigit = true) : asciiDigit? c = some (c.toNat - 48) := by
  obtain ⟨above, below⟩ := Char.isDigit_iff_toNat.1 digit
  exact if_pos ⟨above, below⟩

theorem isDigit_of_asciiDigit? {d : Nat} (read : asciiDigit? c = some d) : c.isDigit = true := by
  unfold asciiDigit? at read
  split at read
  · rename_i range
    exact Char.isDigit_iff_toNat.2 range
  · cases read

theorem value_lt (digit : c.isDigit = true) : c.toNat - 48 < 10 := by
  obtain ⟨above, below⟩ := Char.isDigit_iff_toNat.1 digit
  have bound : c.toNat ≤ 57 := below
  omega

/-- A run of digits is read as a whole. -/
theorem spanDigits_digits (digits : Digits cs) (stops : Stops rest) :
    spanDigits (cs ++ rest) = (values cs, rest) := by
  induction cs with
  | nil =>
    cases rest with
    | nil => rfl
    | cons c rest =>
      have none := stops c rfl
      show spanDigits (c :: rest) = _
      unfold spanDigits
      rw [none]
      rfl
  | cons c cs ih =>
    have first := asciiDigit?_digit (digits c List.mem_cons_self)
    have behind := ih fun d hd => digits d (List.mem_cons_of_mem c hd)
    show spanDigits (c :: (cs ++ rest)) = _
    unfold spanDigits
    rw [first, behind]
    rfl

theorem Digits.append {ds : List Char} (front : Digits cs) (back : Digits ds) :
    Digits (cs ++ ds) := by
  intro c hc
  rcases List.mem_append.1 hc with here | there
  · exact front c here
  · exact back c there

theorem Digits.zeros (n : Nat) : Digits (List.replicate n '0') := by
  intro c hc
  rw [List.eq_of_mem_replicate hc]
  rfl

theorem values_append (cs ds : List Char) : values (cs ++ ds) = values cs ++ values ds :=
  List.map_append

theorem length_values (cs : List Char) : (values cs).length = cs.length := List.length_map _

theorem values_zeros (n : Nat) : values (List.replicate n '0') = List.replicate n 0 :=
  List.map_replicate

theorem values_lt (digits : Digits cs) : ∀ d ∈ values cs, d < 10 := by
  intro d hd
  obtain ⟨c, hc, rfl⟩ := List.mem_map.1 hd
  exact value_lt (digits c hc)

/-! ## The number that digits spell -/

theorem ofDigits_concat (ds : List Nat) (d : Nat) : ofDigits (ds ++ [d]) = 10 * ofDigits ds + d := by
  unfold ofDigits
  rw [List.foldl_append]
  rfl

theorem ofDigits_append (ds es : List Nat) :
    ofDigits (ds ++ es) = ofDigits ds * 10 ^ es.length + ofDigits es := by
  induction es using List.reverseRecOn with
  | nil =>
    show ofDigits (ds ++ []) = ofDigits ds * 1 + 0
    rw [List.append_nil, Nat.mul_one, Nat.add_zero]
  | append_singleton es e ih =>
    rw [← List.append_assoc, ofDigits_concat, ofDigits_concat, ih, List.length_append]
    show _ = _ * 10 ^ (es.length + 1) + _
    rw [Nat.pow_succ]
    ring

theorem ofDigits_zeros (n : Nat) : ofDigits (List.replicate n 0) = 0 := by
  induction n with
  | zero => rfl
  | succ n ih => rw [List.replicate_succ', ofDigits_concat, ih]

theorem ofDigits_lt (bound : ∀ d ∈ ds, d < 10) : ofDigits ds < 10 ^ ds.length := by
  induction ds using List.reverseRecOn with
  | nil => exact Nat.one_pos
  | append_singleton ds d ih =>
    have front := ih fun e he => bound e (List.mem_append_left _ he)
    have last := bound d (List.mem_append_right _ List.mem_cons_self)
    rw [ofDigits_concat, List.length_append]
    show _ < 10 ^ (ds.length + 1)
    rw [Nat.pow_succ]
    omega

/-- Zeros in front do not count. -/
theorem ofDigits_dropWhile (ds : List Nat) : ofDigits (ds.dropWhile (· == 0)) = ofDigits ds := by
  induction ds with
  | nil => rfl
  | cons d rest ih =>
    by_cases zero : d = 0
    · subst zero
      exact ih
    · rw [List.dropWhile_cons_of_neg (by simpa using zero)]

/-- Without zeros in front, the number of digits is as low as it can be. -/
theorem le_ofDigits (pos : 0 < ofDigits ds) :
    10 ^ ((ds.dropWhile (· == 0)).length - 1) ≤ ofDigits ds := by
  rw [← ofDigits_dropWhile] at pos ⊢
  cases kept : ds.dropWhile (· == 0) with
  | nil =>
    rw [kept] at pos
    exact absurd pos (lt_irrefl 0)
  | cons d rest =>
    have first : d ≠ 0 := by
      have := List.head?_dropWhile_not (· == 0) ds
      rw [kept] at this
      simpa using this
    have spelled := ofDigits_append [d] rest
    have single : ofDigits [d] = d := by
      show 10 * 0 + d = d
      omega
    rw [single] at spelled
    show 10 ^ rest.length ≤ ofDigits ([d] ++ rest)
    rw [spelled]
    exact (Nat.le_mul_of_pos_left _ (Nat.pos_of_ne_zero first)).trans (Nat.le_add_right _ _)

theorem ofDigits_values (cs : List Char) : ofDigits (values cs) = Nat.ofDigitChars 10 cs 0 := by
  unfold ofDigits values
  rw [Nat.ofDigitChars_eq_foldl, List.foldl_map]
  rfl

/-- Zeros in front of digits do not change what they spell. -/
theorem ofDigits_led (n : Nat) (cs : List Char) :
    ofDigits (values (List.replicate n '0' ++ cs)) = ofDigits (values cs) := by
  rw [values_append, ofDigits_append, values_zeros, ofDigits_zeros, Nat.zero_mul, Nat.zero_add]

/-- Zeros behind digits are factors of ten. -/
theorem ofDigits_followed (n : Nat) (cs : List Char) :
    ofDigits (values (cs ++ List.replicate n '0')) = ofDigits (values cs) * 10 ^ n := by
  rw [values_append, ofDigits_append, values_zeros, ofDigits_zeros, List.length_replicate,
    Nat.add_zero]

/-! ## The digits of a number -/

theorem digits_toDigits (n : Nat) : Digits (Nat.toDigits 10 n) :=
  fun _ hc => Nat.isDigit_of_mem_toDigits (by decide) (by decide) hc

/-- **The digits of a number spell it.** -/
theorem ofDigits_toDigits (n : Nat) : ofDigits (values (Nat.toDigits 10 n)) = n := by
  rw [ofDigits_values]
  exact Nat.ofDigitChars_toDigits (by decide) (by decide)

/-- A positive number starts with no zero. -/
theorem head_toDigits (pos : 0 < n) : (Nat.toDigits 10 n).head? ≠ some '0' := by
  induction n using Nat.strong_induction_on with
  | h n ih =>
    rcases Nat.lt_or_ge n 10 with small | large
    · rw [Nat.toDigits_of_lt_base small]
      intro zero
      exact pos.ne' (Nat.digitChar_eq_zero.1 (Option.some.inj zero))
    · have front := ih (n / 10) (by omega) (by omega)
      rw [Nat.toDigits_of_base_le (by decide) large, List.head?_append]
      cases first : (Nat.toDigits 10 (n / 10)).head? with
      | none => exact absurd (List.head?_eq_none_iff.1 first) Nat.toDigits_ne_nil
      | some c => rwa [first] at front

end DocRepair.Double

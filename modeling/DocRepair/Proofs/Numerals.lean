import DocRepair.Json.Reader
import DocRepair.Proofs.Shortest
/-!
# `DocRepair.Proofs.Numerals` — the text of a number is read back

A numeral names a decimal value, whatever way its digits are spread over the places in front of the
point, behind it, and the exponent. If that value is near a magnitude of the format, the numeral is
read as that magnitude. The text of a number is a numeral for its shortest decimal.

## Contents

* `Numeral.value` — the value that a numeral names;
* `Numeral.toDouble_of_near` — a numeral near a magnitude is read as that magnitude;
* `Ends` / `Leading` — where a number ends, and the digits that it can start with;
* `number_integer` / `number_fraction` / `number_exponent` — the three forms of a number;
* `number_magnitude` — the text of a magnitude is read as that magnitude.
-/

namespace DocRepair.Double

variable {units : Nat} {numeral : Numeral} {negative : Bool} {q : ℚ}

/-- The value that a numeral names. -/
def Numeral.value (n : Numeral) : ℚ :=
  ofDigits (n.before ++ n.after) * 10 ^ (n.exponent - n.after.length)

theorem near_le (near : Near units q) (steps : spacing units ∣ units) (pos : 0 < units) :
    (units : ℚ) ≤ 2 * q ∧ 2 * q ≤ 3 * units := by
  have step : (spacing units : ℚ) ≤ units := by exact_mod_cast spacing_le_self steps pos
  have margined : (margin units : ℚ) ≤ 2 * spacing units := by exact_mod_cast margin_le units
  obtain ⟨low, high, _⟩ := near
  constructor <;> linarith

/-- A positive ratio near a magnitude of the format is read as that magnitude. -/
theorem ofRatio_of_near {num den : Nat} (format : InFormat units) (pos : 0 < units)
    (denPos : 0 < den) (near : Near units ((num * one : Nat) / den : ℚ)) :
    ofRatio negative num den = .finite negative units := by
  unfold ofRatio
  rw [roundUnits_of_near format.steps pos denPos near]
  exact if_pos format.bound

theorem ten_zpow_le {a b : Int} (less : a ≤ b) : (10 : ℚ) ^ a ≤ 10 ^ b :=
  zpow_le_zpow_right₀ (by norm_num) less

/-- A number of units near a magnitude of the format does not reach four hundred places in front of
    the point. -/
theorem places_above {places : Int} (format : InFormat units) (pos : 0 < units)
    (near : Near units q) (least : (10 : ℚ) ^ (places - 1) * one ≤ q) : places ≤ 400 := by
  obtain ⟨k, four, wide⟩ : ∃ k, k = 400 ∧ 3 * beyond ≤ 2 * (Nat.pow 10 k * one) :=
    ⟨_, rfl, by decide +kernel⟩
  by_contra far
  have power : (10 : ℚ) ^ k ≤ 10 ^ (places - 1) := by
    rw [← zpow_natCast]
    exact ten_zpow_le (by omega)
  have unit : (0 : ℚ) < one := by exact_mod_cast one_pos
  have scaled : (10 : ℚ) ^ k * one ≤ q := (mul_le_mul_of_nonneg_right power unit.le).trans least
  have limit : (units : ℚ) < beyond := by exact_mod_cast format.bound
  have wide' : (3 : ℚ) * beyond ≤ 2 * (10 ^ k * one) := by exact_mod_cast wide
  have close := (near_le near format.steps pos).2
  linarith

/-- Nor do all its digits lie four hundred places behind the point. -/
theorem places_below {places : Int} (format : InFormat units) (pos : 0 < units)
    (near : Near units q) (bound : q < (10 : ℚ) ^ places * one) : -400 ≤ places := by
  obtain ⟨k, four, deep⟩ : ∃ k, k = 401 ∧ 2 * one ≤ Nat.pow 10 k :=
    ⟨_, rfl, by decide +kernel⟩
  by_contra far
  have power : (10 : ℚ) ^ places ≤ 10 ^ (-(k : Int)) := ten_zpow_le (by omega)
  have unit : (0 : ℚ) < one := by exact_mod_cast one_pos
  have positive : (0 : ℚ) < 10 ^ k := pow_pos (by norm_num) k
  have scaled := mul_le_mul_of_nonneg_right power unit.le
  rw [zpow_neg, zpow_natCast, inv_mul_eq_div] at scaled
  have half : (one : ℚ) / 10 ^ k ≤ 1 / 2 := by
    rw [div_le_div_iff₀ positive (by norm_num)]
    have deep' : (2 : ℚ) * one ≤ 10 ^ k := by exact_mod_cast deep
    linarith
  have some : (1 : ℚ) ≤ units := by exact_mod_cast pos
  have close := (near_le near format.steps pos).1
  linarith

/-- A decimal near a magnitude of the format is read as that magnitude. The limits on its exponent
    are not reached. -/
theorem ofDecimal_of_near {digits count : Nat} {exponent : Int} (format : InFormat units)
    (pos : 0 < units) (near : Near units (digits * 10 ^ exponent * one))
    (least : 10 ^ (count - 1) ≤ digits) (bound : digits < 10 ^ count) :
    ofDecimal negative digits count exponent = .finite negative units := by
  have power : (0 : ℚ) < 10 ^ exponent := zpow_pos (by norm_num) _
  have unit : (0 : ℚ) < one := by exact_mod_cast one_pos
  have some : digits ≠ 0 := by
    rintro rfl
    have close := (near_le near format.steps pos).1
    have positive : (0 : ℚ) < units := by exact_mod_cast pos
    rw [Nat.cast_zero, zero_mul, zero_mul] at close
    linarith
  have counted : 0 < count := by
    refine Nat.pos_of_ne_zero ?_
    rintro rfl
    omega
  have above : exponent + count ≤ 400 := by
    refine places_above format pos near ?_
    have parts : exponent + count - 1 = ((count - 1 : Nat) : Int) + exponent := by omega
    rw [parts, zpow_add₀ (by norm_num), zpow_natCast]
    have least' : (10 : ℚ) ^ (count - 1) ≤ digits := by exact_mod_cast least
    exact mul_le_mul_of_nonneg_right (mul_le_mul_of_nonneg_right least' power.le) unit.le
  have below : -400 ≤ exponent + count := by
    refine places_below format pos near ?_
    rw [add_comm, zpow_add₀ (by norm_num), zpow_natCast]
    have bound' : (digits : ℚ) < 10 ^ count := by exact_mod_cast bound
    exact mul_lt_mul_of_pos_right (mul_lt_mul_of_pos_right bound' power) unit
  unfold ofDecimal
  rw [if_neg some, if_neg (by omega), if_neg (by omega)]
  split
  · rename_i nonneg
    obtain ⟨n, rfl⟩ := Int.eq_ofNat_of_zero_le nonneg
    refine ofRatio_of_near format pos Nat.one_pos ?_
    have ratio : ((digits * Nat.pow 10 (n : Int).toNat * one : Nat) : ℚ) / (1 : Nat) =
        digits * 10 ^ (n : Int) * one := by
      rw [Nat.cast_one, div_one, zpow_natCast, Int.toNat_natCast]
      exact_mod_cast rfl
    rw [ratio]
    exact near
  · rename_i negative
    obtain ⟨n, opposite⟩ := Int.eq_ofNat_of_zero_le (show 0 ≤ -exponent by omega)
    have same : exponent = -(n : Int) := by omega
    subst same
    refine ofRatio_of_near format pos (Nat.pow_pos (by decide)) ?_
    have ratio : ((digits * one : Nat) : ℚ) / (Nat.pow 10 (- -(n : Int)).toNat : Nat) =
        digits * 10 ^ (-(n : Int)) * one := by
      rw [neg_neg, Int.toNat_natCast, zpow_neg, zpow_natCast]
      push_cast
      rw [show ((Nat.pow 10 n : Nat) : ℚ) = 10 ^ n by exact_mod_cast rfl]
      ring
    rw [ratio]
    exact near

/-- **A numeral near a magnitude of the format is read as that magnitude**, with its sign. -/
theorem Numeral.toDouble_of_near (format : InFormat units) (pos : 0 < units)
    (digits : ∀ d ∈ numeral.before ++ numeral.after, d < 10)
    (near : Near units (numeral.value * one)) :
    numeral.toDouble negative = .finite negative units := by
  have spelled : 0 < ofDigits (numeral.before ++ numeral.after) := by
    refine Nat.pos_of_ne_zero fun zero => ?_
    have close := (near_le near format.steps pos).1
    have positive : (0 : ℚ) < units := by exact_mod_cast pos
    unfold Numeral.value at close
    rw [zero, Nat.cast_zero, zero_mul, zero_mul] at close
    linarith
  refine ofDecimal_of_near format pos near (le_ofDigits spelled) ?_
  rw [← ofDigits_dropWhile]
  exact ofDigits_lt fun d hd => digits d (List.dropWhile_sublist _ |>.subset hd)

/-! ## Reading a numeral -/

end DocRepair.Double

namespace DocRepair.Json

open DocRepair.Double

variable {bs as cs rest : List Char} {negative : Bool} {units : Nat} {q : ℚ}

/-- A text that does not go on with a number. -/
def Ends (text : List Char) : Prop :=
  ∀ c ∈ text.head?, asciiDigit? c = none ∧ c ≠ '.' ∧ c ≠ 'e' ∧ c ≠ 'E'

theorem Ends.stops (ends : Ends rest) : Stops rest := fun c hc => (ends c hc).1

/-- Digits that a number can start with: no zero comes first. -/
structure Leading (cs : List Char) : Prop where
  digits : Digits cs
  full : cs ≠ []
  first : cs.head? ≠ some '0'

theorem leadingDigits_digits (leading : Leading cs) (stops : Stops rest) :
    leadingDigits (cs ++ rest) = (values cs, rest) := by
  obtain ⟨digits, full, first⟩ := leading
  cases cs with
  | nil => exact absurd rfl full
  | cons c more =>
    have nonzero : c ≠ '0' := fun zero => first (congrArg some zero)
    have spans := spanDigits_digits digits stops
    unfold leadingDigits
    split
    · rename_i zero
      exact absurd (List.cons.inj zero).1 nonzero
    · exact spans

theorem fraction_digits (digits : Digits as) (full : as ≠ []) (stops : Stops rest) :
    fraction ('.' :: (as ++ rest)) = (some (values as), rest) := by
  have spans := spanDigits_digits digits stops
  cases as with
  | nil => exact absurd rfl full
  | cons a more =>
    unfold fraction
    simp only [spans]
    rfl

theorem fraction_none (ends : ∀ c ∈ rest.head?, c ≠ '.') : fraction rest = (none, rest) := by
  unfold fraction
  split
  · exact absurd rfl (ends '.' rfl)
  · rfl

theorem exponent_digits {sign : Char} (signed : sign = '-' ∨ sign = '+') (digits : Digits cs)
    (full : cs ≠ []) (stops : Stops rest) :
    exponent ('e' :: sign :: (cs ++ rest)) =
      (some (Double.signed (sign == '-') (ofDigits (values cs))), rest) := by
  have spans := spanDigits_digits digits stops
  unfold exponent
  cases cs with
  | nil => exact absurd rfl full
  | cons c more =>
    rcases signed with rfl | rfl
    all_goals
      simp only [spanSign, spans]
      rfl

theorem exponent_none (ends : ∀ c ∈ rest.head?, c ≠ 'e' ∧ c ≠ 'E') :
    exponent rest = (none, rest) := by
  unfold exponent
  split
  · rename_i c more
    rw [if_neg]
    rintro (lower | upper)
    · exact (ends c rfl).1 lower
    · exact (ends c rfl).2 upper
  · rfl

section Number

variable {text front behind : List Char} {d : Nat} {ds es : List Nat} {power : Option Int}

/-- Digits without a point or an exponent are an integer. -/
theorem number_integer (lead : leadingDigits text = (ds, rest)) (full : ds ≠ [])
    (short : ds.length ≤ Text.Digit.limit) (ends : Ends rest) :
    number negative text = .ok (.int (signed negative (ofDigits ds)), rest) := by
  have noFraction := fraction_none fun c hc => (ends c hc).2.1
  have noExponent := exponent_none fun c hc => (ends c hc).2.2
  obtain ⟨d, ds, rfl⟩ := List.exists_cons_of_ne_nil full
  unfold number
  rw [lead]
  simp only [noFraction, noExponent, if_neg (not_lt.2 short)]

/-- Digits with a fraction are a number of the floating-point format, … -/
theorem number_fraction (lead : leadingDigits text = (d :: ds, front))
    (after : fraction front = (some es, behind)) (raised : exponent behind = (power, rest)) :
    number negative text =
      .ok (.float ((⟨d :: ds, es, power.getD 0⟩ : Numeral).toDouble negative), rest) := by
  unfold number
  rw [lead]
  simp only [after, raised]
  rfl

/-- … and so are digits with an exponent. -/
theorem number_exponent {x : Int} (lead : leadingDigits text = (d :: ds, front))
    (after : fraction front = (none, behind)) (raised : exponent behind = (some x, rest)) :
    number negative text =
      .ok (.float ((⟨d :: ds, [], x⟩ : Numeral).toDouble negative), rest) := by
  unfold number
  rw [lead]
  simp only [after, raised]
  rfl

end Number

/-! ## The text of a number -/

/-- Digits without the zeros at their end. -/
theorem stripZeros_eq (ds : List Char) :
    (stripZeros ds).1 ++ List.replicate (stripZeros ds).2 '0' = ds := by
  have parts : (stripZeros ds).1 ++ (ds.reverse.takeWhile (· == '0')).reverse = ds := by
    show (ds.reverse.dropWhile (· == '0')).reverse ++ _ = ds
    rw [← List.reverse_append, List.takeWhile_append_dropWhile, List.reverse_reverse]
  have zeros : (ds.reverse.takeWhile (· == '0')).reverse =
      List.replicate (stripZeros ds).2 '0' := by
    rw [List.eq_replicate_iff]
    constructor
    · have lengths := congrArg List.length parts
      rw [List.length_append] at lengths
      show _ = ds.length - (stripZeros ds).1.length
      omega
    · intro c hc
      exact beq_iff_eq.1 (List.all_eq_true.1 List.all_takeWhile c (List.mem_reverse.1 hc))
  rw [← zeros]
  exact parts

/-- The digits of a positive number, without the zeros at their end. -/
theorem stripZeros_toDigits {n : Nat} (pos : 0 < n) :
    Leading (stripZeros (Nat.toDigits 10 n)).1 ∧
      ofDigits (values (stripZeros (Nat.toDigits 10 n)).1) *
        10 ^ (stripZeros (Nat.toDigits 10 n)).2 = n := by
  obtain ⟨kept, zeros, spelled⟩ : ∃ kept zeros, stripZeros (Nat.toDigits 10 n) = (kept, zeros) :=
    ⟨_, _, rfl⟩
  have parts := stripZeros_eq (Nat.toDigits 10 n)
  rw [spelled] at parts ⊢
  dsimp only at parts ⊢
  have own : ofDigits (values kept) * 10 ^ zeros = n := by
    have whole := ofDigits_toDigits n
    rw [← parts, values_append, ofDigits_append, values_zeros, ofDigits_zeros,
      List.length_replicate, Nat.add_zero] at whole
    exact whole
  refine ⟨⟨fun c hc => ?_, ?_, fun first => ?_⟩, own⟩
  · exact digits_toDigits n c (parts ▸ List.mem_append_left _ hc)
  · rintro rfl
    rw [show ofDigits (values []) = 0 from rfl, Nat.zero_mul] at own
    exact pos.ne own
  · refine head_toDigits pos ?_
    rw [← parts, List.head?_append, first]
    rfl

/-- Zeros at the end against a smaller exponent. -/
theorem shift_zeros (n zeros : Nat) (exponent : Int) :
    ((n * 10 ^ zeros : Nat) : ℚ) * 10 ^ (exponent - zeros) = n * 10 ^ exponent := by
  have positive : (10 : ℚ) ^ zeros ≠ 0 := pow_ne_zero _ (by norm_num)
  rw [zpow_sub₀ (by norm_num), zpow_natCast]
  push_cast
  field_simp

section Texts

variable {place : Int}

theorem zero_stops (rest : List Char) : Stops ('.' :: rest) := by
  intro c hc
  cases hc
  rfl

theorem mark_stops (rest : List Char) : Stops ('e' :: rest) := by
  intro c hc
  cases hc
  rfl

/-- Digits on both sides of a point are read as the magnitude that they are near. -/
theorem number_pointed {text front : List Char} (before after : List Char)
    (format : InFormat units) (pos : 0 < units) (near : Near units (q * one)) (ends : Ends rest)
    (full : before ≠ []) (digits : Digits (before ++ after))
    (lead : leadingDigits text = (values before, front))
    (behind : fraction front = (some (values after), rest))
    (value : (ofDigits (values (before ++ after)) : ℚ) * 10 ^ (-(after.length : Int)) = q) :
    number negative text = .ok (.float (.finite negative units), rest) := by
  obtain ⟨b, bs, rfl⟩ := List.exists_cons_of_ne_nil full
  rw [number_fraction lead behind (exponent_none fun c hc => (ends c hc).2.2)]
  have small : ∀ d ∈ values (b :: bs) ++ values after, d < 10 := by
    rw [← values_append]
    exact values_lt digits
  have named : (⟨values (b :: bs), values after, 0⟩ : Numeral).value = q := by
    unfold Numeral.value
    rw [← values_append, length_values, zero_sub]
    exact value
  have result : (⟨values (b :: bs), values after, 0⟩ : Numeral).toDouble negative =
      .finite negative units := Numeral.toDouble_of_near format pos small (named ▸ near)
  exact congrArg (fun x => Except.ok (Json.float x, rest)) result

/-- A number in positional form is read back. -/
theorem number_positional (format : InFormat units) (pos : 0 < units) (leading : Leading cs)
    (near : Near units (ofDigits (values cs) * 10 ^ (place - cs.length) * one)) (ends : Ends rest) :
    number negative (positional cs place ++ rest) = .ok (.float (.finite negative units), rest) := by
  have digits := leading.digits
  unfold positional
  split
  · -- All digits are behind the point.
    rename_i small
    obtain ⟨z, zeros⟩ : ∃ z : Nat, z = (-place).toNat := ⟨_, rfl⟩
    have back : Digits (List.replicate z '0' ++ cs) := (Digits.zeros z).append digits
    rw [← zeros]
    refine number_pointed ['0'] (List.replicate z '0' ++ cs) format pos near ends (by decide)
      ((Digits.zeros 1).append back) rfl
      (fraction_digits back (List.append_ne_nil_of_right_ne_nil _ leading.full) ends.stops) ?_
    have spelled : ofDigits (values (['0'] ++ (List.replicate z '0' ++ cs))) =
        ofDigits (values cs) := ofDigits_led (z + 1) cs
    have exponent : -((List.replicate z '0' ++ cs).length : Int) = place - cs.length := by
      rw [List.length_append, List.length_replicate]
      omega
    rw [spelled, exponent]
  · split
    · -- All digits are in front of the point, and zeros fill up the places.
      rename_i large enough
      obtain ⟨z, zeros⟩ : ∃ z : Nat, z = place.toNat - cs.length := ⟨_, rfl⟩
      have front : Leading (cs ++ List.replicate z '0') := by
        refine ⟨digits.append (Digits.zeros z), ?_, ?_⟩
        · exact List.append_ne_nil_of_left_ne_nil leading.full _
        · obtain ⟨c, more, rfl⟩ := List.exists_cons_of_ne_nil leading.full
          exact leading.first
      rw [← zeros, List.append_assoc]
      refine number_pointed (cs ++ List.replicate z '0') ['0'] format pos near ends front.full
        (front.digits.append (Digits.zeros 1)) (leadingDigits_digits front (zero_stops _))
        (fraction_digits (Digits.zeros 1) (by decide) ends.stops) ?_
      have spelled : ofDigits (values (cs ++ List.replicate z '0' ++ ['0'])) =
          ofDigits (values cs) * 10 ^ (z + 1) := by
        rw [List.append_assoc, ← List.replicate_succ', ofDigits_followed]
      have exponent : -((['0'].length : Nat) : Int) = place - cs.length - ((z + 1 : Nat) : Int) := by
        show -(1 : Int) = _
        omega
      rw [spelled, exponent]
      exact shift_zeros _ _ _
    · -- The point is among the digits.
      rename_i large few
      obtain ⟨p, places⟩ := Int.eq_ofNat_of_zero_le (show 0 ≤ place by omega)
      subst places
      rw [Int.toNat_natCast] at few ⊢
      have some : 0 < p := by omega
      have parts := List.take_append_drop p cs
      have front : Leading (cs.take p) := by
        refine ⟨fun c hc => digits c (List.mem_of_mem_take hc), ?_, ?_⟩
        · rw [Ne, List.take_eq_nil_iff]
          rintro (none | none)
          · exact some.ne' none
          · exact leading.full none
        · rw [List.head?_take, if_neg some.ne']
          exact leading.first
      have back : Digits (cs.drop p) := fun c hc => digits c (List.mem_of_mem_drop hc)
      have there : cs.drop p ≠ [] := by
        rw [Ne, List.drop_eq_nil_iff]
        exact few
      rw [List.append_assoc]
      refine number_pointed (cs.take p) (cs.drop p) format pos near ends front.full
        (parts.symm ▸ digits)
        (leadingDigits_digits front (zero_stops _)) (fraction_digits back there ends.stops) ?_
      have exponent : -((cs.drop p).length : Int) = p - cs.length := by
        rw [List.length_drop]
        omega
      rw [parts, exponent]

theorem signed_natAbs (n : Int) : signed (decide (n < 0)) n.natAbs = n := by
  unfold signed
  by_cases negative : n < 0
  · rw [decide_eq_true negative, if_pos rfl]
    omega
  · rw [decide_eq_false negative, if_neg Bool.false_ne_true]
    omega

/-- An exponent in its text. -/
theorem exponent_text (x : Int) (ends : Ends rest) :
    exponent ('e' :: (if x < 0 then '-' else '+') ::
      (List.replicate (2 - (Nat.toDigits 10 x.natAbs).length) '0' ++ Nat.toDigits 10 x.natAbs ++
        rest)) = (some x, rest) := by
  have sign : (if x < 0 then '-' else '+') = '-' ∨ (if x < 0 then '-' else '+') = '+' := by
    split
    · exact .inl rfl
    · exact .inr rfl
  have spelled : ofDigits (values
      (List.replicate (2 - (Nat.toDigits 10 x.natAbs).length) '0' ++ Nat.toDigits 10 x.natAbs)) =
      x.natAbs := by
    rw [ofDigits_led, ofDigits_toDigits]
  have full : List.replicate (2 - (Nat.toDigits 10 x.natAbs).length) '0' ++
      Nat.toDigits 10 x.natAbs ≠ [] :=
    List.append_ne_nil_of_right_ne_nil _ Nat.toDigits_ne_nil
  rw [exponent_digits sign ((Digits.zeros _).append (digits_toDigits _)) full ends.stops, spelled]
  have minus : ((if x < 0 then '-' else '+') == '-') = decide (x < 0) := by
    by_cases negative : x < 0
    · rw [if_pos negative, decide_eq_true negative]
      rfl
    · rw [if_neg negative, decide_eq_false negative]
      rfl
  rw [minus, signed_natAbs]

/-- A number with an exponent is read back. -/
theorem number_scientific {x : Int} (format : InFormat units) (pos : 0 < units)
    (leading : Leading cs)
    (near : Near units (ofDigits (values cs) * 10 ^ (x + 1 - cs.length) * one)) (ends : Ends rest) :
    number negative (scientific cs x ++ rest) = .ok (.float (.finite negative units), rest) := by
  have digits := leading.digits
  have raised := exponent_text x ends
  have reads (before after : List Nat) (parts : before ++ after = values cs)
      (exponent : x - after.length = x + 1 - cs.length) :
      (⟨before, after, x⟩ : Numeral).toDouble negative = .finite negative units := by
    refine Numeral.toDouble_of_near format pos ?_ ?_
    · show ∀ d ∈ before ++ after, d < 10
      rw [parts]
      exact values_lt digits
    · unfold Numeral.value
      dsimp only
      rw [parts, exponent]
      exact near
  unfold scientific
  dsimp only
  rw [List.append_assoc, List.append_assoc, List.append_assoc,
    ← List.append_assoc (List.replicate _ _)]
  match cs with
  | [] => exact absurd rfl leading.full
  | [c] =>
    refine (number_exponent (leadingDigits_digits leading (mark_stops _)) rfl raised).trans ?_
    exact congrArg (fun y => Except.ok (Json.float y, rest))
      (reads (values [c]) [] (List.append_nil _) (by simp))
  | c :: second :: more =>
    have front : Leading [c] := by
      refine ⟨fun d hd => digits d ?_, List.cons_ne_nil _ _, leading.first⟩
      rw [List.mem_singleton.1 hd]
      exact List.mem_cons_self
    have back : Digits (second :: more) := fun d hd => digits d (List.mem_cons_of_mem c hd)
    refine (number_fraction (leadingDigits_digits front (zero_stops _))
      (fraction_digits back (List.cons_ne_nil _ _) (mark_stops _)) raised).trans ?_
    refine congrArg (fun y => Except.ok (Json.float y, rest))
      (reads (values [c]) (values (second :: more)) rfl ?_)
    rw [length_values, List.length_cons (a := c)]
    omega

/-- **The text of a magnitude is read as that magnitude.** -/
theorem number_magnitude (format : InFormat units) (ends : Ends rest) :
    number negative (magnitudeText units ++ rest) = .ok (.float (.finite negative units), rest) := by
  rcases Nat.eq_zero_or_pos units with rfl | pos
  · have lead : leadingDigits ('0' :: '.' :: '0' :: rest) = ([0], '.' :: '0' :: rest) := rfl
    have behind : fraction ('.' :: '0' :: rest) = (some [0], rest) :=
      fraction_digits (Digits.zeros 1) (List.cons_ne_nil _ _) ends.stops
    exact number_fraction lead behind (exponent_none fun c hc => (ends c hc).2.2)
  · have near := shortest_near format.steps pos
    obtain ⟨d, shown⟩ : ∃ d, d = shortest units := ⟨_, rfl⟩
    rw [← shown] at near
    have some : 0 < d.digits := by
      refine Nat.pos_of_ne_zero fun zero => ?_
      have close := (near_le near format.steps pos).1
      have positive : (0 : ℚ) < units := by exact_mod_cast pos
      unfold Decimal.value at close
      rw [zero, Nat.cast_zero, zero_mul, zero_mul] at close
      linarith
    obtain ⟨leading, kept⟩ := stripZeros_toDigits some
    unfold magnitudeText
    rw [if_neg pos.ne', ← shown]
    dsimp only
    obtain ⟨cs, dropped, stripped⟩ : ∃ cs dropped,
        stripZeros (Nat.toDigits 10 d.digits) = (cs, dropped) := ⟨_, _, rfl⟩
    rw [stripped] at leading kept ⊢
    dsimp only at leading kept ⊢
    have value : (ofDigits (values cs) : ℚ) * 10 ^ (d.exponent + dropped) = d.value := by
      unfold Decimal.value
      rw [← kept, ← shift_zeros _ dropped, add_sub_cancel_right]
    have place : d.exponent + dropped + cs.length - 1 + 1 - cs.length = d.exponent + dropped := by
      omega
    rw [← value, ← place] at near
    split
    · exact number_positional format pos leading near ends
    · exact number_scientific format pos leading near ends

end Texts

end DocRepair.Json

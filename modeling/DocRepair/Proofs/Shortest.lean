import DocRepair.Double.Decimal
import DocRepair.Double.Shortest
import DocRepair.Proofs.Digits
import DocRepair.Proofs.Rounding
/-!
# `DocRepair.Proofs.Shortest` — seventeen digits are enough

The text of a number takes the first decimal grid that has a point near the number. The grids get
finer by a factor of ten. At seventeen digits the points lie closer than the steps of the format, so
at least one of the two around a magnitude is near it, and the search never ends empty-handed.

## Contents

* `Decimal.value` / `readsBack_iff` — decimals that read back are near;
* `leading_le` — the exponent of the first digit;
* `onGrid?_reads` / `search_reads` — what the search finds reads back;
* `shortest_near` — the shortest decimal of a magnitude is near it.
-/

namespace DocRepair.Double

variable {units : Nat} {d : Decimal}

/-! ## Decimals near a magnitude -/

/-- The value of a decimal. -/
def Decimal.value (d : Decimal) : ℚ := d.digits * 10 ^ d.exponent

/-- A power of ten is the ratio that stands for it. -/
theorem tenPower_eq (exponent : Int) :
    ((tenPower exponent).1 : ℚ) / (tenPower exponent).2 = 10 ^ exponent ∧
      0 < (tenPower exponent).2 := by
  unfold tenPower
  split
  · rename_i nonneg
    obtain ⟨n, rfl⟩ := Int.eq_ofNat_of_zero_le nonneg
    refine ⟨?_, Nat.one_pos⟩
    show ((10 ^ n : Nat) : ℚ) / (1 : Nat) = 10 ^ (n : Int)
    rw [Nat.cast_one, div_one, Nat.cast_pow, zpow_natCast]
    rfl
  · rename_i negative
    obtain ⟨n, opposite⟩ := Int.eq_ofNat_of_zero_le (show 0 ≤ -exponent by omega)
    have same : exponent = -(n : Int) := by omega
    refine ⟨?_, Nat.pow_pos (by decide)⟩
    rw [same, neg_neg]
    show ((1 : Nat) : ℚ) / ((10 ^ n : Nat) : ℚ) = 10 ^ (-(n : Int))
    rw [Nat.cast_one, Nat.cast_pow, zpow_neg, zpow_natCast, one_div]
    rfl

/-- A decimal in units, as a ratio. -/
theorem value_ratio (d : Decimal) :
    d.value * one =
      ((d.digits * (tenPower d.exponent).1 * one : Nat) : ℚ) / (tenPower d.exponent).2 := by
  unfold Decimal.value
  rw [← (tenPower_eq d.exponent).1]
  push_cast
  ring

theorem spacing_le_self (steps : spacing units ∣ units) (pos : 0 < units) :
    spacing units ≤ units := Nat.le_of_dvd pos steps

/-- **A decimal reads back as a magnitude exactly if it is near it.** -/
theorem readsBack_iff (steps : spacing units ∣ units) (pos : 0 < units) :
    readsBack units d = true ↔ Near units (d.value * one) := by
  have enough : margin units ≤ 4 * units := by
    have less := margin_le units
    have own := spacing_le_self steps pos
    omega
  rw [value_ratio, near_ratio (tenPower_eq d.exponent).2]
  unfold readsBack
  dsimp only
  obtain ⟨num, den⟩ := tenPower d.exponent
  dsimp only
  rw [show (if units = Nat.pow 2 units.log2 ∧ 1 < spacing units then spacing units
    else 2 * spacing units) = margin units from rfl]
  have low : (4 * units - margin units) * den = 4 * units * den - margin units * den :=
    Nat.sub_mul _ _ _
  have covered := Nat.mul_le_mul_right den enough
  have point : 4 * d.digits * num * one = 4 * (d.digits * num * one) := by ring
  rw [low, point]
  split
  · rename_i even
    rw [Bool.and_eq_true, decide_eq_true_iff, decide_eq_true_iff]
    constructor
    · rintro ⟨below, above⟩
      exact ⟨by omega, above, .inl even⟩
    · rintro ⟨below, above, _⟩
      exact ⟨by omega, above⟩
  · rename_i odd
    rw [Bool.and_eq_true, decide_eq_true_iff, decide_eq_true_iff]
    constructor
    · rintro ⟨below, above⟩
      exact ⟨by omega, above.le, .inr ⟨by omega, above⟩⟩
    · rintro ⟨_, _, even | ⟨below, above⟩⟩
      · exact absurd even odd
      · exact ⟨by omega, above⟩

/-! ## Grids -/

theorem one_pos : 0 < one := by decide +kernel

/-- Four hundred decimal places are more than the format has. -/
theorem one_le : one ≤ Nat.pow 10 400 := by decide +kernel

/-- A quotient of powers, from their product with the other side. -/
theorem ten_zpow_mul_le {a k scale : Nat} (scaled : 10 ^ a * scale ≤ units * 10 ^ k) :
    (10 : ℚ) ^ ((a : Int) - k) * scale ≤ units := by
  have positive : (0 : ℚ) < 10 ^ k := pow_pos (by norm_num) k
  rw [zpow_sub₀ (by norm_num), zpow_natCast, zpow_natCast, div_mul_eq_mul_div, div_le_iff₀ positive]
  exact_mod_cast scaled

/-- The first digit of a magnitude stands where it is said to stand, or in front of it. -/
theorem leading_le (pos : 0 < units) : (10 : ℚ) ^ leadingExponent units * one ≤ units := by
  obtain ⟨k, places, enough⟩ : ∃ k, k = 400 ∧ one ≤ Nat.pow 10 k := ⟨_, rfl, one_le⟩
  obtain ⟨n, shown⟩ : ∃ n, n = units * Nat.pow 10 k / one := ⟨_, rfl⟩
  have positive : 0 < n := by
    rw [shown]
    exact Nat.div_pos (enough.trans (Nat.le_mul_of_pos_left _ pos)) one_pos
  have some := Nat.length_toDigits_pos (b := 10) (n := n)
  have digits : 10 ^ ((Nat.toDigits 10 n).length - 1) ≤ n := by
    rcases Nat.eq_zero_or_pos ((Nat.toDigits 10 n).length - 1) with single | more
    · rw [single]
      exact positive
    · by_contra less
      have few := (Nat.length_toDigits_le_iff (by decide) more).2 (not_le.1 less)
      omega
  have scaled : 10 ^ ((Nat.toDigits 10 n).length - 1) * one ≤ units * 10 ^ k :=
    (Nat.mul_le_mul_right one digits).trans (shown ▸ Nat.div_mul_le_self _ _)
  have exponent : leadingExponent units = (((Nat.toDigits 10 n).length - 1 : Nat) : Int) - k := by
    unfold leadingExponent
    rw [← places, ← shown]
    omega
  rw [exponent]
  exact ten_zpow_mul_le scaled

/-- The distance of the points of a grid, in units. -/
def gap (exponent : Int) : ℚ := 10 ^ exponent * one

/-- A magnitude lies between the point below it and the next one. -/
theorem gridFloor_between (units : Nat) (exponent : Int) :
    (gridFloor units exponent).digits * gap exponent ≤ units ∧
      (units : ℚ) < ((gridFloor units exponent).digits + 1) * gap exponent := by
  obtain ⟨ratio, pos⟩ := tenPower_eq exponent
  unfold gridFloor gap
  rw [← ratio]
  generalize tenPower exponent = power at *
  obtain ⟨num, den⟩ := power
  dsimp only at *
  have denPos : (0 : ℚ) < den := by exact_mod_cast pos
  have numPos : 0 < num := by
    refine Nat.pos_of_ne_zero fun zero => ?_
    have power : (0 : ℚ) < 10 ^ exponent := zpow_pos (by norm_num) _
    rw [← ratio, zero, Nat.cast_zero, zero_div] at power
    exact lt_irrefl 0 power
  have unit : 0 < num * one := Nat.mul_pos numPos one_pos
  rw [div_mul_eq_mul_div, ← mul_div_assoc, ← mul_div_assoc, div_le_iff₀ denPos, lt_div_iff₀ denPos]
  constructor
  · exact_mod_cast Nat.div_mul_le_self _ _
  · exact_mod_cast Nat.lt_mul_of_div_lt (Nat.lt_succ_self _) unit

/-- **Of a grid that is fine enough, one of the two points around a magnitude is near it.** -/
theorem near_of_between {v g : ℚ} (below : v ≤ units) (above : (units : ℚ) < v + g) (fine : g * 10 ^ 16 ≤ units) :
    Near units v ∨ Near units (v + g) := by
  have step : (0 : ℚ) < spacing units := by exact_mod_cast spacing_pos units
  have margined : (0 : ℚ) < margin units := by
    have positive : 0 < margin units := by
      unfold margin
      split
      · exact spacing_pos units
      · exact Nat.mul_pos (by decide) (spacing_pos units)
    exact_mod_cast positive
  by_cases close : (4 * units : ℚ) - margin units < 4 * v
  · refine .inl ⟨close.le, ?_, .inr ⟨close, ?_⟩⟩ <;> linarith
  · refine .inr ?_
    have closer : 4 * (v + g) < 4 * units + 2 * spacing units := by
      by_contra far
      have wide : (margin units : ℚ) + 2 * spacing units ≤ 4 * g := by linarith
      by_cases power : units = Nat.pow 2 units.log2 ∧ 1 < spacing units
      · have margined : margin units = spacing units := if_pos power
        have whole : (units : ℚ) = 2 ^ 52 * spacing units := by
          exact_mod_cast power.1.trans (spacing_le power.2)
        rw [margined] at wide
        linarith
      · have margined : margin units = 2 * spacing units := if_neg power
        have limit : (units : ℚ) < 2 ^ 53 * spacing units := by exact_mod_cast lt_spacing units
        rw [margined] at wide
        push_cast at wide
        linarith
    refine ⟨?_, closer.le, .inr ⟨?_, closer⟩⟩ <;> linarith

/-! ## The search -/

/-- What is taken from a grid reads back. -/
theorem onGrid?_reads {exponent : Int} (found : onGrid? units exponent = some d) :
    readsBack units d = true := by
  unfold onGrid? at found
  dsimp only at found
  split at found
  · rename_i below above
    cases found
    split
    · exact below
    · exact above
  · rename_i below _
    cases found
    exact below
  · rename_i _ above
    cases found
    exact above
  · cases found

/-- A grid that is fine enough has a decimal that reads back. -/
theorem onGrid?_isSome {exponent : Int} (steps : spacing units ∣ units) (pos : 0 < units)
    (fine : gap exponent * 10 ^ 16 ≤ units) : (onGrid? units exponent).isSome = true := by
  obtain ⟨low, high⟩ := gridFloor_between units exponent
  rw [add_mul, one_mul] at high
  have scaled (digits : Nat) : (⟨digits, exponent⟩ : Decimal).value * one = digits * gap exponent :=
    mul_assoc _ _ _
  have either : readsBack units (gridFloor units exponent) = true ∨
      readsBack units ⟨(gridFloor units exponent).digits + 1, exponent⟩ = true := by
    rw [readsBack_iff steps pos, readsBack_iff steps pos, scaled]
    have floor : (gridFloor units exponent).value * one =
        (gridFloor units exponent).digits * gap exponent := scaled _
    rw [floor, Nat.cast_add, Nat.cast_one, add_mul, one_mul]
    exact near_of_between low high fine
  unfold onGrid?
  dsimp only
  rw [show { gridFloor units exponent with digits := (gridFloor units exponent).digits + 1 } =
    (⟨(gridFloor units exponent).digits + 1, exponent⟩ : Decimal) from rfl]
  rcases either with below | above
  · rw [below]
    split
    · rfl
    · rfl
    · rename_i no _
      cases no
    · rename_i no _
      cases no
  · rw [above]
    split
    · rfl
    · rename_i no
      cases no
    · rfl
    · rename_i no
      cases no

/-- The search ends with a decimal that reads back, if there is one on a grid that it comes to. -/
theorem search_reads {leading : Int} {last : Nat} :
    ∀ fuel count, count ≤ last → last < count + fuel →
      (onGrid? units (leading + 1 - last)).isSome = true →
      readsBack units (search units leading count fuel) = true := by
  intro fuel
  induction fuel with
  | zero =>
    intro count first end_
    omega
  | succ fuel ih =>
    intro count first ends there
    unfold search
    split
    · rename_i d found
      exact onGrid?_reads found
    · rename_i none
      have later : count ≠ last := by
        rintro rfl
        rw [none] at there
        cases there
      exact ih (count + 1) (by omega) (by omega) there

/-- **Seventeen digits are enough**: the shortest decimal of a magnitude is near it. -/
theorem shortest_near (steps : spacing units ∣ units) (pos : 0 < units) :
    Near units ((shortest units).value * one) := by
  rw [← readsBack_iff steps pos]
  have fine : gap (leadingExponent units + 1 - (17 : Nat)) * 10 ^ 16 ≤ units := by
    have whole := leading_le pos
    have parts : leadingExponent units = leadingExponent units + 1 - (17 : Nat) + (16 : Nat) := by
      omega
    rw [parts, zpow_add₀ (by norm_num), zpow_natCast] at whole
    unfold gap
    linarith
  exact search_reads 17 1 (by decide) (by decide) (onGrid?_isSome steps pos fine)

end DocRepair.Double

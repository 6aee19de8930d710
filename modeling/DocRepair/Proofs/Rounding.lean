import Mathlib.Algebra.Order.Field.Rat
import Mathlib.Data.Nat.Log
import Mathlib.Tactic.FieldSimp
import Mathlib.Tactic.Linarith
import Mathlib.Tactic.Positivity
import Mathlib.Tactic.Ring
import DocRepair.Double
/-!
# `DocRepair.Proofs.Rounding` — which values round to a magnitude

Around a magnitude of the format lies an interval of values that are rounded to it. It reaches half a
step to either side, but only half as far below a power of two, where the steps get smaller. The ends
belong to it if the significand is even.

## Contents

* `InFormat` — the magnitudes of the format;
* `spacing_…` — how a magnitude lies among the steps around it;
* `Near` — the values that round to a magnitude;
* `roundRatio_eq` — the nearest natural;
* `roundUnits_at` — rounding where the number of binary digits is known;
* `roundUnits_of_near` — what is near a magnitude is rounded to it.
-/

namespace DocRepair.Double

variable {units num den m : Nat} {q : ℚ}

/-! ## Magnitudes of the format -/

/-- A magnitude of the format: a whole number of steps, and not beyond the greatest. -/
structure InFormat (units : Nat) : Prop where
  bound : units < beyond
  steps : spacing units ∣ units

theorem spacing_eq (units : Nat) : spacing units = 2 ^ (units.log2 + 1 - precision) := rfl

theorem spacing_pos (units : Nat) : 0 < spacing units := Nat.two_pow_pos _

/-- Below `2 ^ precision` the steps are single units. -/
theorem spacing_small (small : units < 2 ^ precision) : spacing units = 1 := by
  have log : units.log2 < precision := by
    rcases Nat.eq_zero_or_pos units with rfl | pos
    · decide
    · exact (Nat.log2_lt pos.ne').2 small
  rw [spacing_eq, Nat.sub_eq_zero_of_le log]
  rfl

/-- Significands have at most 53 binary digits, … -/
theorem lt_spacing (units : Nat) : units < 2 ^ precision * spacing units := by
  rw [spacing_eq, ← Nat.pow_add]
  refine (Nat.lt_log2_self).trans_le (Nat.pow_le_pow_right (by decide) ?_)
  omega

/-- … and exactly as many, unless the steps are single units. -/
theorem spacing_le (large : 1 < spacing units) : 2 ^ units.log2 = 2 ^ 52 * spacing units := by
  have log : precision < units.log2 + 1 := by
    rw [spacing_eq] at large
    by_contra less
    rw [Nat.sub_eq_zero_of_le (not_lt.1 less)] at large
    exact absurd large (lt_irrefl 1)
  rw [spacing_eq, ← Nat.pow_add]
  congr 1
  unfold precision at *
  omega

/-- Magnitudes between the same powers of two have the same steps. -/
theorem spacing_of_log {n k : Nat} (low : 2 ^ k ≤ n) (high : n < 2 ^ (k + 1)) :
    spacing n = 2 ^ (k + 1 - precision) := by
  have pos : n ≠ 0 := ((Nat.two_pow_pos k).trans_le low).ne'
  have log : n.log2 = k := by
    refine le_antisymm ?_ ((Nat.le_log2 pos).2 low)
    exact Nat.lt_succ_iff.1 ((Nat.log2_lt pos).2 high)
  rw [spacing_eq, log]

/-! ## What rounds to a magnitude -/

/-- How far below a magnitude a value may lie that is rounded to it, in quarters of a unit. Under a
    power of two the neighbours lie twice as close. -/
def margin (units : Nat) : Nat :=
  if units = Nat.pow 2 units.log2 ∧ 1 < spacing units then spacing units else 2 * spacing units

theorem margin_le (units : Nat) : margin units ≤ 2 * spacing units := by
  unfold margin
  split
  · omega
  · rfl

/-- A value, in units, that is rounded to a magnitude. -/
structure Near (units : Nat) (q : ℚ) : Prop where
  low : (4 * units : ℚ) - margin units ≤ 4 * q
  high : 4 * q ≤ 4 * units + 2 * spacing units
  /-- Only an even significand has the ends of its interval. -/
  ends : units / spacing units % 2 = 0 ∨
    (4 * units : ℚ) - margin units < 4 * q ∧ 4 * q < 4 * units + 2 * spacing units

/-- What is near a magnitude, without fractions. -/
theorem near_ratio (pos : 0 < den) :
    Near units (num / den) ↔
      4 * units * den ≤ 4 * num + margin units * den ∧
      4 * num ≤ (4 * units + 2 * spacing units) * den ∧
      (units / spacing units % 2 = 0 ∨
        4 * units * den < 4 * num + margin units * den ∧
          4 * num < (4 * units + 2 * spacing units) * den) := by
  have denPos : (0 : ℚ) < den := by exact_mod_cast pos
  have low : (4 * units : ℚ) - margin units ≤ 4 * (num / den) ↔
      4 * units * den ≤ 4 * num + margin units * den := by
    rw [sub_le_iff_le_add, ← mul_div_assoc, div_add' _ _ _ denPos.ne', le_div_iff₀ denPos]
    exact_mod_cast Iff.rfl
  have high : 4 * ((num : ℚ) / den) ≤ 4 * units + 2 * spacing units ↔
      4 * num ≤ (4 * units + 2 * spacing units) * den := by
    rw [← mul_div_assoc, div_le_iff₀ denPos]
    exact_mod_cast Iff.rfl
  have lower : (4 * units : ℚ) - margin units < 4 * (num / den) ↔
      4 * units * den < 4 * num + margin units * den := by
    rw [sub_lt_iff_lt_add, ← mul_div_assoc, div_add' _ _ _ denPos.ne', lt_div_iff₀ denPos]
    exact_mod_cast Iff.rfl
  have higher : 4 * ((num : ℚ) / den) < 4 * units + 2 * spacing units ↔
      4 * num < (4 * units + 2 * spacing units) * den := by
    rw [← mul_div_assoc, div_lt_iff₀ denPos]
    exact_mod_cast Iff.rfl
  constructor
  · rintro ⟨l, h, e⟩
    exact ⟨low.1 l, high.1 h, e.imp_right fun both => ⟨lower.1 both.1, higher.1 both.2⟩⟩
  · rintro ⟨l, h, e⟩
    exact ⟨low.2 l, high.2 h, e.imp_right fun both => ⟨lower.2 both.1, higher.2 both.2⟩⟩

/-! ## Rounding -/

/-- The natural nearest to a ratio: at most half away from it, and even if it is just half away. -/
theorem roundRatio_eq (low : 2 * (m * den) ≤ 2 * num + den) (high : 2 * num ≤ 2 * (m * den) + den)
    (ends : m % 2 = 0 ∨ 2 * (m * den) < 2 * num + den ∧ 2 * num < 2 * (m * den) + den)
    (pos : 0 < den) : roundRatio num den = m := by
  have split := Nat.div_add_mod num den
  have rest := Nat.mod_lt num pos
  have apart (a b : Nat) (less : a < b) : a * den + den ≤ b * den := by
    rw [← Nat.succ_mul]
    exact Nat.mul_le_mul_right den less
  have next := Nat.add_one_mul (num / den) den
  rw [Nat.mul_comm] at split
  have close : m = num / den ∨ m = num / den + 1 := by
    by_contra far
    rcases Nat.lt_or_ge m (num / den) with less | more
    · have := apart _ _ less
      omega
    · have twice := apart (num / den + 1) m (by omega)
      omega
  unfold roundRatio
  dsimp only
  rcases close with rfl | rfl
  · split_ifs <;> omega
  · split_ifs <;> omega

/-- A ratio is rounded to a number of steps, if the steps around it are of that size. -/
theorem roundUnits_eq {step : Nat} (size : spacing (num / den) = step)
    (low : 2 * (m * step * den) ≤ 2 * num + den * step)
    (high : 2 * num ≤ 2 * (m * step * den) + den * step)
    (ends : m % 2 = 0 ∨
      2 * (m * step * den) < 2 * num + den * step ∧ 2 * num < 2 * (m * step * den) + den * step)
    (pos : 0 < den) : roundUnits num den = m * step := by
  have positive : 0 < den * step := Nat.mul_pos pos (size ▸ spacing_pos _)
  have factors : m * step * den = m * (den * step) := by ring
  rw [factors] at low high ends
  unfold roundUnits
  dsimp only
  rw [size, roundRatio_eq low high ends positive]

/-- A ratio rounded among the magnitudes of `k + 1` binary digits. -/
def roundedAt (k num den : Nat) : Nat :=
  roundRatio num (den * 2 ^ (k + 1 - precision)) * 2 ^ (k + 1 - precision)

theorem roundUnits_at {k : Nat} (low : 2 ^ k ≤ num / den) (high : num / den < 2 ^ (k + 1)) :
    roundUnits num den = roundedAt k num den := by
  unfold roundUnits
  rw [spacing_of_log low high]
  rfl

/-- Steps that are more than single units are even. -/
theorem spacing_half (large : 1 < spacing units) :
    spacing units = 2 * 2 ^ (units.log2 - precision) ∧ precision ≤ units.log2 := by
  have log : precision ≤ units.log2 := by
    rw [spacing_eq] at large
    by_contra less
    rw [Nat.sub_eq_zero_of_le (by omega)] at large
    exact absurd large (lt_irrefl 1)
  refine ⟨?_, log⟩
  rw [spacing_eq, ← Nat.pow_succ', Nat.succ_eq_add_one, Nat.sub_add_comm log]

/-- Just under a power of two the steps are half as long. -/
theorem roundUnits_under (pos : 0 < den) (power : units = 2 ^ units.log2)
    (large : 1 < spacing units)
    (low : 4 * units * den ≤ 4 * num + spacing units * den) (under : num < units * den) :
    roundUnits num den = units := by
  obtain ⟨twice, log⟩ := spacing_half large
  have whole := spacing_le large
  obtain ⟨half, size⟩ : ∃ half, half = 2 ^ (units.log2 - precision) := ⟨_, rfl⟩
  rw [← size] at twice
  have parts : units = 2 ^ 53 * half := by
    rw [power, whole, twice]
    ring
  have bottom : 2 ^ (units.log2 - 1) = 2 ^ 52 * half := by
    rw [size, ← Nat.pow_add]
    congr 1
    unfold precision at *
    omega
  have scaled : units * den = 2 ^ 53 * (half * den) := by
    rw [parts]
    ring
  have steps : spacing units * den = 2 * (half * den) := by
    rw [twice]
    ring
  have spaced : spacing (num / den) = half := by
    have exponent : units.log2 - 1 + 1 = units.log2 := by
      unfold precision at log
      omega
    rw [spacing_of_log (k := units.log2 - 1) ?_ ?_, exponent, size]
    · rw [Nat.le_div_iff_mul_le pos, bottom, Nat.mul_assoc]
      rw [Nat.mul_assoc, scaled, steps] at low
      omega
    · rwa [exponent, ← power, Nat.div_lt_iff_lt_mul pos]
  have result : roundUnits num den = 2 ^ 53 * half := by
    have product : 2 ^ 53 * half * den = 2 ^ 53 * (half * den) := Nat.mul_assoc _ _ _
    have swapped : den * half = half * den := Nat.mul_comm _ _
    rw [Nat.mul_assoc, scaled, steps] at low
    rw [scaled] at under
    refine roundUnits_eq spaced ?_ ?_ (.inl (by decide)) pos
    all_goals
      rw [product, swapped]
      omega
  rw [result, ← parts]

/-- Elsewhere the steps around a value are those of the magnitude that it is near to. -/
theorem spacing_near (steps : spacing units ∣ units) (positive : 0 < units) (pos : 0 < den)
    (low : 4 * units * den ≤ 4 * num + 2 * spacing units * den)
    (high : 4 * num ≤ (4 * units + 2 * spacing units) * den)
    (inside : units ≠ 2 ^ units.log2 ∨ spacing units = 1 ∨ units * den ≤ num) :
    spacing (num / den) = spacing units := by
  rcases Nat.lt_or_ge 1 (spacing units) with large | small
  · have bottom := spacing_le large
    obtain ⟨m, own⟩ := steps
    obtain ⟨step, size⟩ : ∃ step, step = spacing units := ⟨_, rfl⟩
    have stepPos : 0 < step := size ▸ spacing_pos units
    rw [← size] at own low high inside bottom
    have top : 2 ^ (units.log2 + 1) = 2 ^ 53 * step := by
      rw [Nat.pow_succ, bottom]
      ring
    -- All is counted in steps of the denominator.
    have area : 0 < step * den := Nat.mul_pos stepPos pos
    have counted : units * den = m * (step * den) := by
      rw [own]
      ring
    have low' : 4 * (m * (step * den)) ≤ 4 * num + 2 * (step * den) := by
      rw [← counted]
      linarith
    have high' : 4 * num ≤ 4 * (m * (step * den)) + 2 * (step * den) := by
      rw [← counted]
      linarith
    rw [spacing_eq units]
    refine spacing_of_log ?_ ?_
    · rw [Nat.le_div_iff_mul_le pos, bottom, Nat.mul_assoc]
      rcases inside with other | single | above
      · have more : 2 ^ 52 + 1 ≤ m := by
          have floor := Nat.log2_self_le positive.ne'
          by_contra few
          refine other (le_antisymm ?_ floor)
          rw [bottom, own, Nat.mul_comm step]
          exact Nat.mul_le_mul_right step (by omega)
        have counts := Nat.mul_le_mul_right (step * den) more
        rw [Nat.add_one_mul] at counts
        omega
      · rw [← size, single] at large
        exact absurd large (lt_irrefl 1)
      · refine le_trans ?_ above
        rw [← Nat.mul_assoc, ← bottom]
        exact Nat.mul_le_mul_right den (Nat.log2_self_le positive.ne')
    · rw [Nat.div_lt_iff_lt_mul pos, top, Nat.mul_assoc]
      have fewer : m + 1 ≤ 2 ^ 53 := by
        have limit := lt_spacing units
        rw [← size] at limit
        rw [own, Nat.mul_comm step] at limit
        exact Nat.lt_of_mul_lt_mul_right limit
      have counts := Nat.mul_le_mul_right (step * den) fewer
      rw [Nat.add_one_mul] at counts
      omega
  · have single : spacing units = 1 := le_antisymm small (spacing_pos units)
    have less : num / den < units + 1 := by
      rw [Nat.div_lt_iff_lt_mul pos, Nat.add_one_mul]
      rw [single] at high
      have expand : (4 * units + 2 * 1) * den = 4 * (units * den) + 2 * den := by ring
      omega
    have limit := lt_spacing units
    rw [single, Nat.mul_one] at limit
    rw [single]
    exact spacing_small (by omega)

/-- **What is near a magnitude of the format is rounded to it.** -/
theorem roundUnits_of_near (steps : spacing units ∣ units) (positive : 0 < units) (pos : 0 < den)
    (near : Near units (num / den)) : roundUnits num den = units := by
  obtain ⟨low, high, ends⟩ := (near_ratio pos).1 near
  obtain ⟨m, own⟩ := id steps
  have even : units / spacing units = m :=
    Nat.div_eq_of_eq_mul_right (spacing_pos units) own
  have product : m * spacing units = units := by rw [Nat.mul_comm, ← own]
  have counted : m * spacing units * den = units * den := by rw [product]
  have plain (margined : margin units = 2 * spacing units ∨ units * den ≤ num)
      (inside : units ≠ 2 ^ units.log2 ∨ spacing units = 1 ∨ units * den ≤ num) :
      roundUnits num den = units := by
    have stepPos := Nat.mul_pos (spacing_pos units) pos
    have low' : 4 * (units * den) ≤ 4 * num + 2 * (spacing units * den) := by
      rcases margined with same | above
      · rw [same] at low
        linarith
      · linarith
    have spaced := spacing_near steps positive pos (by linarith) high inside
    have swapped : den * spacing units = spacing units * den := Nat.mul_comm _ _
    have result : roundUnits num den = m * spacing units := by
      refine roundUnits_eq spaced ?_ ?_ ?_ pos
      all_goals rw [counted, swapped]
      · linarith
      · linarith
      · rw [← even]
        refine ends.imp_right fun both => ⟨?_, by linarith⟩
        rcases margined with same | above
        · rw [same] at both
          linarith
        · linarith
    rw [result, product]
  by_cases power : units = 2 ^ units.log2 ∧ 1 < spacing units
  · have margined : margin units = spacing units := if_pos power
    rw [margined] at low
    rcases Nat.lt_or_ge num (units * den) with under | above
    · exact roundUnits_under pos power.1 power.2 low under
    · exact plain (.inr above) (.inr (.inr above))
  · have margined : margin units = 2 * spacing units := if_neg power
    refine plain (.inl margined) ?_
    by_cases same : units = 2 ^ units.log2
    · refine .inr (.inl (le_antisymm (not_lt.1 fun large => power ⟨same, large⟩) (spacing_pos _)))
    · exact .inl same

end DocRepair.Double

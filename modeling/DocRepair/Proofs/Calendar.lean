import Mathlib.Order.Monotone.Basic
import DocRepair.Instant
/-!
# `DocRepair.Proofs.Calendar` — dates and day numbers are two views of the same

An era of four hundred years has 146097 days. Which year of the era a day falls in is found by
division, once the leap days before it are taken off. That count never falls from one day to the next,
so it is enough to see that it is right on the first and the last day of every year.

## Contents

* `daysBefore` / `plainDays` — the days before a year, and the days up to a day that are no leap days;
* `yearOfEra_spec` — the year of the era that a day falls in;
* `dayNumber_dateOfDay` — the number of the date of a day;
* `ofCivil_civil` — a reading taken apart and put together.
-/

namespace DocRepair.Instant

/-! ## Years of an era -/

/-- The days of an era before a year. -/
def daysBefore (year : Nat) : Nat := 365 * year + year / 4 - year / 100

/-- The days of an era up to a day that are no leap days. -/
def plainDays (day : Nat) : Nat := day - day / 1460 + day / 36524 - day / 146096

theorem plainDays_mono : Monotone plainDays := by
  refine monotone_nat_of_le_succ fun day => ?_
  have few : day / 1460 ≤ day := Nat.div_le_self _ _
  have fewer : day / 146096 ≤ day / 36524 := Nat.div_le_div_left (by decide) (by decide)
  -- Every fourth century has a leap day of its own at its end.
  have fourth : 146096 ∣ day + 1 → 36524 ∣ day + 1 := Nat.dvd_trans (by decide)
  unfold plainDays
  rw [Nat.succ_div, Nat.succ_div, Nat.succ_div]
  generalize day / 1460 = leaps, day / 36524 = centuries, day / 146096 = eras at *
  split_ifs with leap century era
  · omega
  · omega
  · exact absurd (fourth ‹_›) century
  · omega
  · omega
  · omega
  · exact absurd (fourth ‹_›) ‹_›
  · omega

/-- The count is right on the first day of every year, and on the day before. -/
theorem plainDays_daysBefore {year : Nat} (era : year < 400) :
    365 * year ≤ plainDays (daysBefore year) ∧
      (0 < year → plainDays (daysBefore year - 1) < 365 * year) := by
  have table : ∀ y : Fin 400, 365 * y.val ≤ plainDays (daysBefore y.val) ∧
      (0 < y.val → plainDays (daysBefore y.val - 1) < 365 * y.val) := by decide +kernel
  exact table ⟨year, era⟩

/-- **The year of the era that a day falls in.** -/
theorem yearOfEra_spec {day : Nat} (era : day < 146097) :
    plainDays day / 365 < 400 ∧ daysBefore (plainDays day / 365) ≤ day ∧
      day ≤ daysBefore (plainDays day / 365) + 365 := by
  obtain ⟨year, found⟩ : ∃ year, year = plainDays day / 365 := ⟨_, rfl⟩
  have within : year < 400 := by
    have last : plainDays 146096 = 145999 := by decide
    have below : plainDays day ≤ plainDays 146096 := plainDays_mono (by omega)
    omega
  rw [← found]
  refine ⟨within, ?_, ?_⟩
  · by_contra later
    have before : plainDays day ≤ plainDays (daysBefore year - 1) := plainDays_mono (by omega)
    rcases Nat.eq_zero_or_pos year with rfl | pos
    · exact later (Nat.zero_le _)
    · have early := (plainDays_daysBefore within).2 pos
      omega
  · rcases Nat.lt_or_ge (year + 1) 400 with within | last
    · by_contra later
      have next : daysBefore (year + 1) ≤ daysBefore year + 366 := by
        unfold daysBefore
        omega
      have behind : plainDays (daysBefore (year + 1)) ≤ plainDays day := plainDays_mono (by omega)
      have late := (plainDays_daysBefore within).1
      omega
    · have own : year = 399 := by omega
      rw [own]
      exact Nat.le_of_lt_succ era

/-! ## Dates -/

/-- **The number of the date of a day is the number of the day.** -/
theorem dayNumber_dateOfDay (number : Int) :
    dayNumber (dateOfDay number).1 (dateOfDay number).2.1 (dateOfDay number).2.2 = number := by
  obtain ⟨era, day, within, parts⟩ : ∃ (era : Int) (day : Nat), day < 146097 ∧
      number + 719468 = era * 146097 + day := by
    refine ⟨(number + 719468) / 146097, ((number + 719468) % 146097).toNat, ?_, ?_⟩ <;> omega
  obtain ⟨short, first, last⟩ := yearOfEra_spec within
  obtain ⟨year, found⟩ : ∃ year, year = plainDays day / 365 := ⟨_, rfl⟩
  rw [← found] at short first last
  have eraIs : Int.fdiv (number + 719468) 146097 = era := by
    rw [Int.fdiv_eq_ediv_of_nonneg _ (by decide)]
    omega
  have yearIs : ((day : Int) - day / 1460 + day / 36524 - day / 146096) / 365 = year := by
    have few : day / 1460 ≤ day := Nat.div_le_self _ _
    have fewer : day / 146096 ≤ day / 36524 := Nat.div_le_div_left (by decide) (by decide)
    have counted : (day : Int) - day / 1460 + day / 36524 - day / 146096 = plainDays day := by
      unfold plainDays
      omega
    rw [counted, found]
    rfl
  obtain ⟨rest, restIs⟩ : ∃ rest, rest = day - daysBefore year := ⟨_, rfl⟩
  have restOf : ((day : Int) - (365 * year + year / 4 - year / 100)).toNat = rest := by
    unfold daysBefore at restIs
    omega
  unfold dateOfDay
  simp only [eraIs]
  rw [show number + 719468 - era * 146097 = day by omega, yearIs, restOf]
  -- Months are counted from March, which has the number nought.
  obtain ⟨shifted, shiftedIs⟩ : ∃ shifted, shifted = (5 * rest + 2) / 153 := ⟨_, rfl⟩
  rw [← shiftedIs]
  obtain ⟨month, monthIs⟩ : ∃ month, month = if shifted < 10 then shifted + 3 else shifted - 9 :=
    ⟨_, rfl⟩
  rw [← monthIs]
  have counted : (month + 9) % 12 = shifted ∧ (153 * shifted + 2) / 5 ≤ rest := by
    split at monthIs <;> omega
  have march : (if month ≤ 2 then (if month ≤ 2 then (year : Int) + era * 400 + 1 else year + era * 400) - 1
      else (if month ≤ 2 then (year : Int) + era * 400 + 1 else year + era * 400)) =
      year + era * 400 := by
    split <;> omega
  have eraAgain : Int.fdiv (year + era * 400) 400 = era := by
    rw [Int.fdiv_eq_ediv_of_nonneg _ (by decide)]
    omega
  have restAgain : (153 * shifted + 2) / 5 + (rest - (153 * shifted + 2) / 5 + 1) - 1 = rest := by
    omega
  have yearAgain : (year : Int) + era * 400 - era * 400 = year := by omega
  unfold dayNumber
  simp only [march, eraAgain, counted.1, restAgain, yearAgain]
  unfold daysBefore at restIs first
  clear march eraAgain restAgain yearAgain counted monthIs shiftedIs restOf yearIs eraIs found last
  omega

/-- **A reading taken apart and put together is the same reading.** -/
theorem ofCivil_civil (t : Instant) : ofCivil t.civil t.offset = t := by
  obtain ⟨micros, offset⟩ := t
  obtain ⟨day, dayIs⟩ : ∃ day, day = Int.fdiv micros perDay := ⟨_, rfl⟩
  obtain ⟨ofDay, ofDayIs⟩ : ∃ ofDay, ofDay = (Int.fmod micros perDay).toNat := ⟨_, rfl⟩
  have whole : micros = day * perDay + ofDay := by
    have parts := Int.fdiv_mul_add_fmod micros perDay
    have nonneg : 0 ≤ Int.fmod micros perDay := Int.fmod_nonneg_of_pos micros (by decide)
    rw [← dayIs] at parts
    rw [ofDayIs, Int.toNat_of_nonneg nonneg]
    exact parts.symm
  have time : ofDay / 1000000 / 3600 * 3600 + ofDay / 1000000 / 60 % 60 * 60 +
      ofDay / 1000000 % 60 = ofDay / 1000000 := by omega
  unfold civil ofCivil
  dsimp only
  rw [← dayIs, ← ofDayIs, dayNumber_dateOfDay, time]
  congr 1
  rw [whole]
  unfold perSecond
  omega

/-- A reading in whole milliseconds shows no more digits of its second. -/
theorem civil_whole {micros : Int} {offset : Option Int} (whole : micros % 1000 = 0) :
    (civil ⟨micros, offset⟩).micro % 1000 = 0 := by
  show (Int.fmod micros perDay).toNat % 1000000 % 1000 = 0
  rw [Int.fmod_eq_emod_of_nonneg _ (by decide)]
  unfold perDay perSecond
  omega

end DocRepair.Instant

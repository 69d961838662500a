import Mathlib.Order.Monotone.Basic
import Mathlib.Tactic.SplitIfs
import Mathlib.Data.Nat.Cast.Basic
import EniForwarding.Time.Calendar

/-! Days and dates.

An era of 400 years is a row of years that begin in March, each with 365 days or 366. Every
day has its place there: an era, a year of the era and a day of the year. Both ways between
days and dates go through the place, so they undo each other, and the date of a day is a date
of the calendar.
-/

set_option autoImplicit false

namespace EniForwarding.Time

/-- The days of an era before one of its years. -/
def yearStart (year : Nat) : Nat := 365 * year + year / 4 - year / 100 + year / 400

/-- The days of a year of an era; the leap day is that of the next year of the calendar. -/
def yearLength (year : Nat) : Nat := if isLeapYear (year + 1) then 366 else 365

theorem yearLength_le (year : Nat) : yearLength year ≤ 366 := by
  unfold yearLength
  split <;> decide

def yearOf (day : Nat) : Nat := (day - day / 1460 + day / 36524 - day / 146096) / 365

theorem isLeapYear_iff {year : Nat} :
    isLeapYear year = true ↔ 4 ∣ year ∧ (¬100 ∣ year ∨ 400 ∣ year) := by
  have divides : ∀ n : Nat, (year : Int) % n = 0 ↔ n ∣ year := fun n => by
    rw [← Int.natCast_mod, Int.natCast_eq_zero, Nat.dvd_iff_mod_eq_zero]
  have four := divides 4
  have hundred := divides 100
  have cycle := divides 400
  simp only [Nat.cast_ofNat] at four hundred cycle
  simp [isLeapYear, four, hundred, cycle]

/-- The calendar repeats itself after an era. -/
theorem isLeapYear_cycle (year era : Int) :
    isLeapYear (year + era * 400 + 1) = isLeapYear (year + 1) := by
  have four : (year + era * 400 + 1) % 4 = (year + 1) % 4 := by omega
  have hundred : (year + era * 400 + 1) % 100 = (year + 1) % 100 := by omega
  have all : (year + era * 400 + 1) % 400 = (year + 1) % 400 := by omega
  simp only [isLeapYear, four, hundred, all]

theorem yearStart_succ (year : Nat) : yearStart (year + 1) = yearStart year + yearLength year := by
  have leap : isLeapYear (year + 1) = true ↔
      4 ∣ year + 1 ∧ (¬100 ∣ year + 1 ∨ 400 ∣ year + 1) := isLeapYear_iff
  have fewer : year / 100 ≤ year / 4 := Nat.div_le_div_left (by decide) (by decide)
  have hundred : 400 ∣ year + 1 → 100 ∣ year + 1 := Nat.dvd_trans (by decide)
  have four : 100 ∣ year + 1 → 4 ∣ year + 1 := Nat.dvd_trans (by decide)
  simp only [yearStart, yearLength, Nat.succ_div, leap]
  split_ifs <;> omega

theorem yearStart_mono : Monotone yearStart :=
  monotone_nat_of_le_succ fun year => by rw [yearStart_succ]; exact Nat.le_add_right _ _

theorem exists_year (day : Nat) : ∃ year d, day = yearStart year + d ∧ d < yearLength year := by
  have some_ : ∀ year, 0 < yearLength year := by
    intro year
    unfold yearLength
    split <;> decide
  induction day with
  | zero => exact ⟨0, 0, rfl, some_ 0⟩
  | succ day ih =>
    obtain ⟨year, d, rfl, inside⟩ := ih
    by_cases last : d + 1 = yearLength year
    · exact ⟨year + 1, 0, by rw [yearStart_succ]; omega, some_ _⟩
    · exact ⟨year, d + 1, rfl, by omega⟩

theorem yearOf_mono {first second : Nat} (le : first ≤ second) : yearOf first ≤ yearOf second := by
  unfold yearOf
  apply Nat.div_le_div_right
  omega

/-- The year is found from its first day to its last. -/
theorem yearOf_eq {year d : Nat} (within : year < 400) (inside : d < yearLength year) :
    yearOf (yearStart year + d) = year := by
  have ends : ∀ year < 400, yearOf (yearStart year) = year ∧
      yearOf (yearStart (year + 1) - 1) = year := by
    decide +kernel
  obtain ⟨first, last⟩ := ends year within
  have next := yearStart_succ year
  have low : yearOf (yearStart year) ≤ yearOf (yearStart year + d) := yearOf_mono (by omega)
  have high : yearOf (yearStart year + d) ≤ yearOf (yearStart (year + 1) - 1) :=
    yearOf_mono (by omega)
  omega

theorem monthLength_le (year : Int) (month : Nat) : monthLength year month ≤ 31 := by
  unfold monthLength
  split_ifs <;> decide

/-! ### Places and dates -/

/-- The date of a day of a year that begins in March. -/
def dateOf (era : Int) (year d : Nat) : Date :=
  let monthFromMarch := (5 * d + 2) / 153
  let month := if monthFromMarch < 10 then monthFromMarch + 3 else monthFromMarch - 9
  ⟨year + era * 400 + (if month ≤ 2 then 1 else 0), month, d - (153 * monthFromMarch + 2) / 5 + 1⟩

theorem exists_place (days : Int) : ∃ (era : Int) (year d : Nat),
    days + 719468 = era * 146097 + yearStart year + d ∧ year < 400 ∧ d < yearLength year := by
  have range := Int.emod_nonneg (days + 719468) (by decide : (146097 : Int) ≠ 0)
  obtain ⟨year, d, place, inside⟩ := exists_year ((days + 719468) % 146097).toNat
  refine ⟨(days + 719468) / 146097, year, d, by omega, ?_, inside⟩
  -- the year 400 begins where the era ends
  by_contra late
  have after : yearStart 400 ≤ yearStart year := yearStart_mono (by omega)
  have ends : yearStart 400 = 146097 := rfl
  omega

/-- Every month is as long as the calendar has it. -/
theorem dateOf_within {era : Int} {year d : Nat} (inside : d < yearLength year) :
    1 ≤ (dateOf era year d).month ∧ (dateOf era year d).month ≤ 12 ∧
    1 ≤ (dateOf era year d).day ∧
    (dateOf era year d).day ≤ monthLength (dateOf era year d).year (dateOf era year d).month := by
  have short : d < 366 ∧ (isLeapYear (year + 1) = false → d < 365) := by
    unfold yearLength at inside
    split at inside
    next leap => exact ⟨inside, by simp [leap]⟩
    next => exact ⟨by omega, fun _ => inside⟩
  obtain ⟨m, months⟩ : ∃ m, m = (5 * d + 2) / 153 := ⟨_, rfl⟩
  have cycle : isLeapYear (year + era * 400 + 1) = isLeapYear (year + 1) := isLeapYear_cycle _ _
  by_cases february : m = 11
  · subst february
    simp only [dateOf, ← months]
    rw [if_neg (by decide), if_pos (by decide), monthLength, if_pos rfl, cycle]
    cases leap : isLeapYear (year + 1) with
    | true => exact ⟨by decide, by decide, by omega, by rw [if_pos rfl]; omega⟩
    | false =>
      have last := short.2 leap
      exact ⟨by decide, by decide, by omega, by rw [if_neg (by decide)]; omega⟩
  · simp only [dateOf, ← months, monthLength]
    split_ifs <;> omega

theorem yearStart_add_lt {year d : Nat} (within : year < 400) (inside : d < yearLength year) :
    yearStart year + d < 146097 := by
  have next : yearStart (year + 1) ≤ yearStart 400 := yearStart_mono within
  have ends : yearStart 400 = 146097 := rfl
  rw [yearStart_succ] at next
  omega

theorem yearStart_cast {year : Nat} (within : year < 400) :
    (365 * year + year / 4 - year / 100 : Int) = yearStart year := by
  rw [yearStart]
  omega

theorem yearOf_cast (day : Nat) :
    (day - day / 1460 + day / 36524 - day / 146096 : Int) / 365 = yearOf day := by
  rw [yearOf]
  omega

section place

variable {era : Int} {year d : Nat} (within : year < 400) (inside : d < yearLength year)

include within inside

theorem ofDays_eq {days : Int} (place : days + 719468 = era * 146097 + yearStart year + d) :
    Date.ofDays days = dateOf era year d := by
  have lower := yearStart_add_lt within inside
  have found : (days + 719468).fdiv 146097 = era := by
    rw [Int.fdiv_eq_ediv_of_nonneg _ (by decide)]
    omega
  have dayOfEra : days + 719468 - era * 146097 = (yearStart year + d : Nat) := by omega
  have dayOfYear : ((yearStart year + d : Nat) : Int) - yearStart year = d := by omega
  have months : (5 * (d : Int) + 2) / 153 = ((5 * d + 2) / 153 : Nat) := by omega
  simp only [Date.ofDays, found, dayOfEra, yearOf_cast, yearOf_eq within inside,
    yearStart_cast within, dayOfYear, months, dateOf, Date.mk.injEq]
  split_ifs <;> omega

theorem toDays_dateOf :
    (dateOf era year d).toDays = era * 146097 + yearStart year + d - 719468 := by
  have short : yearLength year ≤ 366 := yearLength_le year
  obtain ⟨m, months⟩ : ∃ m, m = (5 * d + 2) / 153 := ⟨_, rfl⟩
  have found : (year + era * 400 : Int).fdiv 400 = era := by
    rw [Int.fdiv_eq_ediv_of_nonneg _ (by decide)]
    omega
  have yearOfEra : (year + era * 400 : Int) - era * 400 = year := by omega
  have start := yearStart_cast within
  by_cases early : m < 10
  · have month : ¬m + 3 ≤ 2 := by omega
    simp only [Date.toDays, dateOf, ← months, if_pos early, if_neg month, Int.add_zero, found,
      yearOfEra]
    omega
  · have month : m - 9 ≤ 2 := by omega
    simp only [Date.toDays, dateOf, ← months, if_neg early, if_pos month, Int.add_sub_cancel,
      found, yearOfEra]
    omega

end place

theorem toDays_ofDays (days : Int) : (Date.ofDays days).toDays = days := by
  obtain ⟨era, year, d, place, within, inside⟩ := exists_place days
  rw [ofDays_eq within inside place, toDays_dateOf within inside]
  omega

theorem isValid_ofDays {days : Int} (written : isYear (Date.ofDays days).year = true) :
    (Date.ofDays days).isValid = true := by
  obtain ⟨era, year, d, place, within, inside⟩ := exists_place days
  rw [ofDays_eq within inside place] at written ⊢
  simp [Date.isValid, written, dateOf_within inside]

end EniForwarding.Time

import HostLisp.Time.Calendar
import Mathlib.Data.Int.Init
import Mathlib.Order.Basic
import Mathlib.Tactic.IntervalCases

/-!
# The calendar, day by day

Every date has a day after it: the next of the month, the first of the next month, or the first of
the next year.  Going on in this way from 1970-01-01 gives every later date a number, and going back
every earlier one.  The closed formula gives the same numbers, in all years:

    counted_iff : Counted d n ↔ d.Exists ∧ n = daysSinceEpoch d.year d.month d.day

The formula begins its years with March, so the step from February to March is where the leap days
come in.
-/

namespace HostLisp.Calendar

/-! ### The calendar -/

/-- Every fourth year has a leap day, but of the full centuries only every fourth. -/
def Leap (year : Int) : Prop := 4 ∣ year ∧ (100 ∣ year → 400 ∣ year)

instance : DecidablePred Leap := fun year =>
  inferInstanceAs (Decidable (4 ∣ year ∧ (100 ∣ year → 400 ∣ year)))

/-- The days of the months of a year, January first. -/
def monthLengths (year : Int) : List Nat :=
  [31, if Leap year then 29 else 28, 31, 30, 31, 30, 31, 31, 30, 31, 30, 31]

/-- A month of the year and how many days it has. -/
def Lasts (year : Int) (month days : Nat) : Prop :=
  1 ≤ month ∧ (monthLengths year)[month - 1]? = some days

/-- A day of a month of a year, in the calendar or not. -/
structure Date where
  year : Int
  month : Nat
  day : Nat
deriving DecidableEq

/-- The date is in the calendar. -/
def Date.Exists (d : Date) : Prop := ∃ days, Lasts d.year d.month days ∧ 1 ≤ d.day ∧ d.day ≤ days

/-- A date and the day after it. -/
inductive Next : Date → Date → Prop where
  | day {year : Int} {month day days : Nat} (h : Lasts year month days) (hpos : 1 ≤ day)
      (hlt : day < days) : Next ⟨year, month, day⟩ ⟨year, month, day + 1⟩
  | month {year : Int} {month days : Nat} (h : Lasts year month days) (hlt : month < 12) :
      Next ⟨year, month, days⟩ ⟨year, month + 1, 1⟩
  | year {year : Int} : Next ⟨year, 12, 31⟩ ⟨year + 1, 1, 1⟩

/-- The number that a date is given when days are counted one by one from 1970-01-01. -/
inductive Counted : Date → Int → Prop where
  | epoch : Counted ⟨1970, 1, 1⟩ 0
  | after {d d' : Date} {n : Int} (h : Counted d n) (hnext : Next d d') : Counted d' (n + 1)
  | before {d d' : Date} {n : Int} (h : Counted d' n) (hnext : Next d d') : Counted d (n - 1)

variable {d d' : Date} {year n : Int} {month day days : Nat}

/-! ### Lengths of months -/

theorem isLeap_iff : isLeap year = true ↔ Leap year := by
  simp only [isLeap, Leap, Bool.and_eq_true, Bool.or_eq_true, decide_eq_true_eq, bne_iff_ne]
  omega

theorem lasts_iff :
    Lasts year month days ↔ 1 ≤ month ∧ month ≤ 12 ∧ days = daysInMonth year month := by
  unfold Lasts monthLengths daysInMonth
  simp only [isLeap_iff]
  constructor
  · rintro ⟨hpos, h⟩
    have hle : month - 1 < 12 := (List.getElem?_eq_some_iff.1 h).1
    have hmonth : month ≤ 12 := by omega
    refine ⟨hpos, hmonth, ?_⟩
    interval_cases month <;> simpa [eq_comm] using h
  · rintro ⟨hpos, hmonth, rfl⟩
    refine ⟨hpos, ?_⟩
    interval_cases month <;> simp

theorem exists_iff : (⟨year, month, day⟩ : Date).Exists ↔ isDate year month day = true := by
  simp only [Date.Exists, lasts_iff, isDate, Bool.and_eq_true, decide_eq_true_eq]
  constructor
  · rintro ⟨days, ⟨hpos, hmonth, rfl⟩, hday, hle⟩
    exact ⟨⟨⟨hpos, hmonth⟩, hday⟩, hle⟩
  · rintro ⟨⟨⟨hpos, hmonth⟩, hday⟩, hle⟩
    exact ⟨_, ⟨hpos, hmonth, rfl⟩, hday, hle⟩

theorem one_le_daysInMonth (year : Int) (month : Nat) : 1 ≤ daysInMonth year month := by
  unfold daysInMonth
  split_ifs <;> decide

theorem lasts_daysInMonth (hpos : 1 ≤ month) (hle : month ≤ 12) :
    Lasts year month (daysInMonth year month) := lasts_iff.2 ⟨hpos, hle, rfl⟩

theorem daysInMonth_le (year : Int) (month : Nat) : daysInMonth year month ≤ 31 := by
  unfold daysInMonth
  split_ifs <;> decide

theorem Lasts.one_le (h : Lasts year month days) : 1 ≤ days := by
  obtain ⟨-, -, rfl⟩ := lasts_iff.1 h
  exact one_le_daysInMonth year month

theorem lasts_january (year : Int) : Lasts year 1 31 := ⟨le_rfl, rfl⟩

theorem lasts_december (year : Int) : Lasts year 12 31 := ⟨by decide, rfl⟩

theorem Next.exists_left (h : Next d d') : d.Exists := by
  cases h with
  | day h hpos hlt => exact ⟨_, h, hpos, hlt.le⟩
  | month h hlt => exact ⟨_, h, h.one_le, le_rfl⟩
  | @year y => exact ⟨_, lasts_december y, by simp, le_rfl⟩

theorem Next.exists_right (h : Next d d') : d'.Exists := by
  cases h with
  | day h hpos hlt => exact ⟨_, h, Nat.succ_pos _, hlt⟩
  | @month y m n h hlt =>
    have hlasts : Lasts y (m + 1) (daysInMonth y (m + 1)) := lasts_daysInMonth (Nat.succ_pos m) hlt
    exact ⟨_, hlasts, le_rfl, hlasts.one_le⟩
  | @year y => exact ⟨_, lasts_january (y + 1), le_rfl, by simp⟩

/-! ### One day further -/

/-- The days of the eras and years before a year, leap days by the three rules. -/
theorem daysBeforeYear_era (year : Int) :
    year / 400 * daysInEra + daysBeforeYear (year - year / 400 * 400) =
      year * 365 + year / 4 - year / 100 + year / 400 := by
  unfold daysInEra daysBeforeYear
  omega

theorem daysSinceEpoch_eq (year : Int) (month day : Nat) :
    daysSinceEpoch year month day =
      countedYear year month * 365 + countedYear year month / 4 - countedYear year month / 100 +
        countedYear year month / 400 + daysBeforeMonth month + day - 1 - daysToEpoch := by
  have h := daysBeforeYear_era (countedYear year month)
  unfold daysSinceEpoch
  dsimp only
  omega

/-- Years of four digits are within three million days from 1970. -/
theorem daysSinceEpoch_range (hyear : 0 ≤ year) (hyear' : year < 10_000) (hmonth : month ≤ 12)
    (hday : day ≤ 31) :
    -1_000_000 ≤ daysSinceEpoch year month day ∧ daysSinceEpoch year month day ≤ 3_000_000 := by
  have hcounted : -1 ≤ countedYear year month ∧ countedYear year month < 10_000 := by
    unfold countedYear
    split_ifs <;> omega
  have hbefore : daysBeforeMonth month ≤ 337 := by
    unfold daysBeforeMonth monthFromMarch
    split_ifs <;> omega
  rw [daysSinceEpoch_eq]
  unfold daysToEpoch
  omega

theorem daysSinceEpoch_succ_day (year : Int) (month day : Nat) :
    daysSinceEpoch year month (day + 1) = daysSinceEpoch year month day + 1 := by
  rw [daysSinceEpoch_eq, daysSinceEpoch_eq]
  omega

/-- February is the last month of its counted year; its length tells apart whether four, a hundred
and four hundred divide the next one. -/
theorem daysSinceEpoch_march (year : Int) :
    daysSinceEpoch year 3 1 = daysSinceEpoch year 2 (daysInMonth year 2) + 1 := by
  have hleap : (daysInMonth year 2 : Int) = if Leap year then 29 else 28 := by
    simp [daysInMonth, isLeap_iff]
  have hmarch : daysBeforeMonth 3 = 0 := by decide
  have hfebruary : daysBeforeMonth 2 = 337 := by decide
  rw [daysSinceEpoch_eq, daysSinceEpoch_eq, hleap, hmarch, hfebruary]
  unfold countedYear Leap
  split_ifs <;> omega

theorem daysSinceEpoch_succ_month (hpos : 1 ≤ month) (hlt : month < 12) :
    daysSinceEpoch year (month + 1) 1 =
      daysSinceEpoch year month (daysInMonth year month) + 1 := by
  by_cases hmonth : month = 2
  · subst hmonth
    exact daysSinceEpoch_march year
  · -- Both months are counted in the same year.
    rw [daysSinceEpoch_eq, daysSinceEpoch_eq]
    unfold countedYear daysBeforeMonth monthFromMarch daysInMonth
    interval_cases month <;> simp at hmonth ⊢ <;> omega

theorem daysSinceEpoch_succ_year (year : Int) :
    daysSinceEpoch (year + 1) 1 1 = daysSinceEpoch year 12 31 + 1 := by
  have hjanuary : daysBeforeMonth 1 = 306 := by decide
  have hdecember : daysBeforeMonth 12 = 275 := by decide
  rw [daysSinceEpoch_eq, daysSinceEpoch_eq, hjanuary, hdecember]
  simp [countedYear]
  omega

/-- The number of a date by the formula. -/
def Date.number (d : Date) : Int := daysSinceEpoch d.year d.month d.day

/-- The day after has the next number. -/
theorem Next.number_eq (h : Next d d') : d'.number = d.number + 1 := by
  cases h with
  | day h hpos hlt => exact daysSinceEpoch_succ_day ..
  | month h hlt =>
    obtain ⟨hpos, hle, rfl⟩ := lasts_iff.1 h
    exact daysSinceEpoch_succ_month hpos hlt
  | year => exact daysSinceEpoch_succ_year _

/-! ### Counting -/

theorem Counted.exists (h : Counted d n) : d.Exists := by
  induction h with
  | epoch => exact ⟨_, lasts_january 1970, le_rfl, by decide⟩
  | after h hnext ih => exact hnext.exists_right
  | before h hnext ih => exact hnext.exists_left

theorem Counted.eq_number (h : Counted d n) : n = d.number := by
  induction h with
  | epoch => decide
  | after h hnext ih => rw [hnext.number_eq, ih]
  | before h hnext ih => rw [ih, hnext.number_eq, Int.add_sub_cancel]

/-- Counting reaches the date. -/
def Date.Reached (d : Date) : Prop := Counted d d.number

/-- Counting goes on from a date to the next one, and back. -/
theorem Next.reached_iff (h : Next d d') : d.Reached ↔ d'.Reached := by
  unfold Date.Reached
  rw [h.number_eq]
  constructor
  · intro hd
    exact hd.after h
  · intro hd
    simpa using hd.before h

theorem reached_day_iff (h : Lasts year month days) (hpos : 1 ≤ day) (hle : day ≤ days) :
    (⟨year, month, 1⟩ : Date).Reached ↔ (⟨year, month, day⟩ : Date).Reached := by
  induction day, hpos using Nat.le_induction with
  | base => rfl
  | succ day hpos ih => exact (ih (by omega)).trans (Next.day h hpos hle).reached_iff

theorem reached_month_iff (hpos : 1 ≤ month) (hle : month ≤ 12) :
    (⟨year, 1, 1⟩ : Date).Reached ↔ (⟨year, month, 1⟩ : Date).Reached := by
  induction month, hpos using Nat.le_induction with
  | base => rfl
  | succ month hpos ih =>
    have hlasts : Lasts year month (daysInMonth year month) := lasts_daysInMonth hpos (by omega)
    calc (⟨year, 1, 1⟩ : Date).Reached
        ↔ (⟨year, month, 1⟩ : Date).Reached := ih (by omega)
      _ ↔ (⟨year, month, daysInMonth year month⟩ : Date).Reached :=
          reached_day_iff hlasts hlasts.one_le le_rfl
      _ ↔ (⟨year, month + 1, 1⟩ : Date).Reached := (Next.month hlasts hle).reached_iff

theorem reached_succ_year_iff (year : Int) :
    (⟨year, 1, 1⟩ : Date).Reached ↔ (⟨year + 1, 1, 1⟩ : Date).Reached :=
  calc (⟨year, 1, 1⟩ : Date).Reached
      ↔ (⟨year, 12, 1⟩ : Date).Reached := reached_month_iff (by decide) le_rfl
    _ ↔ (⟨year, 12, 31⟩ : Date).Reached :=
        reached_day_iff (lasts_december year) (by decide) le_rfl
    _ ↔ (⟨year + 1, 1, 1⟩ : Date).Reached := Next.year.reached_iff

theorem reached_year (year : Int) : (⟨year, 1, 1⟩ : Date).Reached := by
  induction year using Int.inductionOn' (b := 1970) with
  | zero => exact Counted.epoch
  | succ year _ ih => exact (reached_succ_year_iff year).1 ih
  | pred year _ ih =>
    rw [reached_succ_year_iff, Int.sub_add_cancel]
    exact ih

theorem Date.Exists.reached (h : d.Exists) : d.Reached := by
  obtain ⟨days, hlasts, hpos, hle⟩ := h
  obtain ⟨hmonth, hmonth', -⟩ := lasts_iff.1 hlasts
  exact (reached_day_iff hlasts hpos hle).1 ((reached_month_iff hmonth hmonth').1 (reached_year _))

/-- The formula counts the days of the calendar. -/
theorem counted_iff : Counted d n ↔ d.Exists ∧ n = daysSinceEpoch d.year d.month d.day := by
  constructor
  · intro h
    exact ⟨h.exists, h.eq_number⟩
  · rintro ⟨h, rfl⟩
    exact h.reached

end HostLisp.Calendar

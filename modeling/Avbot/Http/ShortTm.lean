import Avbot.Lib.Calendar

/-!
# The time of a date

`short_tm_time_t`, with which the expiry of a cookie is computed. For the dates of the calendar from 1970 on it counts the days.
-/

namespace Avbot.Http

open Calendar (IsLeap Date monthLength)

structure ShortTm where
  tmSec : Int
  tmMin : Int
  tmHour : Int
  tmMday : Int
  tmMon : Int
  tmYear : Int

namespace ShortTm

def monthDaysCumulative : List Int := [0, 31, 59, 90, 120, 151, 181, 212, 243, 273, 304, 334]

/-- The year and the month of the table, for a month that need not be one of the twelve. -/
def normalized (tm : ShortTm) : Int × Int :=
  let year := tm.tmYear + 1900
  if tm.tmMon < 0 then (year + (11 - tm.tmMon).tdiv 12, 11 - (11 - tm.tmMon).tmod 12)
  else if tm.tmMon ≥ 12 then (year - tm.tmMon.tdiv 12, tm.tmMon.tmod 12)
  else (year, tm.tmMon)

/-- The leap days from 1970 to the end of a year. -/
def leapDays (year : Int) : Int :=
  year.tdiv 4 - year.tdiv 100 + year.tdiv 400 - (1969 : Int).tdiv 4 + (1969 : Int).tdiv 100 - (1969 : Int).tdiv 400

def shortTmTimeT (tm : ShortTm) : Int :=
  if tm.tmYear < 70 then -1
  else
    let (year, month) := tm.normalized
    let leapDays := leapDays (year - if tm.tmMon ≤ 1 then 1 else 0)
    ((((year - 1970) * 365 + leapDays + monthDaysCumulative.getD month.toNat 0 + tm.tmMday - 1) * 24 + tm.tmHour) * 60 +
      tm.tmMin) * 60 + tm.tmSec

def ofDate (d : Date) (hour minute second : Nat) : ShortTm := ⟨second, minute, hour, d.day, d.month, (d.year : Int) - 1900⟩

/-- The days of the formula. -/
def dayNumber (d : Date) : Int :=
  (d.year - 1970) * 365 + leapDays (d.year - if d.month ≤ 1 then 1 else 0) + monthDaysCumulative.getD d.month 0 + d.day - 1

theorem leapDays_succ {year : Nat} (hyear : 0 < year) : leapDays year = leapDays (year - 1) + if IsLeap year then 1 else 0 := by
  have hnonneg : (0 : Int) ≤ year - 1 := by omega
  simp only [leapDays, Int.tdiv_eq_ediv_of_nonneg hnonneg, Int.tdiv_eq_ediv_of_nonneg (Int.natCast_nonneg year)]
  by_cases hleap : IsLeap year
  · rw [if_pos hleap]
    unfold IsLeap at hleap
    omega
  · rw [if_neg hleap]
    unfold IsLeap at hleap
    omega

theorem monthDaysCumulative_succ (year : Nat) {month : Nat} (hmonth : month < 11) :
    monthDaysCumulative.getD (month + 1) 0 + (if month = 1 ∧ IsLeap year then 1 else 0) =
      monthDaysCumulative.getD month 0 + monthLength year month := by
  by_cases hleap : IsLeap year
  · simp only [monthLength, hleap, and_true, if_true]
    revert month
    decide
  · simp only [monthLength, hleap, and_false, if_false]
    revert month
    decide

theorem dayNumber_next {d : Date} (hyear : 1970 ≤ d.year) : dayNumber d.next = dayNumber d + 1 := by
  have hleap := @leapDays_succ d.year (by omega)
  unfold dayNumber
  obtain ⟨hy, hm, hd⟩ | ⟨hlast, hd, ⟨hmonth, hy, hm⟩ | ⟨hmonth, hy, hm⟩⟩ := d.next_cases
  · rw [hy, hm, hd]
    omega
  · have hcumulative := monthDaysCumulative_succ d.year hmonth
    rw [hy, hm, hd, hlast]
    -- the leap day of the year counts from March on
    rcases Nat.lt_trichotomy d.month 1 with hlt | heq | hgt
    · rw [if_pos (by omega), if_pos (by omega)]
      rw [if_neg (by omega)] at hcumulative
      omega
    · rw [if_neg (by omega), if_pos (by omega), Int.sub_zero, hleap]
      simp only [heq, true_and] at hcumulative ⊢
      omega
    · rw [if_neg (by omega), if_neg (by omega)]
      rw [if_neg (by omega)] at hcumulative
      omega
  · have hdecember : monthLength d.year 11 = 31 := rfl
    have hsame : ((d.year + 1 : Nat) : Int) - 1 = d.year - 0 := by omega
    rw [hy, hm, hd, hlast, hmonth, hdecember, if_pos (by omega), if_neg (by omega), hsame]
    simp only [monthDaysCumulative, List.getD_cons_zero, List.getD_cons_succ]
    omega

theorem normalized_ofDate (d : Date) (hour minute second : Nat) :
    (ofDate d hour minute second).normalized = ((d.year : Int), (d.month : Int)) := by
  have hmonth := d.month_lt
  rw [normalized, if_neg (by show ¬ (d.month : Int) < 0; omega), if_neg (by show ¬ (d.month : Int) ≥ 12; omega)]
  exact Prod.ext (Int.sub_add_cancel _ _) rfl

theorem shortTmTimeT_ofDate {d : Date} (hyear : 1970 ≤ d.year) (hour minute second : Nat) :
    shortTmTimeT (ofDate d hour minute second) = dayNumber d * 86400 + hour * 3600 + minute * 60 + second := by
  have hfirst : (if (d.month : Int) ≤ 1 then (1 : Int) else 0) = if d.month ≤ 1 then 1 else 0 :=
    if_congr (by omega) rfl rfl
  rw [shortTmTimeT, if_neg (by show ¬ (d.year : Int) - 1900 < 70; omega), normalized_ofDate]
  show (((((d.year : Int) - 1970) * 365 + leapDays (d.year - if (d.month : Int) ≤ 1 then 1 else 0) +
    monthDaysCumulative.getD d.month 0 + d.day - 1) * 24 + hour) * 60 + minute) * 60 + (second : Int) = _
  rw [hfirst, dayNumber]
  omega

def epoch : Date := .first 1970 0 (Nat.succ_pos 11)

/-- The number of seconds since the beginning of 1970. -/
theorem shortTmTimeT_counts_days (d : Date) (hour minute second : Nat) (hyear : 1970 ≤ d.year) :
    ∃! n : Nat, Date.next^[n] epoch = d ∧
      shortTmTimeT (ofDate d hour minute second) = n * 86400 + hour * 3600 + minute * 60 + second := by
  have hnumber : ∀ n, dayNumber (Date.next^[n] epoch) = n := by
    intro n
    rw [(Date.number_iterate (fun d => dayNumber_next) (Nat.le_refl 1970) n).1, show dayNumber epoch = 0 by decide, Int.zero_add]
  obtain ⟨n, hn⟩ : ∃ n, Date.next^[n] epoch = d := d.reaches_of_le hyear
  refine ⟨n, ⟨hn, ?_⟩, ?_⟩
  · rw [shortTmTimeT_ofDate hyear, ← hn, hnumber]
  · rintro m ⟨hm, -⟩
    have heq := hnumber m
    rw [hm, ← hn, hnumber] at heq
    omega

theorem shortTmTimeT_counts_days_leap_day :
    ∃! n : Nat, Date.next^[n] epoch = ⟨2000, 1, 29, by decide, by decide, by decide⟩ ∧
      shortTmTimeT (ofDate ⟨2000, 1, 29, by decide, by decide, by decide⟩ 23 59 58) = n * 86400 + 23 * 3600 + 59 * 60 + 58 :=
  shortTmTimeT_counts_days ⟨2000, 1, 29, by decide, by decide, by decide⟩ 23 59 58 (by decide)

end ShortTm

end Avbot.Http

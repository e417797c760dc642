import Mathlib.Logic.Function.Iterate
import Mathlib.Tactic.SplitIfs

/-!
# The Gregorian calendar

Dates with months from 0 to 11, and the step to the next day. A numbering that grows by one with every day counts the days, and from the first day of a year every later date is reached.
-/

namespace Calendar

def IsLeap (year : Nat) : Prop := year % 4 = 0 ∧ (year % 100 ≠ 0 ∨ year % 400 = 0)

instance (year : Nat) : Decidable (IsLeap year) := inferInstanceAs (Decidable (_ ∧ _))

def monthLength (year month : Nat) : Nat :=
  if month = 1 then if IsLeap year then 29 else 28
  else if month ∈ [3, 5, 8, 10] then 30
  else 31

theorem monthLength_pos (year month : Nat) : 0 < monthLength year month := by
  unfold monthLength
  split_ifs <;> decide

structure Date where
  year : Nat
  month : Nat
  day : Nat
  month_lt : month < 12
  day_pos : 0 < day
  day_le : day ≤ monthLength year month

namespace Date

/-- The first day of a month. -/
def first (year month : Nat) (hmonth : month < 12) : Date := ⟨year, month, 1, hmonth, Nat.one_pos, monthLength_pos year month⟩

def next (d : Date) : Date :=
  if h : d.day < monthLength d.year d.month then ⟨d.year, d.month, d.day + 1, d.month_lt, d.day.succ_pos, h⟩
  else if h : d.month < 11 then first d.year (d.month + 1) (by omega)
  else first (d.year + 1) 0 (by omega)

/-- What a step to the next day can be. -/
theorem next_cases (d : Date) :
    (d.next.year = d.year ∧ d.next.month = d.month ∧ d.next.day = d.day + 1) ∨
    (d.day = monthLength d.year d.month ∧ d.next.day = 1 ∧
      ((d.month < 11 ∧ d.next.year = d.year ∧ d.next.month = d.month + 1) ∨
        (d.month = 11 ∧ d.next.year = d.year + 1 ∧ d.next.month = 0))) := by
  have hle := d.day_le
  have hlt := d.month_lt
  unfold next
  split_ifs with hday hmonth
  · exact .inl ⟨rfl, rfl, rfl⟩
  · exact .inr ⟨by omega, rfl, .inl ⟨hmonth, rfl, rfl⟩⟩
  · exact .inr ⟨by omega, rfl, .inr ⟨by omega, rfl, rfl⟩⟩

/-- A numbering that grows by one with every day counts the days. -/
theorem number_iterate {number : Date → Int} {year : Nat} (hnext : ∀ d : Date, year ≤ d.year → number d.next = number d + 1)
    {d : Date} (hd : year ≤ d.year) (n : Nat) : number (next^[n] d) = number d + n ∧ year ≤ (next^[n] d).year := by
  induction n with
  | zero => exact ⟨by simp, hd⟩
  | succ n ih =>
    obtain ⟨hnumber, hyear⟩ := ih
    rw [Function.iterate_succ_apply', hnext _ hyear, hnumber]
    grind [next_cases]

/-- One date comes after the other, or they are the same. -/
def Reaches (d e : Date) : Prop := ∃ n, next^[n] d = e

theorem Reaches.trans {d e f : Date} (hde : d.Reaches e) (hef : e.Reaches f) : d.Reaches f := by
  obtain ⟨m, rfl⟩ := hde
  obtain ⟨n, rfl⟩ := hef
  exact ⟨n + m, Function.iterate_add_apply _ _ _ _⟩

theorem reaches_day {year month : Nat} (hmonth : month < 12) (day : Nat) (hday : day < monthLength year month) :
    (first year month hmonth).Reaches ⟨year, month, day + 1, hmonth, day.succ_pos, hday⟩ := by
  induction day with
  | zero => exact ⟨0, rfl⟩
  | succ day ih =>
    refine (ih (by omega)).trans ⟨1, ?_⟩
    show next _ = _
    rw [next, dif_pos hday]

theorem reaches_last (year : Nat) {month : Nat} (hmonth : month < 12) :
    ∃ d : Date, (first year month hmonth).Reaches d ∧ d.year = year ∧ d.month = month ∧ d.day = monthLength year month := by
  have hpos := monthLength_pos year month
  exact ⟨_, reaches_day hmonth (monthLength year month - 1) (by omega), rfl, rfl, Nat.sub_add_cancel hpos⟩

theorem reaches_month {year : Nat} (month : Nat) (hmonth : month < 12) :
    (first year 0 (by omega)).Reaches (first year month hmonth) := by
  induction month with
  | zero => exact ⟨0, rfl⟩
  | succ month ih =>
    obtain ⟨d, hreaches, rfl, rfl, hday⟩ := reaches_last year (show month < 12 by omega)
    refine ((ih _).trans hreaches).trans ⟨1, ?_⟩
    show next _ = _
    rw [next, dif_neg (by omega), dif_pos (by omega)]

theorem reaches_year (year n : Nat) : (first year 0 (by omega)).Reaches (first (year + n) 0 (by omega)) := by
  induction n with
  | zero => exact ⟨0, rfl⟩
  | succ n ih =>
    obtain ⟨d, hreaches, hyear, hmonth, hday⟩ := reaches_last (year + n) (show 11 < 12 by omega)
    refine ((ih.trans (reaches_month 11 (by omega))).trans hreaches).trans ⟨1, ?_⟩
    show next _ = _
    grind [next]

/-- Every date of a year or a later one comes after the first day of the year. -/
theorem reaches_of_le {year : Nat} (d : Date) (hyear : year ≤ d.year) : (first year 0 (by omega)).Reaches d := by
  obtain ⟨n, hn⟩ := Nat.exists_eq_add_of_le hyear
  have hfirst := (reaches_year year n).trans (reaches_month d.month d.month_lt)
  obtain ⟨y, month, day, hmonth, hpos, hle⟩ := d
  obtain rfl : y = year + n := hn
  obtain ⟨day, rfl⟩ := Nat.exists_eq_succ_of_ne_zero (Nat.ne_of_gt hpos)
  exact hfirst.trans (reaches_day hmonth day hle)

end Date

end Calendar

import Mathlib.Data.Nat.Basic
import Mathlib.Logic.Function.Iterate
import Mathlib.Tactic.Common

/-!
# Sbc386Ex.Lib.Gregorian

The **Gregorian calendar**, from the year 0 on, the days before its introduction included.

A date is a day of a month that has it. The reference for everything counted in days is
`next`: the day after. Counted so from `start`, every date comes up once, and at its
`ordinal`.
-/

namespace Gregorian

def IsLeap (year : Nat) : Prop := year % 4 = 0 ∧ (year % 100 ≠ 0 ∨ year % 400 = 0)

instance (year : Nat) : Decidable (IsLeap year) := inferInstanceAs (Decidable (_ ∧ _))

def daysIn (year month : Nat) : Nat :=
  if month = 2 then if IsLeap year then 29 else 28
  else if month = 4 ∨ month = 6 ∨ month = 9 ∨ month = 11 then 30
  else 31

/-- Day `day` of `month` is a day of `year`. -/
structure IsDate (year month day : Nat) : Prop where
  month_pos : 1 ≤ month
  month_le : month ≤ 12
  day_pos : 1 ≤ day
  day_le : day ≤ daysIn year month

instance (year month day : Nat) : Decidable (IsDate year month day) :=
  decidable_of_iff (1 ≤ month ∧ month ≤ 12 ∧ 1 ≤ day ∧ day ≤ daysIn year month)
    ⟨fun ⟨h₁, h₂, h₃, h₄⟩ => ⟨h₁, h₂, h₃, h₄⟩, fun ⟨h₁, h₂, h₃, h₄⟩ => ⟨h₁, h₂, h₃, h₄⟩⟩

@[ext] structure Date where
  year : Nat
  month : Nat
  day : Nat
  isDate : IsDate year month day

theorem daysIn_pos (year month : Nat) : 1 ≤ daysIn year month := by
  unfold daysIn
  split_ifs <;> decide

theorem daysIn_le (year month : Nat) : daysIn year month ≤ 31 := by
  unfold daysIn
  split_ifs <;> decide

namespace Date

variable (d : Date)

/-- The day after. -/
def next : Date :=
  if hday : d.day < daysIn d.year d.month then
    ⟨d.year, d.month, d.day + 1, d.isDate.month_pos, d.isDate.month_le, Nat.le_add_left 1 _, hday⟩
  else if hmonth : d.month < 12 then
    ⟨d.year, d.month + 1, 1, Nat.le_add_left 1 _, hmonth, le_rfl, daysIn_pos _ _⟩
  else
    ⟨d.year + 1, 1, 1, le_rfl, by decide, le_rfl, daysIn_pos _ _⟩

/-- 1 January of the year 0. -/
def start : Date := ⟨0, 1, 1, by decide⟩

/-! ### The days before a date -/

/-- In the years before. -/
def beforeYear : Nat → Nat
  | 0 => 0
  | year + 1 => beforeYear year + if IsLeap year then 366 else 365

/-- In the first `n` months of the year. -/
def inMonths (year : Nat) : Nat → Nat
  | 0 => 0
  | n + 1 => inMonths year n + daysIn year (n + 1)

def ordinal : Nat := beforeYear d.year + inMonths d.year (d.month - 1) + (d.day - 1)

theorem inMonths_year (year : Nat) : inMonths year 12 = if IsLeap year then 366 else 365 := by
  simp [inMonths, daysIn]
  split <;> rfl

theorem ordinal_start : start.ordinal = 0 := rfl

/-- The day after is one more day. -/
theorem ordinal_next : d.next.ordinal = d.ordinal + 1 := by
  obtain ⟨year, month, day, hmonth, hmonth', hday, hday'⟩ := d
  simp only [next]
  split_ifs with hless hmore
  · simp only [ordinal]
    omega
  · -- the last of a month
    have hlast : day = daysIn year month := by omega
    obtain ⟨n, rfl⟩ := Nat.exists_eq_add_of_le' hmonth
    simp only [ordinal, Nat.add_sub_cancel, inMonths]
    omega
  · -- the last of a year
    have hlast : day = daysIn year month := by omega
    obtain rfl : month = 12 := by omega
    have hyear := inMonths_year year
    have hmonths : inMonths year 12 = inMonths year 11 + daysIn year 12 := rfl
    have hnone : inMonths (year + 1) 0 = 0 := rfl
    simp only [ordinal, beforeYear, Nat.sub_self, Nat.add_one_sub_one, hnone]
    omega

theorem ordinal_iterate (n : Nat) : (next^[n] start).ordinal = n := by
  induction n with
  | zero => exact ordinal_start
  | succ n ih => rw [Function.iterate_succ_apply', ordinal_next, ih]

/-! ### Every date comes up -/

/-- One that comes up counting on from `start`. -/
def Reached (d : Date) : Prop := ∃ n, next^[n] start = d

theorem Reached.next {d : Date} (h : Reached d) : Reached d.next := by
  obtain ⟨n, rfl⟩ := h
  exact ⟨n + 1, Function.iterate_succ_apply' ..⟩

/-- With the first of a month every day of it. -/
theorem reached_of_first {year month : Nat} (hfirst : IsDate year month 1)
    (h : Reached ⟨year, month, 1, hfirst⟩) (day : Nat) (hd : IsDate year month (day + 1)) :
    Reached ⟨year, month, day + 1, hd⟩ := by
  induction day with
  | zero => exact h
  | succ day ih =>
      have hless : day + 1 < daysIn year month := hd.day_le
      have hbefore : IsDate year month (day + 1) :=
        ⟨hd.month_pos, hd.month_le, Nat.le_add_left 1 _, Nat.le_of_lt hless⟩
      have hnext := (ih hbefore).next
      rwa [Date.next, dif_pos hless] at hnext

/-- With it the last one too. -/
theorem reached_last {year month : Nat} (hfirst : IsDate year month 1)
    (h : Reached ⟨year, month, 1, hfirst⟩)
    (hd : IsDate year month (daysIn year month)) :
    Reached ⟨year, month, daysIn year month, hd⟩ := by
  obtain ⟨day, hday⟩ := Nat.exists_eq_add_of_le' (daysIn_pos year month)
  have hall := reached_of_first hfirst h day (hday ▸ hd)
  simpa only [hday] using hall

/-- With 1 January the first of every month. -/
theorem reached_month {year : Nat} (hfirst : IsDate year 1 1)
    (h : Reached ⟨year, 1, 1, hfirst⟩) (n : Nat) (hd : IsDate year (n + 1) 1) :
    Reached ⟨year, n + 1, 1, hd⟩ := by
  induction n with
  | zero => exact h
  | succ n ih =>
      have hless : n + 1 < 12 := hd.month_le
      have hbefore : IsDate year (n + 1) 1 :=
        ⟨Nat.le_add_left 1 _, Nat.le_of_lt hless, le_rfl, daysIn_pos _ _⟩
      have hlast := reached_last hbefore (ih hbefore)
        ⟨Nat.le_add_left 1 _, Nat.le_of_lt hless, daysIn_pos _ _, le_rfl⟩
      have hnext := hlast.next
      rwa [Date.next, dif_neg (lt_irrefl _), dif_pos hless] at hnext

theorem isDate_january (year : Nat) : IsDate year 1 1 :=
  ⟨le_rfl, by decide, le_rfl, daysIn_pos _ _⟩

theorem reached_year (year : Nat) : Reached ⟨year, 1, 1, isDate_january year⟩ := by
  induction year with
  | zero => exact ⟨0, rfl⟩
  | succ year ih =>
      have hdecember : IsDate year 12 1 := ⟨by decide, le_rfl, le_rfl, daysIn_pos _ _⟩
      have hlast := reached_last hdecember (reached_month _ ih 11 hdecember)
        ⟨by decide, le_rfl, daysIn_pos _ _, le_rfl⟩
      have hnext := hlast.next
      rwa [Date.next, dif_neg (lt_irrefl _), dif_neg (lt_irrefl _)] at hnext

/-- Counting on from `start`, a date comes up, and at its ordinal. -/
theorem iterate_ordinal : next^[d.ordinal] start = d := by
  obtain ⟨n, hn⟩ : Reached d := by
    obtain ⟨year, month, day, hd⟩ := d
    obtain ⟨m, rfl⟩ := Nat.exists_eq_add_of_le' hd.month_pos
    obtain ⟨k, rfl⟩ := Nat.exists_eq_add_of_le' hd.day_pos
    have hfirst : IsDate year (m + 1) 1 := ⟨hd.month_pos, hd.month_le, le_rfl, daysIn_pos _ _⟩
    exact reached_of_first hfirst (reached_month _ (reached_year year) m hfirst) k hd
  rw [← hn, ordinal_iterate]

/-! ### The weekday -/

/-- 0 is a Sunday. The first day is a Saturday. -/
def weekday : Nat := (d.ordinal + 6) % 7

theorem weekday_next : d.next.weekday = (d.weekday + 1) % 7 := by
  rw [weekday, weekday, ordinal_next]
  omega

/-- Only `weekday` goes through the seven days as dates follow each other and is a Saturday
at first. -/
theorem weekday_unique {w : Date → Nat} (hstart : w start = 6)
    (hnext : ∀ d, w d.next = (w d + 1) % 7) (d : Date) : w d = d.weekday := by
  have hall : ∀ n, w (next^[n] start) = (n + 6) % 7 := by
    intro n
    induction n with
    | zero => exact hstart
    | succ n ih =>
        rw [Function.iterate_succ_apply', hnext, ih]
        omega
  have hd := hall d.ordinal
  rwa [iterate_ordinal] at hd

/-- Up to the end of a year: a leap day every four years, and in the year 0; one less every
hundred, and not every four hundred. -/
theorem beforeYear_succ_eq (year : Nat) : beforeYear (year + 1) + year / 100 =
    365 * (year + 1) + year / 4 + year / 400 + 1 := by
  induction year with
  | zero => rfl
  | succ year ih =>
      rw [beforeYear]
      split_ifs with hleap <;> unfold IsLeap at hleap <;> omega

end Date

end Gregorian

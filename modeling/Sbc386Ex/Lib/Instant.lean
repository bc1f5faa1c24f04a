import Mathlib.Order.Monotone.Basic
import Sbc386Ex.Lib.Gregorian

/-!
# Sbc386Ex.Lib.Instant

Dates in order, and the **seconds** of the Gregorian calendar, with no leap seconds.

The reference for everything counted in seconds is `tick`: the second after. Before it in the
order of year, month, day, hour, minute and second is the same as fewer `seconds`, so that an
instant is known by them.
-/

namespace Gregorian

namespace Date

variable {d d' : Date}

/-! ### Dates in order -/

/-- By the year, then the month, then the day. -/
def Before (d d' : Date) : Prop :=
  d.year < d'.year ∨ d.year = d'.year ∧
    (d.month < d'.month ∨ d.month = d'.month ∧ d.day < d'.day)

theorem inMonths_mono (year : Nat) : Monotone (inMonths year) :=
  monotone_nat_of_le_succ fun n => Nat.le_add_right (inMonths year n) _

theorem beforeYear_mono : Monotone beforeYear :=
  monotone_nat_of_le_succ fun n => Nat.le_add_right (beforeYear n) _

/-- A day of a month is before the next month begins. -/
theorem ordinal_lt_month (d : Date) : d.ordinal < beforeYear d.year + inMonths d.year d.month := by
  obtain ⟨year, month, day, hmonth, -, hday, hday'⟩ := d
  obtain ⟨n, rfl⟩ := Nat.exists_eq_add_of_le' hmonth
  simp only [ordinal, Nat.add_sub_cancel, inMonths]
  omega

/-- And a day of a year before the next year begins. -/
theorem ordinal_lt_year (d : Date) : d.ordinal < beforeYear (d.year + 1) := by
  have hmonth := d.ordinal_lt_month
  have hyear := inMonths_year d.year
  have hle : inMonths d.year d.month ≤ inMonths d.year 12 := inMonths_mono _ d.isDate.month_le
  rw [beforeYear]
  omega

theorem Before.ordinal_lt (h : d.Before d') : d.ordinal < d'.ordinal := by
  obtain hyear | ⟨hyear, hmonth | ⟨hmonth, hday⟩⟩ := h
  · calc d.ordinal
      _ < beforeYear (d.year + 1) := d.ordinal_lt_year
      _ ≤ beforeYear d'.year := beforeYear_mono hyear
      _ ≤ d'.ordinal := by rw [ordinal]; omega
  · have hle : inMonths d'.year d.month ≤ inMonths d'.year (d'.month - 1) :=
      inMonths_mono _ (Nat.le_sub_one_of_lt hmonth)
    have hlt := d.ordinal_lt_month
    rw [hyear] at hlt
    rw [ordinal.eq_def d']
    omega
  · have hpos := d.isDate.day_pos
    rw [ordinal, ordinal, hyear, hmonth]
    omega

theorem before_trichotomy (d d' : Date) : d.Before d' ∨ d = d' ∨ d'.Before d := by
  rw [Date.ext_iff]
  unfold Before
  omega

end Date

/-! ### Instants -/

@[ext] structure Instant where
  date : Date
  hour : Nat
  min : Nat
  sec : Nat
  hour_lt : hour < 24
  min_lt : min < 60
  sec_lt : sec < 60

namespace Instant

variable {i i' : Instant}

/-- Midnight at which a day begins. -/
def midnight (d : Date) : Instant := ⟨d, 0, 0, 0, by decide, by decide, by decide⟩

/-- The second after. -/
def tick (i : Instant) : Instant :=
  if hsec : i.sec < 59 then ⟨i.date, i.hour, i.min, i.sec + 1, i.hour_lt, i.min_lt, by omega⟩
  else if hmin : i.min < 59 then ⟨i.date, i.hour, i.min + 1, 0, i.hour_lt, by omega, by decide⟩
  else if hhour : i.hour < 23 then ⟨i.date, i.hour + 1, 0, 0, by omega, by decide, by decide⟩
  else midnight i.date.next

/-- The seconds before, since the first day. -/
def seconds (i : Instant) : Nat := ((i.date.ordinal * 24 + i.hour) * 60 + i.min) * 60 + i.sec

def Before (i i' : Instant) : Prop :=
  i.date.Before i'.date ∨ i.date = i'.date ∧
    (i.hour < i'.hour ∨ i.hour = i'.hour ∧
      (i.min < i'.min ∨ i.min = i'.min ∧ i.sec < i'.sec))

/-- The second after is one more second. -/
theorem seconds_tick (i : Instant) : i.tick.seconds = i.seconds + 1 := by
  obtain ⟨date, hour, min, sec, hhour, hmin, hsec⟩ := i
  have hnext := date.ordinal_next
  simp only [tick]
  split_ifs <;> simp only [seconds, midnight] <;> omega

theorem seconds_iterate (i : Instant) (n : Nat) : (tick^[n] i).seconds = i.seconds + n := by
  induction n with
  | zero => rfl
  | succ n ih => rw [Function.iterate_succ_apply', seconds_tick, ih, Nat.add_assoc]

theorem Before.seconds_lt (h : i.Before i') : i.seconds < i'.seconds := by
  obtain ⟨date, hour, min, sec, hhour, hmin, hsec⟩ := i
  simp only [Before, seconds] at h ⊢
  obtain hdate | ⟨rfl, h⟩ := h
  · have hlt := hdate.ordinal_lt
    omega
  · omega

theorem before_trichotomy (i i' : Instant) : i.Before i' ∨ i = i' ∨ i'.Before i := by
  rcases Date.before_trichotomy i.date i'.date with hbefore | hsame | hafter
  · exact .inl (.inl hbefore)
  · have hnot : ¬ i'.date.Before i'.date := fun h => Nat.lt_irrefl _ h.ordinal_lt
    simp only [Instant.ext_iff, Before, hsame, hnot, true_and, false_or]
    omega
  · exact .inr (.inr (.inl hafter))

theorem seconds_injective : Function.Injective seconds := by
  intro i i' h
  rcases before_trichotomy i i' with hbefore | hsame | hafter
  · exact absurd h hbefore.seconds_lt.ne
  · exact hsame
  · exact absurd h hafter.seconds_lt.ne'

/-- An instant is so many ticks after another as it has more seconds. -/
theorem iterate_tick {n : Nat} : tick^[n] i = i' ↔ i'.seconds = i.seconds + n := by
  constructor
  · rintro rfl
    exact seconds_iterate i n
  · intro h
    exact seconds_injective (by rw [seconds_iterate, h])

end Instant

end Gregorian

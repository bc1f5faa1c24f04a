import Mathlib.Logic.Function.Iterate
import Mathlib.Tactic.Common
import Sbc386Ex.Machine

/-!
# Sbc386Ex.Time.Calendar

The registers of the clock chip, in BCD, and what a second does to them.

A second carries from the seconds into the minutes, the hours and the day. Bit 7 of the
seconds halts the clock.
-/

namespace Sbc386Ex.Time

/-- The clock registers, by number from 0 on: seconds, minutes, hours, date, month, day of
the week, year. -/
@[ext] structure Calendar where
  sec : Byte
  min : Byte
  hour : Byte
  date : Byte
  month : Byte
  dow : Byte
  year : Byte
  deriving DecidableEq

/-- The number two BCD digits spell. -/
def bcd (b : Byte) : Nat := (b >>> 4).toNat * 10 + (b &&& 0x0F).toNat

/-- The digits of a number. -/
def toBcd (n : Nat) : Byte := BitVec.ofNat 8 (n / 10 * 16 + n % 10)

def bcdSucc (b : Byte) : Byte := if b &&& 0x0F = 9 then b + 7 else b + 1

/-- Two BCD digits, below `top`. -/
def IsBelow (top b : Byte) : Prop := b < top ∧ b &&& 0x0F ≤ 9

instance (top b : Byte) : Decidable (IsBelow top b) := inferInstanceAs (Decidable (_ ∧ _))

theorem bcd_below_sixty {b : Byte} : IsBelow 0x60 b → bcd b < 60 ∧ toBcd (bcd b) = b := by
  revert b
  decide

theorem bcd_below_day {b : Byte} : IsBelow 0x24 b → bcd b < 24 ∧ toBcd (bcd b) = b := by
  revert b
  decide

theorem bcdSucc_below_sixty {b : Byte} : IsBelow 0x60 b → b ≠ 0x59 →
    IsBelow 0x60 (bcdSucc b) ∧ bcd (bcdSucc b) = bcd b + 1 := by
  revert b
  decide

theorem bcdSucc_below_day {b : Byte} : IsBelow 0x24 b → b ≠ 0x23 →
    IsBelow 0x24 (bcdSucc b) ∧ bcd (bcdSucc b) = bcd b + 1 := by
  revert b
  decide

theorem bcdSucc_ne (b : Byte) : bcdSucc b ≠ b := by
  revert b
  decide

namespace Calendar

variable (c : Calendar)

/-- The part of the registers that changes at midnight. -/
def day : Byte × Byte × Byte × Byte := (c.year, c.month, c.date, c.dow)

def lastDay (month year : Byte) : Byte :=
  if month = 0x02 then if bcd year % 4 = 0 then 0x29 else 0x28
  else if month = 0x04 ∨ month = 0x06 ∨ month = 0x09 ∨ month = 0x11 then 0x30
  else 0x31

/-- Midnight. -/
def nextDay : Calendar :=
  let c := { c with dow := if c.dow = 7 then 1 else c.dow + 1 }
  if c.date ≠ lastDay c.month c.year then { c with date := bcdSucc c.date }
  else if c.month ≠ 0x12 then { c with date := 1, month := bcdSucc c.month }
  else { c with date := 1, month := 1, year := if c.year = 0x99 then 0 else bcdSucc c.year }

/-- A second. -/
def carry : Calendar :=
  if c.sec.msb then c
  else if c.sec ≠ 0x59 then { c with sec := bcdSucc c.sec }
  else if c.min ≠ 0x59 then { c with sec := 0, min := bcdSucc c.min }
  else if c.hour ≠ 0x23 then { c with sec := 0, min := 0, hour := bcdSucc c.hour }
  else nextDay { c with sec := 0, min := 0, hour := 0 }

/-- The clock runs, and shows a time of day. -/
structure Running : Prop where
  sec : IsBelow 0x60 c.sec
  min : IsBelow 0x60 c.min
  hour : IsBelow 0x24 c.hour

/-- Seconds since midnight. -/
def tod : Nat := bcd c.hour * 3600 + bcd c.min * 60 + bcd c.sec

variable {c}

theorem Running.not_halted (h : c.Running) : c.sec.msb = false := by
  have hall : ∀ b : Byte, IsBelow 0x60 b → b.msb = false := by decide
  exact hall _ h.sec

/-- A halted clock stands still. -/
theorem iterate_halted (h : c.sec.msb = true) (n : Nat) : carry^[n] c = c := by
  have hfix : carry c = c := by rw [carry, if_pos h]
  exact Function.iterate_fixed hfix n

theorem Running.tod_lt (h : c.Running) : c.tod < 86400 := by
  have hs := (bcd_below_sixty h.sec).1
  have hm := (bcd_below_sixty h.min).1
  have hh := (bcd_below_day h.hour).1
  unfold tod
  omega

/-- The digits of the time of day. -/
theorem Running.digits (h : c.Running) : c.sec = toBcd (c.tod % 60) ∧
    c.min = toBcd (c.tod / 60 % 60) ∧ c.hour = toBcd (c.tod / 3600) := by
  obtain ⟨hs, hsec⟩ := bcd_below_sixty h.sec
  obtain ⟨hm, hmin⟩ := bcd_below_sixty h.min
  obtain ⟨hh, hhour⟩ := bcd_below_day h.hour
  have h0 : c.tod % 60 = bcd c.sec := by unfold tod; omega
  have h1 : c.tod / 60 % 60 = bcd c.min := by unfold tod; omega
  have h2 : c.tod / 3600 = bcd c.hour := by unfold tod; omega
  rw [h0, h1, h2, hsec, hmin, hhour]
  exact ⟨rfl, rfl, rfl⟩

theorem nextDay_time (c : Calendar) :
    c.nextDay.sec = c.sec ∧ c.nextDay.min = c.min ∧ c.nextDay.hour = c.hour := by
  simp only [nextDay]
  split_ifs <;> exact ⟨rfl, rfl, rfl⟩

/-- It is the last of its month, of its year. -/
def EndsMonth (c : Calendar) : Prop := c.date = lastDay c.month c.year
def EndsYear (c : Calendar) : Prop := c.EndsMonth ∧ c.month = 0x12

instance : Decidable c.EndsMonth := inferInstanceAs (Decidable (_ = _))
instance : Decidable c.EndsYear := inferInstanceAs (Decidable (_ ∧ _))

/-- What midnight changes: the day always, the month and the year with their last. -/
theorem nextDay_changes (c : Calendar) : c.nextDay.dow ≠ c.dow ∧ c.nextDay.date ≠ c.date ∧
    (c.nextDay.month = c.month ↔ ¬ c.EndsMonth) ∧ (c.nextDay.year = c.year ↔ ¬ c.EndsYear) := by
  have hdow : ∀ b : Byte, (if b = 7 then 1 else b + 1) ≠ b := by decide
  have hlast : ∀ month year, lastDay month year ≠ 1 := by
    intro month year
    unfold lastDay
    split_ifs <;> decide
  unfold nextDay EndsYear EndsMonth
  by_cases hdate : c.date = lastDay c.month c.year
  · have hone : (1 : Byte) ≠ c.date := by
      rw [hdate]
      exact (hlast _ _).symm
    by_cases hmonth : c.month = 0x12
    · have hyear : (if c.year = 0x99 then 0 else bcdSucc c.year) ≠ c.year := by
        have hall : ∀ b : Byte, (if b = 0x99 then 0 else bcdSucc b) ≠ b := by decide
        exact hall _
      have hjanuary : (1 : Byte) ≠ c.month := by
        rw [hmonth]
        decide
      rw [if_neg (not_not.mpr hdate), if_neg (not_not.mpr hmonth)]
      exact ⟨hdow _, hone, iff_of_false hjanuary (not_not.mpr hdate),
        iff_of_false hyear (not_not.mpr ⟨hdate, hmonth⟩)⟩
    · rw [if_neg (not_not.mpr hdate), if_pos hmonth]
      exact ⟨hdow _, hone, iff_of_false (bcdSucc_ne _) (not_not.mpr hdate),
        iff_of_true rfl fun h => hmonth h.2⟩
  · rw [if_pos hdate]
    exact ⟨hdow _, bcdSucc_ne _, iff_of_true rfl hdate, iff_of_true rfl fun h => hdate h.1⟩

/-- The new day depends on the day alone. -/
theorem day_nextDay_congr {c c' : Calendar} (h : c.day = c'.day) :
    c.nextDay.day = c'.nextDay.day := by
  obtain ⟨sec, min, hour, date, month, dow, year⟩ := c
  obtain ⟨sec', min', hour', date', month', dow', year'⟩ := c'
  simp only [day, Prod.mk.injEq] at h
  obtain ⟨rfl, rfl, rfl, rfl⟩ := h
  simp only [nextDay]
  split_ifs <;> rfl

/-- **One second**, within a day or over midnight. -/
theorem carry_running (h : c.Running) : c.carry.Running ∧ c.carry.tod = (c.tod + 1) % 86400 ∧
    c.carry.day = if c.tod + 1 < 86400 then c.day else c.nextDay.day := by
  have hs := (bcd_below_sixty h.sec).1
  have hm := (bcd_below_sixty h.min).1
  have hh := (bcd_below_day h.hour).1
  have hzero : bcd 0 = 0 := by decide
  have hbelow : IsBelow 0x60 (0 : Byte) := by decide
  unfold carry
  rw [if_neg (by rw [h.not_halted]; decide)]
  split
  · -- into the seconds
    rename_i hsec
    obtain ⟨hin, hsucc⟩ := bcdSucc_below_sixty h.sec hsec
    have hlt := (bcd_below_sixty hin).1
    have hday : c.tod + 1 < 86400 := by
      unfold tod
      omega
    refine ⟨⟨hin, h.min, h.hour⟩, ?_, (if_pos hday).symm⟩
    rw [Nat.mod_eq_of_lt hday]
    simp only [tod, hsucc]
    omega
  rename_i hsec
  have h59 : bcd c.sec = 59 := by
    rw [not_not.mp hsec]
    decide
  split
  · -- into the minutes
    rename_i hmin
    obtain ⟨hin, hsucc⟩ := bcdSucc_below_sixty h.min hmin
    have hlt := (bcd_below_sixty hin).1
    have hday : c.tod + 1 < 86400 := by
      unfold tod
      omega
    refine ⟨⟨hbelow, hin, h.hour⟩, ?_, (if_pos hday).symm⟩
    rw [Nat.mod_eq_of_lt hday]
    simp only [tod, hsucc, hzero]
    omega
  rename_i hmin
  have hm59 : bcd c.min = 59 := by
    rw [not_not.mp hmin]
    decide
  split
  · -- into the hours
    rename_i hhour
    obtain ⟨hin, hsucc⟩ := bcdSucc_below_day h.hour hhour
    have hlt := (bcd_below_day hin).1
    have hday : c.tod + 1 < 86400 := by
      unfold tod
      omega
    refine ⟨⟨hbelow, hbelow, hin⟩, ?_, (if_pos hday).symm⟩
    rw [Nat.mod_eq_of_lt hday]
    simp only [tod, hsucc, hzero]
    omega
  · -- midnight
    rename_i hhour
    have hh23 : bcd c.hour = 23 := by
      rw [not_not.mp hhour]
      decide
    have hday : c.tod + 1 = 86400 := by
      unfold tod
      omega
    obtain ⟨hts, htm, hth⟩ := nextDay_time { c with sec := 0, min := 0, hour := 0 }
    refine ⟨⟨?_, ?_, ?_⟩, ?_, ?_⟩
    · rw [hts]
      exact hbelow
    · rw [htm]
      exact hbelow
    · rw [hth]
      exact (by decide : IsBelow 0x24 (0 : Byte))
    · rw [hday, Nat.mod_self]
      simp only [tod, hts, htm, hth, hzero]
    · rw [if_neg (by omega)]
      exact day_nextDay_congr rfl

theorem iterate_running (h : c.Running) (n : Nat) :
    (carry^[n] c).Running ∧ (carry^[n] c).tod = (c.tod + n) % 86400 := by
  induction n with
  | zero =>
      have htod : c.tod = (c.tod + 0) % 86400 := by rw [Nat.add_zero, Nat.mod_eq_of_lt h.tod_lt]
      exact ⟨h, htod⟩
  | succ n ih =>
      obtain ⟨hrun, htod⟩ := ih
      obtain ⟨hrun', htod', _⟩ := carry_running hrun
      rw [Function.iterate_succ_apply']
      refine ⟨hrun', ?_⟩
      rw [htod', htod]
      omega

/-- **A day at most**, which midnight comes into once. -/
theorem day_iterate (h : c.Running) {n : Nat} (hn : n ≤ 86400) :
    (carry^[n] c).day = if c.tod + n < 86400 then c.day else c.nextDay.day := by
  have hlt := h.tod_lt
  induction n with
  | zero =>
      rw [Nat.add_zero, if_pos hlt]
      rfl
  | succ n ih =>
      obtain ⟨hrun, htod⟩ := iterate_running h n
      have ih := ih (by omega)
      rw [Function.iterate_succ_apply', (carry_running hrun).2.2, htod]
      by_cases hbefore : c.tod + n < 86400
      · rw [if_pos hbefore] at ih
        rw [Nat.mod_eq_of_lt hbefore, ih, day_nextDay_congr ih, Nat.add_assoc]
      · -- past midnight, and the next is not reached
        rw [if_neg hbefore] at ih
        rw [if_pos (by omega), if_neg (by omega), ih]

end Calendar

end Sbc386Ex.Time

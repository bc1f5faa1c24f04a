import Mathlib.Tactic.IntervalCases
import Sbc386Ex.Cpu
import Sbc386Ex.Lib.Instant
import Sbc386Ex.Time.Calendar

/-!
# Sbc386Ex.Time.BiosClock

The time the Coherent kernel takes from the BIOS: the registers of INT 1Ah as `k0.s` keeps
them, and the seconds `bios_clock` (`fs2.c`) makes of them.

The six fields are tested one by one, the day of the month against 31 in every month. So a day
that its month does not have is a day of the next one.
-/

namespace Sbc386Ex.Time

open Cpu Gregorian

/-! ### `k0.s` -/

/-- What is stored of `CX` and `DX` after an INT 1Ah. -/
def captured (carry : Bool) (cx dx : Word) : DWord := if carry then 0 else dx ++ cx

/-! ### `fs2.c` -/

def bcd2 (v : DWord) : Int :=
  let v := v &&& 0xFF
  if v &&& 15 > 9 ∨ v >>> 4 > 9 then -1 else ((v >>> 4) * 10 + (v &&& 15)).toNat

def mdays : List Int := [0, 31, 59, 90, 120, 151, 181, 212, 243, 273, 304, 334]

/-- A `long` of the kernel. -/
def long (x : Int) : Int := x.bmod (2 ^ 32)

structure Fields where
  cc : Int
  yy : Int
  mon : Int
  day : Int
  hour : Int
  min : Int
  sec : Int

namespace Fields

def of (d t : DWord) : Fields where
  cc := bcd2 (d >>> 8)
  yy := bcd2 d
  day := bcd2 (d >>> 16)
  mon := bcd2 (d >>> 24)
  min := bcd2 t
  hour := bcd2 (t >>> 8)
  sec := bcd2 (t >>> 24)

variable (f : Fields)

def year : Int := f.cc * 100 + f.yy

/-- The fields pass the tests of `bios_clock`. -/
def Accepted : Prop :=
  ¬ (f.cc < 0 ∨ f.yy < 0 ∨ f.day < 1 ∨ f.day > 31 ∨ f.mon < 1 ∨ f.mon > 12 ∨ f.hour < 0 ∨
    f.hour > 23 ∨ f.min < 0 ∨ f.min > 59 ∨ f.sec < 0 ∨ f.sec > 59) ∧
    ¬ (f.year < 1970 ∨ f.year > 2037)

instance : Decidable f.Accepted := inferInstanceAs (Decidable (_ ∧ _))

def days : Int :=
  let days := long (long (long (long (long ((f.year - 1970) * 365) + (f.year - 1969).tdiv 4) +
    mdays.getD (f.mon - 1).toNat 0) + f.day) - 1)
  if f.mon > 2 ∧ f.year.tmod 4 = 0 then long (days + 1) else days

end Fields

def biosClock (d t : DWord) : Int :=
  let f := Fields.of d t
  if f.Accepted then
    long (long (long (long (long (long (f.days * 24) + f.hour) * 60) + f.min) * 60) + f.sec)
  else -1

/-! ### A byte -/

/-- What a byte is the BCD of, or -1. -/
def decoded (b : Byte) : Int := if b &&& 15 > 9 ∨ b >>> 4 > 9 then -1 else bcd b

theorem bcd2_eq (v : DWord) : bcd2 v = decoded (v.setWidth 8) := by
  have hlow : v &&& 0xFF = (v.setWidth 8).setWidth 32 := by
    apply BitVec.eq_of_toNat_eq
    simp [Nat.and_two_pow_sub_one_eq_mod v.toNat 8]
    omega
  have hall : ∀ b : Byte, (if b.setWidth 32 &&& 15#32 > 9 ∨ (b.setWidth 32 : DWord) >>> 4 > 9 then
      (-1 : Int) else (((b.setWidth 32 : DWord) >>> 4) * 10 + (b.setWidth 32 &&& 15)).toNat) =
        decoded b := by decide
  rw [bcd2, hlow]
  exact hall _

theorem decoded_toBcd : ∀ n < 100, decoded (toBcd n) = n := by decide

theorem toBcd_decoded : ∀ b : Byte, 0 ≤ decoded b →
    decoded b < 100 ∧ toBcd (decoded b).toNat = b := by decide

theorem decoded_eq_iff {b : Byte} {n : Nat} (hn : n < 100) : decoded b = n ↔ b = toBcd n := by
  constructor
  · intro h
    have hback := (toBcd_decoded b (by omega)).2
    rw [h, Int.toNat_natCast] at hback
    exact hback.symm
  · rintro rfl
    exact decoded_toBcd n hn

/-! ### The fields -/

variable {cx dx cx' dx' : Word}

theorem bytes_append (h l : Word) :
    ((h ++ l : DWord).setWidth 8 = low l) ∧ ((h ++ l : DWord) >>> 8).setWidth 8 = high l ∧
      ((h ++ l : DWord) >>> 16).setWidth 8 = low h ∧ ((h ++ l : DWord) >>> 24).setWidth 8 = high h := by
  refine ⟨?_, ?_, ?_, ?_⟩ <;>
  · apply BitVec.eq_of_getElem_eq
    intro i hi
    simp only [low, high]
    grind

/-- The fields of a date and of a time, by the registers. -/
theorem of_captured (cx dx cx' dx' : Word) :
    Fields.of (captured false cx dx) (captured false cx' dx') =
      { cc := decoded (high cx), yy := decoded (low cx)
        mon := decoded (high dx), day := decoded (low dx)
        hour := decoded (high cx'), min := decoded (low cx'), sec := decoded (high dx') } := by
  obtain ⟨h₀, h₁, h₂, h₃⟩ := bytes_append dx cx
  obtain ⟨h₀', h₁', -, h₃'⟩ := bytes_append dx' cx'
  simp only [Fields.of, captured, bcd2_eq, Bool.false_eq_true, if_false, h₀, h₁, h₂, h₃, h₀', h₁', h₃']

/-! ### In numbers -/

theorem long_eq {x : Int} (hneg : -(2 ^ 31) ≤ x) (hpos : x < 2 ^ 31) : long x = x :=
  Int.bmod_eq_of_le (by omega) (by omega)

def unixEpoch : Instant := Instant.midnight ⟨1970, 1, 1, by decide⟩

/-- The table is that of a year without a leap day. -/
theorem mdays_eq : ∀ n < 12, mdays.getD n 0 = Date.inMonths 1970 n ∧ mdays.getD n 0 ≤ 334 := by
  decide

theorem inMonths_leap {year n : Nat} : Date.inMonths year n =
    Date.inMonths 1970 n + if 2 ≤ n ∧ IsLeap year then 1 else 0 := by
  have hcommon : ¬ IsLeap 1970 := by decide
  induction n with
  | zero => rfl
  | succ n ih =>
      have hdays : daysIn year (n + 1) = daysIn 1970 (n + 1) +
          if n = 1 ∧ IsLeap year then 1 else 0 := by
        by_cases hleap : IsLeap year <;> by_cases hn : n = 1 <;> simp [daysIn, hcommon, hleap, hn]
      rw [Date.inMonths, Date.inMonths, ih, hdays]
      by_cases hleap : IsLeap year
      · simp only [hleap, and_true]
        split_ifs <;> omega
      · simp only [hleap, and_false, if_false]
        omega

/-- The days since 1970, of day `day` of `month`, whether the month has it or not. -/
theorem days_eq {f : Fields} {year month day : Nat} (hf : f.Accepted) (hyear : f.year = year)
    (hmonth : f.mon = month) (hday : f.day = day) :
    f.days + unixEpoch.date.ordinal =
      Date.beforeYear year + Date.inMonths year (month - 1) + (day - 1) ∧
      0 ≤ f.days ∧ f.days ≤ 24836 := by
  obtain ⟨hfields, hyears⟩ := hf
  have hfour : ((year : Int) - 1969).tdiv 4 = (year - 1969) / 4 :=
    Int.tdiv_eq_ediv_of_nonneg (by omega)
  have hrem : (year : Int).tmod 4 = year % 4 := Int.tmod_eq_emod_of_nonneg (by omega)
  have hleap : IsLeap year ↔ year % 4 = 0 := by
    unfold IsLeap
    omega
  have hbefore : Date.beforeYear year = 365 * year + (year - 1) / 4 - 14 := by
    obtain ⟨y, rfl⟩ := Nat.exists_eq_add_of_le' (show 1 ≤ year by omega)
    have hy := Date.beforeYear_succ_eq y
    have hcenturies : y / 100 = y / 400 + 15 := by
      rcases Nat.lt_or_ge y 2000 with hbefore | hafter <;> omega
    rw [Nat.add_sub_cancel]
    omega
  have hepoch : unixEpoch.date.ordinal = 719528 := by
    have h1970 : Date.beforeYear 1970 + 1969 / 100 = 365 * 1970 + 1969 / 4 + 1969 / 400 + 1 :=
      Date.beforeYear_succ_eq 1969
    have hfirst : unixEpoch.date.ordinal = Date.beforeYear 1970 := by
      simp [unixEpoch, Instant.midnight, Date.ordinal, Date.inMonths]
    omega
  have hindex : ((month : Int) - 1).toNat = month - 1 := by omega
  obtain ⟨htable, hle⟩ := mdays_eq (month - 1) (by omega)
  have hpos : 0 ≤ mdays.getD (month - 1) 0 := by omega
  rw [Fields.days, hyear, hmonth, hday, hfour, hrem, hepoch, hbefore, inMonths_leap, hindex]
  simp only [hleap]
  simp (disch := omega) only [long_eq]
  split_ifs <;> omega

/-- No sum on the way to the seconds leaves a `long`. -/
theorem biosClock_eq {d t : DWord} {f : Fields} (hf : Fields.of d t = f) (h : f.Accepted) :
    biosClock d t = ((f.days * 24 + f.hour) * 60 + f.min) * 60 + f.sec ∧
      0 ≤ biosClock d t ∧ biosClock d t < 2 ^ 31 := by
  have hfields := h.1
  have hyears := h.2
  have hyear : f.year = f.year.toNat := by omega
  have hmonth : f.mon = f.mon.toNat := by omega
  have hday : f.day = f.day.toNat := by omega
  obtain ⟨-, hpos, hle⟩ := days_eq h hyear hmonth hday
  have hclock : biosClock d t = ((f.days * 24 + f.hour) * 60 + f.min) * 60 + f.sec := by
    rw [biosClock, hf, if_pos h]
    simp (disch := omega) only [long_eq]
  omega

/-! ### Instants -/

/-- From 1970 to 2037. -/
def InRange (i : Instant) : Prop := 1970 ≤ i.date.year ∧ i.date.year ≤ 2037

/-- INT 1Ah hands over this instant. -/
structure Shows (i : Instant) (cx dx cx' dx' : Word) : Prop where
  century : high cx = toBcd (i.date.year / 100)
  year : low cx = toBcd (i.date.year % 100)
  month : high dx = toBcd i.date.month
  day : low dx = toBcd i.date.day
  hour : high cx' = toBcd i.hour
  min : low cx' = toBcd i.min
  sec : high dx' = toBcd i.sec

def Fields.ofInstant (i : Instant) : Fields where
  cc := (i.date.year / 100 : Nat)
  yy := (i.date.year % 100 : Nat)
  mon := i.date.month
  day := i.date.day
  hour := i.hour
  min := i.min
  sec := i.sec

variable {i i' : Instant}

theorem shows_iff (h : InRange i) : Shows i cx dx cx' dx' ↔
    Fields.of (captured false cx dx) (captured false cx' dx') = Fields.ofInstant i := by
  have hyear := h.2
  have hmonth := i.date.isDate.month_le
  have hday := i.date.isDate.day_le.trans (daysIn_le _ _)
  have hhour := i.hour_lt
  have hmin := i.min_lt
  have hsec := i.sec_lt
  rw [of_captured, Fields.ofInstant, Fields.mk.injEq, decoded_eq_iff (by omega),
    decoded_eq_iff (by omega), decoded_eq_iff (by omega), decoded_eq_iff (by omega),
    decoded_eq_iff (by omega), decoded_eq_iff (by omega), decoded_eq_iff (by omega)]
  constructor
  · rintro ⟨h₁, h₂, h₃, h₄, h₅, h₆, h₇⟩
    exact ⟨h₁, h₂, h₃, h₄, h₅, h₆, h₇⟩
  · rintro ⟨h₁, h₂, h₃, h₄, h₅, h₆, h₇⟩
    exact ⟨h₁, h₂, h₃, h₄, h₅, h₆, h₇⟩

theorem year_ofInstant (i : Instant) : (Fields.ofInstant i).year = i.date.year := by
  simp only [Fields.year, Fields.ofInstant]
  omega

theorem accepted_ofInstant (h : InRange i) : (Fields.ofInstant i).Accepted := by
  obtain ⟨hyear, hyear'⟩ := h
  obtain ⟨hmonth, hmonth', hday, hday'⟩ := i.date.isDate
  have hdays := daysIn_le i.date.year i.date.month
  have hhour := i.hour_lt
  have hmin := i.min_lt
  have hsec := i.sec_lt
  rw [Fields.Accepted, year_ofInstant]
  simp only [Fields.ofInstant]
  omega

/-- The seconds of an instant handed over. -/
theorem biosClock_ofInstant {d t : DWord} (h : InRange i) (hf : Fields.of d t = Fields.ofInstant i) :
    biosClock d t + unixEpoch.seconds = i.seconds := by
  obtain ⟨hdays, -⟩ := days_eq (accepted_ofInstant h) (year_ofInstant i) rfl rfl
  obtain ⟨hclock, -⟩ := biosClock_eq hf (accepted_ofInstant h)
  have hday := i.date.isDate.day_pos
  have hordinal : (i.date.ordinal : Int) = Date.beforeYear i.date.year +
      Date.inMonths i.date.year (i.date.month - 1) + (i.date.day - 1) := by
    rw [Date.ordinal]
    omega
  have hepoch : unixEpoch.seconds = unixEpoch.date.ordinal * 86400 := by
    have hmidnight : unixEpoch.hour = 0 ∧ unixEpoch.min = 0 ∧ unixEpoch.sec = 0 := ⟨rfl, rfl, rfl⟩
    rw [Instant.seconds, hmidnight.1, hmidnight.2.1, hmidnight.2.2]
    generalize unixEpoch.date.ordinal = n
    omega
  rw [hclock, hepoch, Instant.seconds]
  simp only [Fields.ofInstant] at hdays ⊢
  omega

/-- Fields that are accepted, of a day that exists. -/
theorem exists_ofInstant (h : (Fields.of (captured false cx dx) (captured false cx' dx')).Accepted)
    (hday : let f := Fields.of (captured false cx dx) (captured false cx' dx')
      f.day ≤ daysIn f.year.toNat f.mon.toNat) :
    ∃ i, InRange i ∧ Shows i cx dx cx' dx' := by
  rw [of_captured] at h hday
  obtain ⟨hfields, hyears⟩ := h
  simp only [Fields.year] at hfields hyears hday
  have hcc := (toBcd_decoded (high cx) (by omega)).1
  have hyy := (toBcd_decoded (low cx) (by omega)).1
  let date : Date :=
    ⟨(decoded (high cx) * 100 + decoded (low cx)).toNat, (decoded (high dx)).toNat,
      (decoded (low dx)).toNat, by omega, by omega, by omega, by omega⟩
  let i : Instant :=
    ⟨date, (decoded (high cx')).toNat, (decoded (low cx')).toNat, (decoded (high dx')).toNat,
      by omega, by omega, by omega⟩
  have hrange : InRange i := by
    simp only [InRange, i, date]
    omega
  refine ⟨i, hrange, (shows_iff hrange).mpr ?_⟩
  rw [of_captured, Fields.ofInstant, Fields.mk.injEq]
  simp only [i, date]
  omega

/-! ### The kernel's time -/

/-- What is expected of `bios_clock`: the ticks from the epoch to the instant handed over, or -1
where none of its years is. -/
structure KeepsTime (cx dx cx' dx' : Word) (r : Int) : Prop where
  shown : ∀ i, InRange i → Shows i cx dx cx' dx' →
    ∃ n : Nat, r = n ∧ n < 2 ^ 31 ∧ Instant.tick^[n] unixEpoch = i
  refused : (∀ i, InRange i → ¬ Shows i cx dx cx' dx') → r = -1

theorem keepsTime_iff (cx dx cx' dx' : Word) :
    KeepsTime cx dx cx' dx' (biosClock (captured false cx dx) (captured false cx' dx')) ↔
      let f := Fields.of (captured false cx dx) (captured false cx' dx')
      f.Accepted → f.day ≤ daysIn f.year.toNat f.mon.toNat := by
  constructor
  · intro hkeeps f haccepted
    by_contra hday
    have hnone : ∀ i, InRange i → ¬ Shows i cx dx cx' dx' := by
      intro i hi hshows
      have hf : f = Fields.ofInstant i := (shows_iff hi).mp hshows
      have hexists := i.date.isDate.day_le
      rw [hf, year_ofInstant, Int.toNat_natCast] at hday
      simp only [Fields.ofInstant, Int.toNat_natCast] at hday
      omega
    obtain ⟨-, hpos, -⟩ := biosClock_eq rfl haccepted
    have hrefused := hkeeps.refused hnone
    omega
  · intro hday
    constructor
    · intro i hi hshows
      have hf := (shows_iff hi).mp hshows
      have hclock := biosClock_ofInstant hi hf
      obtain ⟨-, hpos, hlt⟩ := biosClock_eq hf (accepted_ofInstant hi)
      refine ⟨(biosClock (captured false cx dx) (captured false cx' dx')).toNat, by omega, by omega,
        Instant.iterate_tick.mpr ?_⟩
      omega
    · intro hnone
      by_cases haccepted : (Fields.of (captured false cx dx) (captured false cx' dx')).Accepted
      · obtain ⟨i, hi, hshows⟩ := exists_ofInstant haccepted (hday haccepted)
        exact absurd hshows (hnone i hi)
      · exact if_neg haccepted

/-- A later instant is a larger number. -/
theorem biosClock_lt {cy dy cy' dy' : Word} (hi : InRange i) (hi' : InRange i')
    (hshows : Shows i cx dx cx' dx') (hshows' : Shows i' cy dy cy' dy') (hlater : i.Before i') :
    biosClock (captured false cx dx) (captured false cx' dx') <
      biosClock (captured false cy dy) (captured false cy' dy') := by
  have hclock := biosClock_ofInstant hi ((shows_iff hi).mp hshows)
  have hclock' := biosClock_ofInstant hi' ((shows_iff hi').mp hshows')
  have hseconds := hlater.seconds_lt
  omega

/-- **The kernel's time, exactly.** It is the instant handed over, or refused, unless the day is
one of 31 that its month does not have; and it goes up with the instants. -/
theorem kernelTime_iff (cx dx cx' dx' : Word) :
    (KeepsTime cx dx cx' dx' (biosClock (captured false cx dx) (captured false cx' dx')) ↔
      let f := Fields.of (captured false cx dx) (captured false cx' dx')
      f.Accepted → f.day ≤ daysIn f.year.toNat f.mon.toNat) ∧
    ∀ (i i' : Instant) (cy dy cy' dy' : Word), InRange i → InRange i' →
      Shows i cx dx cx' dx' → Shows i' cy dy cy' dy' → i.Before i' →
        biosClock (captured false cx dx) (captured false cx' dx') <
          biosClock (captured false cy dy) (captured false cy' dy') :=
  ⟨keepsTime_iff cx dx cx' dx', fun _ _ _ _ _ _ => biosClock_lt⟩

/-- 29 February of a year that has one. -/
example : biosClock (captured false 0x2000 0x0229) (captured false 0x2359 0x5900) = 951868799 := by
  decide

/-- 30 February is taken, for the first day of March. -/
theorem kernelTime_february : biosClock (captured false 0x2000 0x0230) (captured false 0 0) =
      biosClock (captured false 0x2000 0x0301) (captured false 0 0) ∧
    ¬ KeepsTime 0x2000 0x0230 0 0 (biosClock (captured false 0x2000 0x0230) (captured false 0 0)) :=
  ⟨by decide, fun h => absurd ((keepsTime_iff _ _ _ _).mp h (by decide)) (by decide)⟩

end Sbc386Ex.Time

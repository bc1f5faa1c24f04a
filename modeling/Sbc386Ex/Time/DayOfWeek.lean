import Mathlib.Data.List.GetD
import Mathlib.Tactic.IntervalCases
import Sbc386Ex.Lib.Gregorian
import Sbc386Ex.Time.Calendar
import Sbc386Ex.Time.Int1A

/-!
# Sbc386Ex.Time.DayOfWeek

`day_of_week_` against the Gregorian calendar.

The routine lets the year begin in March and adds the days before the date, of each part as
many as count modulo 7. January and February of a year `xx00` belong to the century before;
before the century 0 there is none.
-/

namespace Sbc386Ex.Time

open Cpu Gregorian

variable {W : Type} {past : Word → Byte}

/-- A date in the registers. -/
structure Names (s : Cpu (Board W)) (d : Date) : Prop where
  year_lt : d.year < 10000
  century : s.ch = toBcd (d.year / 100)
  year : s.cl = toBcd (d.year % 100)
  month : s.dh = toBcd d.month
  day : s.dl = toBcd d.day

/-! ### The two halves of `dow_` -/

/-- From the month in `AX`, the century in `BX` and the year in `CX`: these registers once the
year begins in March. -/
def marched (ax bx cx : Word) : Word × Word × Word :=
  let ax := ax - 3
  if ax.msb then
    let ax := ax + 12
    let cx := cx - 1
    if cx.msb then (ax, bx - 1, cx + 100) else (ax, bx, cx)
  else (ax, bx, cx)

/-- What is divided by 7. -/
def total (past : Word → Byte) (ax bx cx dx : Word) : Word :=
  let quarter := bx <<< 2 >>> 4
  let rem : Byte := (ax % 5).setWidth 8
  let dx := dx + cx + cx >>> 2 + bx + bx <<< 2 + quarter
  let dx := dx + (high quarter ++ dowByte past (high quarter ++ rem))
  ((ax / 5).setWidth 8 : Byte).setWidth 16 * 6 + dx + 2

theorem dow_ax (s : Cpu (Board W)) : (dow s past).ax =
    let m := marched s.ax s.bx s.cx
    total past m.1 m.2.1 m.2.2 s.dx % 7 := by
  have hsix : (low 6#16).setWidth 16 = 6#16 := by decide
  simp only [dow, marched]
  split_ifs <;> simp [total, hsix]

/-! ### In numbers -/

/-- Day `D` in the month `a` months after March, year `C`, `Y`. -/
def sum (a C Y D : Nat) : Nat :=
  a / 5 * 6 + (D + Y + Y / 4 + C + C * 4 + C / 4 + (dowTab.getD (a % 5) 0).toNat) + 2

theorem dowByte_past {i : Word} (h : 5 ≤ i.toNat) : dowByte past i = past i :=
  List.getD_eq_default _ _ h

theorem dowByte_rem {a : Nat} (ha : a < 12) :
    dowByte past ((0 : Byte) ++ ((BitVec.ofNat 16 a % 5).setWidth 8 : Byte)) = dowTab.getD (a % 5) 0 := by
  interval_cases a <;> rfl

theorem total_eq {a C Y D : Nat} (ha : a < 12) (hC : C < 100) (hY : Y < 100) :
    total past (BitVec.ofNat 16 a) (BitVec.ofNat 16 C) (BitVec.ofNat 16 Y) (BitVec.ofNat 16 D) =
      BitVec.ofNat 16 (sum a C Y D) := by
  have hyear : ∀ Y < 100, BitVec.ofNat 16 Y >>> 2 = BitVec.ofNat 16 (Y / 4) := by decide
  have hfour : ∀ C < 100, BitVec.ofNat 16 C <<< 2 = BitVec.ofNat 16 (C * 4) := by decide
  have hquarter : ∀ C < 100, BitVec.ofNat 16 C <<< 2 >>> 4 = BitVec.ofNat 16 (C / 4) := by decide
  have hhigh : ∀ C < 100, high (BitVec.ofNat 16 (C / 4)) = 0 := by decide
  have hfifth : ∀ a < 12, ((BitVec.ofNat 16 a / 5).setWidth 8 : Byte).setWidth 16 * 6 =
      BitVec.ofNat 16 (a / 5 * 6) := by decide
  have hbyte : ∀ b : Byte, (0 : Byte) ++ b = BitVec.ofNat 16 b.toNat := by decide
  simp only [total]
  rw [hyear Y hY, hquarter C hC, hfour C hC, hfifth a ha]
  rw [hhigh C hC, dowByte_rem ha, hbyte]
  simp only [sum, BitVec.ofNat_add]
  rfl

theorem sum_lt {a C Y D : Nat} (ha : a < 12) (hC : C < 100) (hY : Y < 100) (hD : D ≤ 31) :
    sum a C Y D < 2 ^ 16 := by
  have hrem : (dowTab.getD (a % 5) 0).toNat < 256 := BitVec.isLt _
  unfold sum
  omega

/-- The month `a` months after March, of the year that began in March of `y`. -/
def Follows (d : Date) (y a : Nat) : Prop :=
  d.month = a + 3 ∧ d.year = y ∨ d.month + 9 = a ∧ d.year = y + 1

theorem weekday_eq {d : Date} {y a : Nat} (ha : a < 12) (h : Follows d y a) :
    d.weekday = sum a (y / 100) (y % 100) d.day % 7 := by
  obtain ⟨year, month, day, hpos, hle, hday, hday'⟩ := d
  simp only [Follows] at h
  have hyears := Date.beforeYear_succ_eq y
  have hfour : y / 4 = y / 100 * 25 + y % 100 / 4 := by omega
  have hcenturies : y / 400 = y / 100 / 4 := by omega
  have hy : y = y / 100 * 100 + y % 100 := by omega
  obtain ⟨rfl, rfl⟩ | ⟨rfl, rfl⟩ := h
  · -- from March on the leap day is past
    have ha : a < 10 := by omega
    have hlate : Date.ordinal ⟨year, a + 3, day, ⟨hpos, hle, hday, hday'⟩⟩ + 306 + 1 =
        Date.beforeYear (year + 1) + (dowTab.getD (a % 5) 0).toNat + a / 5 * 153 + day := by
      simp only [Date.ordinal, Date.beforeYear]
      by_cases hleap : IsLeap year <;>
      · interval_cases a <;>
        · simp [Date.inMonths, daysIn, hleap, dowTab]
          omega
    simp only [Date.weekday, sum] at hlate ⊢
    omega
  · have hm : month = 1 ∨ month = 2 := by omega
    simp only [Date.weekday, Date.ordinal, sum]
    obtain rfl | rfl := hm <;>
    · simp [Date.inMonths, daysIn, dowTab]
      omega

/-! ### The registers of a date -/

/-- The number `bcd2int_` makes of a byte. -/
def spelled (b : Byte) : Word := (0 : Byte) ++ ((b >>> 4) * 10 + (b &&& 0x0F))

theorem bcd2int_eq (s : Cpu (Board W)) : bcd2int s = { s with ax := spelled s.al } := by
  simp [bcd2int, spelled]

theorem spelled_toBcd : ∀ n < 100, spelled (toBcd n) = BitVec.ofNat 16 n := by decide

theorem dayOfWeek_ax {s : Cpu (Board W)} {d : Date} (hs : Names s d) : (dayOfWeek s past).ax =
    let m := marched (BitVec.ofNat 16 d.month) (BitVec.ofNat 16 (d.year / 100))
      (BitVec.ofNat 16 (d.year % 100))
    total past m.1 m.2.1 m.2.2 (BitVec.ofNat 16 d.day) % 7 := by
  have hcentury : spelled (high s.cx) = BitVec.ofNat 16 (d.year / 100) :=
    (congrArg spelled hs.century).trans (spelled_toBcd _ (Nat.div_lt_of_lt_mul hs.year_lt))
  have hyear : spelled (low s.cx) = BitVec.ofNat 16 (d.year % 100) :=
    (congrArg spelled hs.year).trans (spelled_toBcd _ (Nat.mod_lt _ (by decide)))
  have hmonth : spelled (high s.dx) = BitVec.ofNat 16 d.month :=
    (congrArg spelled hs.month).trans
      (spelled_toBcd _ (d.isDate.month_le.trans_lt (by decide)))
  have hday : spelled (low s.dx) = BitVec.ofNat 16 d.day :=
    (congrArg spelled hs.day).trans
      (spelled_toBcd _ ((d.isDate.day_le.trans (daysIn_le _ _)).trans_lt (by decide)))
  rw [← hcentury, ← hyear, ← hmonth, ← hday]
  simp [dayOfWeek, dow_ax, bcd2int_eq]

/-- A month from March on, or an earlier one of any year but 0: the year that began in March
has a century and a year. -/
theorem marched_follows {d : Date} (hlt : d.year < 10000) (h : ¬ (d.year = 0 ∧ d.month ≤ 2)) :
    ∃ y a, a < 12 ∧ y < 10000 ∧ Follows d y a ∧
      marched (BitVec.ofNat 16 d.month) (BitVec.ofNat 16 (d.year / 100))
        (BitVec.ofNat 16 (d.year % 100)) =
      (BitVec.ofNat 16 a, BitVec.ofNat 16 (y / 100), BitVec.ofNat 16 (y % 100)) := by
  have hle := d.isDate.month_le
  by_cases hlate : 3 ≤ d.month
  · obtain ⟨a, ha⟩ := Nat.exists_eq_add_of_le' hlate
    have hmonth : ∀ a < 10, BitVec.ofNat 16 (a + 3) - 3 = BitVec.ofNat 16 a ∧
        (BitVec.ofNat 16 a).msb = false := by decide
    obtain ⟨hsub, hmsb⟩ := hmonth a (by omega)
    refine ⟨d.year, a, by omega, hlt, .inl ⟨ha, rfl⟩, ?_⟩
    simp only [marched, ha, hsub, hmsb, Bool.false_eq_true, if_false]
  · have hearly : ∀ m ≤ 2, (BitVec.ofNat 16 m - 3).msb = true ∧
        BitVec.ofNat 16 m - 3 + 12 = BitVec.ofNat 16 (m + 9) := by decide
    obtain ⟨hmsb, hadd⟩ := hearly d.month (by omega)
    obtain ⟨y, hy⟩ : ∃ y, d.year = y + 1 := Nat.exists_eq_succ_of_ne_zero (by omega)
    refine ⟨y, d.month + 9, by omega, by omega, .inr ⟨rfl, hy⟩, ?_⟩
    simp only [marched, hmsb, hadd, if_true]
    by_cases hfirst : d.year % 100 = 0
    · -- the year goes round to 99, and the century with it
      have hcentury : ∀ C < 100, BitVec.ofNat 16 (C + 1) - 1 = BitVec.ofNat 16 C := by decide
      have hC : d.year / 100 = y / 100 + 1 := by omega
      have hY : y % 100 = 99 := by omega
      rw [hfirst, hC, hcentury _ (by omega), hY]
      rfl
    · have hyear : ∀ Y < 100, BitVec.ofNat 16 (Y + 1) - 1 = BitVec.ofNat 16 Y ∧
          (BitVec.ofNat 16 Y).msb = false := by decide
      have hY : d.year % 100 = y % 100 + 1 := by omega
      have hC : d.year / 100 = y / 100 := by omega
      obtain ⟨hsub, hmsb'⟩ := hyear (y % 100) (Nat.mod_lt _ (by decide))
      rw [hY, hC, hsub, hmsb']
      rfl

/-! ### The weekday -/

/-- Where there is a century before, or none is needed. -/
theorem dayOfWeek_weekday {s : Cpu (Board W)} {d : Date} (hs : Names s d)
    (h : ¬ (d.year = 0 ∧ d.month ≤ 2)) : (dayOfWeek s past).ax.toNat = d.weekday := by
  obtain ⟨y, a, ha, hy, hfollows, hmarched⟩ := marched_follows hs.year_lt h
  have hC : y / 100 < 100 := Nat.div_lt_of_lt_mul hy
  have hY : y % 100 < 100 := Nat.mod_lt _ (by decide)
  have hD : d.day ≤ 31 := d.isDate.day_le.trans (daysIn_le _ _)
  have hsum := @total_eq past a (y / 100) (y % 100) d.day ha hC hY
  rw [dayOfWeek_ax hs, hmarched]
  dsimp only
  rw [hsum, BitVec.toNat_umod, BitVec.toNat_ofNat, Nat.mod_eq_of_lt (sum_lt ha hC hY hD),
    weekday_eq ha hfollows]
  rfl

/-- The two centuries `set_date` asks about keep to the table. -/
theorem dayOfWeek_past {s : Cpu (Board W)} (hch : s.ch = 0x19 ∨ s.ch = 0x20)
    (past past' : Word → Byte) : dayOfWeek s past = dayOfWeek s past' := by
  have hread : ∀ x : Word, dowByte past (0#8 ++ (x % 5#16).setWidth 8) =
      dowByte past' (0#8 ++ (x % 5#16).setWidth 8) := by
    intro x
    have hrem : (x % 5#16).toNat < 5 := Nat.mod_lt _ (by decide)
    have hall : ∀ r < 5, dowByte past (0#8 ++ (BitVec.ofNat 16 r).setWidth 8) =
        dowByte past' (0#8 ++ (BitVec.ofNat 16 r).setWidth 8) := by
      intro r hr
      interval_cases r <;> rfl
    have hx := hall _ hrem
    rwa [BitVec.ofNat_toNat, BitVec.setWidth_eq] at hx
  -- the quarter of the century, of the one before too, has no high byte
  have hhigh : ∀ c : Byte, c = 0x19 ∨ c = 0x20 → high (spelled c <<< 2 >>> 4) = 0#8 ∧
      high ((spelled c - 1#16) <<< 2 >>> 4) = 0#8 := by decide
  obtain ⟨hc, hc'⟩ := hhigh _ hch
  simp only [ch] at hc hc'
  simp only [dayOfWeek, dow, bcd2int_eq]
  split_ifs <;> simp [hc, hc', hread]

/-- January and February of the year 0: the century is `FFFFh` and its quarter `FFFh`, so that
the table is left. -/
theorem total_borrowed {month : Nat} (hpos : 1 ≤ month) (hle : month ≤ 2) (D : Nat) :
    total past (BitVec.ofNat 16 (month + 9)) 0xFFFF 99 (BitVec.ofNat 16 D) =
      BitVec.ofNat 16 (D + (past (0x0EFF + BitVec.ofNat 16 month)).toNat + 8067) := by
  have hindex : ∀ m ≤ 2, 1 ≤ m →
      (0x0F : Byte) ++ ((BitVec.ofNat 16 (m + 9) % 5).setWidth 8 : Byte) =
        (0x0EFF : Word) + BitVec.ofNat 16 m ∧
      5 ≤ ((0x0EFF : Word) + BitVec.ofNat 16 m).toNat := by decide
  have htwo : ∀ m ≤ 2, 1 ≤ m → ((BitVec.ofNat 16 (m + 9) / 5).setWidth 8 : Byte).setWidth 16 * 6 =
      (12 : Word) := by decide
  have hbyte : ∀ b : Byte, (0x0F : Byte) ++ b = BitVec.ofNat 16 b.toNat + 0x0F00 := by decide
  have hquarter : (0xFFFF : Word) <<< 2 >>> 4 = 0x0FFF := by decide
  have hhigh : high 0x0FFF = 0x0F := by decide
  obtain ⟨hi, hout⟩ := hindex month hle hpos
  simp only [total, hquarter, hhigh]
  rw [hi, dowByte_past hout, htwo month hle hpos, hbyte]
  simp only [BitVec.ofNat_add]
  generalize BitVec.ofNat 16 D = day, BitVec.ofNat 16 (past _).toNat = b
  bv_omega

/-- Every weekday of January and of February of the year 0 is right, or none is: it goes by
the byte read in place of the table's. -/
theorem dayOfWeek_year_zero {s : Cpu (Board W)} {d : Date} (hs : Names s d) (hyear : d.year = 0)
    (hle : d.month ≤ 2) : (dayOfWeek s past).ax.toNat = d.weekday ↔
      (past (0x0EFF + BitVec.ofNat 16 d.month)).toNat % 7 = 3 * d.month - 1 := by
  have hD : d.day ≤ 31 := d.isDate.day_le.trans (daysIn_le _ _)
  have hpos := d.isDate.month_pos
  have hbyte : (past (0x0EFF + BitVec.ofNat 16 d.month)).toNat < 256 := BitVec.isLt _
  have hmarched : ∀ m ≤ 2, marched (BitVec.ofNat 16 m) (BitVec.ofNat 16 (0 / 100))
      (BitVec.ofNat 16 (0 % 100)) = (BitVec.ofNat 16 (m + 9), 0xFFFF, 99) := by decide
  have htrue : d.weekday = (d.day + 31 * (d.month - 1) + 5) % 7 := by
    have hm : d.month = 1 ∨ d.month = 2 := by omega
    have hday := d.isDate.day_pos
    obtain hm | hm := hm <;>
    · simp [Date.weekday, Date.ordinal, hyear, hm, Date.beforeYear, Date.inMonths, daysIn]
      omega
  have hlt : d.day + (past (0x0EFF + BitVec.ofNat 16 d.month)).toNat + 8067 < 2 ^ 16 := by omega
  have hseven : (7 : Word).toNat = 7 := rfl
  rw [dayOfWeek_ax hs, hyear, hmarched d.month hle]
  dsimp only
  rw [total_borrowed hpos hle, BitVec.toNat_umod, BitVec.toNat_ofNat, Nat.mod_eq_of_lt hlt, hseven,
    htrue]
  omega

/-- The weekday of every date that two bytes of century and year can give, except where the
year begins in a century before the first. -/
theorem dayOfWeek_iff (past : Word → Byte) {s : Cpu (Board W)} {d : Date} (hs : Names s d) :
    (dayOfWeek s past).ax.toNat = d.weekday ↔
      (d.year = 0 → d.month ≤ 2 →
        (past (0x0EFF + BitVec.ofNat 16 d.month)).toNat % 7 = 3 * d.month - 1) := by
  by_cases h : d.year = 0 ∧ d.month ≤ 2
  · rw [dayOfWeek_year_zero hs h.1 h.2]
    exact ⟨fun hluck _ _ => hluck, fun hluck => hluck h.1 h.2⟩
  · exact iff_of_true (dayOfWeek_weekday hs h) fun hyear hmonth => absurd ⟨hyear, hmonth⟩ h

/-- The registers `day_of_week_` is called with, and nothing else. -/
def asked (cx dx : Word) : Cpu (Board Unit) :=
  { ax := 0, bx := 0, cx, dx, si := 0, di := 0, bp := 0, upper := fun _ => 0, ds := 0, es := 0
    flags := 0, stack := []
    world := { timer := { count := 0, overflow := 0 }, mem := fun _ => 0, chip := () } }

/-- 7 December 1941, a Sunday. -/
def infamy : Date := ⟨1941, 12, 7, by decide⟩

example : infamy.weekday = 0 := by decide +kernel

theorem dayOfWeek_iff_infamy :
    (dayOfWeek (asked 0x1941 0x1207) fun _ => 0).ax.toNat = infamy.weekday :=
  (dayOfWeek_iff (fun _ => 0)
    ⟨by decide, by decide, by decide, by decide, by decide⟩).mpr fun h => absurd h (by decide)

/-- 1 January of the year 0, a Saturday, comes out as a Thursday where a 0 is read. -/
theorem dayOfWeek_start : Names (asked 0x0000 0x0101) Date.start ∧ Date.start.weekday = 6 ∧
    (dayOfWeek (asked 0x0000 0x0101) fun _ => 0).ax.toNat = 4 :=
  ⟨⟨by decide, by decide, by decide, by decide, by decide⟩, by decide, by decide⟩

end Sbc386Ex.Time

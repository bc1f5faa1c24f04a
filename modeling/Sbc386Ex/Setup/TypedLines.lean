import Mathlib.Tactic.IntervalCases
import Sbc386Ex.Setup.Set1302

/-!
# Sbc386Ex.Setup.TypedLines

What lines do to the clock, in the numbers they are made of.
-/

namespace Sbc386Ex.Setup

open PackedBcd Gregorian
open Time (toBcd bcd ThreeWire Board chipWrite protectChip)

variable {n t : Nat}

/-! ### A number as an `int` -/

theorem temp_eq (n : Nat) : temp n = BitVec.ofNat 16 (pack (n % 10000)) := by
  have hlow : pack (n % 10000) = pack n % 65536 := (pack_mod 4).symm
  rw [temp, packed, BitVec.setWidth_ofNat_of_le (by decide), hlow]
  apply BitVec.eq_of_toNat_eq
  rw [BitVec.toNat_ofNat, BitVec.toNat_ofNat]
  omega

theorem toNat_temp (n : Nat) : (temp n).toNat = pack (n % 10000) := by
  have hlt : pack (n % 10000) < 2 ^ 16 := pack_lt (k := 4) (Nat.mod_lt n (by decide))
  rw [temp_eq, BitVec.toNat_ofNat, Nat.mod_eq_of_lt hlt]

/-- Below `top`, or taken for negative. -/
def Passes (top n : Nat) : Prop := n % 10000 < top ∨ 8000 ≤ n % 10000

theorem slt_iff {top : Nat} {v : Word} (htop : top < 8000) (hv : v.toNat = pack top) :
    (temp n).slt v ↔ Passes top n := by
  have height : pack 8000 = 0x8000 := by decide
  have hless : pack (n % 10000) < pack top ↔ n % 10000 < top := pack_lt_iff
  have hneg : pack (n % 10000) < 0x8000 ↔ n % 10000 < 8000 := height ▸ pack_lt_iff
  have hpos : pack top < 0x8000 := height ▸ pack_lt_iff.mpr htop
  have hlt : pack (n % 10000) < 2 ^ 16 := pack_lt (k := 4) (Nat.mod_lt n (by decide))
  rw [BitVec.slt_iff_toInt_lt, BitVec.toInt_eq_toNat_cond, BitVec.toInt_eq_toNat_cond,
    toNat_temp, hv, Passes]
  split_ifs <;> omega

theorem temp_ne_zero : temp n ≠ 0 ↔ n % 10000 ≠ 0 := by
  have hzero : pack (n % 10000) = pack 0 ↔ n % 10000 = 0 := pack_strictMono.injective.eq_iff
  have hnat : temp n = 0 ↔ (temp n).toNat = (0 : Word).toNat := BitVec.toNat_inj.symm
  rw [Ne, Ne, hnat, toNat_temp]
  exact not_congr hzero

theorem below_iff {top : Nat} {v : Word} (htop : top < 8000) (hv : v.toNat = pack top) :
    below v (temp n) ↔ n % 10000 ≠ 0 ∧ Passes top n := by
  rw [below, decide_eq_true_iff, temp_ne_zero, slt_iff htop hv]

theorem year_iff : (decide (temp n ≠ 0 ∧ (0x1970 : Word).sle (temp n) ∧ (temp n).slt 0x2070)) ↔
    1970 ≤ n % 10000 ∧ n % 10000 < 2070 := by
  have hfirst : (0x1970 : Word).sle (temp n) ↔ ¬ Passes 1970 n := by
    rw [← slt_iff (by decide) (show (0x1970 : Word).toNat = pack 1970 by decide),
      BitVec.sle_eq_not_slt, Bool.not_eq_true', Bool.not_eq_true]
  rw [decide_eq_true_iff, hfirst, temp_ne_zero,
    slt_iff (by decide) (show (0x2070 : Word).toNat = pack 2070 by decide), Passes, Passes]
  omega

/-! ### Its bytes -/

theorem low_temp (n : Nat) : (temp n).setWidth 8 = toBcd (n % 100) := by
  have hall : ∀ k < 100, BitVec.ofNat 8 (pack k) = toBcd k := by decide
  have hlow : pack (n % 100) = pack n % 256 := (pack_mod 2).symm
  rw [← hall _ (Nat.mod_lt n (by decide)), hlow, temp, packed,
    BitVec.setWidth_setWidth_of_le _ (by decide), BitVec.setWidth_ofNat_of_le (by decide)]
  apply BitVec.eq_of_toNat_eq
  rw [BitVec.toNat_ofNat, BitVec.toNat_ofNat]
  omega

theorem high_temp (n : Nat) : (temp n >>> 8).setWidth 8 = toBcd (n % 10000 / 100) := by
  have hall : ∀ k < 100, (toBcd k).toNat = pack k := by decide
  have hk : n % 10000 / 100 < 100 := by omega
  have hpack := pack_lt (k := 2) hk
  apply BitVec.eq_of_toNat_eq
  have hshift : pack (n % 10000) / 256 = pack (n % 10000 / 100) := by
    have hdiv : n % 10000 / 10 / 10 = n % 10000 / 100 := Nat.div_div_eq_div_mul ..
    have hfirst := pack_eq (n % 10000)
    have hsecond := pack_eq (n % 10000 / 10)
    rw [hdiv] at hsecond
    omega
  rw [BitVec.toNat_setWidth, BitVec.toNat_ushiftRight, toNat_temp, hall _ hk,
    Nat.shiftRight_eq_div_pow, show 2 ^ 8 = 256 from rfl, hshift]
  exact Nat.mod_eq_of_lt hpack

theorem bcd_toBcd : ∀ k < 100, bcd (toBcd k) = k := by decide

theorem toBcd_inj {j k : Nat} (hj : j < 100) (hk : k < 100) (h : toBcd j = toBcd k) : j = k := by
  rw [← bcd_toBcd j hj, h, bcd_toBcd k hk]

/-! ### Dates -/

theorem daysOk_iff {year month day : Nat} (hyear : 1970 ≤ year ∧ year < 2070)
    (hmonth : 1 ≤ month ∧ month ≤ 12) (hday : day < 100) :
    daysOk (year % 100) month (toBcd day).toNat ↔ day ≤ daysIn year month := by
  have hall : ∀ k < 100, ((toBcd k).toNat ≤ 0x28 ↔ k ≤ 28) ∧ ((toBcd k).toNat ≤ 0x29 ↔ k ≤ 29) ∧
      ((toBcd k).toNat ≤ 0x30 ↔ k ≤ 30) ∧ ((toBcd k).toNat ≤ 0x31 ↔ k ≤ 31) := by decide
  obtain ⟨h28, h29, h30, h31⟩ := hall day hday
  have hleap : IsLeap year ↔ year % 4 = 0 := by
    unfold IsLeap
    omega
  obtain ⟨hlow, hhigh⟩ := hmonth
  by_cases hyear4 : year % 4 = 0 <;>
  · interval_cases month <;> simp [daysOk, daysIn, hleap, hyear4] <;> omega

section Chip

variable {W : Type} [ThreeWire W] (b : Cpu (Board W))

/-- INT 1Ah with 05h in `AH`. -/
def dateCall (t : Stamp) : Cpu (Board W) :=
  Time.setDate { b with ax := (0x05 : Byte) ++ b.al, cx := t.ce ++ t.yr, dx := t.mo ++ t.da }

/-- INT 1Ah with 03h in `AH`. -/
def timeCall (c : Clock) : Cpu (Board W) :=
  Time.setTime { b with ax := (0x03 : Byte) ++ b.al, cx := c.hr ++ c.min, dx := c.sec ++ (0 : Byte) }

/-- What the clock chip is told: a year, a month, a day and a day of the week from 1 on. -/
def writeDate (yr mo da dow : Byte) (w : W) : W :=
  protectChip 0x80 (chipWrite 0x8A dow (chipWrite 0x86 da (chipWrite 0x88 mo
    (chipWrite 0x8C yr (protectChip 0 w)))))

def writeTime (hr min sec : Byte) (w : W) : W :=
  protectChip 0x80 (chipWrite 0x80 sec (chipWrite 0x82 min (chipWrite 0x84 hr (protectChip 0 w))))

theorem timeCall_chip (c : Clock) : (timeCall b c).world.chip =
    writeTime (c.hr &&& 0x7F) c.min (c.sec &&& 0x7F) b.world.chip := by
  rw [timeCall, Time.setTime_chip]
  simp [writeTime]

theorem dateCall_chip {t : Stamp} (hce : t.ce = 0x19 ∨ t.ce = 0x20) : ∃ s : Cpu (Board W),
    s.ch = t.ce ∧ s.cl = t.yr ∧ s.dh = t.mo ∧ s.dl = t.da ∧
      (dateCall b t).world.chip = writeDate t.yr t.mo t.da
        ((Time.dayOfWeek s fun _ => 0).al + 1) b.world.chip := by
  refine ⟨Time.dateAsked
    { b with ax := (0x05 : Byte) ++ b.al, cx := t.ce ++ t.yr, dx := t.mo ++ t.da }, ?_, ?_, ?_, ?_, ?_⟩
  · simp [Time.dateAsked, Time.pushAxDx]
  · simp [Time.dateAsked, Time.pushAxDx]
  · simp [Time.dateAsked, Time.pushAxDx]
  · simp [Time.dateAsked, Time.pushAxDx]
  · rw [dateCall, Time.setDate_chip _ (by simpa using hce)]
    simp [writeDate]

end Chip

/-! ### Dates the clock can tell -/

/-- Of the years 1970 to 2069, which the two digits of the chip are for. -/
def Told (d : Date) : Prop := 1970 ≤ d.year ∧ d.year < 2070

def stampOf (d : Date) : Stamp :=
  { ce := toBcd (d.year / 100), yr := toBcd (d.year % 100), mo := toBcd d.month, da := toBcd d.day }

/-- The clock is told a date, and its weekday. -/
def DateGood (t : Stamp) : Prop :=
  ∃ d : Date, Told d ∧ t = stampOf d ∧ ∀ (W : Type) [ThreeWire W] (b : Cpu (Board W)),
    (dateCall b t).world.chip = writeDate (toBcd (d.year % 100)) (toBcd d.month) (toBcd d.day)
      (BitVec.ofNat 8 (d.weekday + 1)) b.world.chip

theorem dateGood_stampOf {d : Date} (hd : Told d) : DateGood (stampOf d) := by
  refine ⟨d, hd, rfl, fun W _ b => ?_⟩
  have hcentury : d.year / 100 = 19 ∨ d.year / 100 = 20 := by
    unfold Told at hd
    omega
  have hce : (stampOf d).ce = 0x19 ∨ (stampOf d).ce = 0x20 := by
    have hall : ∀ k, k = 19 ∨ k = 20 → toBcd k = 0x19 ∨ toBcd k = 0x20 := by
      rintro k (rfl | rfl)
      · exact .inl rfl
      · exact .inr rfl
    exact hall _ hcentury
  obtain ⟨s, hch, hcl, hdh, hdl, hchip⟩ := dateCall_chip b hce
  have hnames : Time.Names s d := ⟨hd.2.trans (by decide), hch, hcl, hdh, hdl⟩
  have hax : (Time.dayOfWeek s fun _ => 0).ax.toNat = d.weekday :=
    Time.dayOfWeek_weekday hnames fun h => absurd (h.1 ▸ hd.1) (by decide)
  have hal : (Time.dayOfWeek s fun _ => 0).al + 1 = BitVec.ofNat 8 (d.weekday + 1) := by
    rw [Cpu.al, Cpu.low, BitVec.ofNat_add, ← hax]
    congr 1
  rw [hchip, hal]
  rfl

/-- Only the month and the day can be none. -/
theorem dateGood_iff {year month day : Nat} (hyear : 1970 ≤ year ∧ year < 2070)
    (hmonth : month < 100) (hday : day < 100)
    (hok : daysOk (year % 100) month (toBcd day).toNat) :
    DateGood { ce := toBcd (year / 100), yr := toBcd (year % 100), mo := toBcd month
               da := toBcd day } ↔ 1 ≤ month ∧ month ≤ 12 ∧ 1 ≤ day := by
  constructor
  · rintro ⟨d, -, ht, -⟩
    have hd := d.isDate
    have hlow := hd.day_le.trans (daysIn_le _ _)
    have hmo : month = d.month :=
      toBcd_inj hmonth (hd.month_le.trans_lt (by decide)) (congrArg Stamp.mo ht)
    have hda : day = d.day := toBcd_inj hday (hlow.trans_lt (by decide)) (congrArg Stamp.da ht)
    rw [hmo, hda]
    exact ⟨hd.month_pos, hd.month_le, hd.day_pos⟩
  · rintro ⟨hpos, hle, hfirst⟩
    have hlast := (daysOk_iff hyear ⟨hpos, hle⟩ hday).mp hok
    exact dateGood_stampOf (d := ⟨year, month, day, hpos, hle, hfirst, hlast⟩) hyear

/-! ### Lines for the date -/

/-- No field overruns, none begins behind the end of the line, and where the three are taken the
last two digits of the month are one's and those of the day are not 00. -/
def DateKeeps (s : List Byte) : Prop :=
  ∃ n₁ k₁, field s = some (n₁, k₁) ∧ (n₁ % 10000 ≠ 0 ∧ Passes 13 n₁ →
    k₁ < s.length ∧ ∃ n₂ k₂, field (s.drop (k₁ + 1)) = some (n₂, k₂) ∧
      (n₂ % 10000 ≠ 0 ∧ Passes 32 n₂ →
        k₁ + 1 + k₂ < s.length ∧ ∃ n₃ k₃, field (s.drop (k₁ + 1 + k₂ + 1)) = some (n₃, k₃) ∧
          (1970 ≤ n₃ % 10000 ∧ n₃ % 10000 < 2070 →
            daysOk (n₃ % 100) (n₁ % 100) (toBcd (n₂ % 100)).toNat →
              1 ≤ n₁ % 100 ∧ n₁ % 100 ≤ 12 ∧ 1 ≤ n₂ % 100)))

variable {m : Mem} {fuel : Nat} {s : List Byte}

theorem setDateLine_right (hs : Holds m 0 s) (hfuel : s.length < fuel) (hne : s ≠ []) :
    Right s.length DateGood (setDateLine m fuel s.length) ↔ DateKeeps s := by
  have hmonth : ∀ n, below 0x13 (temp n) ↔ n % 10000 ≠ 0 ∧ Passes 13 n := fun _ =>
    below_iff (by decide) (by decide)
  have hday : ∀ n, below 0x32 (temp n) ↔ n % 10000 ≠ 0 ∧ Passes 32 n := fun _ =>
    below_iff (by decide) (by decide)
  rw [setDateLine, if_neg (by simpa using hne), right_readField hs hfuel (Nat.zero_add _), DateKeeps]
  refine exists_congr fun n₁ => exists_congr fun k₁ => and_congr_right fun _ => ?_
  rw [hmonth, Nat.zero_add]
  refine imp_congr_right fun _ => ?_
  rw [right_readField_after hs hfuel]
  refine and_congr_right fun _ => exists_congr fun n₂ => exists_congr fun k₂ =>
    and_congr_right fun _ => ?_
  rw [hday]
  refine imp_congr_right fun _ => ?_
  rw [right_readField_after hs hfuel]
  refine and_congr_right fun _ => exists_congr fun n₃ => exists_congr fun k₃ =>
    and_congr_right fun _ => ?_
  rw [year_iff]
  refine imp_congr_right fun hyear => ?_
  have hbyte : ∀ n, n % 100 < 100 := fun n => Nat.mod_lt n (by decide)
  have hmod : n₃ % 10000 % 100 = n₃ % 100 := Nat.mod_mod_of_dvd n₃ (by decide)
  simp only [low_temp, high_temp, bcd_toBcd _ (hbyte _)]
  split_ifs with hok
  · have hok' : daysOk (n₃ % 10000 % 100) (n₁ % 100) (toBcd (n₂ % 100)).toNat := by rwa [hmod]
    rw [right_set, ← hmod, dateGood_iff hyear (hbyte n₁) (hbyte n₂) hok']
    exact (imp_iff_right hok').symm
  · exact iff_of_true right_none fun h => absurd h hok

/-! ### Lines for the time -/

/-- The clock is told an hour of the day, a minute and a second. -/
def TimeGood (c : Clock) : Prop :=
  ∃ hr < 24, ∃ min < 60, ∃ sec < 60,
    c.hr &&& 0x7F = toBcd hr ∧ c.min = toBcd min ∧ c.sec &&& 0x7F = toBcd sec ∧
      ∀ (W : Type) [ThreeWire W] (b : Cpu (Board W)), (timeCall b c).world.chip =
        writeTime (toBcd hr) (toBcd min) (toBcd sec) b.world.chip

/-- INT 1Ah leaves the highest bits of the hour and of the second off, and 80 with them. -/
theorem timeGood_iff {hr min sec : Nat} (hhr : hr < 100) (hmin : min < 100) (hsec : sec < 100) :
    TimeGood { hr := toBcd hr, min := toBcd min, sec := toBcd sec } ↔
      (hr < 24 ∨ 80 ≤ hr) ∧ min < 60 ∧ (sec < 60 ∨ 80 ≤ sec) := by
  have hhour : ∀ k < 100, (∃ h < 24, toBcd k &&& 0x7F = toBcd h) ↔ k < 24 ∨ 80 ≤ k := by
    set_option maxRecDepth 2048 in decide
  have hsecond : ∀ k < 100, (∃ h < 60, toBcd k &&& 0x7F = toBcd h) ↔ k < 60 ∨ 80 ≤ k := by
    set_option maxRecDepth 2048 in decide
  constructor
  · rintro ⟨h, hh, mi, hm, se, hs, h₁, h₂, h₃, -⟩
    refine ⟨(hhour hr hhr).mp ⟨h, hh, h₁⟩, ?_, (hsecond sec hsec).mp ⟨se, hs, h₃⟩⟩
    rwa [toBcd_inj hmin (hm.trans (by decide)) h₂]
  · rintro ⟨h₁, hm, h₃⟩
    obtain ⟨h, hh, heq₁⟩ := (hhour hr hhr).mpr h₁
    obtain ⟨se, hs, heq₃⟩ := (hsecond sec hsec).mpr h₃
    refine ⟨h, hh, min, hm, se, hs, heq₁, rfl, heq₃, fun W _ b => ?_⟩
    rw [timeCall_chip, heq₁, heq₃]

/-- No field overruns, the second one is not empty at the end of the line, and of what is taken
the last two digits are an hour, a minute and a second, or in the first and the third 80 more. -/
def TimeKeeps (s : List Byte) : Prop :=
  ∃ n₁ k₁, field s = some (n₁, k₁) ∧ (Passes 24 n₁ → k₁ ≤ s.length ∧ (s[k₁]? = some 0x3A →
    ∃ n₂ k₂, field (s.drop (k₁ + 1)) = some (n₂, k₂) ∧ (Passes 60 n₂ →
      k₁ + 1 + k₂ ≤ s.length ∧
        if s[k₁ + 1 + k₂]? = some 0x3A then
          ∃ n₃ k₃, field (s.drop (k₁ + 1 + k₂ + 1)) = some (n₃, k₃) ∧ (Passes 60 n₃ →
            (n₁ % 100 < 24 ∨ 80 ≤ n₁ % 100) ∧ n₂ % 100 < 60 ∧ (n₃ % 100 < 60 ∨ 80 ≤ n₃ % 100))
        else (n₁ % 100 < 24 ∨ 80 ≤ n₁ % 100) ∧ n₂ % 100 < 60)))

theorem setTimeLine_right (hs : Holds m 0 s) (hfuel : s.length < fuel) (hne : s ≠ []) :
    Right s.length TimeGood (setTimeLine m fuel s.length) ↔ TimeKeeps s := by
  have hhour : ∀ n, (temp n).slt 0x24 ↔ Passes 24 n := fun _ =>
    slt_iff (by decide) (by decide)
  have hsixty : ∀ n, (temp n).slt 0x60 ↔ Passes 60 n := fun _ =>
    slt_iff (by decide) (by decide)
  have hbyte : ∀ n, n % 100 < 100 := fun n => Nat.mod_lt n (by decide)
  rw [setTimeLine, if_neg (by simpa using hne), right_readField hs hfuel (Nat.zero_add _), TimeKeeps]
  refine exists_congr fun n₁ => exists_congr fun k₁ => and_congr_right fun _ => ?_
  rw [hhour, Nat.zero_add]
  refine imp_congr_right fun _ => ?_
  rw [right_ifColon hs]
  refine and_congr_right fun _ => ?_
  by_cases hcolon : s[k₁]? = some 0x3A
  · obtain ⟨hk, -⟩ := List.getElem?_eq_some_iff.mp hcolon
    rw [if_pos hcolon, forall_prop_of_true hcolon, right_readField_after hs hfuel, and_iff_right hk]
    refine exists_congr fun n₂ => exists_congr fun k₂ => and_congr_right fun _ => ?_
    rw [hsixty]
    refine imp_congr_right fun _ => ?_
    rw [right_ifColon hs]
    refine and_congr_right fun _ => ?_
    by_cases hcolon' : s[k₁ + 1 + k₂]? = some 0x3A
    · obtain ⟨hk', -⟩ := List.getElem?_eq_some_iff.mp hcolon'
      rw [if_pos hcolon', if_pos hcolon', right_readField_after hs hfuel, and_iff_right hk']
      refine exists_congr fun n₃ => exists_congr fun k₃ => and_congr_right fun _ => ?_
      rw [hsixty]
      refine imp_congr_right fun _ => ?_
      rw [right_set, low_temp, low_temp, low_temp, timeGood_iff (hbyte _) (hbyte _) (hbyte _)]
    · -- no seconds are none
      have hzero : (0 : Word).setWidth 8 = toBcd 0 := by decide
      rw [if_neg hcolon', if_neg hcolon', right_set, low_temp, low_temp, hzero,
        timeGood_iff (hbyte _) (hbyte _) (by decide)]
      exact and_congr_right fun _ => and_iff_left (.inl (by decide))
  · rw [if_neg hcolon]
    exact iff_of_true right_none fun h => absurd h hcolon

/-! ### Every line that can be typed -/

def LINE : Nat := 40

/-- 9999/01/2000 -/
def monthOfNines : List Byte :=
  [0x39, 0x39, 0x39, 0x39, 0x2F, 0x30, 0x31, 0x2F, 0x32, 0x30, 0x30, 0x30]

end Sbc386Ex.Setup

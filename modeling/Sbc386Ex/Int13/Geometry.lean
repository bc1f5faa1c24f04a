import Sbc386Ex.Int13.Dispatch
import Sbc386Ex.Lib.MixedRadix

/-!
# Sbc386Ex.Int13.Geometry

The geometry in a drive table, from what `hd_translate` makes of a drive and of the override for
it to what the monitor's GEO command may put in its place; and the sector numbers that `cv_lba`
has for its addresses.
-/

namespace Sbc386Ex.Int13

open Prog Ide MixedRadix

/-! ### Addresses -/

/-- The sector of an address, from 1. -/
def sector (cl : Byte) : Byte := cl &&& 0x3F

theorem toNat_sector (cl : Byte) : (sector cl).toNat = cl.toNat % 64 := by
  rw [sector, BitVec.toNat_and]
  exact Nat.and_two_pow_sub_one_eq_mod cl.toNat 6

theorem toNat_cylinder (ch cl : Byte) :
    (cylinder ch cl).toNat = cl.toNat / 64 * 256 + ch.toNat := by
  have hhigh : ∀ cl : Byte, (((cl &&& 0xC0).setWidth 16 : Word) <<< 2).toNat =
      (cl.toNat / 64) <<< 8 := by
    decide
  have hch := ch.isLt
  have hlow : (ch.setWidth 16 : Word).toNat = ch.toNat := by
    rw [BitVec.toNat_setWidth]
    omega
  rw [cylinder, BitVec.toNat_or, hhigh, hlow, ← Nat.shiftLeft_add_eq_or_of_lt hch,
    Nat.shiftLeft_eq]

namespace DiskTab

variable (dt : DiskTab)

/-- Sectors are numbered from 1, heads and cylinders from 0. -/
def HasAddress (ch cl dh : Byte) : Prop :=
  (cylinder ch cl).toNat < dt.ncylinders.toNat ∧ dh.toNat < dt.nHeads.toNat ∧
    1 ≤ (sector cl).toNat ∧ (sector cl).toNat ≤ dt.nsectors.toNat

instance (ch cl dh : Byte) : Decidable (dt.HasAddress ch cl dh) :=
  inferInstanceAs (Decidable (_ ∧ _))

/-- The number of a sector, counted through the heads of a cylinder and the cylinders. -/
def index (ch cl dh : Byte) : Nat :=
  pack dt.nsectors.toNat (pack dt.nHeads.toNat (cylinder ch cl).toNat dh.toNat)
    ((sector cl).toNat - 1)

/-- All the sectors that have an address. -/
def chsSectors : Nat := dt.ncylinders.toNat * dt.nHeads.toNat * dt.nsectors.toNat

variable {dt} {ch cl dh : Byte}

theorem HasAddress.index_lt (h : dt.HasAddress ch cl dh) : dt.index ch cl dh < dt.chsSectors := by
  obtain ⟨hc, hh, hs, hS⟩ := h
  exact pack_lt (pack_lt hc hh) (by omega)

/-- `cv_lba` is the number of the sector, if there is one. -/
theorem HasAddress.cvLba (h : dt.HasAddress ch cl dh) :
    ∃ lba, Int13.cvLba dt ch cl dh = some lba ∧ lba.toNat = dt.index ch cl dh := by
  obtain ⟨hc, hh, hs, hS⟩ := h
  have hne : ¬ cl &&& 0x3F = 0 := fun h => by
    rw [sector, h] at hs
    exact absurd hs (by decide)
  have hle : ¬ cl &&& 0x3F > dt.nsectors := fun h => absurd h (not_lt.mpr hS)
  have hhead : ¬ ¬ dh < dt.nHeads := not_not.mpr hh
  have hcyl : ¬ ¬ cylinder ch cl < dt.ncylinders := not_not.mpr hc
  have hex : ∃ lba, Int13.cvLba dt ch cl dh = some lba := by
    simp only [Int13.cvLba, if_neg hne, if_neg hle, if_neg hhead, if_neg hcyl]
    exact ⟨_, rfl⟩
  obtain ⟨lba, hlba⟩ := hex
  exact ⟨lba, hlba, (cvLba_some hlba).2⟩

theorem HasAddress.of_cvLba {lba : DWord} (h : Int13.cvLba dt ch cl dh = some lba) :
    dt.HasAddress ch cl dh ∧ lba.toNat = dt.index ch cl dh := by
  obtain ⟨⟨hne, hS, hh, hc⟩, heq⟩ := cvLba_some h
  exact ⟨⟨hc, hh, Nat.pos_of_ne_zero fun hzero => hne (BitVec.eq_of_toNat_eq hzero), hS⟩, heq⟩

theorem cvLba_map_eq_some_iff {k : Nat} : (cvLba dt ch cl dh).map BitVec.toNat = some k ↔
    dt.HasAddress ch cl dh ∧ dt.index ch cl dh = k := by
  rw [Option.map_eq_some_iff]
  constructor
  · rintro ⟨lba, hlba, rfl⟩
    obtain ⟨haddr, heq⟩ := HasAddress.of_cvLba hlba
    exact ⟨haddr, heq.symm⟩
  · rintro ⟨haddr, rfl⟩
    exact haddr.cvLba

end DiskTab

/-! ### What POST publishes -/

/-- The override stored for a unit is one that can be used. -/
def Overridden (geo : Byte × Byte) (lba : DWord) : Prop :=
  1 ≤ geo.1 ∧ 1 ≤ geo.2 ∧ geo.2 ≤ 63 ∧ lba ≠ 0

instance (geo : Byte × Byte) (lba : DWord) : Decidable (Overridden geo lba) :=
  inferInstanceAs (Decidable (_ ∧ _))

/-- A geometry INT 13h can express, as cylinders, heads and sectors. -/
def Expressible (c : Word) (h s : Byte) : Prop := 1 ≤ c ∧ c ≤ 1024 ∧ 1 ≤ h ∧ 1 ≤ s ∧ s ≤ 63

instance (c : Word) (h s : Byte) : Decidable (Expressible c h s) :=
  inferInstanceAs (Decidable (_ ∧ _))

/-- A geometry cut to fit `lba` sectors: with all its cylinders it may still be short of them. -/
structure CutToFit (lba : DWord) (chs : Word × Byte × Byte) : Prop where
  heads : 1 ≤ chs.2.1.toNat
  sectors : 1 ≤ chs.2.2.toNat ∧ chs.2.2.toNat ≤ 63
  cylinders : chs.1.toNat = min (lba.toNat / (chs.2.1.toNat * chs.2.2.toNat)) 1024

/-- `h` heads and `s` sectors. -/
def cut (lba : DWord) (h s : Byte) : Word × Byte × Byte :=
  (if lba / (h.setWidth 32 * s.setWidth 32) > 1024 then 1024
    else (lba / (h.setWidth 32 * s.setWidth 32)).setWidth 16, h, s)

/-- The heads of LBA-assist. -/
def assistHeads (lba : DWord) : Byte :=
  if lba ≤ 1032192 then 16
  else if lba ≤ 2064384 then 32
  else if lba ≤ 4128768 then 64
  else if lba ≤ 8257536 then 128
  else 255

theorem hdTranslate_eq (geo : Byte × Byte) (c : Word) (h s : Byte) (lba : DWord) :
    hdTranslate geo c h s lba =
      if Overridden geo lba then cut lba geo.1 geo.2
      else if Expressible c h s then (c, h, s)
      else if lba = 0 then (0, 0, 0)
      else cut lba (assistHeads lba) 63 := rfl

theorem cut_cutToFit {h s : Byte} (hh : 1 ≤ h) (hs : 1 ≤ s) (hs' : s ≤ 63) (lba : DWord) :
    CutToFit lba (cut lba h s) := by
  have hlt := h.isLt
  have hlt' := s.isLt
  have hmul : h.toNat * s.toNat ≤ 255 * 255 := Nat.mul_le_mul (by omega) (by omega)
  have hcyl : (lba / (h.setWidth 32 * s.setWidth 32)).toNat = lba.toNat / (h.toNat * s.toNat) := by
    rw [BitVec.toNat_udiv, BitVec.toNat_mul, BitVec.toNat_setWidth, BitVec.toNat_setWidth,
      Nat.mod_eq_of_lt (a := h.toNat) (by omega), Nat.mod_eq_of_lt (a := s.toNat) (by omega),
      Nat.mod_eq_of_lt (by omega)]
  refine ⟨hh, ⟨hs, hs'⟩, ?_⟩
  simp only [cut, ← hcyl]
  generalize lba / (h.setWidth 32 * s.setWidth 32) = n
  have h1024 : (1024 : DWord).toNat = 1024 := rfl
  split
  · rename_i hgt
    rw [gt_iff_lt, BitVec.lt_def, h1024] at hgt
    exact (Nat.min_eq_right hgt.le).symm
  · rename_i hle
    rw [gt_iff_lt, BitVec.lt_def, h1024] at hle
    rw [BitVec.toNat_setWidth]
    omega

/-- `hd_translate`: the override, the geometry of the drive, or one that is cut to fit. -/
theorem hdTranslate_cases (geo : Byte × Byte) (c : Word) (h s : Byte) (lba : DWord) :
    (¬ Overridden geo lba ∧ Expressible c h s ∧ hdTranslate geo c h s lba = (c, h, s)) ∨
      (Overridden geo lba ∨ ¬ Expressible c h s) ∧
        (CutToFit lba (hdTranslate geo c h s lba) ∨ hdTranslate geo c h s lba = (0, 0, 0)) := by
  rw [hdTranslate_eq]
  by_cases hover : Overridden geo lba
  · right
    rw [if_pos hover]
    exact ⟨.inl hover, .inl (cut_cutToFit hover.1 hover.2.1 hover.2.2.1 lba)⟩
  rw [if_neg hover]
  by_cases hown : Expressible c h s
  · left
    exact ⟨hover, hown, if_pos hown⟩
  right
  refine ⟨.inr hown, ?_⟩
  rw [if_neg hown]
  split
  · exact .inr rfl
  · have hheads : 1 ≤ assistHeads lba := by
      unfold assistHeads
      split_ifs <;> decide
    exact .inl (cut_cutToFit hheads (by decide) (by decide) lba)

theorem CutToFit.le {lba : DWord} {chs : Word × Byte × Byte} (h : CutToFit lba chs) :
    chs.1.toNat * chs.2.1.toNat * chs.2.2.toNat ≤ lba.toNat := by
  have hle : chs.1.toNat ≤ lba.toNat / (chs.2.1.toNat * chs.2.2.toNat) := by
    rw [h.cylinders]
    exact Nat.min_le_left _ _
  calc chs.1.toNat * chs.2.1.toNat * chs.2.2.toNat
      = chs.1.toNat * (chs.2.1.toNat * chs.2.2.toNat) := Nat.mul_assoc _ _ _
    _ ≤ lba.toNat / (chs.2.1.toNat * chs.2.2.toNat) * (chs.2.1.toNat * chs.2.2.toNat) :=
        Nat.mul_le_mul_right _ hle
    _ ≤ lba.toNat := Nat.div_mul_le_self _ _

/-- Within what INT 13h can express, or nothing. -/
structure DiskTab.InLimits (dt : DiskTab) : Prop where
  cylinders : dt.ncylinders.toNat ≤ 1024
  sectors : dt.nsectors.toNat ≤ 63
  nonempty : dt.ncylinders ≠ 0 → 1 ≤ dt.nHeads.toNat ∧ 1 ≤ dt.nsectors.toNat

/-- What IDENTIFY says of the heads and sectors of a drive. -/
def ownHeads (mem : Mem) : Byte :=
  if 1 ≤ idWord mem 3 ∧ idWord mem 3 ≤ 255 then (idWord mem 3).setWidth 8 else 0

def ownSectors (mem : Mem) : Byte :=
  if 1 ≤ idWord mem 6 ∧ idWord mem 6 ≤ 63 then (idWord mem 6).setWidth 8 else 0

/-- The geometry of a table. -/
def DiskTab.chs (dt : DiskTab) : Word × Byte × Byte := (dt.ncylinders, dt.nHeads, dt.nsectors)

theorem identifyTab_chs (geo : Byte × Byte) (mem : Mem) (drive : Bool) :
    (identifyTab geo mem drive).chs =
      hdTranslate geo (idWord mem 1) (ownHeads mem) (ownSectors mem) (idDword mem 60) := rfl

/-- The geometry of the drive itself is published. -/
def PublishesOwn (geo : Byte × Byte) (mem : Mem) : Prop :=
  ¬ Overridden geo (idDword mem 60) ∧
    Expressible (idWord mem 1) (ownHeads mem) (ownSectors mem)

instance (geo : Byte × Byte) (mem : Mem) : Decidable (PublishesOwn geo mem) :=
  inferInstanceAs (Decidable (_ ∧ _))

/-- What POST publishes. -/
theorem identifyTab_cases (geo : Byte × Byte) (mem : Mem) (drive : Bool) :
    (PublishesOwn geo mem ∧
        (identifyTab geo mem drive).chs = (idWord mem 1, ownHeads mem, ownSectors mem)) ∨
      ¬ PublishesOwn geo mem ∧
        (CutToFit (idDword mem 60) (identifyTab geo mem drive).chs ∨
          (identifyTab geo mem drive).chs = (0, 0, 0)) := by
  rw [identifyTab_chs]
  rcases hdTranslate_cases geo (idWord mem 1) (ownHeads mem) (ownSectors mem) (idDword mem 60) with
    ⟨hover, hown, heq⟩ | ⟨hnot, hcases⟩
  · exact .inl ⟨⟨hover, hown⟩, heq⟩
  · exact .inr ⟨fun hpub => hnot.elim hpub.1 fun hown => hown hpub.2, hcases⟩

theorem identifyTab_inLimits (geo : Byte × Byte) (mem : Mem) (drive : Bool) :
    (identifyTab geo mem drive).InLimits := by
  have hcases := identifyTab_cases geo mem drive
  generalize identifyTab geo mem drive = dt at hcases
  rcases hcases with ⟨⟨-, hown⟩, heq⟩ | ⟨-, hcut | hzero⟩
  · simp only [DiskTab.chs, Prod.mk.injEq] at heq
    obtain ⟨hc, hh, hs⟩ := heq
    rw [← hc, ← hh, ← hs] at hown
    exact ⟨hown.2.1, hown.2.2.2.2, fun _ => ⟨hown.2.2.1, hown.2.2.2.1⟩⟩
  · exact ⟨hcut.cylinders ▸ Nat.min_le_right _ _, hcut.sectors.2,
      fun _ => ⟨hcut.heads, hcut.sectors.1⟩⟩
  · simp only [DiskTab.chs, Prod.mk.injEq] at hzero
    obtain ⟨hc, -, hs⟩ := hzero
    exact ⟨by rw [hc]; decide, by rw [hs]; decide, fun hne => absurd hc hne⟩

/-! ### Function 08h -/

section

variable {W : Type} [IdeBus W] {a : DiskArea} {r r' : Regs} {dt : DiskTab} {bx : Nat}
  {h h' : Host W}

omit [IdeBus W] in
/-- The encoding function 08h makes of a last cylinder, a last head and a last sector. -/
theorem fn08_runs (hdt : getDiskTable a r.dl = some (dt, bx))
    (hr : Runs (fn08GetDriveParameters a r) h r' h') :
    (dt.ncylinders = 0 ∧ r'.cf = true ∧ r'.ah = INVALID_COMMAND) ∨
      dt.ncylinders ≠ 0 ∧ r'.cf = false ∧
        r'.ch = (dt.ncylinders - 1).setWidth 8 ∧
        r'.cl = ((dt.ncylinders - 1).extractLsb' 8 8 <<< 6) ||| dt.nsectors ∧
        r'.dh = dt.nHeads - 1 := by
  simp only [fn08GetDriveParameters, hdt] at hr
  by_cases hzero : dt.ncylinders = 0
  · rw [if_pos hzero] at hr
    obtain ⟨rfl, -⟩ := (runs_errorReturn _ _ h).det hr
    exact .inl ⟨hzero, rfl, rfl⟩
  · rw [if_neg hzero] at hr
    obtain ⟨rfl, -⟩ := (runs_goodReturn _ h).det hr
    exact .inr ⟨hzero, rfl, rfl, rfl, rfl⟩

end

/-! ### The geometry fits the drive -/

/-- A command of the monitor: GEO with what there is of its two numbers. -/
def geo (hs : Option DWord × Option DWord) (dt : DiskTab) : DiskTab :=
  match hs with
  | (some h, some s) =>
      if h < 1 ∨ h > 255 ∨ s < 1 ∨ s > 63 then dt
      else
        let v := dt.maxLba / (h * s)
        if v = 0 ∨ v > 1024 then dt
        else
          { dt with
            nHeads := h.setWidth 8
            nsectors := s.setWidth 8
            ncylinders := v.setWidth 16 }
  | _ => dt

def geos (cmds : List (Option DWord × Option DWord)) (dt : DiskTab) : DiskTab :=
  cmds.foldl (fun dt hs => geo hs dt) dt

namespace DiskTab

/-- No geometry that function 08h would report, or one of no more sectors than the drive has; and
every address of it names one of them. -/
structure FitsDrive (dt : DiskTab) : Prop where
  geometry : dt.ncylinders = 0 ∨
    (1 ≤ dt.ncylinders.toNat ∧ dt.ncylinders.toNat ≤ 1024) ∧
    (1 ≤ dt.nHeads.toNat ∧ dt.nHeads.toNat ≤ 255) ∧
    (1 ≤ dt.nsectors.toNat ∧ dt.nsectors.toNat ≤ 63) ∧ dt.chsSectors ≤ dt.maxLba.toNat
  addresses : ∀ ch cl dh lba, cvLba dt ch cl dh = some lba → lba < dt.maxLba

variable {dt : DiskTab}

theorem chsSectors_of_zero (h : dt.ncylinders = 0) : dt.chsSectors = 0 := by
  have hzero : dt.ncylinders.toNat = 0 := by
    rw [h]
    rfl
  rw [chsSectors, hzero, Nat.zero_mul, Nat.zero_mul]

/-- Within its limits a geometry fits as soon as it has no more sectors than the drive. -/
theorem InLimits.fitsDrive_iff (h : dt.InLimits) :
    dt.FitsDrive ↔ dt.chsSectors ≤ dt.maxLba.toNat := by
  have hheads := dt.nHeads.isLt
  constructor
  · rintro ⟨hzero | hgeo, -⟩
    · rw [chsSectors_of_zero hzero]
      exact Nat.zero_le _
    · exact hgeo.2.2.2
  · intro hle
    refine ⟨?_, fun ch cl dh lba hlba => ?_⟩
    · by_cases hzero : dt.ncylinders = 0
      · exact .inl hzero
      · obtain ⟨hh, hs⟩ := h.nonempty hzero
        have hpos : 1 ≤ dt.ncylinders.toNat :=
          Nat.pos_of_ne_zero fun heq => hzero (BitVec.eq_of_toNat_eq heq)
        exact .inr ⟨⟨hpos, h.cylinders⟩, ⟨hh, by omega⟩, ⟨hs, h.sectors⟩, hle⟩
    · obtain ⟨haddr, heq⟩ := HasAddress.of_cvLba hlba
      rw [BitVec.lt_def, heq]
      exact haddr.index_lt.trans_le hle

end DiskTab

/-- What GEO accepts fits the drive. -/
theorem geo_fitsDrive {dt : DiskTab} (hdt : dt.FitsDrive) (hs : Option DWord × Option DWord) :
    (geo hs dt).FitsDrive := by
  obtain ⟨_ | h, _ | s⟩ := hs
  · exact hdt
  · exact hdt
  · exact hdt
  have h1 : (1 : DWord).toNat = 1 := rfl
  have h63 : (63 : DWord).toNat = 63 := rfl
  have h255 : (255 : DWord).toNat = 255 := rfl
  have h1024 : (1024 : DWord).toNat = 1024 := rfl
  simp only [geo]
  split
  · exact hdt
  rename_i hrange
  split
  · exact hdt
  rename_i hv
  simp only [not_or, gt_iff_lt, BitVec.lt_def, h1, h63, h255, h1024] at hrange hv
  have hmul : h.toNat * s.toNat ≤ 255 * 63 := Nat.mul_le_mul (by omega) (by omega)
  have hcyl : (dt.maxLba / (h * s)).toNat = dt.maxLba.toNat / (h.toNat * s.toNat) := by
    rw [BitVec.toNat_udiv, BitVec.toNat_mul, Nat.mod_eq_of_lt (by omega)]
  have hpos : 1 ≤ (dt.maxLba / (h * s)).toNat :=
    Nat.pos_of_ne_zero fun heq => hv.1 (BitVec.eq_of_toNat_eq heq)
  have hnarrow : ((dt.maxLba / (h * s)).setWidth 16 : Word).toNat =
      dt.maxLba.toNat / (h.toNat * s.toNat) := by
    rw [BitVec.toNat_setWidth, ← hcyl]
    omega
  have hheads : (h.setWidth 8 : Byte).toNat = h.toNat := by
    rw [BitVec.toNat_setWidth]
    omega
  have hsectors : (s.setWidth 8 : Byte).toNat = s.toNat := by
    rw [BitVec.toNat_setWidth]
    omega
  rw [hcyl] at hpos hv
  have hlimits : DiskTab.InLimits { dt with
      nHeads := h.setWidth 8
      nsectors := s.setWidth 8
      ncylinders := (dt.maxLba / (h * s)).setWidth 16 } :=
    ⟨by simp only [hnarrow]; omega, by simp only [hsectors]; omega,
      fun _ => by simp only [hheads, hsectors]; omega⟩
  rw [hlimits.fitsDrive_iff]
  simp only [DiskTab.chsSectors, hnarrow, hheads, hsectors, Nat.mul_assoc]
  exact Nat.div_mul_le_self _ _

theorem geos_fitsDrive (cmds : List (Option DWord × Option DWord)) {dt : DiskTab}
    (hdt : dt.FitsDrive) : (geos cmds dt).FitsDrive := by
  induction cmds generalizing dt with
  | nil => exact hdt
  | cons hs cmds ih => exact ih (geo_fitsDrive hdt hs)

/-- **The geometry never exceeds the drive**, at POST and after every GEO command, just if the
drive has as many sectors as its own geometry says wherever that is published. -/
theorem geometry_fits_iff (ov : Byte × Byte) (mem : Mem) (drive : Bool)
    (cmds : List (Option DWord × Option DWord)) :
    (∀ n, (geos (cmds.take n) (identifyTab ov mem drive)).FitsDrive) ↔
      (PublishesOwn ov mem →
        (idWord mem 1).toNat * (ownHeads mem).toNat * (ownSectors mem).toNat ≤
          (idDword mem 60).toNat) := by
  have hpost : (identifyTab ov mem drive).FitsDrive ↔ (PublishesOwn ov mem →
      (idWord mem 1).toNat * (ownHeads mem).toNat * (ownSectors mem).toNat ≤
        (idDword mem 60).toNat) := by
    have hmax : (identifyTab ov mem drive).maxLba = idDword mem 60 := rfl
    have hcases := identifyTab_cases ov mem drive
    rw [(identifyTab_inLimits ov mem drive).fitsDrive_iff, hmax]
    generalize identifyTab ov mem drive = dt at hcases
    rcases hcases with ⟨hpub, heq⟩ | ⟨hpub, hcut | hzero⟩
    · simp only [DiskTab.chs, Prod.mk.injEq] at heq
      rw [DiskTab.chsSectors, heq.1, heq.2.1, heq.2.2]
      exact ⟨fun hle _ => hle, fun hle => hle hpub⟩
    · exact iff_of_true hcut.le fun h => (hpub h).elim
    · simp only [DiskTab.chs, Prod.mk.injEq] at hzero
      rw [DiskTab.chsSectors_of_zero hzero.1]
      exact iff_of_true (Nat.zero_le _) fun h => (hpub h).elim
  rw [← hpost]
  exact ⟨fun h => h 0, fun h n => geos_fitsDrive _ h⟩

/-- A drive of 1024 cylinders, 16 heads and 63 sectors that has 1000 sectors. -/
def shortDrive : Mem := fun addr =>
  match addr - 0xA8000 with
  | 2 => 0x04
  | 7 => 16
  | 13 => 63
  | 120 => 0x03
  | 121 => 0xE8
  | _ => 0

theorem not_geometry_fits : ¬ (identifyTab (0, 0) shortDrive false).FitsDrive := by
  rintro ⟨hgeometry, -⟩
  revert hgeometry
  decide +kernel

/-! ### Sector numbers -/

namespace DiskTab

variable {dt : DiskTab} {ch cl dh ch' cl' dh' : Byte}

/-- The bits of an encoding. -/
theorem cylinder_sector_encode {ax : Word} {s : Byte} (hax : ax.toNat < 1024)
    (hs : s.toNat < 64) :
    (cylinder (ax.setWidth 8) ((ax.extractLsb' 8 8 <<< 6) ||| s)).toNat = ax.toNat ∧
      sector ((ax.extractLsb' 8 8 <<< 6) ||| s) = s := by
  have hcl : ((ax.extractLsb' 8 8 <<< 6) ||| s : Byte).toNat = ax.toNat / 256 * 64 + s.toNat := by
    have hhigh : (ax.extractLsb' 8 8 <<< 6 : Byte).toNat = (ax.toNat / 256) <<< 6 := by
      rw [BitVec.toNat_shiftLeft, BitVec.extractLsb'_toNat, Nat.shiftRight_eq_div_pow,
        Nat.shiftLeft_eq, Nat.shiftLeft_eq]
      omega
    rw [BitVec.toNat_or, hhigh, ← Nat.shiftLeft_add_eq_or_of_lt hs, Nat.shiftLeft_eq]
  have hch : (ax.setWidth 8 : Byte).toNat = ax.toNat % 256 := BitVec.toNat_setWidth 8 ax
  refine ⟨?_, BitVec.eq_of_toNat_eq ?_⟩
  · rw [toNat_cylinder, hcl, hch]
    omega
  · rw [toNat_sector, hcl]
    omega

/-- An address is its cylinder, its head and its sector. -/
theorem encode_inj (hc : (cylinder ch cl).toNat = (cylinder ch' cl').toNat)
    (hs : (sector cl).toNat = (sector cl').toNat) : ch = ch' ∧ cl = cl' := by
  rw [toNat_cylinder, toNat_cylinder] at hc
  rw [toNat_sector, toNat_sector] at hs
  have hch := ch.isLt
  have hch' := ch'.isLt
  constructor
  · exact BitVec.eq_of_toNat_eq (by omega)
  · exact BitVec.eq_of_toNat_eq (by omega)

theorem HasAddress.index_lt_iff (h : dt.HasAddress ch cl dh) (h' : dt.HasAddress ch' cl' dh') :
    dt.index ch cl dh < dt.index ch' cl' dh' ↔
      toLex ((cylinder ch cl).toNat, toLex (dh.toNat, (sector cl).toNat)) <
        toLex ((cylinder ch' cl').toNat, toLex (dh'.toNat, (sector cl').toNat)) := by
  obtain ⟨hc, hh, hs, hS⟩ := h
  obtain ⟨hc', hh', hs', hS'⟩ := h'
  have hpred : ∀ {s s' : Nat}, 1 ≤ s → 1 ≤ s' → (s - 1 < s' - 1 ↔ s < s') := by
    intro s s' h h'
    omega
  have houter : pack dt.nHeads.toNat (cylinder ch cl).toNat dh.toNat =
      pack dt.nHeads.toNat (cylinder ch' cl').toNat dh'.toNat ↔
        (cylinder ch cl).toNat = (cylinder ch' cl').toNat ∧ dh.toNat = dh'.toNat :=
    ⟨pack_inj hh hh', fun heq => by rw [heq.1, heq.2]⟩
  rw [index, index, pack_lt_pack_iff (by omega) (by omega), Prod.Lex.toLex_lt_toLex]
  simp only
  rw [pack_lt_pack_iff hh hh', houter, hpred hs hs', Prod.Lex.toLex_lt_toLex,
    Prod.Lex.toLex_lt_toLex, Prod.Lex.toLex_lt_toLex]
  simp only
  tauto

theorem HasAddress.index_inj (h : dt.HasAddress ch cl dh) (h' : dt.HasAddress ch' cl' dh')
    (heq : dt.index ch cl dh = dt.index ch' cl' dh') : ch = ch' ∧ cl = cl' ∧ dh = dh' := by
  obtain ⟨hc, hh, hs, hS⟩ := h
  obtain ⟨hc', hh', hs', hS'⟩ := h'
  obtain ⟨houter, hsector⟩ := pack_inj (by omega) (by omega) heq
  obtain ⟨hcyl, hhead⟩ := pack_inj hh hh' houter
  obtain ⟨hch, hcl⟩ := encode_inj hcyl (show (sector cl).toNat = (sector cl').toNat by omega)
  exact ⟨hch, hcl, BitVec.eq_of_toNat_eq hhead⟩

/-- Every sector has an address. -/
theorem InLimits.exists_address (h : dt.InLimits) {k : Nat} (hk : k < dt.chsSectors) :
    ∃ ch cl dh, dt.HasAddress ch cl dh ∧ dt.index ch cl dh = k := by
  have hC := h.cylinders
  have hS := h.sectors
  have hH := dt.nHeads.isLt
  obtain ⟨x, s, hx, hs, rfl⟩ := exists_pack hk
  obtain ⟨c, hd, hc, hh, rfl⟩ := exists_pack hx
  have hax : (BitVec.ofNat 16 c).toNat = c := by
    rw [BitVec.toNat_ofNat]
    omega
  have hs1 : (BitVec.ofNat 8 (s + 1)).toNat = s + 1 := by
    rw [BitVec.toNat_ofNat]
    omega
  have hhd : (BitVec.ofNat 8 hd).toNat = hd := by
    rw [BitVec.toNat_ofNat]
    omega
  obtain ⟨hcyl, hsector⟩ := cylinder_sector_encode
    (show (BitVec.ofNat 16 c).toNat < 1024 by omega) (show (BitVec.ofNat 8 (s + 1)).toNat < 64 by omega)
  rw [hax] at hcyl
  refine ⟨_, _, BitVec.ofNat 8 hd, ⟨hcyl ▸ hc, hhd.symm ▸ hh, ?_, ?_⟩, ?_⟩
  · rw [hsector, hs1]
    omega
  · rw [hsector, hs1]
    omega
  · rw [index, hcyl, hhd, hsector, hs1]
    rfl

/-- The addresses of a table and the numbers of its sectors, one for one. -/
structure Numbered (dt : DiskTab) : Prop where
  /-- an address there is no sector for has no number -/
  reject : ∀ ch cl dh, ¬ dt.HasAddress ch cl dh → cvLba dt ch cl dh = none
  inside : ∀ ch cl dh, dt.HasAddress ch cl dh →
    ∃ lba, cvLba dt ch cl dh = some lba ∧ lba.toNat < dt.chsSectors
  /-- no number is left out, and none is there twice -/
  once : ∀ k < dt.chsSectors, ∃! addr : Byte × Byte × Byte,
    (cvLba dt addr.1 addr.2.1 addr.2.2).map BitVec.toNat = some k
  /-- by cylinders, by heads within a cylinder, and by sectors -/
  order : ∀ ch cl dh ch' cl' dh' lba lba', cvLba dt ch cl dh = some lba →
    cvLba dt ch' cl' dh' = some lba' →
    (lba < lba' ↔ toLex ((cylinder ch cl).toNat, toLex (dh.toNat, (sector cl).toNat)) <
      toLex ((cylinder ch' cl').toNat, toLex (dh'.toNat, (sector cl').toNat)))
  /-- the address of function 08h is that of the last one -/
  last : ∀ {W : Type} (a : DiskArea) (r r' : Regs) (bx : Nat) (h h' : Host W),
    getDiskTable a r.dl = some (dt, bx) → Runs (fn08GetDriveParameters a r) h r' h' →
    r'.cf = false ∧ (cvLba dt r'.ch r'.cl r'.dh).map BitVec.toNat = some (dt.chsSectors - 1)

/-- The last address, as function 08h reports it. -/
theorem InLimits.last_address (h : dt.InLimits) (hsome : dt.ncylinders ≠ 0) :
    dt.HasAddress ((dt.ncylinders - 1).setWidth 8)
        (((dt.ncylinders - 1).extractLsb' 8 8 <<< 6) ||| dt.nsectors) (dt.nHeads - 1) ∧
      dt.index ((dt.ncylinders - 1).setWidth 8)
        (((dt.ncylinders - 1).extractLsb' 8 8 <<< 6) ||| dt.nsectors) (dt.nHeads - 1) =
          dt.chsSectors - 1 := by
  obtain ⟨hH, hS⟩ := h.nonempty hsome
  have hC := h.cylinders
  have hS' := h.sectors
  have hpos : 1 ≤ dt.ncylinders.toNat :=
    Nat.pos_of_ne_zero fun heq => hsome (BitVec.eq_of_toNat_eq heq)
  have hax : (dt.ncylinders - 1).toNat = dt.ncylinders.toNat - 1 :=
    BitVec.toNat_sub_of_le (by rw [BitVec.le_def]; exact hpos)
  have hdh : (dt.nHeads - 1).toNat = dt.nHeads.toNat - 1 :=
    BitVec.toNat_sub_of_le (by rw [BitVec.le_def]; exact hH)
  obtain ⟨hcyl, hsector⟩ := cylinder_sector_encode
    (show (dt.ncylinders - 1).toNat < 1024 by omega) (show dt.nsectors.toNat < 64 by omega)
  rw [hax] at hcyl
  refine ⟨⟨by omega, by omega, by rw [hsector]; exact hS, by rw [hsector]⟩, ?_⟩
  rw [index, hcyl, hdh, hsector, chsSectors, pack_last hpos hH]
  exact pack_last (Nat.mul_pos hpos hH) hS

theorem InLimits.numbered (h : dt.InLimits) (hsome : dt.ncylinders ≠ 0) : dt.Numbered where
  reject ch cl dh hnot := Option.eq_none_iff_forall_ne_some.mpr
    fun _ hlba => hnot (HasAddress.of_cvLba hlba).1
  inside ch cl dh haddr := by
    obtain ⟨lba, hlba, heq⟩ := haddr.cvLba
    exact ⟨lba, hlba, heq ▸ haddr.index_lt⟩
  once k hk := by
    obtain ⟨ch, cl, dh, haddr, hindex⟩ := h.exists_address hk
    refine ⟨(ch, cl, dh), cvLba_map_eq_some_iff.mpr ⟨haddr, hindex⟩, fun addr haddr' => ?_⟩
    obtain ⟨haddr', hindex'⟩ := cvLba_map_eq_some_iff.mp haddr'
    obtain ⟨hch, hcl, hdh⟩ := haddr'.index_inj haddr (hindex'.trans hindex.symm)
    exact Prod.ext hch (Prod.ext hcl hdh)
  order ch cl dh ch' cl' dh' lba lba' hlba hlba' := by
    obtain ⟨haddr, hindex⟩ := HasAddress.of_cvLba hlba
    obtain ⟨haddr', hindex'⟩ := HasAddress.of_cvLba hlba'
    rw [BitVec.lt_def, hindex, hindex']
    exact haddr.index_lt_iff haddr'
  last a r r' bx host host' hdt hr := by
    obtain ⟨hzero, -⟩ | ⟨-, hcf, hch, hcl, hdh⟩ := fn08_runs hdt hr
    · exact absurd hzero hsome
    refine ⟨hcf, ?_⟩
    rw [hch, hcl, hdh]
    exact cvLba_map_eq_some_iff.mpr (h.last_address hsome)

end DiskTab

/-- **The addresses of a published table are the numbers of its sectors, one for one.** -/
theorem chs_numbered (ov : Byte × Byte) (mem : Mem) (drive : Bool)
    (hsome : (identifyTab ov mem drive).ncylinders ≠ 0) : (identifyTab ov mem drive).Numbered :=
  (identifyTab_inLimits ov mem drive).numbered hsome

/-- A drive of 01010101h sectors as 1024 cylinders of 16 heads and 63 sectors. -/
theorem chs_numbered_override : (identifyTab (16, 63) (fun _ => 1) false).Numbered :=
  chs_numbered (16, 63) (fun _ => 1) false (by decide +kernel)

end Sbc386Ex.Int13

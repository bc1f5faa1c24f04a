import Mathlib.Tactic.SplitIfs
import Sbc386Ex.Ide.Bus

/-!
# Sbc386Ex.Int13.Table

The parts of `13h_disk.asm` every fixed-disk call goes through: the caller's
registers, the drive tables POST publishes, `get_disk_table`, `cv_lba` and the two
ways back to the caller.

The BIOS data area, the drive parameter tables and the packet are kept apart from
the memory the drive's data goes to.
-/

namespace Sbc386Ex.Int13

open Prog Ide

/-! ### Registers and tables -/

/-- The registers of a call, as saved on entry and popped on return. -/
structure Regs where
  ah : Byte
  al : Byte
  bx : Word
  ch : Byte
  cl : Byte
  dh : Byte
  dl : Byte
  es : Word
  cf : Bool
  deriving DecidableEq

/-- `T_DISKTAB`, the fields these calls use. The geometry is the translated one. -/
structure DiskTab where
  ncylinders : Word
  nHeads : Byte
  unitNumber : Byte
  maxLba : DWord
  nsectors : Byte
  diskFlags : Byte
  deriving DecidableEq

/-- The `FX_` device codes of `nvram.h`. -/
def FX_NONE : Byte := 0
def FX_IDEm : Byte := 4
def FX_IDEs : Byte := 5

/-- What POST leaves in the BIOS data area and in the vectors: the number of drives,
never more than the device table holds, the device codes, and the parameter table
each vector points at. -/
structure DiskArea where
  hdNumber : Byte
  diskTab : Nat → Byte
  table : Byte → DiskTab
  few : hdNumber.toNat ≤ 8

/-! ### The driver tables -/

/-- An entry of `read_tab` or `write_tab`: master/slave, the buffer's segment and
offset, the start sector and the count; returns `AX`. -/
abbrev Driver (W : Type) := Byte → Word → Word → DWord → Word → IdeM W Word

variable {W : Type} [IdeBus W]

def readTab (fuel : Nat) : List (Option (Driver W)) := [none, none, some (ideReadSector fuel)]

def writeTab (fuel : Nat) : List (Option (Driver W)) := [none, none, some (ideWriteSector fuel)]

def lenReadTab : Nat := 3

/-- The slot of a driver, if it is not null. -/
def slot (tab : List (Option (Driver W))) (bx : Nat) : Option (Driver W) := tab.getD bx none

/-- `FX_` device code to driver index; `FFh` marks a code with no driver. -/
def drvIndex : List Byte := [0xFF, 0, 1, 1, 2, 2]

/-- The interrupt vector of each drive's parameter table. -/
def dtabVectors : List Byte := [0x41, 0x46, 0x68, 0x69, 0x6A, 0x6B, 0x6C, 0x6D]

/-- `get_disk_table`: the parameter table and the driver index for the drive code
`dl`, or nothing where the source jumps to `ret_invalid_command`. -/
def getDiskTable (a : DiskArea) (dl : Byte) : Option (DiskTab × Nat) :=
  let al := dl &&& 0x7F
  if ¬ al < a.hdNumber then none
  else
    let code := a.diskTab al.toNat
    if code = 0 then none
    else if ¬ code.toNat < drvIndex.length then none
    else
      let bl := drvIndex.getD code.toNat 0xFF
      if bl = 0xFF then none
      else some (a.table (dtabVectors.getD al.toNat 0), bl.toNat)

/-- `unit_number` shifted into the master/slave bit of the drive register. -/
def unitBit (tab : DiskTab) : Byte := tab.unitNumber <<< 4

/-! ### CHS to LBA -/

/-- The cylinder number in `CX`. -/
def cylinder (ch cl : Byte) : Word := (((cl &&& 0xC0).setWidth 16) <<< 2) ||| ch.setWidth 16

/-- `cv_lba`: the sector number of the C:H:S in `CX` and `DH`, or nothing where the
source sets the carry. -/
def cvLba (tab : DiskTab) (ch cl dh : Byte) : Option DWord :=
  let bl := cl &&& 0x3F
  let ax := cylinder ch cl
  if bl = 0 then none
  else if bl > tab.nsectors then none
  else if ¬ dh < tab.nHeads then none
  else if ¬ ax < tab.ncylinders then none
  else
    let eax : DWord := ax.setWidth 32 * tab.nHeads.setWidth 32
    let eax := eax + dh.setWidth 32
    let eax := eax * tab.nsectors.setWidth 32
    some (eax + (bl.setWidth 32 - 1))

theorem cylinder_lt (ch cl : Byte) : (cylinder ch cl).toNat < 1024 := by
  have hhigh : (((cl &&& 0xC0).setWidth 16 : Word) <<< 2).toNat < 2 ^ 10 := by
    have hlt : (cl &&& 0xC0).toNat < 256 := (cl &&& 0xC0).isLt
    simp only [BitVec.toNat_shiftLeft, BitVec.toNat_setWidth, Nat.shiftLeft_eq]
    omega
  have hlow : (ch.setWidth 16 : Word).toNat < 2 ^ 10 := by
    have hlt : ch.toNat < 256 := ch.isLt
    simp only [BitVec.toNat_setWidth]
    omega
  rw [cylinder, BitVec.toNat_or]
  exact Nat.or_lt_two_pow hhigh hlow

/-- What an accepted address is: inside the geometry, and the sector number is the
one of the usual formula, with no overflow. -/
theorem cvLba_some {dt : DiskTab} {ch cl dh : Byte} {lba : DWord}
    (h : cvLba dt ch cl dh = some lba) :
    ((cl &&& 0x3F) ≠ 0 ∧ (cl &&& 0x3F).toNat ≤ dt.nsectors.toNat ∧ dh.toNat < dt.nHeads.toNat ∧
      (cylinder ch cl).toNat < dt.ncylinders.toNat) ∧
    lba.toNat = ((cylinder ch cl).toNat * dt.nHeads.toNat + dh.toNat) * dt.nsectors.toNat +
      ((cl &&& 0x3F).toNat - 1) := by
  simp only [cvLba] at h
  split_ifs at h with h1 h2 h3 h4
  have hc := cylinder_lt ch cl
  have hH := dt.nHeads.isLt
  have hS := dt.nsectors.isLt
  have hs := (cl &&& 0x3F).isLt
  have hpos : 0 < (cl &&& 0x3F).toNat := by
    rcases Nat.eq_zero_or_pos (cl &&& 0x3F).toNat with h0 | h0
    · exact absurd (BitVec.eq_of_toNat_eq h0) h1
    · exact h0
  refine ⟨⟨h1, ?_, ?_, ?_⟩, ?_⟩
  · exact Nat.le_of_not_lt fun hlt => h2 (BitVec.lt_def.mpr hlt)
  · exact BitVec.lt_def.mp h3
  · exact BitVec.lt_def.mp h4
  · have hbound : (cylinder ch cl).toNat * dt.nHeads.toNat ≤ 1023 * 255 :=
      Nat.mul_le_mul (by omega) (by omega)
    have hhead : dh.toNat < 256 := dh.isLt
    have hbound' : ((cylinder ch cl).toNat * dt.nHeads.toNat + dh.toNat) * dt.nsectors.toNat ≤
        (1023 * 255 + 255) * 255 := Nat.mul_le_mul (by omega) (by omega)
    have hsub : ((cl &&& 0x3F).setWidth 32 - 1 : DWord).toNat = (cl &&& 0x3F).toNat - 1 := by
      have hone : (1 : DWord).toNat = 1 := rfl
      rw [BitVec.toNat_sub, BitVec.toNat_setWidth, hone]
      omega
    rw [← Option.some.inj h, BitVec.toNat_add, hsub, BitVec.toNat_mul, BitVec.toNat_add, BitVec.toNat_mul]
    simp only [BitVec.toNat_setWidth]
    rw [Nat.mod_eq_of_lt (a := (cylinder ch cl).toNat) (by omega),
      Nat.mod_eq_of_lt (a := dt.nHeads.toNat) (by omega),
      Nat.mod_eq_of_lt (a := dh.toNat) (by omega),
      Nat.mod_eq_of_lt (a := dt.nsectors.toNat) (by omega),
      Nat.mod_eq_of_lt (a := (cylinder ch cl).toNat * dt.nHeads.toNat) (by omega),
      Nat.mod_eq_of_lt (a := (cylinder ch cl).toNat * dt.nHeads.toNat + dh.toNat) (by omega),
      Nat.mod_eq_of_lt (a := (_ + _) * _) (by omega)]
    exact Nat.mod_eq_of_lt (by omega)

/-- An accepted address is well below the drive's last 28-bit block. -/
theorem cvLba_lt {dt : DiskTab} {ch cl dh : Byte} {lba : DWord}
    (h : cvLba dt ch cl dh = some lba) : lba.toNat < 2 ^ 26 := by
  obtain ⟨⟨-, -, hh, -⟩, heq⟩ := cvLba_some h
  have hc := cylinder_lt ch cl
  have hH := dt.nHeads.isLt
  have hS := dt.nsectors.isLt
  have hs : (cl &&& 0x3F).toNat < 64 := by
    have hle : cl.toNat &&& 63 ≤ 63 := Nat.and_le_right
    rw [BitVec.toNat_and]
    exact Nat.lt_succ_of_le hle
  have hbound : (cylinder ch cl).toNat * dt.nHeads.toNat ≤ 1023 * 255 :=
    Nat.mul_le_mul (by omega) (by omega)
  have hbound' : ((cylinder ch cl).toNat * dt.nHeads.toNat + dh.toNat) * dt.nsectors.toNat ≤
      (1023 * 255 + 254) * 255 := Nat.mul_le_mul (by omega) (by omega)
  omega

/-! ### Ways back -/

/-- `error_return`: carry set, the code in `AH`, recorded for function 01h. -/
def errorReturn (r : Regs) (ah : Byte) : IdeM W Regs := do
  modify fun h => { h with hdStatus := ah }
  pure { r with ah := ah, cf := true }

/-- `good_return`: carry and `AH` clear. -/
def goodReturn (r : Regs) : IdeM W Regs := do
  modify fun h => { h with hdStatus := 0 }
  pure { r with ah := 0, cf := false }

omit [IdeBus W] in
theorem runs_errorReturn (r : Regs) (ah : Byte) (h : Host W) :
    Runs (errorReturn r ah) h { r with ah := ah, cf := true } { h with hdStatus := ah } :=
  Runs.bind (a := ()) (runs_modify.mpr rfl) (runs_pure.mpr ⟨rfl, rfl⟩)

omit [IdeBus W] in
theorem runs_goodReturn (r : Regs) (h : Host W) :
    Runs (goodReturn r) h { r with ah := 0, cf := false } { h with hdStatus := 0 } :=
  Runs.bind (a := ()) (runs_modify.mpr rfl) (runs_pure.mpr ⟨rfl, rfl⟩)

def retInvalidCommand (r : Regs) : IdeM W Regs := errorReturn r INVALID_COMMAND

def retSectorNotFound (r : Regs) : IdeM W Regs := errorReturn r SECTOR_NOT_FOUND

/-- `_SecBuffer`, where a verify reads to. -/
def secBufferOff : Word := 0x8000
def secBufferSeg : Word := 0xA000

end Sbc386Ex.Int13

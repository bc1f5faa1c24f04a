import Sbc386Ex.Int13.Table

/-!
# Sbc386Ex.Int13.HdInit

`hdinit.c`: the soft reset, 8-bit mode, the probes, IDENTIFY and the enumeration that
publishes the drive tables.

The C routines return 0 for success; here that is `true`. A drive is the C argument
`drive`, 0 for the master and 1 for the slave.
-/

namespace Sbc386Ex.Int13

open Prog Ide

/-! ### Constants -/

def DC_nIEN : Byte := 0x02
def DC_SRST : Byte := 0x04
def CAP_DMA : Word := 0x0100
def CAP_LBA : Word := 0x0200
def IDE_CMD_IDENT : Byte := 0xEC
def RESET_TICKS : Word := 6 * 18
def SELECT_TICKS : Word := 1 * 18

def USE_CHS : Byte := 0x01
def USE_LBA : Byte := 0x02
def USE_DMA : Byte := 0x04
def USE_8BIT : Byte := 0x08

def HD_MAX_DRIVES : Nat := 2

section Code

variable {W : Type} [IdeBus W]

/-! ### Waits on the alternate status -/

/-- `short_delay`: reads of the alternate status register. -/
def shortDelay : Nat → IdeM W Unit
  | 0 => pure ()
  | n + 1 => do
      let _ ← inPort IDEALTS
      shortDelay n

/-- One round of `wait_not_busy`. -/
def hdWaitRound (ticks start : Word) : IdeM W (Option Bool) := do
  let v ← inPort IDEALTS
  if v &&& 0x80 = 0 then pure (some true)
  else do
    let t ← timerCountLow
    if t - start > ticks then pure (some false) else pure none

/-- `wait_not_busy` -/
def hdWaitNotBusy (ticks : Word) (fuel : Nat) : IdeM W Bool := do
  let start ← timerCountLow
  loop .outOfFuel (hdWaitRound ticks start) fuel

def selectDrive (drive : Bool) : IdeM W Unit := do
  outPort IDEDRV (0xE0 ||| if drive then 0x10 else 0x00)
  shortDelay 4

/-- `hd_reset`. If device 0 does not come ready, device 1 is given its own chance. -/
def hdReset (fuel : Nat) : IdeM W Bool := do
  outPort IDEALTS (DC_SRST ||| DC_nIEN)
  shortDelay 40
  outPort IDEALTS DC_nIEN
  shortDelay 40
  selectDrive false
  if ← hdWaitNotBusy RESET_TICKS fuel then pure true
  else do
    selectDrive true
    hdWaitNotBusy RESET_TICKS fuel

/-- `hd_set_8bit`: SET FEATURES, feature 01h. -/
def hdSet8bit (fuel : Nat) (drive : Bool) : IdeM W Bool := do
  selectDrive drive
  if ← hdWaitNotBusy SELECT_TICKS fuel then
    outPort IDEERR 0x01
    outPort IDESTTS IDE_CMD_SET_FEATURE
    if ← hdWaitNotBusy SELECT_TICKS fuel then
      let sts ← inPort IDESTTS
      pure (sts &&& 0x01 = 0)
    else pure false
  else pure false

/-- `hd_present`: do two scratch registers hold a pattern? -/
def hdPresent (fuel : Nat) (drive : Bool) : IdeM W Bool := do
  selectDrive drive
  if ← hdWaitNotBusy SELECT_TICKS fuel then
    outPort IDESECC 0x55
    outPort IDELBAL 0xAA
    outPort IDESECC 0xAA
    outPort IDELBAL 0x55
    outPort IDESECC 0x55
    outPort IDELBAL 0xAA
    let secc ← inPort IDESECC
    if secc = 0x55 then
      let lbal ← inPort IDELBAL
      pure (lbal = 0xAA)
    else pure false
  else pure false

/-- What `hd_probe` makes of a unit. -/
inductive HdKind
  | absent
  | ata
  | atapi
  | unknown
  deriving DecidableEq

def hdProbe (fuel : Nat) (drive : Bool) : IdeM W HdKind := do
  selectDrive drive
  if ← hdWaitNotBusy SELECT_TICKS fuel then
    let sts ← inPort IDEALTS
    let lm ← inPort IDELBAM
    let lh ← inPort IDELBAH
    if sts = 0x00 ∨ sts = 0xFF then pure .absent
    else if lm = 0x00 ∧ lh = 0x00 then pure .ata
    else if lm = 0x14 ∧ lh = 0xEB then pure .atapi
    else pure .unknown
  else pure .absent

/-! ### IDENTIFY -/

/-- The byte loop of `read_dataBE`: each word is stored with its bytes reversed. -/
def readDataBELoop (es : Word) : Nat → Word → IdeM W Word
  | 0, di => pure di
  | cx + 1, di => do
      let ah ← inPort IDEDTA
      let al ← inPort IDEDTA
      storeByte es di al
      storeByte es (di + 1) ah
      readDataBELoop es cx (di + 2)

def readDataBE (es bx : Word) : IdeM W Word := readDataBELoop es 256 bx

/-- `IDE_READ_ID` -/
def ideReadId (fuel : Nat) (al : Byte) (cx bx : Word) : IdeM W Word := do
  if ← ideWaitNotBusy fuel then
    wrLba 0 al 0
    outPort IDESTTS IDE_CMD_IDENT
    if ← ideWaitDrq fuel then
      let _ ← readDataBE cx bx
      pure 0
    else ideError
  else ideError

/-- The `n`-th word of the IDENTIFY data at `SecBuffer`. -/
def idWord (mem : Mem) (n : Nat) : Word :=
  let b := fun i => mem (linear secBufferSeg (secBufferOff + BitVec.ofNat 16 i))
  ((b (n * 2)).setWidth 16 <<< 8) ||| (b (n * 2 + 1)).setWidth 16

def idDword (mem : Mem) (n : Nat) : DWord :=
  ((idWord mem (n + 1)).setWidth 32 <<< 16) ||| (idWord mem n).setWidth 32

/-- `hd_translate`: the geometry INT 13h is shown, as cylinders, heads and sectors. `geo`
is the override stored for the unit, heads and sectors. -/
def hdTranslate (geo : Byte × Byte) (physCylinders : Word) (physHeads physSectors : Byte)
    (lba : DWord) : Word × Byte × Byte :=
  let cylinders : DWord → Word := fun n => if n > 1024 then 1024 else n.setWidth 16
  if 1 ≤ geo.1 ∧ 1 ≤ geo.2 ∧ geo.2 ≤ 63 ∧ lba ≠ 0 then
    (cylinders (lba / (geo.1.setWidth 32 * geo.2.setWidth 32)), geo.1, geo.2)
  else if 1 ≤ physCylinders ∧ physCylinders ≤ 1024 ∧ 1 ≤ physHeads ∧ 1 ≤ physSectors ∧
      physSectors ≤ 63 then
    (physCylinders, physHeads, physSectors)
  else if lba = 0 then (0, 0, 0)
  else
    let h : Byte :=
      if lba ≤ 1032192 then 16
      else if lba ≤ 2064384 then 32
      else if lba ≤ 4128768 then 64
      else if lba ≤ 8257536 then 128
      else 255
    (cylinders (lba / (h.setWidth 32 * 63)), h, 63)

/-- The parameter table `hd_identify` makes of the IDENTIFY data. -/
def identifyTab (geo : Byte × Byte) (mem : Mem) (drive : Bool) : DiskTab :=
  let caps := idWord mem 49
  let h := idWord mem 3
  let s := idWord mem 6
  let physHeads : Byte := if 1 ≤ h ∧ h ≤ 255 then h.setWidth 8 else 0
  let physSectors : Byte := if 1 ≤ s ∧ s ≤ 63 then s.setWidth 8 else 0
  let maxLba := idDword mem 60
  let chs := hdTranslate geo (idWord mem 1) physHeads physSectors maxLba
  { ncylinders := chs.1
    nHeads := chs.2.1
    unitNumber := if drive then 1 else 0
    maxLba := maxLba
    nsectors := chs.2.2
    diskFlags := USE_CHS ||| USE_8BIT ||| (if caps &&& CAP_LBA ≠ 0 then USE_LBA else 0) |||
      if caps &&& CAP_DMA ≠ 0 then USE_DMA else 0 }

/-- `hd_identify` -/
def hdIdentify (fuel : Nat) (geo : Bool → Byte × Byte) (drive : Bool) :
    IdeM W (Option DiskTab) := do
  let ax ← ideReadId fuel (if drive then 0x10 else 0x00) secBufferSeg secBufferOff
  if ax ≠ 0 then pure none
  else do
    let h ← get
    pure (some (identifyTab (geo drive) h.mem drive))

/-! ### Enumeration -/

/-- At most `n` tables. -/
abbrev Tabs (n : Nat) := { tabs : List DiskTab // tabs.length ≤ n }

/-- The second loop of `hdinit`: an ATA drive whose registers do not hold is not there. -/
def hdConfirm (fuel : Nat) (drive : Bool) (kind : HdKind) : IdeM W HdKind :=
  if kind = .ata then do
    if ← hdPresent fuel drive then pure kind else pure .absent
  else pure kind

/-- A round of its third loop: what a unit adds to the tables. -/
def hdAdd (fuel : Nat) (geo : Bool → Byte × Byte) (ntabs : Nat) (drive : Bool) (kind : HdKind)
    (tabs : Tabs ntabs) : IdeM W (Tabs ntabs) :=
  if room : tabs.val.length < ntabs then
    if kind = .ata then do
      if ← hdSet8bit fuel drive then
        match ← hdIdentify fuel geo drive with
        | some t => pure ⟨tabs.val ++ [t], by simpa using Nat.succ_le_of_lt room⟩
        | none => pure tabs
      else pure tabs
    else pure tabs
  else pure tabs

def hdinit (fuel : Nat) (geo : Bool → Byte × Byte) (ntabs : Nat) : IdeM W (Tabs ntabs) := do
  if ← hdReset fuel then
    let kind0 ← hdProbe fuel false
    let kind1 ← hdProbe fuel true
    let kind0 ← hdConfirm fuel false kind0
    let kind1 ← hdConfirm fuel true kind1
    let tabs ← hdAdd fuel geo ntabs false kind0 ⟨[], Nat.zero_le _⟩
    hdAdd fuel geo ntabs true kind1 tabs
  else pure ⟨[], Nat.zero_le _⟩

/-- What `hd_enumerate` publishes of the tables: the count, the device codes, and the
vectors 41h and 46h. -/
def publish (table : Byte → DiskTab) (tabs : Tabs HD_MAX_DRIVES) : DiskArea where
  hdNumber := BitVec.ofNat 8 tabs.val.length
  diskTab i :=
    match tabs.val[i]? with
    | some t => if t.unitNumber ≠ 0 then FX_IDEs else FX_IDEm
    | none => FX_NONE
  table v :=
    if v = 0x41 then tabs.val.getD 0 (table v)
    else if v = 0x46 then tabs.val.getD 1 (table v)
    else table v
  few := by
    have hlen : tabs.val.length ≤ 8 := tabs.property.trans (by decide)
    rw [BitVec.toNat_ofNat]
    omega

/-- `hd_enumerate`, where the vectors point at `table` before it. -/
def hdEnumerate (fuel : Nat) (geo : Bool → Byte × Byte) (table : Byte → DiskTab) :
    IdeM W DiskArea :=
  publish table <$> hdinit fuel geo HD_MAX_DRIVES

end Code

end Sbc386Ex.Int13

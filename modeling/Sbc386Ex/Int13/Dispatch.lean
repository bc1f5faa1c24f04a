import Sbc386Ex.Int13.Edd
import Sbc386Ex.Int13.HdInit

/-!
# Sbc386Ex.Int13.Dispatch

The remaining fixed-disk functions of `13h_disk.asm` and the dispatch on `AH`.
-/

namespace Sbc386Ex.Int13

open Prog Ide

/-- `T_PARAM_PACKET`, the result buffer of function 48h. -/
structure ParamPacket where
  paramSize : Word
  info : Word
  physCylinders : DWord
  physHeads : DWord
  physSectors : DWord
  totalSectors : DWord
  totalSectorsHigh : DWord
  bytes : Word
  eddParamPtr : DWord

/-- A call: the registers, and what `DS:SI` points at for the packet calls that want a disk
address packet or a result buffer. -/
structure Call where
  regs : Regs
  packet : Packet
  param : ParamPacket

section Code

variable {W : Type} [IdeBus W]

/-- `good_return_AH`: carry clear, and `AH` as it is recorded. -/
def goodReturnAH (r : Regs) (ah : Byte) : IdeM W Regs := do
  modify fun h => { h with hdStatus := ah }
  pure { r with ah := ah, cf := false }

/-- Function 00h. What `hd_set_8bit` returns is not looked at, and the slave is asked only
if two drives were registered. -/
def fn00ResetDisk (fuel : Nat) (a : DiskArea) (r : Regs) : IdeM W Regs := do
  match getDiskTable a r.dl with
  | none => retInvalidCommand r
  | some _ =>
    if ← hdReset fuel then
      let _ ← hdSet8bit fuel false
      if a.hdNumber ≤ 1 then goodReturn r
      else do
        let _ ← hdSet8bit fuel true
        goodReturn r
    else errorReturn r RESET_FAILED

/-- Function 01h. The drive code is not validated and the status not cleared. -/
def fn01GetStatus (r : Regs) : IdeM W Regs := do
  let h ← get
  pure { r with ah := h.hdStatus, cf := h.hdStatus ≠ 0 }

/-- Function 08h. `DL` is zero until the drive is known. -/
def fn08GetDriveParameters (a : DiskArea) (r : Regs) : IdeM W Regs :=
  match getDiskTable a r.dl with
  | none => retInvalidCommand { r with dl := 0 }
  | some (dt, _) =>
    if dt.ncylinders = 0 then retInvalidCommand { r with dl := 0 }
    else
      let ax := dt.ncylinders - 1
      goodReturn { r with
        ch := ax.setWidth 8
        cl := ((ax.extractLsb' 8 8 : Byte) <<< 6) ||| dt.nsectors
        dh := dt.nHeads - 1
        dl := a.hdNumber }

/-- Function 15h: the capacity in `CX:DX`. -/
def fn15GetDiskType (a : DiskArea) (r : Regs) : IdeM W Regs :=
  match getDiskTable a r.dl with
  | none => retInvalidCommand r
  | some (dt, _) =>
    goodReturnAH { r with
      dl := dt.maxLba.extractLsb' 0 8, dh := dt.maxLba.extractLsb' 8 8
      cl := dt.maxLba.extractLsb' 16 8, ch := dt.maxLba.extractLsb' 24 8 } 3

/-- Function 41h -/
def fn41CheckExtensionsPresent (a : DiskArea) (r : Regs) : IdeM W Regs :=
  match getDiskTable a r.dl with
  | none => retInvalidCommand r
  | some (dt, _) =>
    if r.bx ≠ 0x55AA then retInvalidCommand r
    else if dt.diskFlags &&& USE_LBA = 0 then retInvalidCommand r
    else goodReturnAH { r with bx := 0xAA55, ch := 0, cl := 0x05 } 0x21

/-- Function 47h: no seek, only a range check. -/
def fn47ExtendedSeek (a : DiskArea) (r : Regs) (p : Packet) : IdeM W Regs :=
  match getDiskTable a r.dl with
  | none => retInvalidCommand r
  | some (dt, bx) =>
    if ¬ pktRwValidate p bx then retInvalidCommand r
    else if ¬ p.diskLba < dt.maxLba then retSectorNotFound r
    else goodReturn r

/-- Function 48h. The pointer and its size are filled in only where there is room. -/
def fn48GetDriveParameters (a : DiskArea) (r : Regs) (q : ParamPacket) :
    IdeM W (Regs × ParamPacket) := do
  match getDiskTable a r.dl with
  | none => return (← retInvalidCommand r, q)
  | some (dt, _) =>
    if q.paramSize < 26 then return (← retInvalidCommand r, q)
    else do
      let q' : ParamPacket := { q with
        physCylinders := dt.ncylinders.setWidth 32
        physHeads := dt.nHeads.setWidth 32
        physSectors := dt.nsectors.setWidth 32
        totalSectors := dt.maxLba
        totalSectorsHigh := 0
        bytes := 512
        info := 0x0002 }
      if q.paramSize < 30 then return (← goodReturn r, { q' with paramSize := 26 })
      else return (← goodReturn r, { q' with eddParamPtr := 0xFFFFFFFF, paramSize := 30 })

/-- `int_13h` for a drive code of 80h and up. -/
def int13h (fuel : Nat) (a : DiskArea) (c : Call) : IdeM W Call := do
  let r := c.regs
  match r.ah.toNat with
  | 0x00 => return { c with regs := ← fn00ResetDisk fuel a r }
  | 0x01 => return { c with regs := ← fn01GetStatus r }
  | 0x02 => return { c with regs := ← fn02ReadSector fuel a r }
  | 0x03 => return { c with regs := ← fn03WriteSector fuel a r }
  | 0x04 => return { c with regs := ← fn04VerifySector fuel a r }
  | 0x08 => return { c with regs := ← fn08GetDriveParameters a r }
  | 0x15 => return { c with regs := ← fn15GetDiskType a r }
  | 0x41 => return { c with regs := ← fn41CheckExtensionsPresent a r }
  | 0x42 =>
    let rp ← fn42ReadSector fuel a r c.packet
    return { c with regs := rp.1, packet := rp.2 }
  | 0x43 =>
    let rp ← fn43WriteSector fuel a r c.packet
    return { c with regs := rp.1, packet := rp.2 }
  | 0x44 =>
    let rp ← fn44VerifySector fuel a r c.packet
    return { c with regs := rp.1, packet := rp.2 }
  | 0x47 => return { c with regs := ← fn47ExtendedSeek a r c.packet }
  | 0x48 =>
    let rq ← fn48GetDriveParameters a r c.param
    return { c with regs := rq.1, param := rq.2 }
  | _ => return { c with regs := ← retInvalidCommand r }

end Code

/-! ### Frames -/

section Frames

variable {W : Type} [IdeBus W] {R : W → W → Prop} [Std.Refl R] [IsTrans W R]

omit [IdeBus W] [IsTrans W R] in
theorem keeps_errorReturn (r : Regs) (ah : Byte) : Keeps (OnBus R) (errorReturn r ah : IdeM W Regs) := by
  intro h r' h' hr
  obtain ⟨-, rfl⟩ := (runs_errorReturn r ah h).det hr
  exact refl_of R h.bus

omit [IdeBus W] [IsTrans W R] in
theorem keeps_goodReturn (r : Regs) : Keeps (OnBus R) (goodReturn r : IdeM W Regs) := by
  intro h r' h' hr
  obtain ⟨-, rfl⟩ := (runs_goodReturn r h).det hr
  exact refl_of R h.bus

omit [IdeBus W] [IsTrans W R] in
theorem keeps_goodReturnAH (r : Regs) (ah : Byte) : Keeps (OnBus R) (goodReturnAH r ah : IdeM W Regs) := by
  intro h r' h' hr
  have hrun : Runs (goodReturnAH r ah : IdeM W Regs) h { r with ah := ah, cf := false }
      { h with hdStatus := ah } := Runs.bind (a := ()) (runs_modify.mpr rfl) (runs_pure.mpr ⟨rfl, rfl⟩)
  obtain ⟨-, rfl⟩ := hrun.det hr
  exact refl_of R h.bus

/-- A driver that keeps `R`. -/
def DriverKeeps (R : W → W → Prop) (drv : Driver W) : Prop :=
  ∀ al seg off lba n, Keeps (OnBus R) (drv al seg off lba n)

/-- Every entry of a driver table keeps `R`. -/
theorem driverKeeps_slot (hR : Framed R) {fuel : Nat} {tab : List (Option (Driver W))}
    (htab : tab = readTab fuel ∨ tab = writeTab fuel) {bx : Nat} {drv : Driver W}
    (hdrv : slot tab bx = some drv) : DriverKeeps R drv := by
  intro al seg off lba n
  rcases htab with rfl | rfl
  · match bx, hdrv with
    | 2, hdrv => cases hdrv; exact hR.ideReadSector fuel al seg off lba n
  · match bx, hdrv with
    | 2, hdrv => cases hdrv; exact hR.ideWriteSector fuel al seg off lba n

omit [IdeBus W] in
theorem keeps_rwvLoop {drv : Driver W} (hdrv : DriverKeeps R drv) (unit : Byte) (verify : Bool) :
    ∀ n lba seg off, Keeps (OnBus R) (rwvLoop drv unit verify n lba seg off)
  | 0, _, _, _ => keeps_pure
  | n + 1, lba, seg, off => (hdrv unit seg off lba 1).bind fun _ =>
      keeps_ite keeps_pure (keeps_rwvLoop hdrv unit verify n _ _ _)

theorem keeps_rwvCommon (hR : Framed R) {fuel : Nat} {tab : List (Option (Driver W))}
    (htab : tab = readTab fuel ∨ tab = writeTab fuel) (a : DiskArea) (r : Regs) :
    Keeps (OnBus R) (rwvCommon tab a r) := by
  unfold rwvCommon
  split
  · exact keeps_errorReturn _ _
  split
  · exact keeps_errorReturn _ _
  next drv hdrv =>
    split
    · exact keeps_errorReturn _ _
    · exact (keeps_rwvLoop (driverKeeps_slot hR htab hdrv) _ _ _ _ _ _).bind fun _ =>
        keeps_ite (keeps_errorReturn _ _) (keeps_goodReturn _)

theorem keeps_packetTransfer (hR : Framed R) {fuel : Nat} {tab : List (Option (Driver W))}
    (htab : tab = readTab fuel ∨ tab = writeTab fuel) (a : DiskArea) (r : Regs) (p : Packet) :
    Keeps (OnBus R) (packetTransfer tab a r p) := by
  have hbad : Keeps (OnBus R) (do return (← retInvalidCommand r, p) : IdeM W (Regs × Packet)) :=
    (keeps_errorReturn _ _).bind fun _ => keeps_pure
  unfold packetTransfer
  split
  · exact hbad
  refine keeps_ite hbad ?_
  split
  · exact hbad
  next drv hdrv =>
    exact (driverKeeps_slot hR htab hdrv _ _ _ _ _).bind fun _ =>
      keeps_ite ((keeps_goodReturn _).bind fun _ => keeps_pure)
        ((keeps_errorReturn _ _).bind fun _ => keeps_pure)

theorem keeps_fn44 (hR : Framed R) (fuel : Nat) (a : DiskArea) (r : Regs) (p : Packet) :
    Keeps (OnBus R) (fn44VerifySector fuel a r p : IdeM W (Regs × Packet)) := by
  have hbad : Keeps (OnBus R) (do return (← retInvalidCommand r, p) : IdeM W (Regs × Packet)) :=
    (keeps_errorReturn _ _).bind fun _ => keeps_pure
  unfold fn44VerifySector
  split
  · exact hbad
  refine keeps_ite hbad ?_
  split
  · exact hbad
  next drv hdrv =>
    exact (keeps_rwvLoop (driverKeeps_slot hR (Or.inl rfl) hdrv) _ _ _ _ _ _).bind fun _ =>
      keeps_ite ((keeps_goodReturn _).bind fun _ => keeps_pure)
        ((keeps_errorReturn _ _).bind fun _ => keeps_pure)

omit [IdeBus W] in
/-- The functions that only look things up. -/
theorem keeps_lookups (a : DiskArea) (r : Regs) (p : Packet) (q : ParamPacket) :
    Keeps (OnBus R) (fn01GetStatus r : IdeM W Regs) ∧
    Keeps (OnBus R) (fn08GetDriveParameters a r : IdeM W Regs) ∧
    Keeps (OnBus R) (fn15GetDiskType a r : IdeM W Regs) ∧
    Keeps (OnBus R) (fn41CheckExtensionsPresent a r : IdeM W Regs) ∧
    Keeps (OnBus R) (fn47ExtendedSeek a r p : IdeM W Regs) ∧
    Keeps (OnBus R) (fn48GetDriveParameters a r q : IdeM W (Regs × ParamPacket)) := by
  refine ⟨keeps_get.bind fun _ => keeps_pure, ?_, ?_, ?_, ?_, ?_⟩
  · unfold fn08GetDriveParameters
    split
    · exact keeps_errorReturn _ _
    · exact keeps_ite (keeps_errorReturn _ _) (keeps_goodReturn _)
  · unfold fn15GetDiskType
    split
    · exact keeps_errorReturn _ _
    · exact keeps_goodReturnAH _ _
  · unfold fn41CheckExtensionsPresent
    split
    · exact keeps_errorReturn _ _
    · exact keeps_ite (keeps_errorReturn _ _)
        (keeps_ite (keeps_errorReturn _ _) (keeps_goodReturnAH _ _))
  · unfold fn47ExtendedSeek
    split
    · exact keeps_errorReturn _ _
    · exact keeps_ite (keeps_errorReturn _ _)
        (keeps_ite (keeps_errorReturn _ _) (keeps_goodReturn _))
  · unfold fn48GetDriveParameters
    split
    · exact (keeps_errorReturn _ _).bind fun _ => keeps_pure
    · exact keeps_ite ((keeps_errorReturn _ _).bind fun _ => keeps_pure)
        (keeps_ite ((keeps_goodReturn _).bind fun _ => keeps_pure)
          ((keeps_goodReturn _).bind fun _ => keeps_pure))

/-- **Every function but 00h touches the bus only through the transfer routines.** -/
theorem int13h_keeps (hR : Framed R) (fuel : Nat) (a : DiskArea) (c : Call) (hah : c.regs.ah ≠ 0) :
    Keeps (OnBus R) (int13h fuel a c : IdeM W Call) := by
  obtain ⟨h01, h08, h15, h41, h47, h48⟩ := keeps_lookups (R := R) a c.regs c.packet c.param
  have hread : Keeps (OnBus R) (rwvCommon (readTab fuel) a c.regs) :=
    keeps_rwvCommon hR (Or.inl rfl) a c.regs
  have hwrite : Keeps (OnBus R) (rwvCommon (writeTab fuel) a c.regs) :=
    keeps_rwvCommon hR (Or.inr rfl) a c.regs
  unfold int13h
  simp only
  split
  · next hz => exact absurd (BitVec.eq_of_toNat_eq hz) hah
  · exact h01.bind fun _ => keeps_pure
  · exact hread.bind fun _ => keeps_pure
  · exact hwrite.bind fun _ => keeps_pure
  · exact hread.bind fun _ => keeps_pure
  · exact h08.bind fun _ => keeps_pure
  · exact h15.bind fun _ => keeps_pure
  · exact h41.bind fun _ => keeps_pure
  · exact (keeps_packetTransfer hR (Or.inl rfl) a _ _).bind fun _ => keeps_pure
  · exact (keeps_packetTransfer hR (Or.inr rfl) a _ _).bind fun _ => keeps_pure
  · exact (keeps_fn44 hR fuel a _ _).bind fun _ => keeps_pure
  · exact h47.bind fun _ => keeps_pure
  · exact h48.bind fun _ => keeps_pure
  · exact (keeps_errorReturn _ _).bind fun _ => keeps_pure

end Frames

end Sbc386Ex.Int13

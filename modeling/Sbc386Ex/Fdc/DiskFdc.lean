import Sbc386Ex.Fdc.Handshake

/-!
# Sbc386Ex.Fdc.DiskFdc

The BIOS floppy driver, `diskfdc.c`.

Its variables are the floppy fields of the BIOS data area. `sought` is a ghost: each
`fd_seek` that returned `NO_ERROR`, with the cylinder the head was on then. A loop on
`timer_count_low` is a `Prog.loop`, its fuel the rounds it may take.
-/

namespace Sbc386Ex.Fdc.DiskFdc

open Prog

def L_TC : Byte := 0x01
def L_MOTOR : Byte := 0x02
def L_MINI : Byte := 0x04
def L_NRESET : Byte := 0x80

def FD_TIMEOUT : Word := 36
def FD_SPINUP : Word := 10
def FD_MOTOR_TIME : Byte := 37

/-- The configured drive types of `nvram.h`. -/
inductive FdType
  | FD_NONE
  | FD_360
  | FD_1200
  | FD_720
  | FD_1440
  deriving Repr, DecidableEq

/-- A seek reported good: what was asked for and where the head was. -/
structure Sought where
  drive : Fin 4
  cyl : Word
  head : Byte
  deriving DecidableEq

/-- The floppy fields of the BIOS data area. -/
structure Bda where
  motorStatus : Byte
  motorCount : Byte
  seekStatus : Byte
  fdStatus : Byte
  fdCtrlStat : Fin 7 → Byte
  sought : List Sought

abbrev BiosM := FdcM Bda

/-! ### The latch and its shadow -/

def fdLatch (val : Byte) : BiosM Unit := do
  setVars fun b => { b with motorStatus := val }
  outLatch val

def fdLatchBits (clear set : Byte) : BiosM Unit := do
  let b ← getVars
  fdLatch ((b.motorStatus &&& ~~~clear) ||| set)

/-! ### Command and result bytes -/

def fdWaitRound (want : Byte) (t0 : Word) : BiosM (Option Bool) := do
  let msr ← inMsr
  if msr &&& 0xE0 = want then pure (some true)
  else do
    let t ← readClock
    if t - t0 < FD_TIMEOUT then pure none
    else do
      letGo
      pure (some false)

/-- Wait for the controller to want or offer a byte; `true` is the source's 0. -/
def fdWait (fuel : Nat) (want : Byte) : BiosM Bool := do
  let t0 ← readClock
  loop .outOfFuel (fdWaitRound want t0) fuel

def fdOut (fuel : Nat) (val : Byte) : BiosM Bool := outWith (fdWait fuel) val

def fdIn (fuel : Nat) : BiosM (Option Byte) := inWith (fdWait fuel)

def fdSense (fuel : Nat) : BiosM (Option (Byte × Byte)) := senseWith (fdWait fuel)

/-- Calls of `fd_out` joined by `||`. -/
def fdOuts (fuel : Nat) (vals : List Byte) : BiosM Bool := sendWith (fdWait fuel) vals

/-- `(byte)drive` -/
def driveByte (drive : Fin 4) : Byte := BitVec.ofFin (drive.castLE unit_le)

def fdSeekDoneRound (fuel : Nat) (drive : Fin 4) (t0 : Word) :
    BiosM (Option (Option (Byte × Byte))) := do
  match ← fdSense fuel with
  | none => pure (some none)
  | some (st0, pcn) => do
      if st0 ≠ 0x80 ∧ st0 &&& 0x03 = driveByte drive then pure (some (some (st0, pcn)))
      else do
        let t ← readClock
        if t - t0 < FD_TIMEOUT then pure none else pure (some none)

/-- Ask until the answer is for `drive`; `none` is the source's -1. -/
def fdSeekDone (fuel : Nat) (drive : Fin 4) : BiosM (Option (Byte × Byte)) := do
  let t0 ← readClock
  loop .outOfFuel (fdSeekDoneRound fuel drive t0) fuel

def fdSpecify (fuel : Nat) : BiosM Bool := specifyWith (fdWait fuel)

/-! ### Reset -/

/-- The status register, read and thrown away. -/
def fdDelay : Nat → BiosM Unit
  | 0 => pure ()
  | n + 1 => do
      let _ ← inMsr
      fdDelay n

def fdResetRound (t0 : Word) : BiosM (Option Bool) := do
  let msr ← inMsr
  if msr = 0x80 then pure (some true)
  else do
    let t ← readClock
    if t - t0 < FD_TIMEOUT then pure none else pure (some false)

/-- The four interrupts a reset leaves. -/
def fdCollect (fuel : Nat) : Nat → BiosM Bool
  | 0 => pure true
  | n + 1 => do
      match ← fdSense fuel with
      | none => pure false
      | some _ => fdCollect fuel n

def fdFail (rc : Byte) : BiosM Byte := do
  setVars fun b => { b with fdStatus := rc }
  pure rc

def fdReset (fuel : Nat) : BiosM Byte := do
  fdLatchBits L_NRESET 0
  fdDelay 200
  fdLatchBits 0 L_NRESET
  let t0 ← readClock
  if !(← loop .outOfFuel (fdResetRound t0) fuel) then fdFail CONTROLLER_FAILED
  else if !(← fdCollect fuel 4) then fdFail CONTROLLER_FAILED
  else if !(← fdSpecify fuel) then fdFail CONTROLLER_FAILED
  else do
    setVars fun b =>
      { b with seekStatus := (b.seekStatus &&& 0x30) ||| 0x0F, fdStatus := NO_ERROR }
    pure NO_ERROR

/-! ### Motor and data rate -/

def fdRate : FdType → Byte
  | .FD_1440 | .FD_1200 => 0
  | _ => L_MINI

def FD_ALTRATE (d : Fin 4) : Byte := 0x10 <<< d.val

/-- `1 << drive`, the drive's bit of `seek_status`. -/
def FD_RECAL (drive : Fin 4) : Byte := 1 <<< drive.val

def fdSpinupRound (t0 : Word) : BiosM (Option Unit) := do
  let t ← readClock
  if t - t0 < FD_SPINUP then pure none else pure (some ())

def fdMotorOn (fuel : Nat) (drive : Fin 4) (fdtype : FdType) : BiosM Unit := do
  let b ← getVars
  let rate := if b.seekStatus &&& FD_ALTRATE drive ≠ 0 then fdRate fdtype ^^^ L_MINI
    else fdRate fdtype
  let want := L_NRESET ||| L_MOTOR ||| rate
  if b.motorStatus &&& (L_MOTOR ||| L_MINI ||| L_NRESET) ≠ want then do
    fdLatch want
    setVars fun b => { b with motorCount := FD_MOTOR_TIME }
    let t0 ← readClock
    loop .outOfFuel (fdSpinupRound t0) fuel
  setVars fun b => { b with motorCount := FD_MOTOR_TIME }

/-! ### Seek -/

def fdNoteSeek (st0 pcn : Byte) : BiosM Unit :=
  setVars fun b =>
    { b with fdCtrlStat := Function.update (Function.update (fun _ => 0) 0 st0) 3 pcn }

/-- The RECALIBRATE loop: `tries` attempts left, and what the last one answered. -/
def fdRecal (fuel : Nat) (drive : Fin 4) (st0 pcn : Byte) : Nat → BiosM (Option (Byte × Byte))
  | 0 => pure (some (st0, pcn))
  | tries + 1 => do
      if !(← fdOuts fuel [0x07, driveByte drive]) then
        fdNoteSeek 0 0
        pure none
      else
        match ← fdSeekDone fuel drive with
        | none => do
            fdNoteSeek 0 0
            pure none
        | some (st0, pcn) =>
            if st0 &&& 0xC0 = 0 ∧ pcn = 0 then pure (some (st0, pcn))
            else fdRecal fuel drive st0 pcn tries

/-- The seek proper, past the RECALIBRATE. -/
def fdSeekTo (fuel : Nat) (drive : Fin 4) (head cyl : Word) : BiosM Byte := do
  if cyl = 0 then pure NO_ERROR
  else if !(← fdOuts fuel [0x0F, (head <<< 2).setWidth 8 ||| driveByte drive, cyl.setWidth 8]) then
    pure TIME_OUT
  else
    match ← fdSeekDone fuel drive with
    | none => do
        fdNoteSeek 0 0
        pure TIME_OUT
    | some (st0, pcn) => do
        if st0 &&& 0xC0 ≠ 0 ∨ pcn ≠ cyl.setWidth 8 then
          fdNoteSeek st0 pcn
          setVars fun b => { b with seekStatus := b.seekStatus ||| FD_RECAL drive }
          pure BAD_SEEK
        else pure NO_ERROR

/-- `fd_seek` as the source has it. -/
def fdSeekBody (fuel : Nat) (drive : Fin 4) (head cyl : Word) : BiosM Byte := do
  let b ← getVars
  if b.seekStatus &&& FD_RECAL drive ≠ 0 then
    match ← fdRecal fuel drive 0 0 2 with
    | none => pure TIME_OUT
    | some (st0, pcn) => do
        if st0 &&& 0xC0 ≠ 0 ∨ pcn ≠ 0 then
          fdNoteSeek st0 pcn
          pure BAD_SEEK
        else
          setVars fun b => { b with seekStatus := b.seekStatus &&& ~~~(FD_RECAL drive) }
          fdSeekTo fuel drive head cyl
  else fdSeekTo fuel drive head cyl

/-- The ghost of a seek that returned `rc`. -/
def noteSought (drive : Fin 4) (cyl : Word) (rc : Byte) : BiosM Unit :=
  modify fun h =>
    if rc = NO_ERROR then
      { h with vars.sought := h.vars.sought ++ [⟨drive, cyl, (h.card.drive drive).head⟩] }
    else h

/-- `fd_seek` -/
def fdSeek (fuel : Nat) (drive : Fin 4) (head cyl : Word) : BiosM Byte := do
  let rc ← fdSeekBody fuel drive head cyl
  noteSought drive cyl rc
  pure rc

/-! ### One sector, one track -/

/-- What the seven result bytes say; the most telling bit first. -/
def fdResultCode (s : Fin 7 → Byte) : Byte :=
  if s 0 &&& 0xC0 = 0 then NO_ERROR
  else if s 1 = 0x80 ∧ s 2 = 0 then NO_ERROR
  else if s 1 &&& 0x02 ≠ 0 then WRITE_PROTECTED
  else if s 1 &&& 0x10 ≠ 0 then DMA_OVERRUN
  else if s 1 &&& 0x20 ≠ 0 then BAD_CRC
  else if s 1 &&& 0x04 ≠ 0 then SECTOR_NOT_FOUND
  else if s 1 &&& 0x01 ≠ 0 then ADDRESS_MARK_NOT_FOUND
  else if s 0 &&& 0x08 ≠ 0 then DRIVE_NOT_READY
  else BAD_SEEK

def fdStoreResult (i : Fin 7) (v : Byte) (b : Bda) : Bda :=
  { b with fdCtrlStat := Function.update b.fdCtrlStat i v }

def fdResult (fuel : Nat) : BiosM Byte := do
  if ← resultWith (fdWait fuel) fdStoreResult (List.finRange 7) then
    let b ← getVars
    pure (fdResultCode b.fdCtrlStat)
  else pure TIME_OUT

/-- The pulse of TC that ends a data phase. -/
def fdPulseTc : BiosM Unit := do
  fdLatchBits 0 L_TC
  fdLatchBits L_TC 0

/-- The drive goes back in the "needs recalibrating" set. -/
def fdLost (drive : Fin 4) : BiosM Unit :=
  setVars fun b => { b with seekStatus := b.seekStatus ||| FD_RECAL drive }

/-- The byte at `i` of the buffer at `es:bx`. -/
def bufAddr (es bx : Word) (i : Nat) : Nat := linear es (bx + BitVec.ofNat 16 i)

def fdcPioIn (es bx : Word) (count : Nat) : BiosM Pio := pio 0xE0 (bufAddr es bx) count
def fdcPioOut (es bx : Word) (count : Nat) : BiosM Pio := pio 0xA0 (bufAddr es bx) count

def fdRwData (write : Bool) (es bx : Word) : BiosM Pio :=
  if write then fdcPioOut es bx 512 else fdcPioIn es bx 512

/-- What `fd_rw` makes of the result phase: a sector that was not found may want the other
rate, and any failure another recalibrate. -/
def fdRwEnd (drive : Fin 4) (rc : Byte) : BiosM Byte := do
  let b ← getVars
  if rc = ADDRESS_MARK_NOT_FOUND ∨ rc = SECTOR_NOT_FOUND ∧ b.fdCtrlStat 2 = 0 then
    setVars fun b => { b with seekStatus := b.seekStatus ^^^ FD_ALTRATE drive }
  if rc ≠ NO_ERROR then
    fdLost drive
  fdFail rc

def fdRw (fuel : Nat) (write : Bool) (drive : Fin 4) (fdtype : FdType) (cyl head sec : Word)
    (es bx : Word) : BiosM Byte := do
  if fdtype = .FD_NONE then fdFail TIME_OUT
  else do
    fdMotorOn fuel drive fdtype
    let rc ← fdSeek fuel drive head cyl
    if rc ≠ NO_ERROR then fdFail rc
    else if !(← fdSpecify fuel) then fdFail TIME_OUT
    else if !(← fdOuts fuel [if write then 0x45 else 0x46,
        (head <<< 2).setWidth 8 ||| driveByte drive, cyl.setWidth 8, head.setWidth 8,
        sec.setWidth 8, 0x02, sec.setWidth 8, 0x1B, 0xFF]) then fdFail TIME_OUT
    else do
      let rc ← fdRwData write es bx
      fdPulseTc
      if rc = .dead then
        fdLost drive
        let _ ← fdResult fuel
        fdFail TIME_OUT
      else do
        let rc ← fdResult fuel
        fdRwEnd drive rc

/-- The rate bit follows the format being written. -/
def fdFormatRate (drive : Fin 4) (fdtype : FdType) (nsec : Word) (b : Bda) : Bda :=
  if fdRate fdtype = (if 15 ≤ nsec.toInt then 0 else L_MINI) then
    { b with seekStatus := b.seekStatus &&& ~~~(FD_ALTRATE drive) }
  else { b with seekStatus := b.seekStatus ||| FD_ALTRATE drive }

def fdFormat (fuel : Nat) (drive : Fin 4) (fdtype : FdType) (cyl head nsec gpl fill : Word)
    (es bx : Word) : BiosM Byte := do
  if fdtype = .FD_NONE then fdFail TIME_OUT
  else if nsec.toInt < 1 ∨ 36 < nsec.toInt then fdFail INVALID_COMMAND
  else do
    setVars (fdFormatRate drive fdtype nsec)
    fdMotorOn fuel drive fdtype
    let rc ← fdSeek fuel drive head cyl
    if rc ≠ NO_ERROR then fdFail rc
    else if !(← fdSpecify fuel) then fdFail TIME_OUT
    else if !(← fdOuts fuel [0x4D, (head <<< 2).setWidth 8 ||| driveByte drive, 0x02,
        nsec.setWidth 8, gpl.setWidth 8, fill.setWidth 8]) then fdFail TIME_OUT
    else do
      let rc ← fdcPioOut es bx (nsec * 4).toNat
      fdPulseTc
      if rc = .dead then
        fdLost drive
        let _ ← fdResult fuel
        fdFail TIME_OUT
      else do
        let rc ← fdResult fuel
        if rc ≠ NO_ERROR then
          fdLost drive
        fdFail rc

end Sbc386Ex.Fdc.DiskFdc

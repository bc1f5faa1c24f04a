import Sbc386Ex.Fdc.Handshake

/-!
# Sbc386Ex.Fdc.SbcFd

COHERENT's floppy driver, `sbcfd.c`, with the kernel's `busyWait` it waits by (`misc.c`).

The driver's statics are `Statics`; `pitCount` and `hz`, which the kernel is built with,
stand beside them. A block number is a `Nat`: `b_bno` is an offset in the device. What the
driver prints on the console is left out.
-/

namespace Sbc386Ex.Fdc.SbcFd

open Prog

def L_TC : Byte := 0x01
def L_MOTOR : Byte := 0x02
def L_MINI : Byte := 0x04
def L_NRESET : Byte := 0x80

def FD_NDRV : Nat := 2
def FD_SECSIZE : Nat := 512
def FD_TRIES : Nat := 8
def FD_MOTOR_SECS : Int := 3

/-- `funit`, `fkind` and `fnormal` of a minor device number. -/
def funit (minor : Byte) : Nat := (minor.toNat / 16) % 4
def fkind (minor : Byte) : Fin 8 := Fin.ofNat 8 minor.toNat
def fnormal (minor : Byte) : Bool := minor &&& 8 ≠ 0

/-- `struct fkind` -/
structure Fkind where
  size : Nat
  nhds : Nat
  ncyl : Nat
  nspt : Nat
  gpl : Byte
  mini : Bool
  deriving DecidableEq

/-- The formats, by minor kind. -/
def fk : Fin 8 → Fkind
  | 0 => ⟨320, 1, 40, 8, 0x20, true⟩
  | 1 => ⟨640, 2, 40, 8, 0x20, true⟩
  | 2 => ⟨1280, 2, 80, 8, 0x20, true⟩
  | 3 => ⟨360, 1, 40, 9, 0x20, true⟩
  | 4 => ⟨720, 2, 40, 9, 0x20, true⟩
  | 5 => ⟨1440, 2, 80, 9, 0x20, true⟩
  | 6 => ⟨2400, 2, 80, 15, 0x1B, false⟩
  | 7 => ⟨2880, 2, 80, 18, 0x1B, false⟩

/-- The gap a format of each kind leaves. -/
def fmtgap : Fin 8 → Byte
  | 6 => 0x54
  | 7 => 0x6C
  | _ => 0x50

structure Statics where
  fdpresent : Bool
  latch : Byte
  needrecal : Fin 2 → Bool
  motorsecs : Int
  fdres : Fin 7 → Byte
  /-- `drvl [FL_MAJOR].d_time` -/
  d_time : Nat
  pitCount : Nat
  hz : Nat

abbrev SbcM := FdcM Statics

/-! ### The kernel's waits -/

/-- The half of the timer's cycle the counter is in. -/
def timerHalf : SbcM Bool := do
  let v ← getVars
  let t0 ← readClock
  pure (decide (v.pitCount / 2 ≤ t0.toNat))

/-- The loop of `busyWait`: two changes of half make a tick. -/
def busyWaitLoop (fn : SbcM Bool) (ticks : Nat) : Nat → Bool → Nat → Nat → SbcM Bool
  | 0, _, _, _ => throw .outOfFuel
  | fuel + 1, p0, flips, tickCt => do
      if ← fn then pure true
      else do
        let p1 ← timerHalf
        if p0 = p1 then busyWaitLoop fn ticks fuel p0 flips tickCt
        else if flips + 1 < 2 then busyWaitLoop fn ticks fuel p1 (flips + 1) tickCt
        else if ticks < tickCt + 1 then pure false
        else busyWaitLoop fn ticks fuel p1 0 (tickCt + 1)

/-- Wait up to `ticks` clock ticks for `fn`; `true` when it happened. -/
def busyWait (fuel : Nat) (fn : SbcM Bool) (ticks : Nat) : SbcM Bool := do
  let p0 ← timerHalf
  busyWaitLoop fn ticks fuel p0 0 0

def busyWait2Loop (fn : SbcM Bool) (counts : Nat) : Nat → Word → Nat → SbcM Bool
  | 0, _, _ => throw .outOfFuel
  | fuel + 1, ct0, totCt => do
      if ← fn then pure true
      else do
        let v ← getVars
        let ct1 ← readClock
        let totCt := totCt +
          if ct0 < ct1 then ct1.toNat - ct0.toNat else ct1.toNat + v.pitCount - ct0.toNat
        if counts < totCt then pure false else busyWait2Loop fn counts fuel ct1 totCt

/-- The same in counts of the timer. -/
def busyWait2 (fuel : Nat) (fn : SbcM Bool) (counts : Nat) : SbcM Bool := do
  let ct0 ← readClock
  busyWait2Loop fn counts fuel ct0 0

/-- `fn` of a delay that nothing ends early. -/
def never : SbcM Bool := pure false

/-! ### The latch, command and result bytes -/

def fdlatch (v : Byte) : SbcM Unit := do
  setVars fun s => { s with latch := v }
  outLatch v

/-- `fdlatch` of the shadow with bits cleared and set. -/
def fdlatchBits (clear set : Byte) : SbcM Unit := do
  let s ← getVars
  fdlatch ((s.latch &&& ~~~clear) ||| set)

/-- `fdmsr_is`, of the `fdwant` it is given. -/
def fdmsrIs (fdwant : Byte) : SbcM Bool := do
  let msr ← inMsr
  pure (decide (msr &&& 0xE0 = fdwant))

def fdwait (fuel : Nat) (want : Byte) : SbcM Bool := do
  let s ← getVars
  if ← busyWait fuel (fdmsrIs want) (2 * s.hz) then pure true
  else do
    letGo
    pure false

def fdout (fuel : Nat) (v : Byte) : SbcM Bool := outWith (fdwait fuel) v
def fdin (fuel : Nat) : SbcM (Option Byte) := inWith (fdwait fuel)
def fdsense (fuel : Nat) : SbcM (Option (Byte × Byte)) := senseWith (fdwait fuel)
/-- Calls of `fdout` joined by `||`. -/
def fdouts (fuel : Nat) (vs : List Byte) : SbcM Bool := sendWith (fdwait fuel) vs
def fdspecify (fuel : Nat) : SbcM Bool := specifyWith (fdwait fuel)

/-- The unit a driver's drive number is. -/
def unit (drive : Fin 2) : Fin 4 := drive.castLE (by decide)

def driveByte (drive : Fin 2) : Byte := BitVec.ofFin (drive.castLE (by decide))

/-- The loop of `fdseekdone`, `n` rounds left; `none` is the source's -1. -/
def fdseekdoneLoop (fuel : Nat) (drive : Fin 2) : Nat → SbcM (Option (Byte × Byte))
  | 0 => pure none
  | n + 1 => do
      match ← fdsense fuel with
      | none => pure none
      | some (st0, pcn) => do
          if st0 ≠ 0x80 ∧ st0 &&& 3 = driveByte drive then pure (some (st0, pcn))
          else do
            let _ ← busyWait fuel never 1
            fdseekdoneLoop fuel drive n

def fdseekdone (fuel : Nat) (drive : Fin 2) : SbcM (Option (Byte × Byte)) :=
  fdseekdoneLoop fuel drive 300

/-- The four interrupts a reset leaves. -/
def fdcollect (fuel : Nat) : Nat → SbcM Bool
  | 0 => pure true
  | n + 1 => do
      match ← fdsense fuel with
      | none => pure false
      | some _ => fdcollect fuel n

/-- `true` is the source's 0. -/
def fdreset (fuel : Nat) : SbcM Bool := do
  fdlatchBits L_NRESET 0
  let _ ← busyWait2 fuel never 20
  fdlatchBits 0 L_NRESET
  let s ← getVars
  if !(← busyWait fuel (fdmsrIs 0x80) (2 * s.hz)) then pure false
  else if !(← fdcollect fuel 4) then pure false
  else if !(← fdspecify fuel) then pure false
  else do
    setVars fun s => { s with needrecal := fun _ => true }
    pure true

/-! ### Motor and seek -/

/-- The latch as `fdmotor` wants it. -/
def fdmotorLatch (fuel : Nat) (want : Byte) : SbcM Unit := do
  let s ← getVars
  if s.latch &&& (L_NRESET ||| L_MOTOR ||| L_MINI) = want then pure ()
  else do
    fdlatch ((s.latch &&& ~~~(L_MOTOR ||| L_MINI)) ||| want)
    if s.latch &&& L_MOTOR = 0 then
      let _ ← busyWait fuel never (s.hz / 2)
      pure ()
    else pure ()

def fdmotor (fuel : Nat) (kind : Fin 8) : SbcM Unit := do
  fdmotorLatch fuel (L_NRESET ||| L_MOTOR ||| if (fk kind).mini then L_MINI else 0)
  setVars fun s => { s with motorsecs := FD_MOTOR_SECS, d_time := 1 }

/-- The RECALIBRATE loop: `tries` attempts left, and what the last one answered. -/
def fdrecal (fuel : Nat) (drive : Fin 2) (st0 pcn : Byte) : Nat → SbcM (Option (Byte × Byte))
  | 0 => pure (some (st0, pcn))
  | tries + 1 => do
      if !(← fdouts fuel [0x07, driveByte drive]) then pure none
      else
        match ← fdseekdone fuel drive with
        | none => pure none
        | some (st0, pcn) =>
            if st0 &&& 0xC0 = 0 ∧ pcn = 0 then pure (some (st0, pcn))
            else fdrecal fuel drive st0 pcn tries

/-- The low byte of an `int`, as `fdout` sends it. -/
def lowByte (v : Nat) : Byte := BitVec.ofNat 8 v

def setRecal (drive : Fin 2) (r : Bool) : SbcM Unit :=
  setVars fun s => { s with needrecal := Function.update s.needrecal drive r }

/-- `(head << 2) | drive`, sent. -/
def headDrive (head : Nat) (drive : Fin 2) : Byte := (lowByte head <<< 2) ||| driveByte drive

/-- The seek proper, past the RECALIBRATE. -/
def fdseekTo (fuel : Nat) (drive : Fin 2) (head cyl : Nat) : SbcM Bool := do
  if cyl = 0 then pure true
  else if !(← fdouts fuel [0x0F, headDrive head drive, lowByte cyl]) then pure false
  else
    match ← fdseekdone fuel drive with
    | none => pure false
    | some (st0, pcn) => do
        if st0 &&& 0xC0 ≠ 0 ∨ pcn.toNat ≠ cyl then
          setRecal drive true
          pure false
        else pure true

def fdseek (fuel : Nat) (drive : Fin 2) (head cyl : Nat) : SbcM Bool := do
  let s ← getVars
  if s.needrecal drive then
    match ← fdrecal fuel drive 0 0 2 with
    | none => pure false
    | some (st0, pcn) => do
        if st0 &&& 0xC0 ≠ 0 ∨ pcn ≠ 0 then pure false
        else
          setRecal drive false
          fdseekTo fuel drive head cyl
  else fdseekTo fuel drive head cyl

/-! ### One sector, one track -/

def fdstoreResult (i : Fin 7) (v : Byte) (s : Statics) : Statics :=
  { s with fdres := Function.update s.fdres i v }

/-- Whether the seven result bytes are those of a good transfer. -/
def fdresultGood (r : Fin 7 → Byte) : Bool :=
  r 0 &&& 0xC0 = 0 ∨ r 1 = 0x80 ∧ r 2 = 0

def fdresult (fuel : Nat) : SbcM Bool := do
  if ← resultWith (fdwait fuel) fdstoreResult (List.finRange 7) then
    let s ← getVars
    pure (fdresultGood s.fdres)
  else pure false

/-- No stale result. -/
def fdresClear : SbcM Unit :=
  setVars fun s =>
    { s with fdres := Function.update (Function.update (Function.update s.fdres 0 0) 1 0) 2 0 }

/-- `fdpio`: the data phase of `n` bytes at `buf`. -/
def fdpio (write : Bool) (buf n : Nat) : SbcM Pio := pio (if write then 0xA0 else 0xE0) (buf + ·) n

/-- What follows a data phase: TC, the result phase, and the drive lost if either failed. -/
def fdfinish (fuel : Nat) (drive : Fin 2) (rc : Pio) : SbcM Bool := do
  fdlatchBits 0 L_TC
  fdlatchBits L_TC 0
  if !(← fdresult fuel) then
    setRecal drive true
    pure false
  else if rc ≠ .all then
    setRecal drive true
    pure false
  else pure true

/-- Where a block of a format lies. -/
def cylOf (kind : Fin 8) (bno : Nat) : Nat := bno / ((fk kind).nspt * (fk kind).nhds)
def headOf (kind : Fin 8) (bno : Nat) : Nat := bno / (fk kind).nspt % (fk kind).nhds
def secOf (kind : Fin 8) (bno : Nat) : Nat := bno % (fk kind).nspt + 1

/-- The READ or WRITE of one sector. -/
def sectorBytes (write : Bool) (drive : Fin 2) (kind : Fin 8) (bno : Nat) : List Byte :=
  [if write then 0x45 else 0x46, headDrive (headOf kind bno) drive, lowByte (cylOf kind bno),
    lowByte (headOf kind bno), lowByte (secOf kind bno), 2, lowByte (secOf kind bno),
    (fk kind).gpl, 0xFF]

/-- `true` is the source's 0. -/
def fdsector (fuel : Nat) (write : Bool) (drive : Fin 2) (kind : Fin 8) (bno : Nat) (buf : Nat) :
    SbcM Bool := do
  fdresClear
  fdmotor fuel kind
  if !(← fdseek fuel drive (headOf kind bno) (cylOf kind bno)) then pure false
  else if !(← fdspecify fuel) then pure false
  else if !(← fdouts fuel (sectorBytes write drive kind bno)) then pure false
  else do
    let rc ← fdpio write buf FD_SECSIZE
    fdfinish fuel drive rc

/-- The FORMAT of one track. -/
def trackBytes (drive : Fin 2) (kind : Fin 8) (head : Nat) : List Byte :=
  [0x4D, headDrive head drive, 2, BitVec.ofNat 8 (fk kind).nspt, fmtgap kind, 0xF6]

def fdfmttrack (fuel : Nat) (drive : Fin 2) (kind : Fin 8) (cyl head : Nat) (chrn : Nat) :
    SbcM Bool := do
  fdresClear
  fdmotor fuel kind
  if !(← fdseek fuel drive head cyl) then pure false
  else if !(← fdspecify fuel) then pure false
  else do
    let _ ← busyWait fuel never 2
    if !(← fdouts fuel (trackBytes drive kind head)) then pure false
    else do
      let rc ← fdpio true chrn (4 * (fk kind).nspt)
      fdfinish fuel drive rc

/-! ### The device entry points -/

def fdload (fuel : Nat) : SbcM Unit := do
  setVars fun s => { s with latch := 0 }
  fdlatch 0
  let ok ← fdreset fuel
  setVars fun s => { s with fdpresent := ok }

def fdunload : SbcM Unit := fdlatch 0

/-- `b_req` -/
inductive Req
  | BREAD
  | BWRITE
  deriving DecidableEq

/-- A buffer as `fdblock` is given it. -/
structure Buf where
  minor : Byte
  req : Req
  bno : Nat
  count : Nat
  paddr : Nat

/-- How the attempts at one sector ended. -/
inductive Tried
  | done
  | writeProtected
  | gaveUp
  deriving DecidableEq

/-- The attempts at one sector, from attempt `FD_TRIES - n` on. -/
def fdtry (fuel : Nat) (write : Bool) (drive : Fin 2) (kind : Fin 8) (bno : Nat) (addr : Nat) :
    Nat → SbcM Tried
  | 0 => pure .gaveUp
  | n + 1 => do
      if ← fdsector fuel write drive kind bno addr then pure .done
      else do
        let s ← getVars
        if s.fdres 1 &&& 0x02 ≠ 0 then pure .writeProtected
        else if FD_TRIES - (n + 1) = FD_TRIES / 2 then
          let _ ← fdreset fuel
          fdtry fuel write drive kind bno addr n
        else fdtry fuel write drive kind bno addr n

/-- The sectors of a request, `n` of them left; the result says whether all were done, and
how many were. -/
def fdsectors (fuel : Nat) (write : Bool) (drive : Fin 2) (kind : Fin 8) :
    Nat → Nat → Nat → SbcM (Bool × Nat)
  | 0, _, _ => pure (true, 0)
  | n + 1, bno, addr => do
      match ← fdtry fuel write drive kind bno addr FD_TRIES with
      | .done => do
          let r ← fdsectors fuel write drive kind n (bno + 1) (addr + FD_SECSIZE)
          pure (r.1, r.2 + 1)
      | _ => pure (false, 0)

/-- What a request comes back with: `BFERR`, and `b_resid`. -/
structure Bdone where
  bferr : Bool
  resid : Nat
  deriving DecidableEq

/-- What `fdblock` refuses outright. -/
def fdrefuses (s : Statics) (bp : Buf) : Bool :=
  !s.fdpresent ∨ FD_NDRV ≤ funit bp.minor ∨ !fnormal bp.minor
    ∨ (fk (fkind bp.minor)).size < bp.bno + bp.count / FD_SECSIZE
    ∨ bp.count % FD_SECSIZE ≠ 0 ∨ bp.count = 0

/-- The drive of a minor number that has passed the checks. -/
def fdrive (minor : Byte) : Fin 2 := Fin.ofNat 2 (funit minor)

def fdblock (fuel : Nat) (bp : Buf) : SbcM Bdone := do
  if bp.req = .BREAD ∧ bp.bno = (fk (fkind bp.minor)).size then pure ⟨false, bp.count⟩
  else do
    let s ← getVars
    if fdrefuses s bp then pure ⟨true, bp.count⟩
    else do
      let r ← fdsectors fuel (bp.req = .BWRITE) (fdrive bp.minor) (fkind bp.minor)
        (bp.count / FD_SECSIZE) bp.bno bp.paddr
      pure ⟨!r.1, bp.count - FD_SECSIZE * r.2⟩

/-- The user errors of the ioctl. -/
inductive Errno
  | EINVAL
  | EFAULT
  | EIO
  deriving DecidableEq

/-- An ioctl: whether it is `FDFORMAT`, where the user's identifier table is, whether the
copy of it in succeeds, and where on the kernel stack `chrn` lies. -/
structure Ioctl where
  minor : Byte
  fdformat : Bool
  vec : Nat
  mapped : Bool
  chrn : Nat

/-- `ukcopy` of `n` bytes. -/
def ukcopy (vec chrn n : Nat) : SbcM Unit :=
  modify fun h =>
    { h with mem := fun a => if chrn ≤ a ∧ a < chrn + n then h.mem (vec + (a - chrn)) else h.mem a }

/-- The attempts at a track, from attempt `3 - n` on. -/
def fdtracks (fuel : Nat) (drive : Fin 2) (kind : Fin 8) (cyl head : Nat) (chrn : Nat) :
    Nat → SbcM (Option Errno)
  | 0 => pure (some Errno.EIO)
  | n + 1 => do
      if ← fdfmttrack fuel drive kind cyl head chrn then pure none
      else do
        let s ← getVars
        if s.fdres 1 &&& 0x02 ≠ 0 then pure (some Errno.EIO)
        else if 3 - (n + 1) = 1 then
          let _ ← fdreset fuel
          fdtracks fuel drive kind cyl head chrn n
        else fdtracks fuel drive kind cyl head chrn n

/-- The ioctl, past its checks, of the track the identifier table names. -/
def fdformat (fuel : Nat) (io : Ioctl) (cyl head : Nat) : SbcM (Option Errno) :=
  if (fk (fkind io.minor)).ncyl ≤ cyl ∨ (fk (fkind io.minor)).nhds ≤ head then pure (some .EINVAL)
  else fdtracks fuel (fdrive io.minor) (fkind io.minor) cyl head io.chrn 3

/-- The checks before the table is copied in. -/
def fdioctlRefuses (s : Statics) (io : Ioctl) : Bool :=
  !io.fdformat ∨ !s.fdpresent ∨ FD_NDRV ≤ funit io.minor ∨ !fnormal io.minor

def fdioctl (fuel : Nat) (io : Ioctl) : SbcM (Option Errno) := do
  let s ← getVars
  if fdioctlRefuses s io then pure (some .EINVAL)
  else if !io.mapped then pure (some .EFAULT)
  else do
    ukcopy io.vec io.chrn (4 * (fk (fkind io.minor)).nspt)
    let h ← get
    fdformat fuel io (h.mem io.chrn).toNat (h.mem (io.chrn + 1)).toNat

/-- Each second while `d_time` is set. -/
def fdtimeout : SbcM Unit := do
  setVars fun s => { s with motorsecs := s.motorsecs - 1 }
  let s ← getVars
  if 0 < s.motorsecs then setVars fun s => { s with d_time := 1 }
  else do
    fdlatchBits L_MOTOR 0
    setVars fun s => { s with d_time := 0 }

end Sbc386Ex.Fdc.SbcFd

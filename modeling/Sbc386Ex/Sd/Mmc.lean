import Sbc386Ex.Sd.SdSys

/-!
# Sbc386Ex.Sd.Mmc

The Coherent block driver of the same socket (`sbcsd.c`): `mmcopen` and `mmcblock`, over
the same looks at the card. `starts` is a ghost, the runs of `sd_start` so far. The kernel's
`fdisk` reads the partition table through its buffer cache, whose content is a parameter.
-/

namespace Sbc386Ex.Sd.Mmc

open Prog
open SdSys (addressedBy wordAt dwordAt gather)

inductive Errno
  | ENXIO
  | EIO
  | EINVAL
  deriving Repr, DecidableEq

def NPARTN : Nat := 4
def WHOLE : Fin (NPARTN + 1) := 4
def XDEV : Byte := 0x80
def TRIES : Nat := 3
def BSIZE : DWord := 512
def HDSIG : Word := 0xAA55

/-- `struct fdisk_s`, as far as the driver reads it. -/
structure Part where
  base : DWord
  size : DWord

structure Drv where
  up : Bool
  ccs : Bool
  pparm : Fin (NPARTN + 1) → Part
  starts : Nat

abbrev MmcM := SdM Drv

def part (minor : Byte) : Fin (NPARTN + 1) :=
  if minor &&& XDEV ≠ 0 then WHOLE
  else
    match minor &&& 3 with
    | 0 => 0
    | 1 => 1
    | 2 => 2
    | _ => 3

/-! ### The card -/

/-- The size of the card in sectors, by its CSD. -/
def cardSize (csd : Block) : DWord :=
  let c := fun i => (csd i).setWidth 32
  if csd 0 >>> 6 = 1 then (((c 7 &&& 0x3F) <<< 16 ||| c 8 <<< 8 ||| c 9) + 1) <<< 10
  else
    ((((c 6 &&& 3) <<< 10 ||| c 7 <<< 2 ||| c 8 >>> 6) + 1) <<<
      (((c 9 &&& 3) <<< 1 ||| c 10 >>> 7).toNat + 2)) <<< ((c 5 &&& 0x0F).toNat - 9)

/-- `sd_start`: 0 is `true`. -/
def sdStart : MmcM Bool := do
  setDrv fun d => { d with up := false, starts := d.starts + 1 }
  if !(← cardIn) then pure false
  else
    match ← start with
    | none => pure false
    | some a => do
        setDrv fun d => { d with ccs := a.ccs }
        if !a.ok then pure false
        else do
          setDrv fun d =>
            { d with up := true, pparm := fun i => ⟨0, if i = WHOLE then cardSize a.data else 0⟩ }
          pure true

def sdRead (lba : DWord) (p : Nat) : MmcM Bool := do
  let d ← getDrv
  let r ← dataCommand false (addressedBy d.ccs lba) fun _ => 0
  modify fun s =>
    { s with mem := fun a => if p ≤ a ∧ a < p + 512 then r.2 (a - p) else s.mem a }
  pure r.1

def sdWrite (lba : DWord) (p : Nat) : MmcM Bool := do
  let s ← get
  let r ← dataCommand true (addressedBy s.drv.ccs lba) (gather s.mem (List.range' p 512))
  pure r.1

/-! ### Requests -/

/-- `BUF` -/
structure Buf where
  dev : Byte
  write : Bool
  bno : DWord
  count : DWord
  paddr : Nat
  resid : DWord
  err : Bool

/-- The `TRIES` of one sector. -/
def tryLoop (sector : MmcM Bool) : Nat → MmcM Bool
  | 0 => pure false
  | t + 1 => do
      if ← sector then pure true else tryLoop sector t

/-- The sectors of a request, `n` to go. -/
def blockLoop : Nat → DWord → Nat → Buf → MmcM Buf
  | 0, _, _, bp => pure bp
  | n + 1, bno, addr, bp => do
      if ← tryLoop (if bp.write then sdWrite bno addr else sdRead bno addr) TRIES then
        blockLoop n (bno + 1) (addr + 512) { bp with resid := bp.resid - BSIZE }
      else pure { bp with err := true }

/-- `if (! card ()) up = 0;` -/
def noteCard : MmcM Unit := do
  if !(← cardIn) then setDrv fun d => { d with up := false }

/-- The request is one to end with an error before the card is asked. -/
def Buf.refused (bp : Buf) (d : Drv) : Bool :=
  !d.up ∨ (d.pparm (part bp.dev)).size < bp.bno + bp.count / BSIZE ∨ bp.count % BSIZE ≠ 0 ∨ bp.count = 0

/-- It is a read at the end of the device. -/
def Buf.atEnd (bp : Buf) (d : Drv) : Bool :=
  bp.write = false ∧ bp.bno = (d.pparm (part bp.dev)).size

def mmcblock (bp : Buf) : MmcM Buf := do
  let d ← getDrv
  if bp.atEnd d then pure { bp with resid := bp.count }
  else do
    noteCard
    let d ← getDrv
    if bp.refused d then pure { bp with resid := bp.count, err := true }
    else
      blockLoop (bp.count / BSIZE).toNat ((d.pparm (part bp.dev)).base + bp.bno) bp.paddr
        { bp with resid := bp.count }

/-! ### Opens -/

/-- The kernel's buffer for block 0 of the whole card: what it holds already, by the looks at
the card so far, and its address. -/
structure BufferCache where
  block0 : Nat → Option Block
  paddr : Nat

/-- `bread` of block 0 of the whole card. -/
def bread (cache : BufferCache) : MmcM (Option Block) := do
  let s ← get
  match cache.block0 s.now with
  | some b => pure (some b)
  | none => do
      let bp ← mmcblock ⟨XDEV, false, 0, BSIZE, cache.paddr, 0, false⟩
      let s ← get
      pure (if bp.err ∨ bp.resid = BSIZE then none else some (gather s.mem (List.range' cache.paddr 512)))

/-- `if (! up && sd_start () < 0)`: `false` is taken. -/
def bringUp : MmcM Bool := do
  let d ← getDrv
  if d.up then pure true else sdStart

/-- The partition is on the card. -/
def checkPart (minor : Byte) : MmcM (Option Errno) := do
  let d ← getDrv
  let p := d.pparm (part minor)
  if p.size = 0 then pure (some Errno.ENXIO)
  else if (d.pparm WHOLE).size < p.base + p.size then pure (some .EINVAL)
  else pure none

/-- `mmcopen`, with `fdisk` left open. -/
def openWith (fdisk : MmcM Unit) (minor : Byte) : MmcM (Option Errno) := do
  if minor &&& ~~~(XDEV ||| 3) ≠ 0 ∨ minor &&& XDEV ≠ 0 ∧ minor &&& 3 ≠ 0 then pure (some Errno.ENXIO)
  else if !(← cardIn) then do
    setDrv fun d => { d with up := false }
    pure (some Errno.ENXIO)
  else if !(← bringUp) then pure (some Errno.EIO)
  else if part minor = WHOLE then pure none
  else do
    let d ← getDrv
    if (d.pparm (part minor)).size = 0 then fdisk
    checkPart minor

/-- `hd_partn [i]` of a partition table. -/
def partitionAt (b : Block) (i : Nat) : Part :=
  ⟨dwordAt b (0x1BE + 16 * i + 8), dwordAt b (0x1BE + 16 * i + 12)⟩

/-- `fdisk` of the kernel: the whole card opened, and its partition table. -/
def fdisk (cache : BufferCache) : MmcM Unit := do
  match ← openWith (pure ()) XDEV with
  | some _ => pure ()
  | none =>
      match ← bread cache with
      | none => pure ()
      | some b =>
          if wordAt b 510 = HDSIG then
            setDrv fun d =>
              { d with pparm := fun i => if i = WHOLE then d.pparm i else partitionAt b i }

def mmcopen (cache : BufferCache) (minor : Byte) : MmcM (Option Errno) :=
  openWith (fdisk cache) minor

end Sbc386Ex.Sd.Mmc

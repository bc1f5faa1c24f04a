import Sbc386Ex.Lib.Prog
import Sbc386Ex.Machine

/-!
# Sbc386Ex.Ide.Bus

The IDE driver of `diskide.asm`, over an arbitrary bus.

`IdeBus W` is everything the driver can see of the world outside the CPU: the
task file, read and written a byte at a time, and the tick count in the BIOS
data area. It says nothing about what is on the cable; the drive models instance
it (`Ide.Drive`, `Ide.Script`, `Ide.Cable`).

The routines keep the order of the port accesses of the source. A wait is a
`Prog.loop`: the source spins on the tick count, so how often it goes round is a
matter of the clock, and the fuel only bounds the rounds of one wait.
-/

namespace Sbc386Ex.Ide

open Prog

/-! ### Ports and commands -/

def HF_PORT : Word := 0x01F0
def IDEDTA : Word := HF_PORT + 0
def IDEERR : Word := HF_PORT + 1
def IDESECC : Word := HF_PORT + 2
def IDELBAL : Word := HF_PORT + 3
def IDELBAM : Word := HF_PORT + 4
def IDELBAH : Word := HF_PORT + 5
def IDEDRV : Word := HF_PORT + 6
def IDESTTS : Word := HF_PORT + 7
def IDEALTS : Word := HF_PORT + 14

def IDE_CMD_PIO_READ : Byte := 0x20
def IDE_CMD_PIO_WRITE : Byte := 0x30
def IDE_CMD_SET_FEATURE : Byte := 0xEF

/-- Five seconds, in 18.2hz ticks. -/
def IDE_TIMEOUT : Word := 18 * 5

/-- The world outside the CPU, as far as the IDE driver reaches it. -/
class IdeBus (W : Type) where
  /-- `in al,dx` -/
  inb : Word → W → Byte × W
  /-- `out dx,al` -/
  outb : Word → Byte → W → W
  /-- read `timer_count_low`, which the timer interrupt changes -/
  tick : W → Word × W

/-- What the disk calls act on. `addrs` is a ghost: the linear address of every
byte that went through the data port, in the order of the transfers. -/
structure Host (W : Type) where
  bus : W
  mem : Mem
  hdStatus : Byte
  addrs : List Nat

/-- The one way a routine does not return: a wait was given too little fuel. -/
inductive Hang
  | outOfFuel
  deriving Repr, DecidableEq

abbrev IdeM (W : Type) := Prog Hang (Host W)

variable {W : Type} [IdeBus W]

/-! ### Port and memory accesses -/

def inPort (port : Word) : IdeM W Byte :=
  modifyGet fun h =>
    ((IdeBus.inb port h.bus).1, { h with bus := (IdeBus.inb port h.bus).2 })

def outPort (port : Word) (al : Byte) : IdeM W Unit :=
  modify fun h => { h with bus := IdeBus.outb port al h.bus }

def timerCountLow : IdeM W Word :=
  modifyGet fun h => ((IdeBus.tick h.bus).1, { h with bus := (IdeBus.tick h.bus).2 })

/-- `stosb` after `in al,dx`: a data byte goes to memory. -/
def storeByte (es di : Word) (al : Byte) : IdeM W Unit :=
  modify fun h =>
    { h with mem := Function.update h.mem (linear es di) al
             addrs := h.addrs ++ [linear es di] }

/-- `lodsb` before `out dx,al`: a data byte comes from memory. -/
def loadByte (ds si : Word) : IdeM W Byte :=
  modifyGet fun h =>
    (h.mem (linear ds si), { h with addrs := h.addrs ++ [linear ds si] })

/-! ### The waits -/

/-- One round of a wait that began at tick `bx`. -/
def waitRound (judge : Byte → Option Bool) (bx : Word) : IdeM W (Option Bool) := do
  let al ← inPort IDESTTS
  match judge al with
  | some zf => pure (some zf)
  | none => do
      let cx ← timerCountLow
      if cx - bx < IDE_TIMEOUT then pure none else pure (some false)

/-- Both waits of the driver: note the time, then read the status until `judge`
decides or five seconds have gone by. The result is the zero flag, set on success. -/
def waitStatus (judge : Byte → Option Bool) (fuel : Nat) : IdeM W Bool := do
  let bx ← timerCountLow
  loop .outOfFuel (waitRound judge bx) fuel

/-- What `ide_wait_not_busy` makes of a status: only BSY is looked at. -/
def notBusy (al : Byte) : Option Bool :=
  if al &&& 0x80 = 0 then some true else none

/-- What `ide_wait_drq` makes of a status: ERR ends the wait at once, DF does not. -/
def dataRequested (al : Byte) : Option Bool :=
  if al &&& 0x01 ≠ 0 then some false
  else if al &&& 0x88 = 0x08 then some true
  else none

/-- Wait for BSY to clear. -/
def ideWaitNotBusy (fuel : Nat) : IdeM W Bool := waitStatus notBusy fuel

/-- Wait for BSY clear and DRQ set. -/
def ideWaitDrq (fuel : Nat) : IdeM W Bool := waitStatus dataRequested fuel

/-! ### Error decoding -/

/-- The BIOS code of the bits of the error register, most telling bit first. -/
def decodeError (er : Byte) : Byte :=
  if er &&& 0x80 ≠ 0 then BAD_SECTOR_FLAG
  else if er &&& 0x40 ≠ 0 then BAD_CRC
  else if er &&& 0x10 ≠ 0 then SECTOR_NOT_FOUND
  else if er &&& 0x04 ≠ 0 then INVALID_COMMAND
  else if er &&& 0x02 ≠ 0 then BAD_SEEK
  else if er &&& 0x01 ≠ 0 then ADDRESS_MARK_NOT_FOUND
  else UNDEFINED_ERROR

theorem decodeError_ne_zero (er : Byte) : decodeError er ≠ 0 := by
  unfold decodeError
  split_ifs <;> decide

/-- The code `ide_error` decides on. Still busy, or no ERR, is a timeout; a device
fault is looked for before the error register. -/
def ideErrorCode : IdeM W Byte := do
  let ah ← inPort IDESTTS
  if ah &&& 0x80 ≠ 0 then pure TIME_OUT
  else if ah &&& 0x01 = 0 then pure TIME_OUT
  else if ah &&& 0x20 ≠ 0 then pure WRITE_FAULT
  else do
    let al ← inPort IDEERR
    pure (decodeError al)

/-- Turn the drive's status and error registers into a BIOS status code, and
record it where function 01h will find it. -/
def ideError : IdeM W Word := do
  let bl ← ideErrorCode
  modify fun h => { h with hdStatus := bl }
  pure (bl.setWidth 16)

/-! ### Register set-up and the data port -/

/-- Write the logical block address `dx:ax` to the drive's registers, with the
master/slave bit in `bh` and the sector count in `bl`. -/
def wrLba (dxax : DWord) (bh bl : Byte) : IdeM W Unit := do
  outPort IDEDRV ((0x10 &&& bh) ||| ((dxax.extractLsb' 24 8 &&& 0x0F) ||| 0xE0))
  outPort IDELBAH (dxax.extractLsb' 16 8)
  outPort IDELBAM (dxax.extractLsb' 8 8)
  outPort IDELBAL (dxax.extractLsb' 0 8)
  outPort IDESECC bl

/-- The byte loop of `read_data`, `cx` rounds from `es:di`; returns the final `di`. -/
def readDataLoop (es : Word) : Nat → Word → IdeM W Word
  | 0, di => pure di
  | cx + 1, di => do
      let al ← inPort IDEDTA
      storeByte es di al
      readDataLoop es cx (di + 1)

/-- One sector into `es:bx`; `bx` comes back advanced by 512. -/
def readData (es bx : Word) : IdeM W Word := readDataLoop es 512 bx

/-- The byte loop of `write_data`. -/
def writeDataLoop (ds : Word) : Nat → Word → IdeM W Word
  | 0, si => pure si
  | cx + 1, si => do
      let al ← loadByte ds si
      outPort IDEDTA al
      writeDataLoop ds cx (si + 1)

/-- One sector from `ds:bx`. -/
def writeData (ds bx : Word) : IdeM W Word := writeDataLoop ds 512 bx

/-! ### The two transfer routines

`.4` of each is a `loop` on `CX`, which is not zero there: the sector loops below
recurse on that count. The result says whether every wait succeeded. -/

/-- The sector loop of `IDE_READ_SECTOR`. -/
def readSectors (fuel : Nat) (es : Word) : Nat → Word → IdeM W Bool
  | 0, _ => pure true
  | cx + 1, bx => do
      if ← ideWaitDrq fuel then
        let bx ← readData es bx
        readSectors fuel es cx bx
      else pure false

/-- The sector loop of `IDE_WRITE_SECTOR`. -/
def writeSectors (fuel : Nat) (ds : Word) : Nat → Word → IdeM W Bool
  | 0, _ => pure true
  | cx + 1, bx => do
      if ← ideWaitDrq fuel then
        let bx ← writeData ds bx
        writeSectors fuel ds cx bx
      else pure false

/-- `IDE_READ_SECTOR`: master/slave in `al`, the buffer in `cx:bx`, the start
sector and the sector count on the stack. Only the low byte of the count is
looked at. Returns `AX`. -/
def ideReadSector (fuel : Nat) (al : Byte) (cx bx : Word) (sectorStart : DWord)
    (nsectors : Word) : IdeM W Word := do
  let count : Byte := nsectors.setWidth 8
  if count = 0 then pure 0
  else if ← ideWaitNotBusy fuel then
    wrLba sectorStart al count
    outPort IDESTTS IDE_CMD_PIO_READ
    if ← readSectors fuel cx count.toNat bx then pure 0 else ideError
  else ideError

/-- `IDE_WRITE_SECTOR`. After the last sector it waits for the drive to come out
of BSY, and looks at no other bit of the status. -/
def ideWriteSector (fuel : Nat) (al : Byte) (cx bx : Word) (sectorStart : DWord)
    (nsectors : Word) : IdeM W Word := do
  let count : Byte := nsectors.setWidth 8
  if count = 0 then pure 0
  else if ← ideWaitNotBusy fuel then
    wrLba sectorStart al count
    outPort IDESTTS IDE_CMD_PIO_WRITE
    if ← writeSectors fuel cx count.toNat bx then
      if ← ideWaitNotBusy fuel then pure 0 else ideError
    else ideError
  else ideError

end Sbc386Ex.Ide

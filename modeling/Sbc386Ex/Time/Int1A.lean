import Sbc386Ex.Cpu
import Sbc386Ex.Time.Tick

/-!
# Sbc386Ex.Time.Int1A

INT 1Ah of `1Ah_time.asm`: the dispatcher, and every function it reaches.

The clock chip hangs on three wires. `ThreeWire` is what crosses them a byte at a time;
what is at the other end is left open.
-/

namespace Sbc386Ex.Time

/-- The clock chip's wires, and the port they are on. -/
class ThreeWire (W : Type) where
  /-- what `in al,dx` finds in the port's latch -/
  latch : W → Byte
  /-- and on its pins -/
  pins : W → Byte
  /-- RESET# goes low: a command ends -/
  resetOn : W → W
  /-- RESET# goes high: a command begins -/
  resetOff : W → W
  shiftOut : Byte → W → W
  shiftIn : W → Byte × W

/-- What INT 1Ah reaches outside the CPU: the tick count, memory, the clock chip. -/
structure Board (W : Type) where
  timer : Timer
  mem : Mem
  chip : W

variable {W : Type} [ThreeWire W] (s : Cpu (Board W))

open Cpu

def onChip (f : W → W) : Cpu (Board W) :=
  { s with world := { s.world with chip := f s.world.chip } }

/-! ### The wires -/

def DSLTC : Word := 0xF862
def DSDAT : Byte := 0x01
def DSCLK : Byte := 0x04
def DSRST : Byte := 0x08

def dsResetOn : Cpu (Board W) :=
  let s := { s with dx := DSLTC }
  let s := s.setAl (ThreeWire.latch s.world.chip &&& ~~~DSCLK)
  let s := s.setAl ((s.al ||| DSDAT) &&& ~~~DSRST)
  onChip s ThreeWire.resetOn

def dsResetOff : Cpu (Board W) :=
  let s := s.setAl ((s.al &&& ~~~DSCLK) ||| DSDAT)
  let s := s.setAl (s.al ||| DSRST)
  onChip s ThreeWire.resetOff

/-- One round of `ds_outb`, to `AX`: a bit of `AH` goes to the data bit of `AL`. -/
def outRound (ax : Word) : Word :=
  let ax := high ax ++ (low ax &&& ~~~DSCLK)
  let ax := ax >>> 1
  let ax := high ax ++ (low ax).rotateLeft 1
  high ax ++ (low ax ||| DSCLK)

/-- `ds_outb`: the byte in `AH`. -/
def dsOutb : Cpu (Board W) :=
  onChip { s with ax := outRound^[8] s.ax } (ThreeWire.shiftOut s.ah)

/-- `ds_inb`: a byte to `AH`; `AL` is left with the pins, the data bit shifted out of it. -/
def dsInb : Cpu (Board W) :=
  let r := ThreeWire.shiftIn s.world.chip
  let s := onChip s fun _ => r.2
  { s with ax := r.1 ++ (ThreeWire.pins r.2 &&& 0xFE) }

def byteReadDirect : Cpu (Board W) := dsResetOn (dsInb (dsOutb (dsResetOff (dsResetOn s))))

/-- `byte_read`: register `AL`, the command bits in `AH`. -/
def byteRead : Cpu (Board W) :=
  let s := s.setAl ((s.al <<< 1) ||| s.ah)
  byteReadDirect (s.setAh s.al)

def byteWriteDirect : Cpu (Board W) :=
  let s := dsOutb (dsResetOff (dsResetOn s))
  let s := dsOutb (s.setAh s.cl)
  dsResetOn s

/-- `byte_write`: `CL` to register `AL`. -/
def byteWrite : Cpu (Board W) :=
  let s := s.setAl ((s.al <<< 1) ||| s.ah)
  byteWriteDirect (s.setAh s.al)

/-- `command<<8 | register` -/
def regWord (command register : Byte) : Word := command ++ register

/-- `mov ax,command<<8 | register` -/
def reg (command register : Byte) : Cpu (Board W) := { s with ax := regWord command register }

/-! ### The ways out of the chip functions -/

def dsGoodExit : Cpu (Board W) := (s.setCarry false).popDx
def dsFullExit : Cpu (Board W) := dsGoodExit s.popAx
def dsError : Cpu (Board W) := s.popAx.popDx.setCarry true

/-- `pushm ax,dx`: the first named ends on top. -/
def pushAxDx : Cpu (Board W) := (s.push s.dx).push s.ax

/-! ### The day of the week -/

/-- `bcd2int_`, and `aad`. -/
def bcd2int : Cpu (Board W) :=
  let s := s.setAh (s.al >>> 4)
  let s := s.setAl (s.al &&& 0x0F)
  { s with ax := (0 : Byte) ++ (s.ah * 10 + s.al) }

/-- The table at `dow_tab`. -/
def dowTab : List Byte := [0, 31, 61, 92, 122]

/-- `[dow_tab+bx]`. What follows the table in the code segment is `past`. -/
def dowByte (past : Word → Byte) (bx : Word) : Byte := dowTab.getD bx.toNat (past bx)

/-- `dow_`: month `AX`, day `DX`, century `BX`, year `CX`. -/
def dow (past : Word → Byte) : Cpu (Board W) :=
  let s := { s with ax := s.ax - 3 }
  let s :=
    if s.ax.msb then
      let s := { s with ax := s.ax + 12, cx := s.cx - 1 }
      if s.cx.msb then { s with cx := s.cx + 100, bx := s.bx - 1 } else s
    else s
  let s := { s with dx := s.dx + s.cx }
  let s := { s with cx := s.cx >>> 2 }
  let s := { s with dx := s.dx + s.cx + s.bx }
  let s := { s with bx := s.bx <<< 2 }
  let s := { s with dx := s.dx + s.bx }
  let s := { s with bx := s.bx >>> 4 }
  let s := { s with dx := s.dx + s.bx, cx := 5 }
  let s := { s with ax := (s.ax % 5).setWidth 8 ++ (s.ax / 5).setWidth 8 }
  let s := s.setBl s.ah
  let s := s.setBl (dowByte past s.bx)
  let s := { s with dx := s.dx + s.bx, cx := s.cx + 1 }
  let s := { s with ax := s.al.setWidth 16 * s.cl.setWidth 16 }
  let s := { s with ax := s.ax + s.dx, dx := 0, cx := s.cx + 1 }
  let s := { s with ax := s.ax + 2 }
  let s := { s with ax := s.ax / s.cx, dx := s.ax % s.cx }
  { s with ax := s.dx }

/-- `day_of_week_`, of a date in BCD. -/
def dayOfWeek (past : Word → Byte) : Cpu (Board W) :=
  let s := bcd2int (s.setAl s.ch)
  let s := { s with bx := s.ax }
  let s := bcd2int (s.setAl s.cl)
  let s := { s with cx := s.ax }
  let s := bcd2int (s.setAl s.dh)
  let s := bcd2int { s with ax := s.dx, dx := s.ax }
  dow { s with ax := s.dx, dx := s.ax } past

/-! ### The functions -/

/-- How a function of the table ends: with `ret`, or with `jmp fn_not_defined`. -/
inductive Leaves
  | ret
  | notDefined
  deriving DecidableEq

/-- `get_bda DS` -/
def getBdaDs : Cpu (Board W) := { s with ds := 0x0040 }

def getTickCount : Cpu (Board W) :=
  let s := getBdaDs (s.push s.ds)
  let r := s.world.timer.getTickCount
  let s := { s with dx := r.1.2.1, cx := r.1.1 }
  let s := { s.setAl r.1.2.2 with world := { s.world with timer := r.2 } }
  (s.setCarry false).popDs

def setTickCount : Cpu (Board W) :=
  let s := getBdaDs (s.push s.ds)
  let s := { s with world := { s.world with timer := .setTickCount s.cx s.dx } }
  (s.setCarry false).popDs

/-- `.1` of `get_time`, until the seconds read before and after are the same; nothing while
they are not. -/
def getTimeLoop : Nat → Cpu (Board W) → Option (Cpu (Board W))
  | 0, _ => none
  | fuel + 1, s =>
      let s := s.push s.dx
      let s := byteRead (reg s 0x81 1)
      let s := s.setCl s.ah
      let s := byteRead (reg s 0x81 2)
      let s := s.setCh s.ah
      let s := byteRead (reg s 0x81 0)
      let s := s.popDx
      -- xchg dh,ah
      let s := (s.setDh s.ah).setAh s.dh
      if s.ah = s.dh then some s else getTimeLoop fuel s

def getTime (fuel : Nat) : Option (Cpu (Board W)) :=
  let s := { s.push s.ax with bx := 0 }
  let s := reg s 0x81 0
  let s := byteRead (s.setDl s.al)
  let s := s.setDh s.ah
  (getTimeLoop fuel s).map fun s =>
    let s := s.setDh (s.dh &&& 0x7F)
    let s := (s.setAh (s.ah + s.ah)).setCarry s.ah.msb
    s.popAx

/-- `wr_protect` -/
def wrProtect : Cpu (Board W) :=
  let s := pushAxDx s
  if s.al &&& 0x7F ≠ 0 then dsError s
  else
    let s := s.push s.cx
    let s := s.setCl s.al
    let s := byteWrite (reg s 0x80 7)
    dsFullExit s.popCx

def setTime : Cpu (Board W) :=
  let s := pushAxDx s
  let s := (s.push s.dx).push s.cx
  let s := wrProtect (s.setAl 0)
  let s := s.popBx
  let s := reg s 0x80 2
  let s := byteWrite (s.setCl (s.bh &&& 0x7F))
  let s := reg s 0x80 1
  let s := byteWrite (s.setCl s.bl)
  let s := s.popBx
  let s := reg s 0x80 0
  let s := byteWrite (s.setCl (s.bh &&& 0x7F))
  let s := wrProtect (s.setAl 0x80)
  dsFullExit s

def getDate : Cpu (Board W) :=
  let s := byteRead (reg s 0x81 6)
  let s := s.setCl s.ah
  let s := byteRead (reg s 0x81 4)
  let s := s.setBh s.ah
  let s := byteRead (reg s 0x81 3)
  let s := s.setBl s.ah
  let s := byteRead (reg s 0x81 5)
  let s := s.setCh s.ah
  let s := byteRead (reg s 0x81 0)
  let s := { s with dx := s.bx }
  let s := s.setAl s.ch
  let s := s.setCh (if s.cl < 0x70 then 0x20 else 0x19)
  (s.setAh (s.ah <<< 1)).setCarry s.ah.msb

def setDate : Cpu (Board W) :=
  let s := pushAxDx s
  if s.ch ≠ 0x20 ∧ s.ch ≠ 0x19 then dsError s
  else
    let s := (s.push s.cx).push s.dx
    -- of these two centuries nothing past the table is read
    let s := dayOfWeek s fun _ => 0
    let s := s.popBx.popCx
    let s := s.push s.cx
    let s := s.setCh s.al
    let s := wrProtect (s.setAl 0)
    let s := byteWrite (reg s 0x80 6)
    let s := reg s 0x80 4
    let s := byteWrite (s.setCl s.bh)
    let s := reg s 0x80 3
    let s := byteWrite (s.setCl s.bl)
    let s := reg s 0x80 5
    let s := s.setCl s.ch
    let s := byteWrite (s.setCl (s.cl + 1))
    let s := wrProtect (s.setAl 0x80)
    dsFullExit s.popCx

/-- `ds_read_exit` -/
def dsReadExit : Cpu (Board W) :=
  let s := s.setAl s.ah
  let s := s.popDx
  dsGoodExit (s.setAh s.dh)

/-- The loop of the burst read, `CX` rounds. -/
def dsRead2 : Nat → Cpu (Board W) → Cpu (Board W)
  | 0, s => s
  | n + 1, s =>
      let s := dsInb s
      let s := { s with
        world := { s.world with mem := Function.update s.world.mem (linear s.es s.bx) s.ah }
        bx := s.bx + 1 }
      dsRead2 n { s with cx := s.cx - 1 }

/-- `ds_read`: a byte of the NVRAM, or with 31 all of them to `ES:BX`. -/
def dsRead : Cpu (Board W) :=
  let s := pushAxDx s
  if s.al < 31 then dsReadExit (byteRead (s.setAh 0xC1))
  else if s.al ≠ 31 then dsError s
  else
    let s := (s.push s.cx).push s.bx
    let s := dsResetOff (dsResetOn s)
    let s := dsOutb (s.setAh 0xFF)
    let s := dsRead2 31 { s with cx := 31 }
    dsReadExit (dsResetOn s).popBx.popCx

/-- The loop of the burst write. -/
def dsWrite2 : Nat → Cpu (Board W) → Cpu (Board W)
  | 0, s => s
  | n + 1, s =>
      let s := dsOutb (s.setAh (s.world.mem (linear s.es s.bx)))
      dsWrite2 n { s with bx := s.bx + 1, cx := s.cx - 1 }

def dsWrite : Cpu (Board W) :=
  let s := pushAxDx s
  if s.al < 31 then dsFullExit (byteWrite (s.setAh 0xC0))
  else if s.al ≠ 31 then dsError s
  else
    let s := (s.push s.cx).push s.bx
    let s := dsResetOff (dsResetOn s)
    let s := dsOutb (s.setAh 0xFE)
    let s := dsWrite2 31 { s with cx := 31 }
    dsFullExit (dsResetOn s).popBx.popCx

def dsSetCharge : Cpu (Board W) :=
  let s := pushAxDx s
  let s := s.push s.cx
  let s := (s.setAh 0x80).setCl s.al
  let s := byteWrite (s.setAl 8)
  dsFullExit s.popCx

def dsGetCharge : Cpu (Board W) :=
  let s := pushAxDx s
  let s := byteRead (reg s 0x81 8)
  let s := (s.setDl s.ah).popAx
  dsGoodExit (s.setAl s.dl)

/-- `set_alarm` and `reset_alarm` are one jump, which is made from inside the call. -/
def setAlarm : Cpu (Board W) × Leaves := (s, .notDefined)

/-! ### The dispatcher -/

/-- `dispatch0`, the functions from 00h on. -/
def dispatch0 (fuel : Nat) : List (Cpu (Board W) → Option (Cpu (Board W) × Leaves)) :=
  [fun s => some (getTickCount s, .ret),
   fun s => some (setTickCount s, .ret),
   fun s => (getTime s fuel).map fun s => (s, .ret),
   fun s => some (setTime s, .ret),
   fun s => some (getDate s, .ret),
   fun s => some (setDate s, .ret),
   fun s => some (setAlarm s),
   fun s => some (setAlarm s)]

/-- `dispatch20`, those from 20h on. -/
def dispatch20 : List (Cpu (Board W) → Option (Cpu (Board W) × Leaves)) :=
  [fun s => some (dsRead s, .ret),
   fun s => some (dsWrite s, .ret),
   fun s => some (wrProtect s, .ret),
   fun s => some (dsSetCharge s, .ret),
   fun s => some (dsGetCharge s, .ret)]

/-- `exit`: the address `retf 2` goes to, and the CPU there. -/
def exit : (Word × Word) × Cpu (Board W) :=
  let s := s.popBx.popSi.popDi.popBp.popDs.popEs
  ((s.top, s.drop.top), s.drop.drop.drop)

def fnNotDefined : (Word × Word) × Cpu (Board W) := exit ((s.setAh 0x86).setCarry true)

/-- `call [table + si]` with the return address `ra`, and the `jmp exit` there; nothing where
the function returns to another address. -/
def callEntry (ra : Word) (entry : Cpu (Board W) → Option (Cpu (Board W) × Leaves)) :
    Option ((Word × Word) × Cpu (Board W)) :=
  (entry (s.push ra)).bind fun r =>
    match r.2 with
    | .ret => if r.1.top = ra then some (exit r.1.drop) else none
    | .notDefined => some (fnNotDefined r.1)

/-- `pushm bx,si,di,bp,ds,es` -/
def pushFrame : Cpu (Board W) :=
  (((((s.push s.es).push s.ds).push s.bp).push s.di).push s.si).push s.bx

/-- The two tables, from `mov si,ax` on. -/
def lookUp (ra : Word) (fuel : Nat) : Option ((Word × Word) × Cpu (Board W)) :=
  let s := { s with si := s.ax >>> 8 }
  let s := { s with si := s.si + s.si }
  if s.si < 16 then
    match (dispatch0 fuel)[s.si.toNat / 2]? with
    | some entry => callEntry s ra entry
    | none => none
  else
    let s := { s with si := s.si - 0x40 }
    if s.si < 10 then
      match dispatch20[s.si.toNat / 2]? with
      | some entry => callEntry s ra entry
      | none => none
    else some (fnNotDefined s)

/-- INT 1Ah. The interrupt has put the flags, `CS` and `IP` on the stack. -/
def int1Ah (ra : Word) (fuel : Nat) : Option ((Word × Word) × Cpu (Board W)) :=
  lookUp (pushFrame s) ra fuel

/-! ### What a command is to the chip -/

/-- A byte read with command `c`. -/
def chipRead (c : Byte) (w : W) : Byte × W :=
  let r := ThreeWire.shiftIn (ThreeWire.shiftOut c (ThreeWire.resetOff (ThreeWire.resetOn w)))
  (r.1, ThreeWire.resetOn r.2)

/-- The byte `v` written with command `c`. -/
def chipWrite (c v : Byte) (w : W) : W :=
  let w := ThreeWire.shiftOut c (ThreeWire.resetOff (ThreeWire.resetOn w))
  ThreeWire.resetOn (ThreeWire.shiftOut v w)

/-- What the last command leaves in `AL`, and in `AX`. -/
def readAl : Byte := (byteRead s).al
def writeAx : Word := (byteWrite s).ax

theorem byteRead_eq : byteRead s =
    { s with
      ax := (chipRead ((s.al <<< 1) ||| s.ah) s.world.chip).1 ++ readAl s
      dx := DSLTC
      world := { s.world with chip := (chipRead ((s.al <<< 1) ||| s.ah) s.world.chip).2 } } := by
  unfold readAl
  simp [byteRead, byteReadDirect, dsResetOn, dsOutb, dsInb, dsResetOff, onChip, chipRead]

theorem byteWrite_eq : byteWrite s =
    { s with
      ax := writeAx s
      dx := DSLTC
      world := { s.world with chip := chipWrite ((s.al <<< 1) ||| s.ah) s.cl s.world.chip } } := by
  unfold writeAx
  simp [byteWrite, byteWriteDirect, dsResetOn, dsOutb, dsResetOff, onChip, chipWrite]

@[simp] theorem low_regWord (c r : Byte) : low (regWord c r) = r := low_append c r
@[simp] theorem high_regWord (c r : Byte) : high (regWord c r) = c := high_append c r

end Sbc386Ex.Time

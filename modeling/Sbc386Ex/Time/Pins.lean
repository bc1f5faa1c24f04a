import Sbc386Ex.Lib.Serial
import Sbc386Ex.Time.Nvram

/-!
# Sbc386Ex.Time.Pins

The three wires of the clock chip, an `out` at a time: port 1 of the 386EX, the DS1302 as its
pins see it, and the routines of `1Ah_time.asm` that move them.

`start.asm` sets port 1 up: bits 7 to 4 drive the lights, 3 and 2 are RESET# and the clock, bit 0
is open collector, and the pin of bit 1 is the serial port's RTS0#, whatever the latch says.
The chip's clock stands still here, and its burst of the clock registers, which no routine uses,
does nothing.
-/

namespace Sbc386Ex.Time.Pins

open Cpu Serial

/-! ### The chip -/

/-- What a command byte says. -/
def reads (command : Byte) : Bool := command.getLsbD 0
def isRam (command : Byte) : Bool := command.getLsbD 6
def address (command : Byte) : Nat := ((command >>> 1) &&& 0x1F).toNat

/-- The control register. -/
def CONTROL : Nat := 7

/-- What the chip keeps: the RAM and the clock's registers. -/
@[ext] structure Store where
  ram : Nat → Byte
  regs : Nat → Byte

namespace Store

variable (m : Store)

def guarded : Bool := (m.regs CONTROL).msb

/-- Byte `k` of a read. A read of one register goes on with the same. -/
def fetch (command : Byte) (k : Nat) : Byte :=
  if isRam command then m.ram (if address command = 31 then k else address command)
  else m.regs (address command)

/-- Byte `k` of a write. After one register the rest is ignored; with its top bit clear a command
writes nothing. -/
def write (command : Byte) (k : Nat) (v : Byte) : Store :=
  if command.msb = false then m
  else if isRam command then
    if m.guarded then m
    else if address command = 31 then
      if k < 31 then { m with ram := Function.update m.ram k v } else m
    else if k = 0 then { m with ram := Function.update m.ram (address command) v }
    else m
  else if k = 0 then
    if address command = CONTROL then { m with regs := Function.update m.regs CONTROL (v &&& 0x80) }
    else if m.guarded then m
    else if address command < 9 then { m with regs := Function.update m.regs (address command) v }
    else m
  else m

end Store

/-- The DS1302: its lines as they last were, the transfer under way, and what it drives the data
line with. -/
structure Chip where
  ce : Bool
  sclk : Bool
  count : Nat
  command : Byte
  data : Byte
  fell : Nat
  drive : Option Bool
  store : Store

namespace Chip

variable (c : Chip)

/-- A rising edge of the clock, with the data line at `b`. -/
def rise (b : Bool) : Chip :=
  if c.count < 8 then { c with command := shiftIn c.command b, count := c.count + 1 }
  else if reads c.command then c
  else
    let c := { c with data := shiftIn c.data b, count := c.count + 1 }
    -- a byte is stored with its last bit
    if c.count % 8 = 0 then
      { c with store := c.store.write c.command (c.count / 8 - 2) c.data }
    else c

/-- A falling edge. -/
def fall : Chip :=
  if c.count = 8 ∧ reads c.command = true then
    -- the first is the one after the command's last bit
    { c with
      drive := some ((c.store.fetch c.command (c.fell / 8)).getLsbD (c.fell % 8))
      fell := c.fell + 1 }
  else c

/-- The lines change. -/
def see (ce sclk dat : Bool) : Chip :=
  if ce = false then { c with ce := false, sclk := sclk, drive := none }
  else if c.ce = false then
    { c with ce := true, sclk := sclk, count := 0, command := 0, data := 0, fell := 0, drive := none }
  else if c.sclk = false ∧ sclk = true then { c.rise dat with sclk := true }
  else if c.sclk = true ∧ sclk = false then { c.fall with sclk := false }
  else c

end Chip

/-! ### The port -/

/-- Port 1: its latch, what the pin of RTS0# is at each look, the looks so far, and the chip. -/
structure Port where
  latch : Byte
  rts : Nat → Bool
  looks : Nat
  chip : Chip

namespace Port

variable (p : Port)

/-- `out` to the latch. The chip sees the data line as the latch has it, low if it pulls it low
itself. -/
def out (v : Byte) : Port :=
  { p with
    latch := v
    chip := p.chip.see (v.getLsbD 3) (v.getLsbD 2) (v.getLsbD 0 && p.chip.drive.getD true) }

/-- The pins: the latch but for the data line and RTS0#. -/
def pins : Byte :=
  (p.latch &&& 0xFC) ||| (if p.rts p.looks then 2 else 0) |||
    (if p.latch.getLsbD 0 && p.chip.drive.getD true then 1 else 0)

end Port

/-! ### The wires -/

variable (s : Cpu (Board Port))

def DSPIN : Word := 0xF860

def onPort (f : Port → Port) : Cpu (Board Port) :=
  { s with world := { s.world with chip := f s.world.chip } }

/-- `out dx,al` and `in al,dx`; `DX` is one of the port's two. -/
def outDx : Cpu (Board Port) := if s.dx = DSLTC then onPort s (Port.out · s.al) else s

def inDx : Cpu (Board Port) :=
  if s.dx = DSPIN then
    onPort (s.setAl s.world.chip.pins) fun p => { p with looks := p.looks + 1 }
  else s.setAl s.world.chip.latch

def dsOutLatch : Cpu (Board Port) := outDx s

def dsResetOn : Cpu (Board Port) :=
  let s := inDx { s with dx := DSLTC }
  let s := dsOutLatch (s.setAl (s.al &&& ~~~DSCLK))
  let s := s.setAl (s.al ||| DSDAT)
  dsOutLatch (s.setAl (s.al &&& ~~~DSRST))

def dsResetOff : Cpu (Board Port) :=
  let s := s.setAl (s.al &&& ~~~DSCLK)
  let s := dsOutLatch (s.setAl (s.al ||| DSDAT))
  dsOutLatch (s.setAl (s.al ||| DSRST))

/-- `.1` of `ds_outb`. -/
def dsOutbRound : Cpu (Board Port) :=
  let s := s.setAl (s.al &&& ~~~DSCLK)
  let s := { s with ax := s.ax >>> 1 }
  let s := dsOutLatch (s.setAl (s.al.rotateLeft 1))
  let s := dsOutLatch (s.setAl (s.al ||| DSCLK))
  { s with cx := s.cx - 1 }

def dsOutb : Cpu (Board Port) :=
  let s := { s.push s.cx with cx := 8 }
  (dsOutbRound^[8] s).popCx

/-- `.2` of `ds_inb`. -/
def dsInbRound : Cpu (Board Port) :=
  let s := dsOutLatch (s.setAl (s.al ||| (DSCLK + DSDAT)))
  let s := dsOutLatch (s.setAl (s.al &&& ~~~DSCLK))
  let s := inDx { s.push s.dx with dx := DSPIN }
  let s := s.popDx
  let s := { s with ax := s.ax.rotateRight 1 }
  let s := s.setAl (s.al <<< 1)
  { s with cx := s.cx - 1 }

def dsInb : Cpu (Board Port) :=
  let s := { s.push s.cx with cx := 8 }
  (dsInbRound^[8] s).popCx

def byteReadDirect : Cpu (Board Port) := dsResetOn (dsInb (dsOutb (dsResetOff (dsResetOn s))))

def byteRead : Cpu (Board Port) :=
  let s := s.setAl (s.al <<< 1)
  let s := s.setAl (s.al ||| s.ah)
  byteReadDirect (s.setAh s.al)

def byteWriteDirect : Cpu (Board Port) :=
  let s := dsOutb (dsResetOff (dsResetOn s))
  dsResetOn (dsOutb (s.setAh s.cl))

def byteWrite : Cpu (Board Port) :=
  let s := s.setAl (s.al <<< 1)
  let s := s.setAl (s.al ||| s.ah)
  byteWriteDirect (s.setAh s.al)

/-! ### The functions -/

/-- The loop of the burst read, `CX` rounds. -/
def dsRead2 : Nat → Cpu (Board Port) → Cpu (Board Port)
  | 0, s => s
  | n + 1, s =>
      let s := dsInb s
      let s := { s with
        world := { s.world with mem := Function.update s.world.mem (linear s.es s.bx) s.ah }
        bx := s.bx + 1 }
      dsRead2 n { s with cx := s.cx - 1 }

def dsRead : Cpu (Board Port) :=
  let s := pushAxDx s
  if s.al < 31 then dsReadExit (byteRead (s.setAh 0xC1))
  else if s.al ≠ 31 then dsError s
  else
    let s := (s.push s.cx).push s.bx
    let s := dsResetOff (dsResetOn s)
    let s := dsOutb (s.setAh 0xFF)
    let s := dsRead2 31 { s with cx := 31 }
    dsReadExit (dsResetOn s).popBx.popCx

/-- The loop of the burst write. -/
def dsWrite2 : Nat → Cpu (Board Port) → Cpu (Board Port)
  | 0, s => s
  | n + 1, s =>
      let s := dsOutb (s.setAh (s.world.mem (linear s.es s.bx)))
      dsWrite2 n { s with bx := s.bx + 1, cx := s.cx - 1 }

def dsWrite : Cpu (Board Port) :=
  let s := pushAxDx s
  if s.al < 31 then dsFullExit (byteWrite (s.setAh 0xC0))
  else if s.al ≠ 31 then dsError s
  else
    let s := (s.push s.cx).push s.bx
    let s := dsResetOff (dsResetOn s)
    let s := dsOutb (s.setAh 0xFE)
    let s := dsWrite2 31 { s with cx := 31 }
    dsFullExit (dsResetOn s).popBx.popCx

def wrProtect : Cpu (Board Port) :=
  let s := pushAxDx s
  if s.al &&& 0x7F ≠ 0 then dsError s
  else
    let s := s.push s.cx
    let s := s.setCl s.al
    dsFullExit (byteWrite (reg s 0x80 7)).popCx

end Sbc386Ex.Time.Pins

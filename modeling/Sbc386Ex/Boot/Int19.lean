import Sbc386Ex.Cpu

/-!
# Sbc386Ex.Boot.Int19

The bootstrap loader, INT 19h (`19h_boot.asm`): the devices in the order SETUP asked for, each
reset and read a few times, and the first boot sector that carries the signature entered at
`0000:7C00`.

What INT 13h does is left open (`Int13`). It hands back every register but `AX` and the carry,
by its `pushm all,ds,es` and `popm all,ds,es`; of a read that returns without carry it is known
that a sector of the drive is where it was asked for, and of any other call nothing about
the memory at all. The calls are kept in the order in which they are made.
-/

namespace Sbc386Ex.Boot

/-! ### INT 13h -/

/-- The registers INT 13h is called with. -/
structure Request where
  ax : Word
  bx : Word
  cx : Word
  dx : Word
  es : Word
  deriving DecidableEq

/-- The registers of function 02h for one sector. -/
def Request.IsRead (q : Request) : Prop := q.ax = 0x0201

/-- What INT 13h leaves. -/
structure Answer (D : Type) where
  ax : Word
  carry : Bool
  mem : Mem
  drives : D

/-- An INT 13h over the drives `D`, with the sector a read comes by. -/
structure Int13 (D : Type) where
  answer : Request → Mem → D → Answer D
  sector : Request → D → Nat → Byte
  delivers : ∀ q m d, q.IsRead → (answer q m d).carry = false →
    ∀ i < 512, (answer q m d).mem (linear q.es q.bx + i) = sector q d i

/-- A call that has returned, with the sector it came by if it is a read that succeeded. -/
structure Call where
  request : Request
  carry : Bool
  sector : Nat → Byte

/-- What there is besides the CPU; the calls and the texts are ghosts. -/
structure Room (D : Type) where
  mem : Mem
  drives : D
  calls : List Call
  said : List String

section Code

variable {D : Type} (b : Int13 D) (s : Cpu (Room D))

def request : Request := ⟨s.ax, s.bx, s.cx, s.dx, s.es⟩

/-- `int 0x13` -/
def int13 : Cpu (Room D) :=
  let q := request s
  let a := b.answer q s.world.mem s.world.drives
  let call : Call := ⟨q, a.carry, b.sector q s.world.drives⟩
  Cpu.setCarry { s with
    ax := a.ax
    world := { s.world with
      mem := a.mem
      drives := a.drives
      calls := s.world.calls ++ [call] } } a.carry

/-! ### `boot_try` -/

def BOOT_OFF : Word := 0x7C00
def BOOT_DRIVE : Word := 0x80
def BOOT_FLOPPY : Word := 0x00
def BOOT_RETRIES : Word := 4
def BOOT_FD_TRIES : Word := 2

/-- In segment 40h. -/
def floppy_tab : Word := 0xE3
def boot_order : Word := 0xED

def BOOT_CA : Byte := 1
def BOOT_A : Byte := 2
def BOOT_C : Byte := 3

/-- `boot_msg`: the text in `CS:SI`, with the registers as they were. -/
def bootMsg (text : String) : Cpu (Room D) :=
  Cpu.setCarry { s with world := { s.world with said := s.world.said ++ [text] } } false

def msgTryA : String := "\r\nTrying drive A: ...\r\n"
def msgTryC : String := "\r\nTrying drive C: ...\r\n"
def msgBooting : String := "Boot sector loaded, entering it ...\r\n"
def msgNoread : String := "\r\nINT 19h: cannot read the boot sector\r\n"

/-- `stosw` with the direction flag clear. -/
def stosw : Cpu (Room D) :=
  let di := s.di
  let mem := Function.update (Function.update s.world.mem (linear s.es di) s.al)
    (linear s.es (di + 1)) s.ah
  { s with di := di + 2, world := { s.world with mem := mem } }

/-- `rep stosw`, `n` words. -/
def repStosw : Nat → Cpu (Room D) → Cpu (Room D)
  | 0, s => { s with cx := 0 }
  | n + 1, s => repStosw n (stosw s)

/-- `.retry`, of the drive in `SI`. -/
def reset : Cpu (Room D) := int13 b (Cpu.setAh { s with dx := s.si } 0)

def read : Cpu (Room D) :=
  int13 b { s with dx := s.si, ax := 0x0201, cx := 0x0001, bx := BOOT_OFF, es := 0 }

/-- A round of `.retry`, to `.again` with carry or to `.loaded` without. -/
def attempt : Cpu (Room D) :=
  if (reset b s).carry then reset b s else read b (reset b s)

/-- `.loaded`, down to the carry that says whether the sector is signed. -/
def signature : Cpu (Room D) :=
  let s := { s with ax := 0, es := 0 }
  let low := s.world.mem (linear s.es (BOOT_OFF + 510))
  let high := s.world.mem (linear s.es (BOOT_OFF + 511))
  s.setCarry ((high ++ low : Word) ≠ 0xAA55)

omit b s in
theorem attempt_stack (b : Int13 D) (s : Cpu (Room D)) : (attempt b s).stack = s.stack := by
  rw [attempt]
  split_ifs <;> rfl

omit b s in
theorem attempt_top (b : Int13 D) (s : Cpu (Room D)) (v : Word) :
    (attempt b (s.push v)).top = v := by
  rw [Cpu.top, attempt_stack]
  rfl

/-- `.retry`: `loop` counts `CX` down. -/
def retry (s : Cpu (Room D)) : Cpu (Room D) :=
  let t := attempt b (s.push s.cx)
  if t.carry then
    let cx := t.top - 1
    if _h : cx = 0 then Cpu.setCarry { t.popCx with cx := cx } true
    else retry { t.popCx with cx := cx }
  else signature t.popCx
termination_by (s.cx - 1).toNat
decreasing_by
  have hcx : cx = s.cx - 1 := congrArg (· - 1) (attempt_top b s s.cx)
  have hne : (s.cx - 1).toNat ≠ 0 := fun hz => _h (hcx.trans (BitVec.toNat_inj.mp hz))
  have hone : (1 : Word) ≤ s.cx - 1 := BitVec.le_def.mpr (Nat.pos_of_ne_zero hne)
  rw [attempt_top, BitVec.toNat_sub_of_le hone]
  exact Nat.sub_lt (Nat.pos_of_ne_zero hne) Nat.one_pos

/-- `pushm ax,bx,cx,dx,di,es` -/
def save : Cpu (Room D) :=
  (((((s.push s.es).push s.di).push s.dx).push s.cx).push s.bx).push s.ax

/-- `popm ax,bx,cx,dx,di,es` -/
def restore : Cpu (Room D) := s.popAx.popBx.popCx.popDx.popDi.popEs

/-- `boot_try` down to `.retry`: the drive goes to `SI`, and the landing area is cleared. -/
def clear : Cpu (Room D) :=
  let s := { s with si := s.dx, ax := 0, es := 0, di := BOOT_OFF }
  (repStosw 256 { s.push s.cx with cx := 256 }).popCx

/-- `boot_try`, of the drive in `DX`, `CX` times: carry is clear if the sector at `0000:7C00` is
signed, and then the drive is in `SI`. -/
def bootTry : Cpu (Room D) := restore (retry b (clear (save s)))

def tryFloppy : Cpu (Room D) :=
  let s := s.setAl (s.world.mem (linear 0x40 floppy_tab))
  if s.al = 0 then s.setCarry true
  else
    let s := bootMsg s msgTryA
    bootTry b { s with dx := BOOT_FLOPPY, cx := BOOT_FD_TRIES }

def tryFixed : Cpu (Room D) :=
  let s := bootMsg s msgTryC
  bootTry b { s with dx := BOOT_DRIVE, cx := BOOT_RETRIES }

/-! ### `int_19h` -/

/-- Where `int_19h` goes to. -/
inductive End (D : Type)
  /-- `jmp BOOT_SEG:BOOT_OFF` -/
  | enter (s : Cpu (Room D))
  /-- `int 0x18` -/
  | int18 (s : Cpu (Room D))

/-- `.enter`: the drive goes over from `SI` to `DX`. -/
def enter : End D :=
  let s := (bootMsg (s.push s.si) msgBooting).popDx
  .enter { s with ax := 0, ds := 0, es := 0 }

def none : End D := .int18 (bootMsg s msgNoread)

def int19h : End D :=
  let s := { s with stack := [], ax := 0, ds := 0, es := 0 }
  let s := s.setAl (s.world.mem (linear 0x40 boot_order))
  if s.al = BOOT_CA then
    let s := tryFixed b s
    if s.carry then
      let s := tryFloppy b s
      if s.carry then none s else enter s
    else enter s
  else if s.al = BOOT_A then
    let s := tryFloppy b s
    if s.carry then none s else enter s
  else if s.al = BOOT_C then
    let s := tryFixed b s
    if s.carry then none s else enter s
  else
    let s := tryFloppy b s
    if s.carry then
      let s := tryFixed b s
      if s.carry then none s else enter s
    else enter s

end Code

end Sbc386Ex.Boot

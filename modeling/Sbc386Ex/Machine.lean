import Mathlib.Logic.Function.Basic
import Mathlib.Data.BitVec

/-!
# Sbc386Ex.Machine

The machine words of the board and its real-mode memory.

The BIOS runs in real mode with the A20 line open (`start.asm` sets `PORT92_AT`
bit 1), so a `seg:off` pair names the linear address `16 * seg + off` with no
wrap at one megabyte, while an offset that is stepped past `FFFFh` wraps inside
its own segment.
-/

namespace Sbc386Ex

/-- `byte` of `mytypes.h`. -/
abbrev Byte := BitVec 8
/-- `word` of `mytypes.h`. -/
abbrev Word := BitVec 16
/-- `dword` of `mytypes.h`. -/
abbrev DWord := BitVec 32

/-- The linear address a `seg:off` pair names. -/
def linear (seg off : Word) : Nat := 16 * seg.toNat + off.toNat

/-- Memory, by linear address. -/
abbrev Mem := Nat → Byte

/-! ### Small numbers of things

Units, result bytes, slots of a buffer and pages: numerals of their `Fin` types go by these
instances everywhere. -/

instance neZero_four : NeZero 4 := ⟨by decide⟩
instance neZero_seven : NeZero 7 := ⟨by decide⟩
instance neZero_eight : NeZero 8 := ⟨by decide⟩
instance neZero_sixteen : NeZero 16 := ⟨by decide⟩

/-! ### BIOS status codes (`error.h`) -/

def NO_ERROR : Byte := 0
def INVALID_COMMAND : Byte := 1
def ADDRESS_MARK_NOT_FOUND : Byte := 2
def WRITE_PROTECTED : Byte := 3
def SECTOR_NOT_FOUND : Byte := 4
def RESET_FAILED : Byte := 5
def DMA_OVERRUN : Byte := 8
def BAD_SECTOR_FLAG : Byte := 0x0A
def BAD_CRC : Byte := 0x10
def CONTROLLER_FAILED : Byte := 0x20
def BAD_SEEK : Byte := 0x40
def TIME_OUT : Byte := 0x80
def DRIVE_NOT_READY : Byte := 0xAA
def UNDEFINED_ERROR : Byte := 0xBB
def WRITE_FAULT : Byte := 0xCC

end Sbc386Ex

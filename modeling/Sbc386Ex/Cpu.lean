import Sbc386Ex.Machine

/-!
# Sbc386Ex.Cpu

The registers and the stack of the 386EX in real mode, as far as 16-bit code reaches them.

Straight-line code is a function on `Cpu W`; what it does to the world outside the CPU is
in the field `world`. The stack is the words from `SS:SP` up. A subroutine is entered by
`push` of its return address and comes back by `pop` where it matters where it comes back
to; elsewhere a call is a function call.
-/

namespace Sbc386Ex

/-- The CPU. `upper` is the upper halves of the general registers, which no 16-bit
instruction reaches. -/
structure Cpu (W : Type) where
  ax : Word
  bx : Word
  cx : Word
  dx : Word
  si : Word
  di : Word
  bp : Word
  upper : Fin 7 → Word
  ds : Word
  es : Word
  flags : Word
  stack : List Word
  world : W

namespace Cpu

variable {W : Type} (s : Cpu W)

/-! ### Byte registers and the carry -/

def low (v : Word) : Byte := v.setWidth 8
def high (v : Word) : Byte := v.extractLsb' 8 8

def al : Byte := low s.ax
def ah : Byte := high s.ax
def bl : Byte := low s.bx
def bh : Byte := high s.bx
def cl : Byte := low s.cx
def ch : Byte := high s.cx
def dl : Byte := low s.dx
def dh : Byte := high s.dx

def setAl (v : Byte) : Cpu W := { s with ax := s.ah ++ v }
def setAh (v : Byte) : Cpu W := { s with ax := v ++ s.al }
def setBl (v : Byte) : Cpu W := { s with bx := s.bh ++ v }
def setBh (v : Byte) : Cpu W := { s with bx := v ++ s.bl }
def setCl (v : Byte) : Cpu W := { s with cx := s.ch ++ v }
def setCh (v : Byte) : Cpu W := { s with cx := v ++ s.cl }
def setDl (v : Byte) : Cpu W := { s with dx := s.dh ++ v }
def setDh (v : Byte) : Cpu W := { s with dx := v ++ s.dl }

def carry : Bool := s.flags.getLsbD 0

/-- `stc` and `clc` -/
def setCarry (c : Bool) : Cpu W :=
  { s with flags := (s.flags &&& 0xFFFE) ||| (BitVec.ofBool c).setWidth 16 }

/-! ### The stack -/

def push (v : Word) : Cpu W := { s with stack := v :: s.stack }

/-- The word on top of the stack; below the words that are modelled there is no telling. -/
def top : Word :=
  match s.stack with
  | [] => 0
  | v :: _ => v

/-- The stack without it. -/
def drop : Cpu W := { s with stack := s.stack.tail }

def popAx : Cpu W := { s.drop with ax := s.top }
def popBx : Cpu W := { s.drop with bx := s.top }
def popCx : Cpu W := { s.drop with cx := s.top }
def popDx : Cpu W := { s.drop with dx := s.top }
def popSi : Cpu W := { s.drop with si := s.top }
def popDi : Cpu W := { s.drop with di := s.top }
def popBp : Cpu W := { s.drop with bp := s.top }
def popDs : Cpu W := { s.drop with ds := s.top }
def popEs : Cpu W := { s.drop with es := s.top }

/-! ### The halves of a word -/

@[simp] theorem low_append (h l : Byte) : low (h ++ l) = l := BitVec.setWidth_append_eq_right

@[simp] theorem high_append (h l : Byte) : high (h ++ l) = h := BitVec.extractLsb'_append_eq_left

@[simp] theorem high_append_low (v : Word) : high v ++ low v = v := by
  rw [low, BitVec.setWidth_eq_extractLsb' (by decide)]
  exact BitVec.extractLsb'_append_extractLsb'

attribute [simp] al ah bl bh cl ch dl dh setAl setAh setBl setBh setCl setCh setDl setDh
  setCarry push top drop popAx popBx popCx popDx popSi popDi popBp popDs popEs

end Cpu

end Sbc386Ex

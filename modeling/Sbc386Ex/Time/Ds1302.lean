import Mathlib.Algebra.BigOperators.Group.List.Basic
import Sbc386Ex.Time.Calendar
import Sbc386Ex.Time.Returns

/-!
# Sbc386Ex.Time.Ds1302

The DS1302 at the other end of the wires, whose clock goes on while it is read.

Any number of seconds may go by between two commands. A command reads or writes its
register at one instant.
-/

namespace Sbc386Ex.Time

open Calendar

namespace Calendar

/-- The clock register a read command is for. -/
def get (cal : Calendar) (c : Byte) : Byte :=
  if c = 0x81 then cal.sec
  else if c = 0x83 then cal.min
  else if c = 0x85 then cal.hour
  else if c = 0x87 then cal.date
  else if c = 0x89 then cal.month
  else if c = 0x8B then cal.dow
  else if c = 0x8D then cal.year
  else 0

/-- The clock register a write command is for. -/
def set (cal : Calendar) (c v : Byte) : Calendar :=
  if c = 0x80 then { cal with sec := v }
  else if c = 0x82 then { cal with min := v }
  else if c = 0x84 then { cal with hour := v }
  else if c = 0x86 then { cal with date := v }
  else if c = 0x88 then { cal with month := v }
  else if c = 0x8A then { cal with dow := v }
  else if c = 0x8C then { cal with year := v }
  else cal

end Calendar

/-- The chip. `passing` is the seconds that will have gone by at each of the commands to come
since the one before; after the last of them none do. The RAM and the charger are left out. -/
structure Ds1302 where
  cal : Calendar
  control : Byte
  lines : Byte
  command : Option Byte
  passing : List Nat

namespace Ds1302

variable (w : Ds1302)

/-- What a read command finds. -/
def read (c : Byte) : Byte := if c = 0x8F then w.control else w.cal.get c

/-- What a write command does. Under write protection there is only the control register. -/
def write (c v : Byte) : Ds1302 :=
  if c = 0x8E then { w with control := v }
  else if w.control.msb then w
  else { w with cal := w.cal.set c v }

/-- The chip where the next command begins. -/
def advance : Ds1302 :=
  { w with
    cal := carry^[w.passing.headD 0] w.cal
    command := none
    passing := w.passing.tail }

/-- The first byte after RESET# is the command, the next what it writes. -/
instance : ThreeWire Ds1302 where
  latch w := w.lines
  pins w := w.lines
  resetOn w := { w with command := none }
  resetOff w := w.advance
  shiftOut b w :=
    match w.command with
    | none => { w with command := some b }
    | some c => w.write c b
  shiftIn w :=
    match w.command with
    | none => (0, w)
    | some c => (w.read c, w)

theorem chipRead_eq (c : Byte) : chipRead c w = (w.advance.read c, w.advance) := rfl

theorem chipWrite_eq (c v : Byte) : chipWrite c v w = w.advance.write c v := by
  show { ({ w.advance with command := some c } : Ds1302).write c v with command := none } = _
  simp only [write]
  split_ifs <;> rfl

/-- The seconds that have gone by at the `k`-th command from here. -/
def seconds (k : Nat) : Nat := (w.passing.take k).sum

theorem seconds_le (k : Nat) : w.seconds k ≤ w.passing.sum := by
  have hsum := List.sum_take_add_sum_drop w.passing k
  unfold seconds
  omega

theorem seconds_mono {i j : Nat} (h : i ≤ j) : w.seconds i ≤ w.seconds j := by
  have hsum := List.sum_take_add_sum_drop (w.passing.take j) i
  rw [List.take_take, Nat.min_eq_left h] at hsum
  unfold seconds
  omega

theorem advance_eq (k : Nat) : advance^[k] w =
    { w with
      cal := carry^[w.seconds k] w.cal
      command := if k = 0 then w.command else none
      passing := w.passing.drop k } := by
  induction k generalizing w with
  | zero => simp [seconds]
  | succ k ih =>
      obtain ⟨cal, control, lines, command, passing⟩ := w
      rw [Function.iterate_succ_apply, ih]
      cases passing with
      | nil => simp [advance, seconds]
      | cons n passing =>
          simp [advance, seconds, Nat.add_comm n, Function.iterate_add_apply]

theorem cal_advance (k : Nat) : (advance^[k] w).cal = carry^[w.seconds k] w.cal := by
  rw [advance_eq]

end Ds1302

end Sbc386Ex.Time

import Mathlib.Data.List.OfFn
import Sbc386Ex.Lib.Hoare
import Sbc386Ex.Machine

/-!
# Sbc386Ex.Fdc.Card

The floppy card: a 765 (`FDC9266`) behind a latch, four drives, and a world that decides
everything the driver cannot know.

The 765 obeys a command when its last byte is taken. SEEK and RECALIBRATE only set a head
moving; a motion that completes leaves the head on the cylinder it was sent to and an
interrupt to collect, one that fails leaves the head anywhere. SENSE INTERRUPT STATUS
collects an interrupt and tells where the controller thinks that head is now. READ, WRITE
and FORMAT happen where the head stands, and `taken` logs them with that cylinder.

`World` is a function of the whole card, so the main status register, the clock, the
heads and every answer of the medium may do anything at any look; no drive is ever
obliged to finish.
-/

namespace Sbc386Ex.Fdc

open Prog

/-! ### Commands -/

/-- The commands of the 765 the drivers use. -/
inductive Op
  | specify
  | recalibrate
  | sense
  | seek
  | write
  | read
  | format
  | invalid
  deriving Repr, DecidableEq

/-- The command a first byte names: MT, MF and SK are no part of it. -/
def Op.decode (b : Byte) : Op :=
  if b &&& 0x1F = 0x03 then .specify
  else if b &&& 0x1F = 0x07 then .recalibrate
  else if b &&& 0x1F = 0x08 then .sense
  else if b &&& 0x1F = 0x0F then .seek
  else if b &&& 0x1F = 0x05 then .write
  else if b &&& 0x1F = 0x06 then .read
  else if b &&& 0x1F = 0x0D then .format
  else .invalid

/-- How many bytes the command phase takes. -/
def Op.length : Op → Nat
  | specify | seek => 3
  | recalibrate => 2
  | write | read => 9
  | format => 6
  | sense | invalid => 1

/-- The drive the second byte of a command selects. -/
def unitOf (b : Byte) : Fin 4 := Fin.ofNat 4 b.toNat

/-- A unit is two bits of a byte. -/
theorem unit_le : 4 ≤ 2 ^ 8 := by decide

/-- A command that touched the medium, and the cylinder the head stood on. -/
structure Access where
  bytes : List Byte
  cyl : Byte
  deriving DecidableEq

def Access.op (a : Access) : Op := .decode (a.bytes.getD 0 0)
def Access.unit (a : Access) : Fin 4 := unitOf (a.bytes.getD 1 0)
/-- HD, bit 2 of the second byte. -/
def Access.side (a : Access) : Byte := (a.bytes.getD 1 0 >>> 2) &&& 1

/-! ### Drives -/

/-- A drive: the cylinder under its head, the controller's count of it, the cylinder a
motion under way goes to, and ST0 of an interrupt not yet collected. -/
structure Spindle where
  head : Byte
  pcn : Byte
  moving : Option Byte
  posted : Option Byte
  deriving DecidableEq

/-- What becomes of a motion in a moment. -/
inductive Motion
  | rest
  | step (head pcn : Byte)
  | arrive
  | fail (head pcn st0 : Byte)

/-- ST0 of a motion of drive `u` that completed: seek end, normal termination. -/
def seekEnd (u : Fin 4) : Byte := 0x20 ||| BitVec.ofFin (u.castLE unit_le)

/-- ST0 of one that did not, whatever else it says. -/
def abnormal (u : Fin 4) (st0 : Byte) : Byte :=
  0x40 ||| (st0 &&& 0xBC) ||| BitVec.ofFin (u.castLE unit_le)

/-- ST0 of the interrupt each drive raises when the controller comes out of reset. -/
def readyChanged (u : Fin 4) : Byte := 0xC0 ||| BitVec.ofFin (u.castLE unit_le)

namespace Spindle

variable (u : Fin 4) (d : Spindle)

def arrived (target : Byte) : Spindle :=
  { head := target, pcn := target, moving := none, posted := some (seekEnd u) }

/-- One moment of a drive. A count that was right stays right while the head steps; a
motion with nowhere to go can only complete. -/
def progress (m : Motion) : Spindle :=
  match d.moving with
  | none => d
  | some target =>
      if d.head = target ∧ d.pcn = target then
        match m with
        | .rest => d
        | _ => arrived u target
      else
        match m with
        | .rest => d
        | .step head pcn => { d with head := head, pcn := if d.pcn = d.head then head else pcn }
        | .arrive => arrived u target
        | .fail head pcn st0 =>
            { head := head, pcn := pcn, moving := none, posted := some (abnormal u st0) }

/-- A drive under a controller held in reset. -/
def stopped : Spindle := { d with pcn := 0, moving := none, posted := none }

end Spindle

/-! ### The controller -/

/-- The card. `busy` is the data phase of a command that moves data; `result` is what is
still to be read of an answer. -/
structure Card where
  latch : Byte
  command : List Byte
  result : List Byte
  busy : Bool
  drive : Fin 4 → Spindle
  taken : List Access
  now : Nat

/-- What one look at the card finds: the main status register, the timer, a data byte, what
the heads do meanwhile, the drive whose interrupt would be answered first, and the result
bytes a transfer would end with. -/
structure Moment where
  msr : Byte
  clock : Word
  data : Byte
  motion : Fin 4 → Motion
  first : Fin 4
  status : Fin 7 → Byte

namespace Card

variable (c : Card)

/-- Time passes. -/
def pass (m : Moment) : Card :=
  { c with now := c.now + 1, drive := fun u => (c.drive u).progress u (m.motion u) }

def setDrive (u : Fin 4) (d : Spindle) : Card :=
  { c with drive := Function.update c.drive u d }

/-- The interrupt SENSE answers with: the first, from drive `first` on. -/
def pending (first : Fin 4) : Option (Fin 4 × Byte) :=
  [first, first + 1, first + 2, first + 3].findSome? fun u =>
    (c.drive u).posted.map fun st0 => (u, st0)

/-- SENSE INTERRUPT STATUS: ST0 and the present cylinder, or 80h alone. -/
def collect (first : Fin 4) : Card :=
  match c.pending first with
  | none => { c with result := [0x80] }
  | some (u, st0) =>
      { c.setDrive u { c.drive u with posted := none } with result := [st0, (c.drive u).pcn] }

def send (u : Fin 4) (target : Byte) : Card :=
  c.setDrive u { c.drive u with moving := some target }

/-- A command taken whole is obeyed. -/
def obey (first : Fin 4) (bytes : List Byte) : Card :=
  match Op.decode (bytes.getD 0 0) with
  | .specify => c
  | .recalibrate => c.send (unitOf (bytes.getD 1 0)) 0
  | .sense => c.collect first
  | .seek => c.send (unitOf (bytes.getD 1 0)) (bytes.getD 2 0)
  | .write | .read | .format =>
      { c with
        busy := true
        taken := c.taken ++ [⟨bytes, (c.drive (unitOf (bytes.getD 1 0))).head⟩] }
  | .invalid => { c with result := [0x80] }

/-- A byte written to the data register: data in a data phase, else one more byte of a
command. -/
def takes (first : Fin 4) (v : Byte) : Card :=
  if c.busy then c
  else if (c.command ++ [v]).length < (Op.decode ((c.command ++ [v]).getD 0 0)).length then
    { c with command := c.command ++ [v] }
  else { c with command := [] }.obey first (c.command ++ [v])

/-- A byte read from it: the next of an answer, or what the data phase delivers. -/
def gives (data : Byte) : Byte × Card :=
  match c.result with
  | [] => (data, c)
  | b :: rest => (b, { c with result := rest })

/-- A byte written to the latch: bit 7 clear holds the controller in reset, its rising edge
starts it afresh with one interrupt a drive, and TC ends a data phase. -/
def latched (status : Fin 7 → Byte) (v : Byte) : Card :=
  if v &&& 0x80 = 0 then
    { c with
      latch := v, command := [], result := [], busy := false
      drive := fun u => (c.drive u).stopped }
  else if c.latch &&& 0x80 = 0 then
    { c with
      latch := v, command := [], result := [], busy := false
      drive := fun u => { c.drive u with posted := some (readyChanged u) } }
  else if v &&& 0x01 ≠ 0 ∧ c.busy then
    { c with latch := v, busy := false, result := List.ofFn status }
  else { c with latch := v }

/-- A controller that has not answered by a deadline has let go of what it was doing: it
holds no part of a command or of an answer. -/
def letGo : Card := { c with command := [], result := [], busy := false }

end Card

/-! ### The driver's side

`D` is the driver's own variables. -/

structure Host (D : Type) where
  world : Card → Moment
  card : Card
  mem : Mem
  vars : D

/-- The one way a routine does not return: a wait was given too little fuel. -/
inductive Hang
  | outOfFuel
  deriving Repr, DecidableEq

abbrev FdcM (D : Type) := Prog Hang (Host D)

variable {D : Type}

/-- A moment passes; every port access and every look at the timer is one. -/
def look : FdcM D Moment :=
  modifyGet fun h => (h.world h.card, { h with card := h.card.pass (h.world h.card) })

def inMsr : FdcM D Byte := do
  let m ← look
  pure m.msr

def readClock : FdcM D Word := do
  let m ← look
  pure m.clock

def outData (v : Byte) : FdcM D Unit := do
  let m ← look
  modify fun h => { h with card := h.card.takes m.first v }

def inData : FdcM D Byte := do
  let m ← look
  modifyGet fun h => ((h.card.gives m.data).1, { h with card := (h.card.gives m.data).2 })

def outLatch (v : Byte) : FdcM D Unit := do
  let m ← look
  modify fun h => { h with card := h.card.latched m.status v }

def letGo : FdcM D Unit := modify fun h => { h with card := h.card.letGo }

/-- A change of the driver's own variables. -/
def setVars (f : D → D) : FdcM D Unit := modify fun h => { h with vars := f h.vars }

def getVars : FdcM D D := do
  let h ← get
  pure h.vars

end Sbc386Ex.Fdc

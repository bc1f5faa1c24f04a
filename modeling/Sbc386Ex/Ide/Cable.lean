import Sbc386Ex.Ide.Frame

/-!
# Sbc386Ex.Ide.Cable

The two drives of the cable and the width of their data port. A soft reset returns
every drive to 16-bit transfers; only SET FEATURES, carried out, brings one to 8 bits.

Nothing else about the drives is laid down: what a present drive's registers show is
any sequence of values. A drive that has refused a SET FEATURES shows ERR until its
next command, and where there is no drive nothing drives the bus and it reads `FFh`.
-/

namespace Sbc386Ex.Ide

/-- What the drives do and the clock reads. -/
structure Conduct where
  present : Bool → Bool
  /-- the registers of the selected drive, reading by reading -/
  shows : Nat → Word → Byte
  /-- whether the `n`-th SET FEATURES is carried out -/
  takes : Nat → Bool
  clk : Nat → Word

structure Cable where
  conduct : Conduct
  reads : Nat
  sets : Nat
  ticks : Nat
  unit : Bool
  feature : Byte
  refused : Bool → Bool
  /-- the drive is in 8-bit mode -/
  mode8 : Bool → Bool

namespace Cable

/-- What a register of the selected drive reads. -/
def read (c : Cable) (port : Word) : Byte :=
  let v := c.conduct.shows c.reads port
  if c.conduct.present c.unit = false then 0xFF
  else if (port = IDESTTS ∨ port = IDEALTS) ∧ c.refused c.unit then v ||| 0x01
  else v

/-- SET FEATURES carried out: 01h turns 8-bit transfers on, 81h off. -/
def setMode (c : Cable) : Bool → Bool :=
  if c.feature = 0x01 then Function.update c.mode8 c.unit true
  else if c.feature = 0x81 then Function.update c.mode8 c.unit false
  else c.mode8

/-- A write of the command register. -/
def command (c : Cable) (al : Byte) : Cable :=
  if c.conduct.present c.unit = false then c
  else if al = IDE_CMD_SET_FEATURE then
    if c.conduct.takes c.sets then
      { c with sets := c.sets + 1, refused := Function.update c.refused c.unit false
               mode8 := c.setMode }
    else { c with sets := c.sets + 1, refused := Function.update c.refused c.unit true }
  else { c with refused := Function.update c.refused c.unit false }

/-- A write of the device control register: bit 2 is SRST. -/
def control (c : Cable) (al : Byte) : Cable :=
  if al &&& 0x04 ≠ 0 then { c with refused := fun _ => false, mode8 := fun _ => false } else c

instance : IdeBus Cable where
  inb port c := (c.read port, { c with reads := c.reads + 1 })
  outb port al c :=
    if port = IDEALTS then c.control al
    else if port = IDESTTS then c.command al
    else if port = IDEERR then { c with feature := al }
    else if port = IDEDRV then { c with unit := al.getLsbD 4 }
    else c
  tick c := (c.conduct.clk c.ticks, { c with ticks := c.ticks + 1 })

/-! ### What looking keeps, and what a transfer keeps -/

/-- Only the readings have gone on. -/
def Waiting (c c' : Cable) : Prop := ∃ r t, c' = { c with reads := r, ticks := t }

instance : Std.Refl Waiting := ⟨fun c => ⟨c.reads, c.ticks, rfl⟩⟩
instance : IsTrans Cable Waiting where
  trans := by
    rintro c c' c'' ⟨r, t, rfl⟩ ⟨r', t', rfl⟩
    exact ⟨r', t', rfl⟩

theorem watched_waiting : Watched Waiting where
  inb _ c := ⟨c.reads + 1, c.ticks, rfl⟩
  tick c := ⟨c.reads, c.ticks + 1, rfl⟩

/-- The widths are the same. -/
def SameMode (c c' : Cable) : Prop := c'.mode8 = c.mode8

instance : Std.Refl SameMode := ⟨fun _ => rfl⟩
instance : IsTrans Cable SameMode := ⟨fun _ _ _ h h' => h'.trans h⟩

theorem command_mode8 {c : Cable} {al : Byte} (hal : al ≠ IDE_CMD_SET_FEATURE) :
    (c.command al).mode8 = c.mode8 := by
  simp only [command, if_neg hal]
  split <;> rfl

theorem framed_sameMode : Framed SameMode where
  inb _ _ := rfl
  tick _ := rfl
  outb := by
    rintro port al ⟨halts, herr, hcmd⟩ c
    show (IdeBus.outb port al c).mode8 = c.mode8
    simp only [IdeBus.outb, if_neg halts, if_neg herr]
    split
    · next hstts => exact command_mode8 (hcmd hstts)
    split <;> rfl

/-! ### SET FEATURES -/

/-- The cable as the command finds it. -/
def asked (c : Cable) (u : Bool) : Cable := { c with unit := u, feature := 0x01 }

theorem mode8_command (c : Cable) (u v : Bool) :
    ((c.asked u).command IDE_CMD_SET_FEATURE).mode8 v = true ↔
      c.mode8 v = true ∨ (v = u ∧ c.conduct.present u = true ∧ c.conduct.takes c.sets = true) := by
  unfold command asked setMode
  cases c.conduct.present u <;> cases c.conduct.takes c.sets <;>
    simp [Function.update_apply, or_comm]

/-- A status without ERR is that of a drive that carried it out. -/
theorem takes_of_status {c c' : Cable} {u : Bool}
    (hw : Waiting ((c.asked u).command IDE_CMD_SET_FEATURE) c') (hst : c'.read IDESTTS &&& 0x01 = 0) :
    c.conduct.present u = true ∧ c.conduct.takes c.sets = true := by
  obtain ⟨r, t, rfl⟩ := hw
  have hor : ∀ v : Byte, (v ||| 0x01) &&& 0x01 ≠ 0 := by decide
  have hff : ¬ ((0xFF : Byte) &&& 0x01 = 0) := by decide
  unfold Cable.read command asked at hst
  cases hp : c.conduct.present u with
  | false => simp [hp] at hst
  | true =>
      cases ht : c.conduct.takes c.sets with
      | true => exact ⟨rfl, rfl⟩
      | false =>
          simp [hp, ht] at hst
          exact absurd hst (hor _)

end Cable

/-! ### A bench -/

/-- Obliging ATA drives on the units of `present`, and a clock too fast for any wait. -/
def Conduct.bench (present : Bool → Bool) : Conduct where
  present := present
  shows _ port :=
    if port = IDESTTS ∨ port = IDEALTS then 0x58
    else if port = IDESECC then 0x55
    else if port = IDELBAL then 0xAA
    else 0x00
  takes _ := true
  clk n := BitVec.ofNat 16 (200 * n)

/-- Blank memory in front of them. -/
def Host.cabled (c : Conduct) : Host Cable :=
  ⟨⟨c, 0, 0, 0, false, 0, fun _ => false, fun _ => false⟩, fun _ => 0, 0, []⟩

end Sbc386Ex.Ide

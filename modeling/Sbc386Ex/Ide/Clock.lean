import Sbc386Ex.Ide.Frame
import Sbc386Ex.Ide.Transfer

/-!
# Sbc386Ex.Ide.Clock

The driver never leaves the bus as it was: its waits read the tick count, and the
bus keeps how often that was done. `ideReadSector_later` and `ideWriteSector_later`
are what tells a request refused ahead of the driver from one that reached it.
-/

namespace Sbc386Ex.Ide

open Prog

/-! ### Every step keeps the count or raises it -/

/-- The clock has been read at least as often in the second state. -/
def LaterThan (d d' : Drive) : Prop := d.ticks ≤ d'.ticks

instance : Std.Refl LaterThan := ⟨fun _ => Nat.le_refl _⟩
instance : IsTrans Drive LaterThan := ⟨fun _ _ _ => Nat.le_trans⟩

theorem Drive.ticks_enter (d : Drive) (x : Xfer) : (d.enter x).ticks = d.ticks := by
  unfold Drive.enter
  cases (d.plan x.write x.unit x.lba).before <;> rfl

theorem Drive.ticks_next (d : Drive) (x : Xfer) : (d.next x).ticks = d.ticks := by
  unfold Drive.next
  split
  · rfl
  · exact Drive.ticks_enter d _

theorem Drive.ticks_finish (d : Drive) (x : Xfer) : (d.finish x).ticks = d.ticks := by
  unfold Drive.finish
  split
  · cases (d.plan x.write x.unit x.lba).after with
    | done => exact Drive.ticks_next d x
    | spoil r hr => rfl
    | wedge => rfl
  · exact Drive.ticks_next d x

theorem Drive.ticks_serve (d : Drive) (x : Xfer) : (d.serve x).ticks = d.ticks := by
  unfold Drive.serve Drive.advance
  split
  · rfl
  · exact Drive.ticks_finish _ x

theorem Drive.inb_later (port : Word) (d : Drive) : LaterThan d (IdeBus.inb port d).2 := by
  show d.ticks ≤ (IdeBus.inb port d).2.ticks
  simp only [IdeBus.inb]
  split
  · unfold Drive.status
    split <;> exact Nat.le_refl _
  split
  · unfold Drive.readData
    split
    · split
      · exact Nat.le_refl _
      · rw [Drive.ticks_serve]
    · exact Nat.le_refl _
  split <;> exact Nat.le_refl _

theorem Drive.outb_later (port : Word) (al : Byte) (d : Drive) :
    LaterThan d (IdeBus.outb port al d) := by
  show d.ticks ≤ (IdeBus.outb port al d).ticks
  simp only [IdeBus.outb]
  split
  · unfold Drive.command
    split
    · exact Nat.le_refl _
    split
    · rw [Drive.transfer, Drive.ticks_enter]
    split
    · rw [Drive.transfer, Drive.ticks_enter]
    · exact Nat.le_refl _
  split
  · unfold Drive.writeData
    split
    · split
      · exact Nat.le_refl _
      · rw [Drive.ticks_serve]
    · exact Nat.le_refl _
  repeat' split
  all_goals exact Nat.le_refl _

theorem framed_laterThan : Framed LaterThan where
  inb := Drive.inb_later
  outb _ := Drive.outb_later _ _
  tick d := Nat.le_succ d.ticks

/-! ### The driver raises it -/

/-- The first thing a wait does is read the clock. -/
theorem waitStatus_later {judge : Byte → Option Bool} {fuel : Nat} {h h' : Host Drive} {b : Bool}
    (hr : Runs (waitStatus judge fuel) h b h') : h.bus.ticks < h'.bus.ticks := by
  obtain ⟨bx, h₁, hclk, hloop⟩ := runs_bind.mp hr
  have hone : h.bus.ticks + 1 = h₁.bus.ticks := by
    obtain ⟨-, rfl⟩ := runs_modifyGet.mp hclk
    rfl
  have hrest : Keeps (OnBus LaterThan)
      (loop Hang.outOfFuel (waitRound judge bx : IdeM Drive _) fuel) :=
    Keeps.loop (framed_laterThan.toWatched.waitRound judge bx) fuel
  have hle : h₁.bus.ticks ≤ h'.bus.ticks := hrest hloop
  omega

/-- So the driver has not left the bus alone unless it was asked for nothing. -/
theorem ideReadSector_later {fuel : Nat} {al : Byte} {cx bx : Word} {lba : DWord} {n : Word}
    {h h' : Host Drive} {ax : Word} (hn : (n.setWidth 8 : Byte) ≠ 0)
    (hr : Runs (ideReadSector fuel al cx bx lba n) h ax h') : h.bus.ticks < h'.bus.ticks := by
  simp only [ideReadSector, hn, if_false] at hr
  obtain ⟨ok, h₁, hwait, hrest⟩ := runs_bind.mp hr
  refine Nat.lt_of_lt_of_le (waitStatus_later hwait) ?_
  cases ok with
  | false => exact framed_laterThan.ideError hrest
  | true => exact framed_laterThan.readTail fuel al cx bx lba (n.setWidth 8) hrest

theorem ideWriteSector_later {fuel : Nat} {al : Byte} {cx bx : Word} {lba : DWord} {n : Word}
    {h h' : Host Drive} {ax : Word} (hn : (n.setWidth 8 : Byte) ≠ 0)
    (hr : Runs (ideWriteSector fuel al cx bx lba n) h ax h') : h.bus.ticks < h'.bus.ticks := by
  simp only [ideWriteSector, hn, if_false] at hr
  obtain ⟨ok, h₁, hwait, hrest⟩ := runs_bind.mp hr
  refine Nat.lt_of_lt_of_le (waitStatus_later hwait) ?_
  cases ok with
  | false => exact framed_laterThan.ideError hrest
  | true => exact framed_laterThan.writeTail fuel al cx bx lba (n.setWidth 8) hrest

end Sbc386Ex.Ide

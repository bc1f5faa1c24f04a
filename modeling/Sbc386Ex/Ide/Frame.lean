import Sbc386Ex.Ide.Bus

/-!
# Sbc386Ex.Ide.Frame

What the transfer routines keep of the world outside the CPU: anything that no port
read, no look at the clock and none of the writes they make can change. They never
write the device control register or the features register, and no command of theirs
is SET FEATURES.
-/

namespace Sbc386Ex.Ide

open Prog

/-- A write the transfer routines may make. -/
def Plain (port : Word) (al : Byte) : Prop :=
  port ≠ IDEALTS ∧ port ≠ IDEERR ∧ (port = IDESTTS → al ≠ IDE_CMD_SET_FEATURE)

instance (port : Word) (al : Byte) : Decidable (Plain port al) :=
  inferInstanceAs (Decidable (_ ∧ _ ∧ (_ → _)))

theorem plain_of_ne {port : Word} {al : Byte}
    (h : port ≠ IDEALTS ∧ port ≠ IDEERR ∧ port ≠ IDESTTS) : Plain port al :=
  ⟨h.1, h.2.1, fun heq => absurd heq h.2.2⟩

variable {W : Type} [IdeBus W]

/-- `R` relates the bus before and after anything that only looks. -/
structure Watched (R : W → W → Prop) : Prop where
  inb : ∀ port w, R w (IdeBus.inb port w).2
  tick : ∀ w, R w (IdeBus.tick w).2

/-- `R` relates the bus before and after every access of a transfer routine. -/
structure Framed (R : W → W → Prop) : Prop extends Watched R where
  outb : ∀ {port al}, Plain port al → ∀ w, R w (IdeBus.outb port al w)

/-- `R` of the two buses. -/
def OnBus (R : W → W → Prop) (h h' : Host W) : Prop := R h.bus h'.bus

instance {R : W → W → Prop} [Std.Refl R] : Std.Refl (OnBus R) := ⟨fun h => refl_of R h.bus⟩
instance {R : W → W → Prop} [IsTrans W R] : IsTrans (Host W) (OnBus R) :=
  ⟨fun h h' h'' => IsTrans.trans h.bus h'.bus h''.bus⟩

variable {R : W → W → Prop}

/-! ### Looking -/

namespace Watched

theorem inPort (hR : Watched R) (port : Word) : Keeps (OnBus R) (inPort port : IdeM W Byte) := by
  intro h a h' hr
  obtain ⟨-, rfl⟩ := runs_modifyGet.mp hr
  exact hR.inb port h.bus

theorem timerCountLow (hR : Watched R) : Keeps (OnBus R) (timerCountLow : IdeM W Word) := by
  intro h a h' hr
  obtain ⟨-, rfl⟩ := runs_modifyGet.mp hr
  exact hR.tick h.bus

variable [Std.Refl R] [IsTrans W R]

theorem waitRound (hR : Watched R) (judge : Byte → Option Bool) (bx : Word) :
    Keeps (OnBus R) (waitRound judge bx : IdeM W (Option Bool)) := by
  refine (hR.inPort _).bind fun al => ?_
  cases judge al with
  | some zf => exact keeps_pure
  | none => exact hR.timerCountLow.bind fun cx => keeps_ite keeps_pure keeps_pure

theorem waitStatus (hR : Watched R) (judge : Byte → Option Bool) (fuel : Nat) :
    Keeps (OnBus R) (waitStatus judge fuel : IdeM W Bool) :=
  hR.timerCountLow.bind fun bx => Keeps.loop (hR.waitRound judge bx) fuel

end Watched

/-! ### The data and the task file -/

namespace Framed

theorem outPort (hR : Framed R) {port : Word} {al : Byte} (hp : Plain port al) :
    Keeps (OnBus R) (outPort port al : IdeM W Unit) :=
  keeps_modify fun h => hR.outb hp h.bus

variable [Std.Refl R]

omit [IdeBus W] in
theorem storeByte (es di : Word) (al : Byte) : Keeps (OnBus R) (storeByte es di al : IdeM W Unit) :=
  keeps_modify fun h => refl_of R h.bus

omit [IdeBus W] in
theorem loadByte (ds si : Word) : Keeps (OnBus R) (loadByte ds si : IdeM W Byte) := by
  intro h a h' hr
  obtain ⟨-, rfl⟩ := runs_modifyGet.mp hr
  exact refl_of R h.bus

omit [IdeBus W] in
theorem hdStatus (bl : Byte) :
    Keeps (OnBus R) (modify fun h => { h with hdStatus := bl } : IdeM W Unit) :=
  keeps_modify fun h => refl_of R h.bus

variable [IsTrans W R]

theorem readDataLoop (hR : Framed R) (es : Word) :
    ∀ n di, Keeps (OnBus R) (readDataLoop es n di : IdeM W Word)
  | 0, _ => keeps_pure
  | n + 1, di => (hR.toWatched.inPort _).bind fun _ =>
      (storeByte _ _ _).bind fun _ => hR.readDataLoop es n (di + 1)

theorem writeDataLoop (hR : Framed R) (ds : Word) :
    ∀ n si, Keeps (OnBus R) (writeDataLoop ds n si : IdeM W Word)
  | 0, _ => keeps_pure
  | n + 1, si => (loadByte _ _).bind fun al =>
      (hR.outPort (plain_of_ne (by decide))).bind fun _ =>
        hR.writeDataLoop ds n (si + 1)

theorem readSectors (hR : Framed R) (fuel : Nat) (es : Word) :
    ∀ n bx, Keeps (OnBus R) (readSectors fuel es n bx : IdeM W Bool)
  | 0, _ => keeps_pure
  | n + 1, bx => (hR.toWatched.waitStatus _ fuel).bind fun _ => keeps_ite
      ((hR.readDataLoop es 512 bx).bind fun _ => hR.readSectors fuel es n _) keeps_pure

theorem writeSectors (hR : Framed R) (fuel : Nat) (ds : Word) :
    ∀ n bx, Keeps (OnBus R) (writeSectors fuel ds n bx : IdeM W Bool)
  | 0, _ => keeps_pure
  | n + 1, bx => (hR.toWatched.waitStatus _ fuel).bind fun _ => keeps_ite
      ((hR.writeDataLoop ds 512 bx).bind fun _ => hR.writeSectors fuel ds n _) keeps_pure

theorem ideError (hR : Framed R) : Keeps (OnBus R) (ideError : IdeM W Word) := by
  have hcode : Keeps (OnBus R) (ideErrorCode : IdeM W Byte) :=
    (hR.toWatched.inPort _).bind fun _ => keeps_ite keeps_pure (keeps_ite keeps_pure
      (keeps_ite keeps_pure ((hR.toWatched.inPort _).bind fun _ => keeps_pure)))
  exact hcode.bind fun bl => (hdStatus bl).bind fun _ => keeps_pure

omit [Std.Refl R] in
theorem wrLba (hR : Framed R) (lba : DWord) (bh bl : Byte) :
    Keeps (OnBus R) (wrLba lba bh bl : IdeM W Unit) :=
  (hR.outPort (plain_of_ne (by decide))).bind fun _ =>
    (hR.outPort (plain_of_ne (by decide))).bind fun _ =>
      (hR.outPort (plain_of_ne (by decide))).bind fun _ =>
        (hR.outPort (plain_of_ne (by decide))).bind fun _ => hR.outPort (plain_of_ne (by decide))

/-! ### The two routines -/

/-- What `IDE_READ_SECTOR` does after its first wait. -/
theorem readTail (hR : Framed R) (fuel : Nat) (al : Byte) (cx bx : Word) (lba : DWord)
    (count : Byte) : Keeps (OnBus R) (do
      Ide.wrLba lba al count
      Ide.outPort IDESTTS IDE_CMD_PIO_READ
      if ← Ide.readSectors fuel cx count.toNat bx then pure 0 else Ide.ideError : IdeM W Word) :=
  (hR.wrLba _ _ _).bind fun _ => (hR.outPort (by decide)).bind fun _ =>
    (hR.readSectors _ _ _ _).bind fun _ => keeps_ite keeps_pure hR.ideError

/-- What `IDE_WRITE_SECTOR` does after its first wait. -/
theorem writeTail (hR : Framed R) (fuel : Nat) (al : Byte) (cx bx : Word) (lba : DWord)
    (count : Byte) : Keeps (OnBus R) (do
      Ide.wrLba lba al count
      Ide.outPort IDESTTS IDE_CMD_PIO_WRITE
      if ← Ide.writeSectors fuel cx count.toNat bx then
        if ← ideWaitNotBusy fuel then pure 0 else Ide.ideError
      else Ide.ideError : IdeM W Word) :=
  (hR.wrLba _ _ _).bind fun _ => (hR.outPort (by decide)).bind fun _ =>
    (hR.writeSectors _ _ _ _).bind fun _ => keeps_ite
      ((hR.toWatched.waitStatus _ _).bind fun _ => keeps_ite keeps_pure hR.ideError) hR.ideError

theorem ideReadSector (hR : Framed R) (fuel : Nat) (al : Byte) (cx bx : Word) (lba : DWord)
    (n : Word) : Keeps (OnBus R) (ideReadSector fuel al cx bx lba n : IdeM W Word) :=
  keeps_ite keeps_pure ((hR.toWatched.waitStatus _ _).bind fun _ =>
    keeps_ite (hR.readTail fuel al cx bx lba _) hR.ideError)

theorem ideWriteSector (hR : Framed R) (fuel : Nat) (al : Byte) (cx bx : Word) (lba : DWord)
    (n : Word) : Keeps (OnBus R) (ideWriteSector fuel al cx bx lba n : IdeM W Word) :=
  keeps_ite keeps_pure ((hR.toWatched.waitStatus _ _).bind fun _ =>
    keeps_ite (hR.writeTail fuel al cx bx lba _) hR.ideError)

end Framed

end Sbc386Ex.Ide

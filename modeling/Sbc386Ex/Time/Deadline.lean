import Mathlib.Tactic.IntervalCases
import Sbc386Ex.Fdc.DiskFdc
import Sbc386Ex.Int13.HdInit
import Sbc386Ex.Lib.Hoare
import Sbc386Ex.Time.Tick

/-!
# Sbc386Ex.Time.Deadline

The bounded waits of the BIOS on a timeline: whatever device they wait for, and whatever
happens to the tick count between two looks at the world.

`TimesOut` is the ways a wait can end as timed out, one for each wait of the source, with
the look its starting snapshot was taken at and the look it gave up at.
-/

namespace Sbc386Ex.Time

open Prog Ide Fdc Int13

/-! ### The timeline under a driver -/

/-- A bus whose tick count is that of a timeline. `last` is a ghost: the byte read last. -/
structure TimedBus (W : Type) where
  bus : W
  line : Timeline
  now : Nat
  last : Byte

instance {W : Type} [IdeBus W] : IdeBus (TimedBus W) where
  inb port t :=
    ((IdeBus.inb port t.bus).1,
      { t with
        bus := (IdeBus.inb port t.bus).2
        now := t.now + 1
        last := (IdeBus.inb port t.bus).1 })
  outb port al t := { t with bus := IdeBus.outb port al t.bus, now := t.now + 1 }
  tick t :=
    ((t.line.clock t.now).low, { t with bus := (IdeBus.tick t.bus).2, now := t.now + 1 })

/-- A floppy card whose clock is that of a timeline. -/
def ShowsTime (τ : Timeline) {D : Type} (h : Fdc.Host D) : Prop :=
  ∀ c, (h.world c).clock = (τ.clock c.now).low

/-! ### `short_delay` of INT 15h -/

def T1_BAILOUT : Word := 8

/-- What `short_delay` sees: the tick count, and counter 1 at each look. -/
structure Delay where
  line : Timeline
  now : Nat
  t1 : Nat → Word

abbrev DelayM := Prog Ide.Hang Delay

/-- `t1_read` -/
def t1Read : DelayM Word := modifyGet fun d => (d.t1 d.now, { d with now := d.now + 1 })

def delayTick : DelayM Word :=
  modifyGet fun d => ((d.line.clock d.now).low, { d with now := d.now + 1 })

/-- `.1` of `short_delay`, with the sample before in `di` and the microseconds still to wait
in `esi`; `true` if they were waited out, `false` if counter 1 was given up. -/
def shortDelayLoop (cx : Word) : Nat → Word → DWord → DelayM Bool
  | 0, _, _ => throw .outOfFuel
  | fuel + 1, di, esi => do
      let ax ← t1Read
      let ebx : DWord := (di - ax).setWidth 32
      if esi ≤ ebx then pure true
      else do
        let dx ← delayTick
        if dx - cx < T1_BAILOUT then shortDelayLoop cx fuel ax (esi - ebx) else pure false

/-- `short_delay` of `CX:DX` microseconds. -/
def shortDelay (fuel : Nat) (cx dx : Word) : DelayM Bool := do
  let start ← delayTick
  let di ← t1Read
  shortDelayLoop start fuel di (cx ++ dx)

/-! ### Timing out -/

/-- `TimesOut τ t a b`: on `τ` a wait of `t` ticks that took its snapshot at look `a` ends
as timed out at look `b`. -/
inductive TimesOut (τ : Timeline) : Nat → Nat → Nat → Prop
  | ideWaitNotBusy {W : Type} [IdeBus W] {h h' : Ide.Host (TimedBus W)} {fuel : Nat}
      (hline : h.bus.line = τ) (hr : Runs (ideWaitNotBusy fuel) h false h') :
      TimesOut τ IDE_TIMEOUT.toNat h.bus.now (h'.bus.now - 1)
  /-- the last status had no error in it -/
  | ideWaitDrq {W : Type} [IdeBus W] {h h' : Ide.Host (TimedBus W)} {fuel : Nat}
      (hline : h.bus.line = τ) (hr : Runs (ideWaitDrq fuel) h false h')
      (hlast : dataRequested h'.bus.last = none) :
      TimesOut τ IDE_TIMEOUT.toNat h.bus.now (h'.bus.now - 1)
  | hdWaitNotBusy {W : Type} [IdeBus W] {h h' : Ide.Host (TimedBus W)} {fuel : Nat}
      {ticks : Word} (hline : h.bus.line = τ) (hr : Runs (hdWaitNotBusy ticks fuel) h false h') :
      TimesOut τ ticks.toNat h.bus.now (h'.bus.now - 1)
  | fdWait {h h' : Fdc.Host DiskFdc.Bda} {fuel : Nat} {want : Byte} (hclock : ShowsTime τ h)
      (hr : Runs (DiskFdc.fdWait fuel want) h false h') :
      TimesOut τ DiskFdc.FD_TIMEOUT.toNat h.card.now (h'.card.now - 1)
  /-- the last question was answered: it was not the wait for a byte that gave up -/
  | fdSeekDone {h h₁ h₂ h₃ h' : Fdc.Host DiskFdc.Bda} {fuel : Nat} {drive : Fin 4} {t0 : Word}
      {answer : Byte × Byte} (hclock : ShowsTime τ h) (hstart : Runs readClock h t0 h₁)
      (hrounds : Rounds (DiskFdc.fdSeekDoneRound fuel drive t0) h₁ h₂)
      (hsense : Runs (DiskFdc.fdSense fuel) h₂ (some answer) h₃)
      (hlast : Runs (DiskFdc.fdSeekDoneRound fuel drive t0) h₂ (some none) h') :
      TimesOut τ DiskFdc.FD_TIMEOUT.toNat h.card.now (h'.card.now - 1)
  /-- the motor was not running yet, and the latch was written first -/
  | fdSpinup {h h' : Fdc.Host DiskFdc.Bda} {fuel : Nat} {drive : Fin 4}
      {fdtype : DiskFdc.FdType} (hclock : ShowsTime τ h)
      (hr : Runs (DiskFdc.fdMotorOn fuel drive fdtype) h () h') (hspun : h.card.now < h'.card.now) :
      TimesOut τ DiskFdc.FD_SPINUP.toNat (h.card.now + 1) (h'.card.now - 1)
  | shortDelay {d d' : Delay} {fuel : Nat} {cx dx : Word} (hline : d.line = τ)
      (hr : Runs (shortDelay fuel cx dx) d false d') :
      TimesOut τ T1_BAILOUT.toNat d.now (d'.now - 1)

/-- The distance a wait saw when it gave up. -/
def Expired (τ : Timeline) (t a b : Nat) : Prop :=
  a ≤ b ∧ t ≤ ((τ.clock b).low - (τ.clock a).low).toNat

/-- A comparison that ends a wait. -/
theorem expired_of_not_lt {τ : Timeline} {a b : Nat} {t : Word} (hab : a ≤ b)
    (h : ¬ (τ.clock b).low - (τ.clock a).low < t) : Expired τ t.toNat a b :=
  ⟨hab, BitVec.not_lt.mp h⟩

/-! ### The IDE waits -/

section Ide

variable {τ : Timeline} {W : Type} [IdeBus W]

/-- In a wait whose snapshot was taken at look `a`. -/
def InWait (τ : Timeline) (a : Nat) (h : Ide.Host (TimedBus W)) : Prop :=
  h.bus.line = τ ∧ a < h.bus.now

/-- A wait that failed, but not by a status it takes for an error, was timed out. -/
def Failed (judge : Byte → Option Bool) (τ : Timeline) (a : Nat) (zf : Bool)
    (h : Ide.Host (TimedBus W)) : Prop :=
  zf = false → judge h.bus.last ≠ some false → Expired τ IDE_TIMEOUT.toNat a (h.bus.now - 1)

/-- The snapshot. -/
theorem timerCountLow_timed {h h' : Ide.Host (TimedBus W)} {t : Word} (hline : h.bus.line = τ)
    (hr : Runs timerCountLow h t h') :
    t = (τ.clock h.bus.now).low ∧ h'.bus.now = h.bus.now + 1 ∧ h'.bus.line = τ ∧
      h'.bus.last = h.bus.last := by
  obtain ⟨rfl, rfl⟩ := runs_modifyGet.mp hr
  exact ⟨hline ▸ rfl, rfl, hline, rfl⟩

theorem inPort_timed {h h' : Ide.Host (TimedBus W)} {port : Word} {al : Byte}
    (hline : h.bus.line = τ) (hr : Runs (inPort port) h al h') :
    h'.bus.last = al ∧ h'.bus.now = h.bus.now + 1 ∧ h'.bus.line = τ := by
  obtain ⟨rfl, rfl⟩ := runs_modifyGet.mp hr
  exact ⟨rfl, rfl, hline⟩

/-- A round that does not decide by the status compares the time. -/
theorem waitRound_timed {judge : Byte → Option Bool} {a : Nat} :
    Triple (InWait τ a) (waitRound judge (τ.clock a).low : IdeM (TimedBus W) (Option Bool))
      fun r h => match r with
        | none => InWait τ a h
        | some zf => Failed judge τ a zf h := by
  intro h r h' hin hr
  obtain ⟨al, h₁, hport, hr⟩ := runs_bind.mp hr
  obtain ⟨hal, hnow, hline⟩ := inPort_timed hin.1 hport
  have hpast : a < h₁.bus.now := by have := hin.2; omega
  cases hj : judge al with
  | some zf =>
      rw [hj] at hr
      obtain ⟨rfl, rfl⟩ := runs_pure.mp hr
      intro hzf hno
      rw [hal, hj, hzf] at hno
      exact absurd rfl hno
  | none =>
      rw [hj] at hr
      obtain ⟨cx, h₂, hclk, hr⟩ := runs_bind.mp hr
      obtain ⟨rfl, hnow', hline', -⟩ := timerCountLow_timed hline hclk
      rcases runs_ite.mp hr with ⟨-, hr⟩ | ⟨hfar, hr⟩
      · obtain ⟨rfl, rfl⟩ := runs_pure.mp hr
        exact ⟨hline', by omega⟩
      · obtain ⟨rfl, rfl⟩ := runs_pure.mp hr
        intro _ _
        rw [hnow', Nat.add_sub_cancel]
        exact expired_of_not_lt hpast.le hfar

theorem waitStatus_expired {judge : Byte → Option Bool} {fuel : Nat}
    {h h' : Ide.Host (TimedBus W)} (hline : h.bus.line = τ)
    (hr : Runs (waitStatus judge fuel) h false h') (hlast : judge h'.bus.last ≠ some false) :
    Expired τ IDE_TIMEOUT.toNat h.bus.now (h'.bus.now - 1) := by
  obtain ⟨bx, h₁, hclk, hloop⟩ := runs_bind.mp hr
  obtain ⟨rfl, hnow, hline', -⟩ := timerCountLow_timed hline hclk
  have hin : InWait τ h.bus.now h₁ := ⟨hline', by omega⟩
  exact Triple.loop (R := Failed judge τ h.bus.now)
    (Triple.post waitRound_timed fun r _ hr => by cases r <;> exact hr) fuel hin hloop rfl hlast

/-- `ide_wait_not_busy` takes no status for an error. -/
theorem notBusy_ne_false (al : Byte) : notBusy al ≠ some false := by
  unfold notBusy
  split <;> simp

/-- The wait of `hdinit.c`, which gives up one tick later. -/
theorem hdWaitNotBusy_expired {ticks : Word} {fuel : Nat} {h h' : Ide.Host (TimedBus W)}
    (hline : h.bus.line = τ) (hr : Runs (hdWaitNotBusy ticks fuel) h false h') :
    Expired τ ticks.toNat h.bus.now (h'.bus.now - 1) := by
  obtain ⟨start, h₁, hclk, hloop⟩ := runs_bind.mp hr
  obtain ⟨rfl, hnow, hline', -⟩ := timerCountLow_timed hline hclk
  have hin : InWait τ h.bus.now h₁ := ⟨hline', by omega⟩
  refine Triple.loop (I := InWait τ h.bus.now)
    (R := fun zf h'' => zf = false → Expired τ ticks.toNat h.bus.now (h''.bus.now - 1))
    (fun s r s' hin hr => ?_) fuel hin hloop rfl
  obtain ⟨al, h₂, hport, hr⟩ := runs_bind.mp hr
  obtain ⟨-, hnow₂, hline₂⟩ := inPort_timed hin.1 hport
  have hpast : h.bus.now < h₂.bus.now := by have := hin.2; omega
  rcases runs_ite.mp hr with ⟨-, hr⟩ | ⟨-, hr⟩
  · obtain ⟨rfl, rfl⟩ := runs_pure.mp hr
    intro hzf
    cases hzf
  · obtain ⟨t, h₃, hclk₃, hr⟩ := runs_bind.mp hr
    obtain ⟨rfl, hnow₃, hline₃, -⟩ := timerCountLow_timed hline₂ hclk₃
    rcases runs_ite.mp hr with ⟨hfar, hr⟩ | ⟨-, hr⟩
    · obtain ⟨rfl, rfl⟩ := runs_pure.mp hr
      intro _
      rw [hnow₃, Nat.add_sub_cancel]
      exact expired_of_not_lt hpast.le (BitVec.not_lt.mpr (BitVec.le_of_lt hfar))
    · obtain ⟨rfl, rfl⟩ := runs_pure.mp hr
      exact ⟨hline₃, by omega⟩

end Ide

/-! ### The floppy waits -/

section Fdc

variable {τ : Timeline} {D : Type}

/-- The card looks at the same world, no earlier. -/
def Later (h h' : Fdc.Host D) : Prop := h'.world = h.world ∧ h.card.now ≤ h'.card.now

instance : Std.Refl (Later (D := D)) := ⟨fun _ => ⟨rfl, Nat.le_refl _⟩⟩
instance : IsTrans (Fdc.Host D) Later :=
  ⟨fun _ _ _ h h' => ⟨h'.1.trans h.1, h.2.trans h'.2⟩⟩

theorem ShowsTime.later {h h' : Fdc.Host D} (hc : ShowsTime τ h) (hl : Later h h') :
    ShowsTime τ h' := by
  intro c
  rw [hl.1]
  exact hc c

/-- A look at the clock. -/
theorem readClock_timed {h h' : Fdc.Host D} {t : Word} (hc : ShowsTime τ h)
    (hr : Runs readClock h t h') :
    t = (τ.clock h.card.now).low ∧ h'.card.now = h.card.now + 1 ∧ h'.world = h.world := by
  obtain ⟨m, h₁, hlook, hr⟩ := runs_bind.mp hr
  obtain ⟨rfl, rfl⟩ := runs_modifyGet.mp hlook
  obtain ⟨rfl, rfl⟩ := runs_pure.mp hr
  exact ⟨hc h.card, rfl, rfl⟩

/-! #### Everything is no earlier -/

theorem look_later : Keeps Later (look : FdcM D Moment) := by
  intro h m h' hr
  obtain ⟨-, rfl⟩ := runs_modifyGet.mp hr
  exact ⟨rfl, Nat.le_succ _⟩

theorem inMsr_later : Keeps Later (inMsr : FdcM D Byte) := look_later.bind fun _ => keeps_pure

theorem readClock_later : Keeps Later (readClock : FdcM D Word) :=
  look_later.bind fun _ => keeps_pure

theorem letGo_later : Keeps Later (letGo : FdcM D Unit) :=
  keeps_modify fun _ => ⟨rfl, Nat.le_refl _⟩

theorem setVars_later (f : D → D) : Keeps Later (setVars f : FdcM D Unit) :=
  keeps_modify fun _ => ⟨rfl, Nat.le_refl _⟩

theorem now_obey (c : Card) (first : Fin 4) (bytes : List Byte) :
    (c.obey first bytes).now = c.now := by
  unfold Card.obey
  cases Op.decode (bytes.getD 0 0) with
  | sense =>
      simp only [Card.collect]
      cases c.pending first <;> rfl
  | _ => rfl

theorem now_takes (c : Card) (first : Fin 4) (v : Byte) : (c.takes first v).now = c.now := by
  unfold Card.takes
  split
  · rfl
  split
  · rfl
  · rw [now_obey]

theorem now_gives (c : Card) (data : Byte) : (c.gives data).2.now = c.now := by
  unfold Card.gives
  cases c.result <;> rfl

theorem outData_later (v : Byte) : Keeps Later (outData v : FdcM D Unit) :=
  look_later.bind fun m => keeps_modify fun h => ⟨rfl, (now_takes h.card m.first v).ge⟩

theorem inData_later : Keeps Later (inData : FdcM D Byte) := by
  refine look_later.bind fun m => ?_
  intro h b h' hr
  obtain ⟨-, rfl⟩ := runs_modifyGet.mp hr
  exact ⟨rfl, (now_gives h.card m.data).ge⟩

theorem fdWaitRound_later (want : Byte) (t0 : Word) :
    Keeps Later (DiskFdc.fdWaitRound want t0) :=
  inMsr_later.bind fun _ => keeps_ite keeps_pure <|
    readClock_later.bind fun _ => keeps_ite keeps_pure <| letGo_later.bind fun _ => keeps_pure

theorem fdWait_later (fuel : Nat) (want : Byte) : Keeps Later (DiskFdc.fdWait fuel want) :=
  readClock_later.bind fun t0 => Keeps.loop (fdWaitRound_later want t0) fuel

theorem fdOut_later (fuel : Nat) (v : Byte) : Keeps Later (DiskFdc.fdOut fuel v) :=
  (fdWait_later fuel 0x80).bind fun _ =>
    keeps_ite ((outData_later v).bind fun _ => keeps_pure) keeps_pure

theorem fdIn_later (fuel : Nat) : Keeps Later (DiskFdc.fdIn fuel) := by
  refine (fdWait_later fuel 0xC0).bind fun ok => keeps_ite ?_ keeps_pure
  rw [map_eq_pure_bind]
  exact inData_later.bind fun _ => keeps_pure

theorem fdSense_later (fuel : Nat) : Keeps Later (DiskFdc.fdSense fuel) := by
  refine (fdOut_later fuel 0x08).bind fun ok => keeps_ite ?_ keeps_pure
  refine (fdIn_later fuel).bind fun st0 => ?_
  cases st0 with
  | none => exact keeps_pure
  | some st0 =>
      refine keeps_ite keeps_pure ((fdIn_later fuel).bind fun pcn => ?_)
      cases pcn <;> exact keeps_pure

theorem fdSeekDoneRound_later (fuel : Nat) (drive : Fin 4) (t0 : Word) :
    Keeps Later (DiskFdc.fdSeekDoneRound fuel drive t0) := by
  refine (fdSense_later fuel).bind fun r => ?_
  cases r with
  | none => exact keeps_pure
  | some answer =>
      exact keeps_ite keeps_pure (readClock_later.bind fun _ => keeps_ite keeps_pure keeps_pure)

/-! #### Giving up -/

/-- In a wait whose snapshot was taken at look `a`. -/
def InFdWait (τ : Timeline) (a : Nat) (h : Fdc.Host D) : Prop := ShowsTime τ h ∧ a < h.card.now

theorem InFdWait.later {a : Nat} {h h' : Fdc.Host D} (hin : InFdWait τ a h) (hl : Later h h') :
    InFdWait τ a h' :=
  ⟨hin.1.later hl, Nat.lt_of_lt_of_le hin.2 hl.2⟩

/-- The snapshot. -/
theorem readClock_start {h h' : Fdc.Host D} {t : Word} (hc : ShowsTime τ h)
    (hr : Runs readClock h t h') : t = (τ.clock h.card.now).low ∧ InFdWait τ h.card.now h' := by
  obtain ⟨ht, hnow, -⟩ := readClock_timed hc hr
  exact ⟨ht, hc.later (readClock_later hr), by omega⟩

theorem fdWaitRound_expired {a : Nat} {want : Byte} {h h' : Fdc.Host DiskFdc.Bda}
    (hin : InFdWait τ a h)
    (hr : Runs (DiskFdc.fdWaitRound want (τ.clock a).low) h (some false) h') :
    Expired τ DiskFdc.FD_TIMEOUT.toNat a (h'.card.now - 1) := by
  obtain ⟨msr, h₁, hmsr, hr⟩ := runs_bind.mp hr
  have hin₁ := hin.later (inMsr_later hmsr)
  rcases runs_ite.mp hr with ⟨-, hr⟩ | ⟨-, hr⟩
  · cases (runs_pure.mp hr).1
  obtain ⟨t, h₂, hclk, hr⟩ := runs_bind.mp hr
  obtain ⟨rfl, hnow, -⟩ := readClock_timed hin₁.1 hclk
  rcases runs_ite.mp hr with ⟨-, hr⟩ | ⟨hfar, hr⟩
  · cases (runs_pure.mp hr).1
  obtain ⟨_, h₃, hlet, hr⟩ := runs_bind.mp hr
  obtain rfl := runs_modify.mp hlet
  obtain ⟨-, rfl⟩ := runs_pure.mp hr
  show Expired τ _ a (h₂.card.now - 1)
  rw [hnow, Nat.add_sub_cancel]
  exact expired_of_not_lt hin₁.2.le hfar

theorem fdWait_expired {fuel : Nat} {want : Byte} {h h' : Fdc.Host DiskFdc.Bda}
    (hc : ShowsTime τ h) (hr : Runs (DiskFdc.fdWait fuel want) h false h') :
    Expired τ DiskFdc.FD_TIMEOUT.toNat h.card.now (h'.card.now - 1) := by
  obtain ⟨t0, h₁, hclk, hloop⟩ := runs_bind.mp hr
  obtain ⟨rfl, hin⟩ := readClock_start hc hclk
  obtain ⟨h₂, hrounds, hlast⟩ := hloop.rounds
  exact fdWaitRound_expired
    (hin.later (hrounds.keeps (fdWaitRound_later want _))) hlast

theorem fdSeekDone_expired {h h₁ h₂ h₃ h' : Fdc.Host DiskFdc.Bda} {fuel : Nat} {drive : Fin 4}
    {t0 : Word} {answer : Byte × Byte} (hc : ShowsTime τ h) (hstart : Runs readClock h t0 h₁)
    (hrounds : Rounds (DiskFdc.fdSeekDoneRound fuel drive t0) h₁ h₂)
    (hsense : Runs (DiskFdc.fdSense fuel) h₂ (some answer) h₃)
    (hlast : Runs (DiskFdc.fdSeekDoneRound fuel drive t0) h₂ (some none) h') :
    Expired τ DiskFdc.FD_TIMEOUT.toNat h.card.now (h'.card.now - 1) := by
  obtain ⟨rfl, hin⟩ := readClock_start hc hstart
  have hin₃ := (hin.later (hrounds.keeps (fdSeekDoneRound_later fuel drive _))).later
    (fdSense_later fuel hsense)
  obtain ⟨r, h₄, hsense', hr⟩ := runs_bind.mp hlast
  obtain ⟨rfl, rfl⟩ := hsense.det hsense'
  rcases runs_ite.mp hr with ⟨-, hr⟩ | ⟨-, hr⟩
  · cases (runs_pure.mp hr).1
  obtain ⟨t, h₅, hclk, hr⟩ := runs_bind.mp hr
  obtain ⟨rfl, hnow, -⟩ := readClock_timed hin₃.1 hclk
  rcases runs_ite.mp hr with ⟨-, hr⟩ | ⟨hfar, hr⟩
  · cases (runs_pure.mp hr).1
  obtain ⟨-, rfl⟩ := runs_pure.mp hr
  rw [hnow, Nat.add_sub_cancel]
  exact expired_of_not_lt hin₃.2.le hfar

theorem fdSpinupRound_later (t0 : Word) : Keeps Later (DiskFdc.fdSpinupRound t0) :=
  readClock_later.bind fun _ => keeps_ite keeps_pure keeps_pure

/-- The latch is written, at one look. -/
theorem fdLatch_timed {v : Byte} {h h' : Fdc.Host DiskFdc.Bda} (hc : ShowsTime τ h)
    (hr : Runs (DiskFdc.fdLatch v) h () h') : ShowsTime τ h' ∧ h'.card.now = h.card.now + 1 := by
  obtain ⟨_, h₁, hset, hr⟩ := runs_bind.mp hr
  obtain rfl := runs_modify.mp hset
  obtain ⟨m, h₂, hlook, hr⟩ := runs_bind.mp hr
  obtain ⟨rfl, rfl⟩ := runs_modifyGet.mp hlook
  obtain rfl := runs_modify.mp hr
  refine ⟨hc, ?_⟩
  simp only [Card.latched]
  split_ifs <;> rfl

/-- The spin-up, which nothing else can end. -/
theorem fdSpinup_expired {a fuel : Nat} {h h' : Fdc.Host DiskFdc.Bda} (hin : InFdWait τ a h)
    (hr : Runs (loop .outOfFuel (DiskFdc.fdSpinupRound (τ.clock a).low) fuel) h () h') :
    Expired τ DiskFdc.FD_SPINUP.toNat a (h'.card.now - 1) := by
  obtain ⟨h₁, hrounds, hlast⟩ := hr.rounds
  have hin₁ := hin.later (hrounds.keeps (fdSpinupRound_later _))
  obtain ⟨t, h₂, hclk, hr⟩ := runs_bind.mp hlast
  obtain ⟨rfl, hnow, -⟩ := readClock_timed hin₁.1 hclk
  rcases runs_ite.mp hr with ⟨-, hr⟩ | ⟨hfar, hr⟩
  · cases (runs_pure.mp hr).1
  obtain ⟨-, rfl⟩ := runs_pure.mp hr
  rw [hnow, Nat.add_sub_cancel]
  exact expired_of_not_lt hin₁.2.le hfar

theorem fdMotorOn_expired {fuel : Nat} {drive : Fin 4} {fdtype : DiskFdc.FdType}
    {h h' : Fdc.Host DiskFdc.Bda} (hc : ShowsTime τ h)
    (hr : Runs (DiskFdc.fdMotorOn fuel drive fdtype) h () h') (hspun : h.card.now < h'.card.now) :
    Expired τ DiskFdc.FD_SPINUP.toNat (h.card.now + 1) (h'.card.now - 1) := by
  obtain ⟨b, h₁, hget, hr⟩ := runs_bind.mp hr
  obtain ⟨h₀, h₂, hgot, hvars⟩ := runs_bind.mp hget
  obtain ⟨rfl, rfl⟩ := runs_get.mp hgot
  obtain ⟨rfl, rfl⟩ := runs_pure.mp hvars
  rcases runs_ite.mp hr with ⟨-, hr⟩ | ⟨-, hr⟩
  · obtain ⟨_, h₂, hlatch, hr⟩ := runs_bind.mp hr
    obtain ⟨hc₂, hnow₂⟩ := fdLatch_timed hc hlatch
    obtain ⟨_, h₃, hset, hr⟩ := runs_bind.mp hr
    have hc₃ : ShowsTime τ h₃ := hc₂.later (setVars_later _ hset)
    obtain rfl := runs_modify.mp hset
    obtain ⟨t0, h₄, hclk, hr⟩ := runs_bind.mp hr
    obtain ⟨rfl, hin⟩ := readClock_start hc₃ hclk
    obtain ⟨_, h₅, hloop, hend⟩ := runs_bind.mp hr
    obtain rfl := runs_modify.mp hend
    show Expired τ _ (h₁.card.now + 1) (h₅.card.now - 1)
    rw [← hnow₂]
    exact fdSpinup_expired hin hloop
  · -- nothing was to be waited for
    obtain rfl := runs_modify.mp hr
    exact absurd hspun (Nat.lt_irrefl _)

end Fdc

/-! ### INT 15h -/

/-- The snapshot. -/
theorem delayTick_timed {τ : Timeline} {d d' : Delay} {t : Word} (hline : d.line = τ)
    (hr : Runs delayTick d t d') :
    t = (τ.clock d.now).low ∧ d'.now = d.now + 1 ∧ d'.line = τ := by
  obtain ⟨rfl, rfl⟩ := runs_modifyGet.mp hr
  exact ⟨hline ▸ rfl, rfl, hline⟩

theorem t1Read_timed {d d' : Delay} {ax : Word} (hr : Runs t1Read d ax d') :
    d'.now = d.now + 1 ∧ d'.line = d.line := by
  obtain ⟨-, rfl⟩ := runs_modifyGet.mp hr
  exact ⟨rfl, rfl⟩

theorem shortDelayLoop_expired {τ : Timeline} {a : Nat} : ∀ {fuel : Nat} {di : Word} {esi : DWord}
    {d d' : Delay}, d.line = τ → a < d.now →
      Runs (shortDelayLoop (τ.clock a).low fuel di esi) d false d' →
        Expired τ T1_BAILOUT.toNat a (d'.now - 1) := by
  intro fuel
  induction fuel with
  | zero => exact fun _ _ hr => absurd hr runs_throw
  | succ fuel ih =>
      intro di esi d d' hline hpast hr
      obtain ⟨ax, d₁, ht1, hr⟩ := runs_bind.mp hr
      obtain ⟨hnow₁, hline₁⟩ := t1Read_timed ht1
      rcases runs_ite.mp hr with ⟨-, hr⟩ | ⟨-, hr⟩
      · cases (runs_pure.mp hr).1
      obtain ⟨dx, d₂, hclk, hr⟩ := runs_bind.mp hr
      obtain ⟨rfl, hnow₂, hline₂⟩ := delayTick_timed (hline₁.trans hline) hclk
      rcases runs_ite.mp hr with ⟨-, hr⟩ | ⟨hfar, hr⟩
      · exact ih hline₂ (by omega) hr
      · obtain ⟨-, rfl⟩ := runs_pure.mp hr
        rw [hnow₂, Nat.add_sub_cancel]
        exact expired_of_not_lt (by omega) hfar

theorem shortDelay_expired {τ : Timeline} {fuel : Nat} {cx dx : Word} {d d' : Delay}
    (hline : d.line = τ) (hr : Runs (shortDelay fuel cx dx) d false d') :
    Expired τ T1_BAILOUT.toNat d.now (d'.now - 1) := by
  obtain ⟨start, d₁, hclk, hr⟩ := runs_bind.mp hr
  obtain ⟨rfl, hnow₁, hline₁⟩ := delayTick_timed hline hclk
  obtain ⟨di, d₂, ht1, hr⟩ := runs_bind.mp hr
  obtain ⟨hnow₂, hline₂⟩ := t1Read_timed ht1
  exact shortDelayLoop_expired (hline₂.trans hline₁) (by omega) hr

/-! ### Every wait -/

theorem TimesOut.expired {τ : Timeline} {t a b : Nat} (h : TimesOut τ t a b) : Expired τ t a b := by
  cases h with
  | ideWaitNotBusy hline hr => exact waitStatus_expired hline hr (notBusy_ne_false _)
  | ideWaitDrq hline hr hlast =>
      refine waitStatus_expired hline hr ?_
      rw [hlast]
      simp
  | hdWaitNotBusy hline hr => exact hdWaitNotBusy_expired hline hr
  | fdWait hclock hr => exact fdWait_expired hclock hr
  | fdSeekDone hclock hstart hrounds hsense hlast =>
      exact fdSeekDone_expired hclock hstart hrounds hsense hlast
  | fdSpinup hclock hr hspun => exact fdMotorOn_expired hclock hr hspun
  | shortDelay hline hr => exact shortDelay_expired hline hr

/-- **Deadlines.** A wait of `t` ticks never ends as timed out before `t - 1` ticks have
gone by in full, if no event meanwhile sends the low word further past the snapshot than the
ticks gone by. -/
theorem deadline_kept {τ : Timeline} {t a b : Nat} (h : TimesOut τ t a b)
    (hhonest : τ.Honest a b) : t - 1 ≤ τ.fullTicks a b :=
  Timeline.fullTicks_of_expired h.expired.1 hhonest h.expired.2

/-- Counter 1 stands still, and ten ticks come in a day that has long begun. -/
theorem deadline_kept_delay :
    ∃ τ a b, TimesOut τ T1_BAILOUT.toNat a b ∧ T1_BAILOUT.toNat - 1 ≤ τ.fullTicks a b := by
  let τ : Timeline :=
    ⟨⟨0xFFFC, 0⟩, fun n => if n = 2 then List.replicate 10 .irq0 else []⟩
  obtain ⟨ok, d', hr, hend⟩ : ∃ ok d', Runs (shortDelay 5 0 1000) ⟨τ, 0, fun _ => 0⟩ ok d' ∧
      (ok, d'.now) = (false, 4) :=
    runs_of_eval (f := fun r : Bool × Delay => (r.1, r.2.now)) (by decide +kernel)
  obtain ⟨rfl, hnow⟩ := Prod.mk.inj hend
  have hto : TimesOut τ T1_BAILOUT.toNat 0 (d'.now - 1) := .shortDelay rfl hr
  rw [hnow] at hto
  refine ⟨τ, 0, 3, hto, deadline_kept hto fun n _ hn => ?_⟩
  interval_cases n <;> decide

/-- A drive that never comes out of BSY. -/
inductive StuckBus
  | busy

instance : IdeBus StuckBus where
  inb _ w := (0x80, w)
  outb _ _ w := w
  tick w := (0, w)

/-- The last tick of a day comes in between the snapshot and the first comparison, and the
wait for the drive gives up five seconds early. -/
theorem midnight_times_out :
    ∃ τ a b, TimesOut τ IDE_TIMEOUT.toNat a b ∧
      ¬ IDE_TIMEOUT.toNat - 1 ≤ τ.fullTicks a b := by
  let τ : Timeline := ⟨⟨0x1800B9, 0⟩, fun n => if n = 1 then [.irq0] else []⟩
  let h : Ide.Host (TimedBus StuckBus) := ⟨⟨.busy, τ, 0, 0⟩, fun _ => 0, 0, []⟩
  obtain ⟨ok, h', hr, hend⟩ : ∃ ok h', Runs (ideWaitNotBusy 1) h ok h' ∧
      (ok, h'.bus.now) = (false, 3) :=
    runs_of_eval (f := fun r : Bool × Ide.Host (TimedBus StuckBus) => (r.1, r.2.bus.now)) (by decide +kernel)
  obtain ⟨rfl, hnow⟩ := Prod.mk.inj hend
  have hto : TimesOut τ IDE_TIMEOUT.toNat 0 (h'.bus.now - 1) := .ideWaitNotBusy rfl hr
  rw [hnow] at hto
  exact ⟨τ, 0, 2, hto, by decide⟩

end Sbc386Ex.Time

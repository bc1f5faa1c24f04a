import Sbc386Ex.Fdc.DiskFdc
import Sbc386Ex.Lib.Trace

/-!
# Sbc386Ex.Fdc.MotorLatch

The latch of the floppy board and its shadow, with the tick between any two steps of the
driver.

The latch is written by `fd_latch` in `diskfdc.c` and, when the motor has run long enough, by
the tick. Of the driver there is what touches the latch, the shadow and the count; what else
a transfer does is a step that needs the motor on.
-/

namespace Sbc386Ex.Fdc.MotorLatch

open DiskFdc (L_TC L_MOTOR L_MINI L_NRESET FD_MOTOR_TIME)

/-- What `fd_rw`, `fd_format` and `fd_reset` are made of: `drive` is a part of a transfer, up to
the end of its data phase, and `other` anything else. -/
inductive Call
  | latchBits (clear set : Byte)
  | motorOn (mini : Bool)
  | drive
  | other
  deriving DecidableEq

/-- Where in a call the driver is: before the store or the output of `fd_latch`, called from
`fd_latch_bits` or from `fd_motor_on`, and further on in `fd_motor_on`. -/
inductive Place
  | between
  | bitsStore (val : Byte)
  | bitsOut (val : Byte)
  | motorStore (val : Byte)
  | motorOut (val : Byte)
  | motorSet
  | motorSpin
  | motorKeep
  deriving DecidableEq

structure St where
  motorStatus : Byte
  motorCount : Byte
  /-- what the 74LS273 holds -/
  latch : Byte
  place : Place
  rest : List Call
  deriving DecidableEq

/-- Everything is zero, and nothing was called. -/
def powerOn : St := ⟨0, 0, 0, .between, []⟩

/-! ### The driver -/

inductive Job
  | fdReset
  | fdRw (mini : Bool)
  | fdFormat (mini : Bool)

/-- Motor on, seek, specify, the command, its data; then the terminal count, and the result. -/
def transferCalls (mini : Bool) : List Call :=
  [.motorOn mini, .drive, .drive, .drive, .drive, .latchBits 0 L_TC, .latchBits L_TC 0, .other]

def Job.calls : Job → List Call
  | .fdReset => [.latchBits L_NRESET 0, .other, .latchBits 0 L_NRESET, .other]
  | .fdRw mini => transferCalls mini
  | .fdFormat mini => transferCalls mini

/-- `want` of `fd_motor_on`. -/
def want (mini : Bool) : Byte := L_NRESET ||| L_MOTOR ||| (if mini then L_MINI else 0)

/-- The next access of the driver. -/
def step (s : St) : Option St :=
  match s.place, s.rest with
  | .between, [] => none
  | .between, .latchBits clear set :: rest =>
      some { s with place := .bitsStore ((s.motorStatus &&& ~~~clear) ||| set), rest }
  | .between, .motorOn mini :: rest =>
      if s.motorStatus &&& (L_MOTOR ||| L_MINI ||| L_NRESET) ≠ want mini then
        some { s with place := .motorStore (want mini), rest }
      else some { s with place := .motorKeep, rest }
  | .between, .drive :: rest => some { s with rest }
  | .between, .other :: rest => some { s with rest }
  | .bitsStore val, _ => some { s with motorStatus := val, place := .bitsOut val }
  | .bitsOut val, _ => some { s with latch := val, place := .between }
  | .motorStore val, _ => some { s with motorStatus := val, place := .motorOut val }
  | .motorOut val, _ => some { s with latch := val, place := .motorSet }
  | .motorSet, _ => some { s with motorCount := FD_MOTOR_TIME, place := .motorSpin }
  | .motorSpin, _ => some { s with place := .motorKeep }
  | .motorKeep, _ => some { s with motorCount := FD_MOTOR_TIME, place := .between }

/-- A return before the end. -/
def giveUp (s : St) : Option St :=
  match s.place, s.rest with
  | .between, .drive :: _ => some { s with rest := [] }
  | .between, .other :: _ => some { s with rest := [] }
  | _, _ => none

def start (job : Job) (s : St) : Option St :=
  match s.place, s.rest with
  | .between, [] => some { s with rest := job.calls }
  | _, _ => none

/-! ### The tick -/

def FDC_MOTOR : Byte := 0x02

def fdcStopMotor (s : St) : St :=
  let al := s.motorStatus &&& ~~~FDC_MOTOR
  { s with motorStatus := al, latch := al }

/-- The motor timeout of `int_irq0`. -/
def tick (s : St) : St :=
  if s.motorCount = 0 then s
  else
    let s := { s with motorCount := s.motorCount - 1 }
    if s.motorCount ≠ 0 then s else fdcStopMotor s

/-! ### Runs -/

inductive Label
  | tick
  | step
  | giveUp
  | start (job : Job)

def next (s : St) : Label → Option St
  | .tick => some (tick s)
  | .step => step s
  | .giveUp => giveUp s
  | .start job => start job s

/-- The motor bit. -/
def On (b : Byte) : Prop := b &&& L_MOTOR ≠ 0

instance (b : Byte) : Decidable (On b) := inferInstanceAs (Decidable (_ ≠ _))

/-- What is left of a call goes on with a transfer whose `fd_motor_on` has returned. -/
def NeedsMotor : List Call → Prop
  | [] => False
  | .drive :: _ => True
  | .motorOn _ :: _ => False
  | .latchBits _ _ :: rest => NeedsMotor rest
  | .other :: rest => NeedsMotor rest

/-- An update is in progress: a value is on its way to the latch, or the motor was turned on and
its count not set yet. -/
def Updating : Place → Prop
  | .between | .motorSpin | .motorKeep => False
  | _ => True

/-- The shadow is what the latch holds, a motor that is on is being counted down, and one that a
transfer needs is on. -/
structure Safe (s : St) : Prop where
  shadow : ¬ Updating s.place → s.motorStatus = s.latch
  counted : ¬ Updating s.place → On s.latch → s.motorCount ≠ 0
  turning : s.place = .between → NeedsMotor s.rest → On s.latch

/-- The tick that stops the motor would come between the reading of the shadow and the output,
in `fd_motor_on` with the shadow looked at or stored, or in a transfer. -/
def Exposed (s : St) : Prop :=
  match s.place with
  | .between => NeedsMotor s.rest
  | .motorStore _ => False
  | _ => True

/-- No tick stops the motor there. -/
def Quiet (s : St) (l : Label) : Prop :=
  match l with
  | .tick => s.motorCount = 1 → ¬ Exposed s
  | _ => True

/-! ### What is kept -/

/-- Bits that leave the motor alone. -/
def KeepsMotor (clear set : Byte) : Prop := clear &&& L_MOTOR = 0 ∧ set &&& L_MOTOR = 0

instance (clear set : Byte) : Decidable (KeepsMotor clear set) :=
  inferInstanceAs (Decidable (_ ∧ _))

/-- The calls of a job: the motor is left alone between two `fd_motor_on`, and goes on for a
transfer. -/
def Made : List Call → Prop
  | [] => True
  | .latchBits clear set :: rest => KeepsMotor clear set ∧ Made rest
  | .motorOn _ :: rest => NeedsMotor rest ∧ Made rest
  | .drive :: rest => Made rest
  | .other :: rest => Made rest

theorem made_calls (job : Job) : Made job.calls ∧ ¬ NeedsMotor job.calls := by
  have htransfer : ∀ mini, Made (transferCalls mini) :=
    fun _ => ⟨trivial, by decide, by decide, trivial⟩
  cases job with
  | fdReset => exact ⟨⟨by decide, by decide, trivial⟩, not_false⟩
  | fdRw mini => exact ⟨htransfer mini, not_false⟩
  | fdFormat mini => exact ⟨htransfer mini, not_false⟩

theorem on_iff : ∀ b : Byte, On b ↔ b.getLsbD 1 = true := by decide

theorem KeepsMotor.on_iff {clear set : Byte} (h : KeepsMotor clear set) (b : Byte) :
    On ((b &&& ~~~clear) ||| set) ↔ On b := by
  have hzero : ∀ b : Byte, b &&& L_MOTOR = 0 → b.getLsbD 1 = false := by decide
  rw [MotorLatch.on_iff, MotorLatch.on_iff, BitVec.getLsbD_or, BitVec.getLsbD_and,
    BitVec.getLsbD_not, hzero _ h.1, hzero _ h.2]
  simp

theorem on_want : ∀ mini, On (want mini) := by decide

/-- The shadow is right, and the motor counted while it is on. -/
structure Settled (s : St) : Prop where
  shadow : s.motorStatus = s.latch
  counted : On s.latch ↔ s.motorCount ≠ 0

/-- What is so at each place. -/
def AtPlace (s : St) : Prop :=
  match s.place with
  | .between => Settled s ∧ (NeedsMotor s.rest → On s.latch)
  | .bitsStore val =>
      Settled s ∧ (On val ↔ On s.latch) ∧ (NeedsMotor s.rest → On s.latch)
  | .bitsOut val =>
      s.motorStatus = val ∧ (On val ↔ s.motorCount ≠ 0) ∧ (NeedsMotor s.rest → On val)
  | .motorStore val => Settled s ∧ On val ∧ NeedsMotor s.rest
  | .motorOut val => s.motorStatus = val ∧ On val ∧ NeedsMotor s.rest
  | .motorSet => s.motorStatus = s.latch ∧ On s.latch ∧ NeedsMotor s.rest
  | .motorSpin => Settled s ∧ On s.latch ∧ NeedsMotor s.rest
  | .motorKeep => Settled s ∧ On s.latch ∧ NeedsMotor s.rest

structure Inv (s : St) : Prop where
  made : Made s.rest
  place : AtPlace s

variable {s s' : St}

theorem Inv.safe (h : Inv s) : Safe s := by
  obtain ⟨-, hplace⟩ := h
  unfold AtPlace at hplace
  constructor
  · intro hquiet
    split at hplace <;> rename_i heq <;> rw [heq] at hquiet
    · exact hplace.1.shadow
    · exact absurd trivial hquiet
    · exact absurd trivial hquiet
    · exact absurd trivial hquiet
    · exact absurd trivial hquiet
    · exact absurd trivial hquiet
    · exact hplace.1.shadow
    · exact hplace.1.shadow
  · intro hquiet
    split at hplace <;> rename_i heq <;> rw [heq] at hquiet
    · exact hplace.1.counted.mp
    · exact absurd trivial hquiet
    · exact absurd trivial hquiet
    · exact absurd trivial hquiet
    · exact absurd trivial hquiet
    · exact absurd trivial hquiet
    · exact hplace.1.counted.mp
    · exact hplace.1.counted.mp
  · intro hbetween
    rw [hbetween] at hplace
    exact hplace.2

/-- The motor was on when `fd_motor_on` found what it wants. -/
theorem on_of_wanted : ∀ (b : Byte) (mini : Bool),
    b &&& (L_MOTOR ||| L_MINI ||| L_NRESET) = want mini → On b := by decide

theorem motorTime_ne : FD_MOTOR_TIME ≠ 0 := by decide

theorem step_inv (h : Inv s) (hstep : step s = some s') : Inv s' := by
  obtain ⟨hmade, hplace⟩ := h
  unfold AtPlace at hplace
  unfold step at hstep
  split at hstep
  · cases hstep
  · -- `fd_latch_bits` reads the shadow
    rename_i clear set rest hp hr
    cases hstep
    rw [hp, hr] at hplace
    rw [hr] at hmade
    refine ⟨hmade.2, ⟨hplace.1.shadow, hplace.1.counted⟩, ?_, hplace.2⟩
    rw [hmade.1.on_iff, hplace.1.shadow]
  · -- `fd_motor_on` looks at it
    rename_i mini rest hp hr
    rw [hp, hr] at hplace
    rw [hr] at hmade
    split at hstep
    · cases hstep
      exact ⟨hmade.2, ⟨hplace.1.shadow, hplace.1.counted⟩, on_want mini, hmade.1⟩
    · rename_i hsame
      cases hstep
      refine ⟨hmade.2, ⟨hplace.1.shadow, hplace.1.counted⟩, ?_, hmade.1⟩
      show On s.latch
      rw [← hplace.1.shadow]
      exact on_of_wanted _ mini (not_not.mp hsame)
  · rename_i rest hp hr
    cases hstep
    rw [hp, hr] at hplace
    rw [hr] at hmade
    refine ⟨hmade, ?_⟩
    simp only [AtPlace, hp]
    exact ⟨⟨hplace.1.shadow, hplace.1.counted⟩, fun _ => hplace.2 trivial⟩
  · rename_i rest hp hr
    cases hstep
    rw [hp, hr] at hplace
    rw [hr] at hmade
    refine ⟨hmade, ?_⟩
    simp only [AtPlace, hp]
    exact ⟨⟨hplace.1.shadow, hplace.1.counted⟩, hplace.2⟩
  · rename_i val hp
    cases hstep
    rw [hp] at hplace
    obtain ⟨hsettled, hval, hneeds⟩ := hplace
    exact ⟨hmade, rfl, hval.trans hsettled.counted, fun hn => hval.mpr (hneeds hn)⟩
  · rename_i val hp
    cases hstep
    rw [hp] at hplace
    exact ⟨hmade, ⟨hplace.1, hplace.2.1⟩, hplace.2.2⟩
  · rename_i val hp
    cases hstep
    rw [hp] at hplace
    exact ⟨hmade, rfl, hplace.2⟩
  · rename_i val hp
    cases hstep
    rw [hp] at hplace
    exact ⟨hmade, hplace⟩
  · rename_i hp
    cases hstep
    rw [hp] at hplace
    exact ⟨hmade, ⟨hplace.1, iff_of_true hplace.2.1 motorTime_ne⟩, hplace.2⟩
  · rename_i hp
    cases hstep
    rw [hp] at hplace
    exact ⟨hmade, ⟨hplace.1.shadow, hplace.1.counted⟩, hplace.2⟩
  · rename_i hp
    cases hstep
    rw [hp] at hplace
    exact ⟨hmade, ⟨hplace.1.shadow, iff_of_true hplace.2.1 motorTime_ne⟩, fun _ => hplace.2.1⟩

theorem giveUp_inv (h : Inv s) (hstep : giveUp s = some s') : Inv s' := by
  obtain ⟨-, hplace⟩ := h
  unfold AtPlace at hplace
  unfold giveUp at hstep
  have hdrop : s.place = .between → Inv { s with rest := [] } := by
    intro hp
    rw [hp] at hplace
    refine ⟨trivial, ?_⟩
    simp only [AtPlace, hp]
    exact ⟨⟨hplace.1.shadow, hplace.1.counted⟩, False.elim⟩
  split at hstep
  · rename_i hp _
    cases hstep
    exact hdrop hp
  · rename_i hp _
    cases hstep
    exact hdrop hp
  · cases hstep

theorem start_inv (h : Inv s) {job : Job} (hstep : start job s = some s') : Inv s' := by
  obtain ⟨-, hplace⟩ := h
  unfold AtPlace at hplace
  unfold start at hstep
  split at hstep
  · rename_i hp hr
    cases hstep
    rw [hp] at hplace
    obtain ⟨hmade, hnot⟩ := made_calls job
    refine ⟨hmade, ?_⟩
    simp only [AtPlace, hp]
    exact ⟨⟨hplace.1.shadow, hplace.1.counted⟩, fun hn => absurd hn hnot⟩
  · cases hstep

/-- Of the count it matters whether it is zero. -/
theorem AtPlace.of_count (h : AtPlace s) {c : Byte} (hc : c ≠ 0 ↔ s.motorCount ≠ 0) :
    AtPlace { s with motorCount := c } := by
  have hsettled : Settled s → Settled { s with motorCount := c } :=
    fun hs => ⟨hs.shadow, hs.counted.trans hc.symm⟩
  unfold AtPlace at h ⊢
  cases hp : s.place <;> simp only [hp] at h ⊢
  · exact ⟨hp ▸ hsettled h.1, h.2⟩
  · exact ⟨hp ▸ hsettled h.1, h.2⟩
  · exact ⟨h.1, h.2.1.trans hc.symm, h.2.2⟩
  · exact ⟨hp ▸ hsettled h.1, h.2⟩
  · exact h
  · exact h
  · exact ⟨hp ▸ hsettled h.1, h.2⟩
  · exact ⟨hp ▸ hsettled h.1, h.2⟩

/-- The ways a tick goes. -/
theorem tick_cases (s : St) :
    (s.motorCount = 0 ∧ tick s = s) ∨
    (s.motorCount ≠ 0 ∧ s.motorCount - 1 ≠ 0 ∧
      tick s = { s with motorCount := s.motorCount - 1 }) ∨
    (s.motorCount = 1 ∧ tick s = { s with
      motorStatus := s.motorStatus &&& ~~~FDC_MOTOR, motorCount := 0,
      latch := s.motorStatus &&& ~~~FDC_MOTOR }) := by
  have hone : ∀ c : Byte, c - 1 = 0 → c = 1 := by decide
  unfold tick
  by_cases hzero : s.motorCount = 0
  · rw [if_pos hzero]
    exact .inl ⟨hzero, rfl⟩
  rw [if_neg hzero]
  by_cases hlast : s.motorCount - 1 = 0
  · simp only [hlast, ne_eq, not_true_eq_false, if_false]
    exact .inr (.inr ⟨hone _ hlast, rfl⟩)
  · exact .inr (.inl ⟨hzero, hlast, if_pos hlast⟩)

theorem not_on_stopped : ∀ b : Byte, ¬ On (b &&& ~~~FDC_MOTOR) := by decide

theorem tick_inv (h : Inv s) (hquiet : s.motorCount = 1 → ¬ Exposed s) : Inv (tick s) := by
  obtain ⟨hmade, hplace⟩ := h
  rcases tick_cases s with ⟨-, htick⟩ | ⟨hne, hne', htick⟩ | ⟨hone, htick⟩
  · rw [htick]
    exact ⟨hmade, hplace⟩
  · rw [htick]
    exact ⟨hmade, hplace.of_count (iff_of_true hne' hne)⟩
  · -- the motor stops, where nothing comes of it
    rw [htick]
    have hsafe := hquiet hone
    unfold Exposed at hsafe
    unfold AtPlace at hplace
    refine ⟨hmade, ?_⟩
    split at hsafe <;> rename_i heq
    · simp only [AtPlace, heq]
      exact ⟨⟨rfl, iff_of_false (not_on_stopped _) (not_not.mpr rfl)⟩, fun hn => absurd hn hsafe⟩
    · rw [heq] at hplace
      simp only [AtPlace, heq]
      exact ⟨⟨rfl, iff_of_false (not_on_stopped _) (not_not.mpr rfl)⟩, hplace.2⟩
    · exact absurd trivial hsafe

theorem next_inv (h : Inv s) {l : Label} (hstep : next s l = some s') (hquiet : Quiet s l) :
    Inv s' := by
  cases l with
  | tick =>
      cases hstep
      exact tick_inv h hquiet
  | step => exact step_inv h hstep
  | giveUp => exact giveUp_inv h hstep
  | start job => exact start_inv h hstep

/-- **The shadow, the count and the motor are right in every state that is reached** with no
tick that stops the motor where the driver is exposed. -/
theorem latch_shadowed {ls : List Label} (hrun :
    Trace (fun u l u' => next u l = some u' ∧ Quiet u l) powerOn ls s) : Safe s := by
  have hinit : Inv powerOn :=
    ⟨trivial, ⟨rfl, by decide⟩, False.elim⟩
  exact (hrun.inv hinit fun h hstep => next_inv h hstep.1 hstep.2).safe

/-- A transfer up to its seek, with a tick while the motor spins up. -/
theorem latch_shadowed_transfer :
    Safe ⟨0x82, 37, 0x82, .between, (transferCalls false).tail.tail⟩ := by
  have hrun : Trace (fun u l u' => next u l = some u' ∧ Quiet u l) powerOn
      [.start (.fdRw false), .step, .step, .step, .step, .tick, .step, .step, .step]
      ⟨0x82, 37, 0x82, .between, (transferCalls false).tail.tail⟩ :=
    .cons ⟨rfl, trivial⟩ (.cons ⟨rfl, trivial⟩ (.cons ⟨rfl, trivial⟩ (.cons ⟨rfl, trivial⟩
      (.cons ⟨rfl, trivial⟩ (.cons ⟨rfl, fun h => absurd h (by decide)⟩ (.cons ⟨rfl, trivial⟩
      (.cons ⟨rfl, trivial⟩ (.cons ⟨rfl, trivial⟩ .refl))))))))
  exact latch_shadowed hrun

/-- A read that gives up, and, as the motor is about to stop, one at the other rate: the tick comes
between the store and the output of `fd_latch`. -/
def stoppedBetween : List Label :=
  [.start (.fdRw false)] ++ List.replicate 6 .step ++ [.giveUp] ++ List.replicate 36 .tick ++
    [.start (.fdRw true), .step, .step, .tick, .step, .step]

theorem latch_not_shadowed : ∃ s,
    Trace (fun u l u' => next u l = some u') powerOn stoppedBetween s ∧ ¬ Safe s := by
  refine ⟨⟨0x84, 37, 0x86, .motorSpin, (transferCalls true).tail⟩,
    Trace.of_foldlM (by decide +kernel), fun h => ?_⟩
  have hshadow := h.shadow not_false
  revert hshadow
  decide

/-- Where the driver is exposed and the motor stops, something goes wrong: it is enough that the
driver goes on. -/
theorem exposed_unsafe (h : Inv s) (hone : s.motorCount = 1) (hexposed : Exposed s) :
    ∃ n s', Trace (fun u l u' => next u l = some u') (tick s) (List.replicate n .step) s' ∧
      ¬ Safe s' := by
  obtain ⟨-, hplace⟩ := h
  have hne : s.motorCount ≠ 0 := by
    rw [hone]
    decide
  have hstopped : ∀ {b : Byte}, On b → b &&& ~~~FDC_MOTOR ≠ b := by
    intro b hb heq
    rw [← heq] at hb
    exact not_on_stopped b hb
  obtain ⟨-, htick⟩ := ((tick_cases s).resolve_left fun hz => hne hz.1).resolve_left
    fun hm => hm.2.1 (by rw [hone]; decide)
  rw [htick]
  unfold Exposed at hexposed
  unfold AtPlace at hplace
  cases hp : s.place <;> simp only [hp] at hexposed hplace
  case between =>
    exact ⟨0, _, .refl, fun hs => not_on_stopped _ (hs.turning rfl hexposed)⟩
  case bitsStore val =>
    refine ⟨2, _, Trace.of_foldlM (by simp [next, step]; rfl), fun hs => ?_⟩
    have hon : On val := hplace.2.1.mpr (hplace.1.counted.mpr hne)
    exact hs.counted not_false hon rfl
  case bitsOut val =>
    refine ⟨1, _, Trace.of_foldlM (by simp [next, step]; rfl), fun hs => ?_⟩
    have hshadow := hs.shadow not_false
    rw [hplace.1] at hshadow
    exact hstopped (hplace.2.1.mpr hne) hshadow
  case motorOut val =>
    refine ⟨2, _, Trace.of_foldlM (by simp [next, step]; rfl), fun hs => ?_⟩
    have hshadow := hs.shadow not_false
    rw [hplace.1] at hshadow
    exact hstopped hplace.2.1 hshadow
  case motorSet =>
    refine ⟨3, _, Trace.of_foldlM (by simp [next, step]; rfl), fun hs => ?_⟩
    exact not_on_stopped _ (hs.turning rfl hplace.2.2)
  case motorSpin =>
    refine ⟨2, _, Trace.of_foldlM (by simp [next, step]; rfl), fun hs => ?_⟩
    exact not_on_stopped _ (hs.turning rfl hplace.2.2)
  case motorKeep =>
    refine ⟨1, _, Trace.of_foldlM (by simp [next, step]; rfl), fun hs => ?_⟩
    exact not_on_stopped _ (hs.turning rfl hplace.2.2)

end Sbc386Ex.Fdc.MotorLatch

import Mathlib.Order.Basic
import Mathlib.Tactic.Common
import Sbc386Ex.Machine

/-!
# Sbc386Ex.Time.Tick

The tick count of `1Ah_time.asm`, and what a deadline on its low word can know of the time.

The count goes up by one at every timer interrupt and starts again from zero at the end of
the day, where its low word is `00B9h`; function 01h of INT 1Ah sets it to anything. A
deadline sees the low word only, and takes the distance from its starting snapshot for the
ticks gone by. `Behind` is that the distance is no more than those.
-/

namespace Sbc386Ex.Time

def CLKIN0 : Nat := 1843200 / 2
def divide : Nat := 50619

/-- The ticks of a day. -/
def tick : DWord := BitVec.ofNat 32 (CLKIN0 * 86400 / divide)

example : tick = 0x1800BA := by decide

/-- `timer_count` and `timer_overflow` of the BIOS data area. -/
structure Timer where
  count : DWord
  overflow : Byte
  deriving Repr, DecidableEq

namespace Timer

variable (t : Timer)

/-- `timer_count_low` -/
def low : Word := t.count.setWidth 16

/-- The count's part of `int_irq0`. -/
def irq0 : Timer :=
  if t.count + 1 < tick then { t with count := t.count + 1 }
  else { count := 0, overflow := 1 }

/-- Function 01h. -/
def setTickCount (cx dx : Word) : Timer := { count := cx ++ dx, overflow := 0 }

/-- Function 00h: `CX:DX` and `AL`. -/
def getTickCount : (Word × Word × Byte) × Timer :=
  ((t.count.extractLsb' 16 16, t.low, t.overflow), { t with overflow := 0 })

theorem low_irq0 (h : t.count + 1 < tick) : t.irq0.low = t.low + 1 := by
  rw [irq0, if_pos h]
  exact BitVec.setWidth_add t.count 1 (by decide)

theorem low_irq0_reset (h : ¬ t.count + 1 < tick) : t.irq0.low = 0 := by
  rw [irq0, if_neg h]
  rfl

theorem low_setTickCount (cx dx : Word) : (setTickCount cx dx).low = dx := by
  exact BitVec.setWidth_append_eq_right

end Timer

/-- What changes the count. -/
inductive TimerEvent
  | irq0
  | setTickCount (cx dx : Word)
  | getTickCount
  deriving DecidableEq

def Timer.after (t : Timer) : TimerEvent → Timer
  | .irq0 => t.irq0
  | .setTickCount cx dx => .setTickCount cx dx
  | .getTickCount => t.getTickCount.2

/-- The timer, and the timer interrupts there have been. -/
structure Clock where
  timer : Timer
  ticks : Nat
  deriving DecidableEq

namespace Clock

def low (c : Clock) : Word := c.timer.low

def step (c : Clock) (e : TimerEvent) : Clock where
  timer := c.timer.after e
  ticks := match e with
    | .irq0 => c.ticks + 1
    | _ => c.ticks

variable (origin c : Clock)

/-- The low word is no further past `origin` than the ticks gone by since. -/
def Behind : Prop :=
  origin.ticks ≤ c.ticks ∧ (c.low - origin.low).toNat ≤ c.ticks - origin.ticks

/-- An event that does not send the low word further past `origin` than the ticks gone by:
the tick that resets the count at the end of the day is seldom one, and a call that sets
the count is one only if it puts the low word back no further than `origin`. -/
def Honest : TimerEvent → Prop
  | .irq0 =>
      c.timer.count + 1 < tick ∨ (0 - origin.low).toNat ≤ c.ticks + 1 - origin.ticks
  | .setTickCount _ dx => (dx - origin.low).toNat ≤ c.ticks - origin.ticks
  | .getTickCount => True

/-- Every event is, from `c` on. -/
def HonestRun (origin : Clock) : Clock → List TimerEvent → Prop
  | _, [] => True
  | c, e :: es => origin.Honest c e ∧ HonestRun origin (c.step e) es

instance : (e : TimerEvent) → Decidable (origin.Honest c e)
  | .irq0 => inferInstanceAs (Decidable (_ ∨ _))
  | .setTickCount _ _ => inferInstanceAs (Decidable (_ ≤ _))
  | .getTickCount => instDecidableTrue

instance decidableHonestRun (origin : Clock) :
    (c : Clock) → (es : List TimerEvent) → Decidable (origin.HonestRun c es)
  | _, [] => instDecidableTrue
  | c, e :: es =>
      have := decidableHonestRun origin (c.step e) es
      inferInstanceAs (Decidable (_ ∧ _))

variable {origin c}

theorem behind_self : Behind c c := by simp [Behind]

/-- A word stepped on is at most one further. -/
theorem toNat_succ_sub_le (x s : Word) : (x + 1 - s).toNat ≤ (x - s).toNat + 1 := by
  simp
  omega

/-- **One event.** -/
theorem step_behind {e : TimerEvent} (h : Behind origin c) (he : origin.Honest c e) :
    Behind origin (c.step e) := by
  obtain ⟨hle, hfar⟩ := h
  cases e with
  | irq0 =>
      refine ⟨Nat.le_succ_of_le hle, ?_⟩
      by_cases hday : c.timer.count + 1 < tick
      · have hlow : (c.step .irq0).low = c.low + 1 := c.timer.low_irq0 hday
        have hone := toNat_succ_sub_le c.low origin.low
        rw [hlow]
        simp only [step]
        omega
      · have hlow : (c.step .irq0).low = 0 := c.timer.low_irq0_reset hday
        rw [hlow]
        exact he.resolve_left hday
  | setTickCount cx dx =>
      refine ⟨hle, ?_⟩
      have hlow : (c.step (.setTickCount cx dx)).low = dx := Timer.low_setTickCount cx dx
      rw [hlow]
      exact he
  | getTickCount => exact ⟨hle, hfar⟩

theorem run_behind {es : List TimerEvent} (h : Behind origin c) (hes : HonestRun origin c es) :
    Behind origin (es.foldl step c) := by
  induction es generalizing c with
  | nil => exact h
  | cons e es ih => exact ih (step_behind h hes.1) hes.2

end Clock

/-! ### Time as a program sees it -/

/-- The timer, and what happens to it before each look a program takes at the world. -/
structure Timeline where
  start : Timer
  events : Nat → List TimerEvent

namespace Timeline

/-- The clock at the `n`-th look. -/
def clock (τ : Timeline) : Nat → Clock
  | 0 => (τ.events 0).foldl Clock.step ⟨τ.start, 0⟩
  | n + 1 => (τ.events (n + 1)).foldl Clock.step (τ.clock n)

variable (τ : Timeline)

/-- The ticks that have gone by in full between two looks: the one under way at the first
is no full tick. -/
def fullTicks (a b : Nat) : Nat := (τ.clock b).ticks - (τ.clock a).ticks - 1

/-- Every event between two looks is honest to the first. -/
def Honest (a b : Nat) : Prop :=
  ∀ n, a ≤ n → n < b → (τ.clock a).HonestRun (τ.clock n) (τ.events (n + 1))

variable {τ}

theorem behind {a b : Nat} (hab : a ≤ b) (h : τ.Honest a b) :
    (τ.clock a).Behind (τ.clock b) := by
  induction b, hab using Nat.le_induction with
  | base => exact Clock.behind_self
  | succ n han ih =>
      have hn : (τ.clock a).Behind (τ.clock n) :=
        ih fun i hai hin => h i hai (Nat.lt_succ_of_lt hin)
      exact Clock.run_behind hn (h n han (Nat.lt_succ_self n))

/-- **A deadline.** A distance of `t` from the snapshot is `t - 1` ticks in full. -/
theorem fullTicks_of_expired {a b t : Nat} (hab : a ≤ b) (h : τ.Honest a b)
    (hfar : t ≤ ((τ.clock b).low - (τ.clock a).low).toNat) : t - 1 ≤ τ.fullTicks a b := by
  have hbehind := (behind hab h).2
  simp only [fullTicks]
  omega

end Timeline

end Sbc386Ex.Time

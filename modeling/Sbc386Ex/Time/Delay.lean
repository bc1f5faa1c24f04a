import Mathlib.Algebra.Order.Floor.Semiring
import Mathlib.Data.Nat.Count
import Mathlib.Data.Rat.Floor
import Mathlib.Tactic.Linarith
import Mathlib.Tactic.NormNum
import Sbc386Ex.Time.Deadline

/-!
# Sbc386Ex.Time.Delay

Function 86h of INT 15h, the wait of `CX:DX` microseconds (`delay`, `15h_misc.asm`), and the
time it takes.

Below 262144 microseconds `short_delay` counts them off the 1 MHz counter, with the tick count
as a way out should that counter stand still. From there on the request is turned into timer
ticks, and `do_delay` puts their number in the byte of the fourth printer's timeout, which the
timer interrupt counts down, and halts until it is zero. It is one byte, and a longer wait is
cut to 255 ticks.

`Passing` is the time that passes meanwhile: a timer interrupt at most between two looks, never
`k` of them in less than `k - 1` periods, never `k` counts of counter 1 in less than `k - 1`
microseconds. Both may be late, and counter 1 may be dead.
-/

namespace Sbc386Ex.Time

open Prog

/-! ### From microseconds to ticks -/

/-- `rcl`, with the carry that goes in, and `shl` where none does. -/
def rcl (x : Word) (cf : Bool) : Word × Bool := (x.shiftConcat cf, x.msb)

/-- A number of 48 bits in `DX:AX:BX`. -/
structure Wide where
  dx : Word
  ax : Word
  bx : Word
  deriving Repr, DecidableEq

namespace Wide

def toNat (w : Wide) : Nat := (w.dx.toNat * 65536 + w.ax.toNat) * 65536 + w.bx.toNat

/-- `.1` of `delay`. -/
def double (w : Wide) : Wide :=
  let (bx, cf) := rcl w.bx false
  let (ax, cf) := rcl w.ax cf
  let (dx, _) := rcl w.dx cf
  ⟨dx, ax, bx⟩

end Wide

/-- `div` of `DX:AX`, to the quotient and the remainder; nothing where the quotient is too long
for a word, which is a divide error. -/
def div (dx ax cx : Word) : Option (Word × Word) :=
  let n := (dx ++ ax : DWord).toNat
  if n < 65536 * cx.toNat then some (.ofNat 16 (n / cx.toNat), .ofNat 16 (n % cx.toNat)) else none

/-- Two divisions in a row, to a quotient of two words. -/
def divLong (w : Wide) (cx : Word) : Option (Word × Word) := do
  let (high, dx) ← div w.dx w.ax cx
  let (low, _) ← div dx w.bx cx
  return (high, low)

/-- `delay` down to `do_delay`: `BX:AX` is `CX:DX` times 64 and twice divided by 1875. -/
def tickCount (cx dx : Word) : Option (Word × Word) := do
  let (high, low) ← divLong (Wide.double^[6] ⟨0, cx, dx⟩) 1875
  divLong ⟨0, high, low⟩ 1875

/-- The byte `do_delay` stores for `BX:AX`. -/
def oneByte (bx ax : Word) : Byte :=
  if bx.extractLsb' 8 8 ||| bx.setWidth 8 ||| ax.extractLsb' 8 8 = 0 then ax.setWidth 8 else 255

/-- `CX:DX` -/
def micros (cx dx : Word) : Nat := (cx ++ dx : DWord).toNat

/-- Ticks of which there are 65536 to the hour. -/
def hourTicks (micros : Nat) : Nat := micros * 65536 / 3600000000

section Arithmetic

variable {dx ax bx cx : Word} {w : Wide}

theorem toNat_pair (high low : Word) :
    (high ++ low : DWord).toNat = high.toNat * 65536 + low.toNat := by
  rw [BitVec.toNat_append, ← Nat.shiftLeft_add_eq_or_of_lt low.isLt, Nat.shiftLeft_eq]

/-- A word shifted is twice the word and the carry, less what it carries out. -/
theorem rcl_toNat (x : Word) (cf : Bool) :
    (rcl x cf).1.toNat + 65536 * (rcl x cf).2.toNat = 2 * x.toNat + cf.toNat := by
  have hmsb : x.msb.toNat = x.toNat / 32768 := by
    rw [BitVec.msb_eq_decide]
    by_cases h : 32768 ≤ x.toNat <;> simp [h] <;> omega
  have hc : cf.toNat < 2 := cf.toNat_lt
  simp only [rcl, hmsb, BitVec.toNat_shiftConcat, Nat.shiftLeft_eq]
  omega

theorem Wide.double_toNat (h : w.toNat < 2 ^ 47) : w.double.toNat = 2 * w.toNat := by
  have hbx := rcl_toNat w.bx false
  have hax := rcl_toNat w.ax (rcl w.bx false).2
  have hdx := rcl_toNat w.dx (rcl w.ax (rcl w.bx false).2).2
  have hout : (rcl w.dx (rcl w.ax (rcl w.bx false).2).2).2.toNat < 2 := Bool.toNat_lt _
  have hin : (rcl w.dx (rcl w.ax (rcl w.bx false).2).2).1.toNat < 65536 := BitVec.isLt _
  simp only [Wide.double, Wide.toNat, Bool.toNat_false] at *
  omega

theorem Wide.double_iterate (k : Nat) (h : 2 ^ k * w.toNat < 2 ^ 48) :
    (Wide.double^[k] w).toNat = 2 ^ k * w.toNat := by
  induction k with
  | zero => simp
  | succ k ih =>
      rw [Nat.pow_succ', Nat.mul_assoc] at h
      have hk := ih (by omega)
      rw [Function.iterate_succ_apply', Wide.double_toNat (by omega), hk, Nat.pow_succ',
        Nat.mul_assoc]

theorem div_eq (ax : Word) (hcx : dx.toNat < cx.toNat) : ∃ q r : Word, div dx ax cx = some (q, r) ∧
    q.toNat = (dx.toNat * 65536 + ax.toNat) / cx.toNat ∧
    r.toNat = (dx.toNat * 65536 + ax.toNat) % cx.toNat := by
  have hax := ax.isLt
  have hn : dx.toNat * 65536 + ax.toNat < 65536 * cx.toNat := by omega
  refine ⟨_, _, if_pos (by rwa [toNat_pair]), ?_, ?_⟩
  · rw [toNat_pair, BitVec.toNat_ofNat, Nat.mod_eq_of_lt]
    exact Nat.div_lt_of_lt_mul (by rwa [Nat.mul_comm cx.toNat])
  · rw [toNat_pair, BitVec.toNat_ofNat, Nat.mod_eq_of_lt]
    exact (Nat.mod_lt _ (by omega)).trans cx.isLt

/-- Long division: the remainder of the first goes before the next word. -/
theorem divLong_eq (hcx : w.dx.toNat < cx.toNat) : ∃ high low : Word,
    divLong w cx = some (high, low) ∧
      high.toNat * 65536 + low.toNat = w.toNat / cx.toNat := by
  obtain ⟨high, r, hhigh, hq, hr⟩ := div_eq w.ax hcx
  have hpos : 0 < cx.toNat := by omega
  obtain ⟨low, _, hlow, hq', -⟩ := div_eq w.bx (show r.toNat < cx.toNat from hr ▸ Nat.mod_lt _ hpos)
  refine ⟨high, low, ?_, ?_⟩
  · rw [divLong, hhigh]
    dsimp only [bind, Option.bind]
    rw [hlow]
    rfl
  · have hsplit : w.toNat =
        (r.toNat * 65536 + w.bx.toNat) + high.toNat * 65536 * cx.toNat := by
      have hdm := Nat.div_add_mod (w.dx.toNat * 65536 + w.ax.toNat) cx.toNat
      rw [← hq, ← hr] at hdm
      rw [Wide.toNat, ← hdm]
      ring
    rw [hq', hsplit, Nat.add_mul_div_right _ _ hpos, Nat.add_comm]

/-- No request is too long to divide, and the quotient is the ticks of a 65536th of an hour. -/
theorem tickCount_eq (cx dx : Word) : ∃ bx ax : Word, tickCount cx dx = some (bx, ax) ∧
    bx.toNat * 65536 + ax.toNat = hourTicks (micros cx dx) := by
  have hm : micros cx dx < 2 ^ 32 := (cx ++ dx : DWord).isLt
  have hwide : (Wide.double^[6] ⟨0, cx, dx⟩).toNat = 64 * micros cx dx := by
    rw [Wide.double_iterate 6 (by simp [Wide.toNat]; omega), Wide.toNat, micros, toNat_pair]
    simp
  have hdx : (Wide.double^[6] ⟨0, cx, dx⟩).dx.toNat < (1875 : Word).toNat := by
    rw [Wide.toNat] at hwide
    show _ < 1875
    omega
  obtain ⟨high, low, hfirst, hq⟩ := divLong_eq hdx
  obtain ⟨bx, ax, hsecond, hq'⟩ := @divLong_eq 1875 ⟨0, high, low⟩ (show 0 < 1875 by decide)
  refine ⟨bx, ax, ?_, ?_⟩
  · rw [tickCount, hfirst]
    exact hsecond
  · have hlong : (⟨0, high, low⟩ : Wide).toNat = high.toNat * 65536 + low.toNat := by
      simp [Wide.toNat]
    have hscale : micros cx dx * 65536 = 64 * micros cx dx * 1024 := by ring
    have hunit : 3600000000 = 1875 * 1875 * 1024 := by norm_num
    have hword : (1875 : Word).toNat = 1875 := rfl
    rw [hq', hlong, hq, hwide, hword, Nat.div_div_eq_div_mul, hourTicks, hscale, hunit,
      Nat.mul_div_mul_right _ _ (show 0 < 1024 by decide)]

theorem oneByte_toNat (bx ax : Word) :
    (oneByte bx ax).toNat = min (bx.toNat * 65536 + ax.toNat) 255 := by
  have hor : ∀ a b : Byte, a ||| b = 0 ↔ a = 0 ∧ b = 0 := fun _ _ => BitVec.or_eq_zero_iff
  have hzero : ∀ b : Byte, b = 0 ↔ b.toNat = 0 := fun b => BitVec.toNat_inj.symm
  have hcond : bx.extractLsb' 8 8 ||| bx.setWidth 8 ||| ax.extractLsb' 8 8 = 0 ↔
      bx.toNat * 65536 + ax.toNat < 256 := by
    rw [hor, hor, hzero, hzero, hzero, BitVec.extractLsb'_toNat, BitVec.toNat_setWidth,
      BitVec.extractLsb'_toNat, Nat.shiftRight_eq_div_pow, Nat.shiftRight_eq_div_pow]
    have hbx := bx.isLt
    have hax := ax.isLt
    omega
  rw [oneByte]
  split_ifs with h
  · rw [hcond] at h
    rw [BitVec.toNat_setWidth]
    omega
  · rw [hcond] at h
    show 255 = _
    omega

end Arithmetic

/-! ### The wait -/

/-- Why a wait does not return. -/
inductive Trap
  | divideError
  | outOfFuel
  deriving Repr, DecidableEq

/-- The four printer and four serial timeouts, counted down at a timer interrupt: `.4` of
`int_irq0`. -/
def countDown (timeouts : Fin 8 → Byte) : Fin 8 → Byte :=
  fun i => if timeouts i = 0 then 0 else timeouts i - 1

def timeoutsAfter (timeouts : Fin 8 → Byte) : TimerEvent → Fin 8 → Byte
  | .irq0 => countDown timeouts
  | _ => timeouts

/-- What `short_delay` sees, and the timeouts. -/
structure Sleeper where
  delay : Delay
  timeouts : Fin 8 → Byte

/-- `loc`: the timeout of the fourth printer. -/
def LOC : Fin 8 := 3

namespace Sleeper

/-- To the next look. -/
def next (s : Sleeper) : Sleeper where
  delay := { s.delay with now := s.delay.now + 1 }
  timeouts := (s.delay.line.events (s.delay.now + 1)).foldl timeoutsAfter s.timeouts

def store (s : Sleeper) (al : Byte) : Sleeper :=
  { s with timeouts := Function.update s.timeouts LOC al }

end Sleeper

abbrev SleeperM := Prog Trap Sleeper

/-- `short_delay`, with the timeouts counted down meanwhile. -/
def beside {α : Type} (p : DelayM α) : SleeperM α := fun s =>
  match p.run s.delay with
  | .ok (a, d) => .ok (a, Sleeper.next^[d.now - s.delay.now] s)
  | .error .outOfFuel => .error .outOfFuel

/-- `.2` of `do_delay`. -/
def doDelayRound : SleeperM (Option Unit) := do
  modify Sleeper.next
  let s ← get
  if s.timeouts LOC = 0 then return some () else return none

/-- `do_delay` of `BX:AX` ticks; the carry. -/
def doDelay (fuel : Nat) (bx ax : Word) : SleeperM Bool := do
  modify fun s => s.store (oneByte bx ax)
  loop .outOfFuel doDelayRound fuel
  return false

/-- `delay` of `CX:DX` microseconds; the carry. -/
def delay (fuel : Nat) (cx dx : Word) : SleeperM Bool :=
  if cx < 4 then do
    let _ ← beside (shortDelay fuel cx dx)
    return false
  else
    match tickCount cx dx with
    | none => throw .divideError
    | some (bx, ax) => doDelay fuel bx ax

/-! ### The time it takes -/

/-- The microseconds from one timer interrupt to the next. -/
def PERIOD : ℚ := divide * 1000000 / CLKIN0

theorem period_pos : 0 < PERIOD := by norm_num [PERIOD, divide, CLKIN0]

theorem one_le_period : 1 ≤ PERIOD := by norm_num [PERIOD, divide, CLKIN0]

/-- The longest wait of `short_delay` is less than five ticks. -/
theorem short_lt_period : (262144 : ℚ) ≤ 5 * PERIOD := by norm_num [PERIOD, divide, CLKIN0]

/-- Time as it passes with the timer running, by the looks a wait takes. -/
structure Passing where
  timer : Timer
  timeouts : Fin 8 → Byte
  /-- a timer interrupt comes between the `n`-th look and the next -/
  ticked : Nat → Bool
  /-- counter 1 at the first look, and how often it has counted since -/
  counter : Word
  counted : Nat → Nat
  /-- in microseconds -/
  time : Nat → ℚ
  time_mono : Monotone time
  counted_mono : Monotone counted
  ticks_late : ∀ n, (Nat.count (fun i => ticked i) n : ℚ) * PERIOD ≤ time n - time 0 + PERIOD
  counted_late : ∀ n, (counted n : ℚ) ≤ time n - time 0 + 1
  running : ∀ k, ∃ n, k ≤ Nat.count (fun i => ticked i) n

namespace Passing

variable (w : Passing)

/-- The timer interrupts since the first look. -/
def ticks (n : Nat) : Nat := Nat.count (fun i => w.ticked i) n

def events : Nat → List TimerEvent
  | 0 => []
  | n + 1 => if w.ticked n then [.irq0] else []

def line : Timeline := ⟨w.timer, w.events⟩

def t1 (n : Nat) : Word := w.counter - .ofNat 16 (w.counted n)

def delay (n : Nat) : Delay := ⟨w.line, n, w.t1⟩

/-- `timer_count_low` -/
def low (n : Nat) : Word := (w.line.clock n).low

/-- The wait returns `carry` at the `n`-th look. -/
def Returns (cx dx : Word) (carry : Bool) (n : Nat) : Prop :=
  ∃ fuel s, Runs (Time.delay fuel cx dx) ⟨w.delay 0, w.timeouts⟩ carry s ∧ s.delay.now = n

/-- Of what is returned at the `n`-th look: that not all was waited for is told, or all was,
but for two periods. -/
def Honoured (cx dx : Word) (carry : Bool) (n : Nat) : Prop :=
  carry = true ∨ (micros cx dx : ℚ) ≤ w.time n - w.time 0 + 2 * PERIOD

end Passing

/-- The requests that are honoured, from where the tick count stands. A short one can be cut off
only by a jump of the count in the first three ticks, which is its reset at the end of the day.
A long one is as many ticks as there are 65536ths of an hour in it, and 255 at most. -/
def Kept (cx dx : Word) (t : Timer) : Prop :=
  if cx < 4 then
    ∀ j < 4, T1_BAILOUT ≤ (Timer.irq0^[j] t).low - t.low →
      (micros cx dx : ℚ) ≤ (j + 1 : Nat) * PERIOD
  else (micros cx dx : ℚ) ≤ (min (hourTicks (micros cx dx)) 255 + 1 : Nat) * PERIOD

end Sbc386Ex.Time

import Sbc386Ex.Lib.BitBuffer
import Sbc386Ex.Machine

/-!
# Sbc386Ex.Sd.Ssio

The bursts that the two drivers of the microSD socket make through the synchronous serial
unit. `sdspi.s` makes them in the steps of `sdcore.inc`, so they are here once, and the
drivers call them by their own names.

A burst is what its driver reads of the unit: the words that come in and the flags of
`SSIOCON1`. What goes out is left out: a card may answer anything to it.
-/

namespace Sbc386Ex.Sd.Ssio

open BitBuffer

def TUE : Byte := 0x80
def ROE : Byte := 0x08

def PRE : Nat := 20
def WINLEN : Nat := PRE + 24
def XDATA : Nat := 262
def RINGW : Nat := 560
def CAPMAX : Nat := 30000
def WRESP : Nat := 8
def WTXW : Nat := (WINLEN + 2 + 512 + 2 + WRESP) / 2

theorem winlen_eq : WINLEN = 44 := rfl
theorem xdata_eq : XDATA = 262 := rfl
theorem ringw_eq : RINGW = 560 := rfl

/-- What the unit does in a burst: the words in, one by one (`none` once `RHBF` does not
come in 65536 polls), whether it takes a first word at all (`THBE`), and `SSIOCON1` as the
last word has gone in and as the burst is stopped. -/
structure Burst where
  word : Nat → Option Word
  taken : Bool
  late : Byte
  stop : Byte

/-- The words of a burst that brings them all. -/
def Burst.words (u : Burst) (k : Nat) : Word := (u.word k).getD 0

/-! ### Command bursts -/

/-- `ssio_stop`: the flags it leaves. -/
def ssioStop (u : Burst) (err : Byte) : Byte := err ||| (u.stop &&& ROE)

/-- `spi_burst` and `sdburst` with `bp` words to receive, the next of them word `k`, and `cx`
to send: the flags, and the buffer if the unit kept going. -/
def burstLoop (u : Burst) : (bp cx k : Nat) → Byte → Buffer → Option Buffer × Byte
  | 0, _, _, err, buf => (some buf, ssioStop u err)
  | bp + 1, cx, k, err, buf =>
      match u.word k with
      | none => (none, ssioStop u err)
      | some w =>
          -- with the last word in, an underflow before now was a real one
          let err := if cx = 1 then err ||| (u.late &&& (TUE ||| ROE)) else err
          burstLoop u bp (cx - 1) (k + 1) err (putWord buf (2 * k) w)

/-- `spi_xfer` of one word, nothing kept: `AX`, or none with the carry set. -/
def spiXfer (u : Burst) (err : Byte) : Option Word × Byte :=
  if u.taken then (u.word 0, err ||| (u.late &&& (TUE ||| ROE))) else (none, err)

/-! ### Data bursts -/

/-- The window: `.w` and `xwloop`. -/
def windowLoop (u : Burst) : (bp k : Nat) → Buffer → Option Buffer
  | 0, _, buf => some buf
  | bp + 1, k, buf =>
      match u.word k with
      | none => none
      | some w => windowLoop u bp (k + 1) (putWord buf (2 * k) w)

/-- The words put into the ring, where the next goes, and the memory the ring is in. -/
structure Capture where
  mem : Buffer
  rwp : Nat
  rtot : Nat

/-- Why a data burst comes to nothing. -/
inductive Stop
  | ssio
  | nothing

/-- A word into the ring that starts at `base`. -/
def Capture.put (base : Nat) (c : Capture) (w : Word) : Capture where
  mem := putWord c.mem c.rwp w
  rwp := if c.rwp + 2 < base + RINGW * 2 then c.rwp + 2 else base
  rtot := c.rtot + 1

@[simp] theorem Capture.put_mem (base : Nat) (c : Capture) (w : Word) :
    (c.put base w).mem = putWord c.mem c.rwp w := rfl
@[simp] theorem Capture.put_rwp (base : Nat) (c : Capture) (w : Word) :
    (c.put base w).rwp = if c.rwp + 2 < base + RINGW * 2 then c.rwp + 2 else base := rfl
@[simp] theorem Capture.put_rtot (base : Nat) (c : Capture) (w : Word) :
    (c.put base w).rtot = c.rtot + 1 := rfl

/-- `.r` and `xrloop` once the word to stop at is known: `n` to go. -/
def tailLoop (u : Burst) (base : Nat) : Nat → Capture → Except Stop Capture
  | 0, c => .ok c
  | n + 1, c =>
      match u.word (WINLEN / 2 + c.rtot) with
      | none => .error .ssio
      | some w => tailLoop u base n (c.put base w)

/-- `.r` and `xrloop` while only FFFF has come: `cx` words of it at most. -/
def waitLoop (u : Burst) (base : Nat) : Nat → Capture → Except Stop Capture
  | 0, _ => .error .nothing
  | cx + 1, c =>
      match u.word (WINLEN / 2 + c.rtot) with
      | none => .error .ssio
      | some w =>
          if w = 0xFFFF then waitLoop u base cx (c.put base w)
          else tailLoop u base XDATA (c.put base w)

/-- A ring that nothing has been put into. -/
def Capture.empty (base : Nat) (mem : Buffer) : Capture := ⟨mem, base, 0⟩

/-- `copy`, `rep movsb`, `rep movsw`: `n` bytes. -/
def copy (dst : Buffer) (d : Nat) (src : Buffer) (s n : Nat) : Buffer := fun j =>
  if d ≤ j ∧ j < d + n then src (s + (j - d)) else dst j

/-! ### Tries -/

/-- The bursts of one try at a read: the data, and the word of clocks after it that lets the
card let go of the line. -/
structure Trial where
  data : Burst
  desel : Burst

/-- One try: the result, or the buffers as they are if the block was not kept whole. -/
inductive Attempt (α μ : Type)
  | done (a : α)
  | again (m : μ)

/-- `n` tries from try `t` on, and what comes of it if none keeps the block. -/
def attempts {α μ : Type} (attempt : Trial → μ → Attempt α μ) (short : α)
    (trials : Nat → Trial) : (n t : Nat) → μ → α
  | 0, _, _ => short
  | n + 1, t, m =>
      match attempt (trials t) m with
      | .done a => a
      | .again m => attempts attempt short trials n (t + 1) m

/-- What a driver meets in a write: the burst with the command and the data, a poll at each
instant the card may be busy, the burst of CMD13, and one more word after its window. -/
structure WriteLine where
  data : Burst
  busy : Nat → Burst
  status : Burst
  after : Burst

end Sbc386Ex.Sd.Ssio

import Mathlib.Logic.Function.Iterate
import Sbc386Ex.Lib.Leading
import Sbc386Ex.Sd.Ssio

/-!
# Sbc386Ex.Sd.SdCore

Reading and writing a sector in `sdcore.inc`, which `SD.SYS` and `SDTEST` are built on: a
command and its data in one burst, what came in unrolled behind the command's window, and
the card's bytes found in it at the offset of the first 0 bit of R1.
-/

namespace Sbc386Ex.Sd.SdCore

open BitBuffer Ssio

/-- `[why]` after a failure; `WHY_OK` is no failure. -/
inductive Why
  | r1
  | tok
  | crc
  | ssio
  | short
  | wresp
  | busy
  | stat
  deriving DecidableEq

/-- The buffers of `rd_xact`. -/
structure Bufs where
  xbuf : Buffer
  xring : Buffer

/-! ### Bits of the burst -/

def xbits (xbuf : Buffer) (bx : Nat) : Byte :=
  high ((xbuf (bx / 8) ++ xbuf (bx / 8 + 1)) <<< (bx % 8))

def findR1 (xbuf : Buffer) : Option Nat :=
  let n := (WINLEN - 6) * 8 - (PRE + 6) * 8
  let k := leading (fun k => (xbits xbuf ((PRE + 6) * 8 + k)).msb) n
  if k < n then some ((PRE + 6) * 8 + k) else none

/-- The data token: the first byte after R1 at `bx`, below bit `dx`, that is not FF. -/
def token (xbuf : Buffer) (dx bx : Nat) : Option Nat :=
  let n := (dx - (bx + 8) + 7) / 8
  let k := leading (fun k => xbits xbuf (bx + 8 + 8 * k) = 0xFF) n
  if k < n then some (bx + 8 + 8 * k) else none

/-- `xcopy` off a byte boundary. -/
def shiftLoop (xbuf : Buffer) (cl : Nat) : (dx si di : Nat) → Buffer → Buffer
  | 0, _, _, dst => dst
  | dx + 1, si, di, dst =>
      shiftLoop xbuf cl dx (si + 1) (di + 1)
        (Function.update dst di (high ((xbuf si ++ xbuf (si + 1)) <<< cl)))

def xcopy (xbuf : Buffer) (bx cx : Nat) (dst : Buffer) : Buffer :=
  if bx % 8 = 0 then copy dst 0 xbuf (bx / 8) cx else shiftLoop xbuf (bx % 8) cx (bx / 8) 0 dst

/-! ### The data burst -/

/-- `xact_burst`: the window in `xbuf`, the rest in `xring`. -/
def xactBurst (u : Burst) (m : Bufs) : Except Stop (Buffer × Capture) :=
  match windowLoop u (WINLEN / 2) 0 m.xbuf with
  | none => .error .ssio
  | some xbuf =>
      match waitLoop u 0 CAPMAX (.empty 0 m.xring) with
      | .error e => .error e
      | .ok c => .ok (xbuf, c)

/-- `unroll`: the ring after the window, oldest word first, and `[xlen]`. -/
def unroll (xbuf : Buffer) (c : Capture) : Buffer × Nat :=
  if c.rtot ≤ RINGW then (copy xbuf WINLEN c.mem 0 (2 * c.rtot), WINLEN + 2 * c.rtot)
  else
    let n := (RINGW * 2 - c.rwp) / 2
    let xbuf := copy xbuf WINLEN c.mem c.rwp (2 * n)
    (copy xbuf (WINLEN + 2 * n) c.mem 0 (2 * (c.rwp / 2)), WINLEN + 2 * RINGW)

/-- One try of `rd_xact`: the error, and the buffer the data goes to. No sum here comes near
65536. -/
def rdTry (xn : Nat) (dst : Buffer) (tr : Trial) (m : Bufs) : Attempt (Option Why × Buffer) Bufs :=
  -- `mkframe` clears the flags; `cs_high` adds those of its own burst
  let err := (spiXfer tr.desel (ssioStop tr.data 0)).2
  match xactBurst tr.data m with
  | .error _ => .done (some (if err &&& ROE = 0 then .tok else .ssio), dst)
  | .ok (xbuf, c) =>
      let (xbuf, xlen) := unroll xbuf c
      match findR1 xbuf with
      | none => .done (some .r1, dst)
      | some bx =>
          if xbits xbuf bx ≠ 0 then .done (some .r1, dst)
          else
            match token xbuf (xlen * 8 - 16) bx with
            | none => .done (some .tok, dst)
            | some bx =>
                if xbits xbuf bx ≠ 0xFE then .done (some .tok, dst)
                else if xlen * 8 < (xn + 2) * 8 + (bx + 8) + 8 then .again ⟨xbuf, c.mem⟩
                else
                  let dst := xcopy xbuf (bx + 8) (xn + 2) dst
                  .done (if err &&& ROE ≠ 0 then some .ssio else none, dst)

def rdXact (trials : Nat → Trial) (xn : Nat) (m : Bufs) (dst : Buffer) : Option Why × Buffer :=
  attempts (rdTry xn dst) (some .short, dst) trials 3 0 m

/-! ### The CRC -/

/-- A bit of `crcinit`. -/
def crcBit (ax : Word) : Word := if ax.msb then ax <<< 1 ^^^ 0x1021 else ax <<< 1

def crctab (b : Byte) : Word := crcBit^[8] (b ++ (0 : Byte))

/-- A byte of `crc16`. -/
def crcByte (dx : Word) (al : Byte) : Word := (low dx ++ (0 : Byte)) ^^^ crctab (al ^^^ high dx)

def crc16 (si : Buffer) (cx : Nat) : Word := (List.range cx).foldl (fun dx k => crcByte dx (si k)) 0

def sdRead (trials : Nat → Trial) (m : Bufs) (secbuf : Buffer) : Option Why × Buffer :=
  match rdXact trials 512 m secbuf with
  | (some why, secbuf) => (some why, secbuf)
  | (none, secbuf) =>
      let ax := crc16 secbuf 512
      (if low ax ++ high ax = secbuf 513 ++ secbuf 512 then none else some .crc, secbuf)

/-! ### Commands without data -/

/-- What is left of a command's window: `win`, `[aidx]`, `[la]`, `[sbits]`. -/
structure Window where
  win : Buffer
  aidx : Nat
  la : Byte
  sbits : Nat

/-- `rd_byte` with no byte held, as after every command; no second byte is asked for. -/
def rdByte (after : Burst) : Byte :=
  match (spiXfer after 0).1 with
  | some w => high w
  | none => 0xFF

def rdRaw (after : Burst) (v : Window) : Byte × Window :=
  if v.aidx < WINLEN then (v.win v.aidx, { v with aidx := v.aidx + 1 }) else (rdByte after, v)

def rdAbyte (after : Burst) (v : Window) : Byte × Window :=
  let (al, v') := rdRaw after v
  (al >>> (8 - v.sbits) ||| v.la <<< v.sbits, { v' with la := al })

/-- `sd_cmd`: R1, and what is left after it. -/
def sdCmd (u after : Burst) (v : Window) : Byte × Window :=
  let noAnswer := (0xFF, { v with aidx := WINLEN, sbits := 0 })
  match (burstLoop u (WINLEN / 2) (WINLEN / 2 - 2) 0 0 v.win).1 with
  | none => noAnswer
  | some win =>
      let n := (WINLEN - 6) * 8 - (PRE + 6) * 8
      let k := leading (fun k =>
        (win (((PRE + 6) * 8 + k) / 8) <<< (((PRE + 6) * 8 + k) % 8)).msb) n
      if k < n then
        let bx := (PRE + 6) * 8 + k
        rdAbyte after ⟨win, bx / 8 + 1, win (bx / 8), bx % 8⟩
      else noAnswer

/-! ### Writing -/

/-- The data response: the first of `cx` bytes from bit `bx` on that is not FF, or FF. -/
def response (xbuf : Buffer) : (cx bx : Nat) → Byte
  | 0, _ => 0xFF
  | cx + 1, bx => if xbits xbuf bx = 0xFF then response xbuf cx (bx + 8) else xbits xbuf bx

/-- `.busy`, poll `i` being next: a poll the unit does not finish leaves 00 in `AL` and is
made again. It is none if `fuel` polls were not enough to know. -/
def busyLoop (poll : Nat → Burst) (ticks : Nat → Word) (t0 : Word) :
    (fuel i : Nat) → Option (Option Why)
  | 0, _ => none
  | fuel + 1, i =>
      if (spiXfer (poll i) 0).1 = some 0xFFFF then some none
      else if ticks i - t0 < 10 then busyLoop poll ticks t0 fuel (i + 1)
      else some (some .busy)

/-- What `wr_sector` does once the card is no longer busy. -/
def checkStatus (l : WriteLine) (v : Window) : Option Why :=
  let (wstat, v) := sdCmd l.status l.after v
  let (wstat1, _) := rdAbyte l.after v
  if wstat1 ++ wstat = (0 : Word) then none else some .stat

/-- `wr_sector`, its polls of the card at the instants `at i` and the tick count after each
of them `ticks i`. -/
def wrSector (l : WriteLine) (polled : Nat → Nat) (ticks : Nat → Word) (t0 : Word) (xbuf : Buffer)
    (v : Window) (fuel : Nat) : Option (Option Why) :=
  match burstLoop l.data WTXW (WTXW - 2) 0 0 xbuf with
  | (none, _) => some (some .ssio)
  | (some xbuf, err) =>
      if err &&& (TUE ||| ROE) ≠ 0 then some (some .ssio)
      else
        match findR1 xbuf with
        | none => some (some .r1)
        | some bx =>
            if xbits xbuf bx ≠ 0 then some (some .r1)
            else
              let sbits := bx % 8
              let bx := (WINLEN + 2 + 512 + 2) * 8
              let bx := if sbits = 0 then bx else bx - 8 + sbits
              if response xbuf (WRESP - 2) bx &&& 0x1F ≠ 0x05 then some (some .wresp)
              else
                match busyLoop (fun i => l.busy (polled i)) ticks t0 fuel 0 with
                | none => none
                | some (some why) => some (some why)
                | some none => some (checkStatus l v)

end Sbc386Ex.Sd.SdCore

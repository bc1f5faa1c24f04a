import Mathlib.Logic.Function.Iterate
import Sbc386Ex.Lib.Leading
import Sbc386Ex.Sd.Ssio

/-!
# Sbc386Ex.Sd.SbcSd

Reading and writing a sector in the Coherent driver: `sbcsd.c`, with `sdxact`, `sdburst` and
`sdalign` of `sdspi.s`. A read's window and its ring lie one after the other in `rbuf`, so
the stream is copied out only once the ring has wrapped.
-/

namespace Sbc386Ex.Sd.SbcSd

open BitBuffer Ssio

/-- The buffers of `rd_xact`. -/
structure Bufs where
  rbuf : Buffer
  xbuf : Buffer

/-! ### Bits of the burst -/

def xbits (buf : Buffer) (b : Nat) : DWord :=
  (((buf (b / 8)).setWidth 32 <<< 8 ||| (buf (b / 8 + 1)).setWidth 32) <<< (b % 8)) >>> 8 &&& 0xFF

def findR1 (buf : Buffer) : Option Nat :=
  let n := (WINLEN - 6) * 8 - (PRE + 6) * 8
  let k := leading (fun k =>
    buf (((PRE + 6) * 8 + k) / 8) &&& (0x80 >>> (((PRE + 6) * 8 + k) % 8)) ≠ 0) n
  if k < n then some ((PRE + 6) * 8 + k) else none

/-! ### The CRC -/

/-- A bit of `crcinit`. -/
def crcBit (c : DWord) : DWord := if c &&& 0x8000 ≠ 0 then c <<< 1 ^^^ 0x1021 else c <<< 1

def crctab (b : Byte) : Word := (crcBit^[8] (b.setWidth 32 <<< 8)).setWidth 16

/-- A byte in `AH` of `sdalign`, into the CRC in `EDX`. -/
def crcByte (edx : DWord) (ah : Byte) : DWord :=
  edx <<< 8 ^^^ (crctab (ah ^^^ edx.extractLsb' 8 8)).setWidth 32

/-- `alloop` -/
def alignLoop (src : Buffer) (cl : Nat) : (n esi edi : Nat) → DWord → Buffer → Buffer × DWord
  | 0, _, _, edx, dst => (dst, edx)
  | n + 1, esi, edi, edx, dst =>
      let ah := high ((src esi ++ src (esi + 1)) <<< cl)
      alignLoop src cl n (esi + 1) (edi + 1) (crcByte edx ah) (Function.update dst edi ah)

/-- `alcopy` -/
def copyLoop (src : Buffer) : (n esi edi : Nat) → DWord → Buffer → Buffer × DWord
  | 0, _, _, edx, dst => (dst, edx)
  | n + 1, esi, edi, edx, dst =>
      let ah := src esi
      copyLoop src n (esi + 1) (edi + 1) (crcByte edx ah) (Function.update dst edi ah)

/-- `sdalign`: `n` bytes of `src` from bit `b` on to `dst`, and their CRC. -/
def sdalign (src : Buffer) (b : Nat) (dst : Buffer) (n : Nat) : Buffer × DWord :=
  let r := if b % 8 = 0 then copyLoop src n (b / 8) 0 0 dst else alignLoop src (b % 8) n (b / 8) 0 0 dst
  (r.1, r.2 &&& 0xFFFF)

/-! ### Reading -/

/-- `sdxact`: the window and the ring in `rbuf`. -/
def sdxact (u : Burst) (rbuf : Buffer) : Except Stop Capture :=
  match windowLoop u (WINLEN / 2) 0 rbuf with
  | none => .error .ssio
  | some rbuf => waitLoop u WINLEN CAPMAX (.empty WINLEN rbuf)

/-- The stream in order, its length, and `xbuf` after it. -/
def inOrder (xbuf : Buffer) (c : Capture) : Buffer × Nat × Buffer :=
  if c.rtot ≤ RINGW then (c.mem, WINLEN + c.rtot * 2, xbuf)
  else
    let xbuf := copy xbuf 0 c.mem 0 WINLEN
    let i := WINLEN + RINGW * 2 - c.rwp
    let xbuf := copy xbuf WINLEN c.mem c.rwp i
    let xbuf := copy xbuf (WINLEN + i) c.mem WINLEN (RINGW * 2 - i)
    (xbuf, WINLEN + RINGW * 2, xbuf)

/-- One try of `rd_xact`: whether it worked, and the buffer the data goes to. `io.err` is
read before `cs_high` makes a burst of its own. -/
def rdTry (n : Nat) (dst : Buffer) (tr : Trial) (m : Bufs) : Attempt (Bool × Buffer) Bufs :=
  let err := ssioStop tr.data 0
  match sdxact tr.data m.rbuf with
  | .error _ => .done (false, dst)
  | .ok c =>
      if err &&& ROE ≠ 0 then .done (false, dst)
      else
        let (buf, len, xbuf) := inOrder m.xbuf c
        match findR1 buf with
        | none => .done (false, dst)
        | some z =>
            if xbits buf z ≠ 0 then .done (false, dst)
            else
              let ends := len * 8 - 16
              let k := leading (fun k => xbits buf (z + 8 + 8 * k) = 0xFF) ((ends - (z + 8) + 7) / 8)
              let b := z + 8 + 8 * k
              if ends ≤ b ∨ xbits buf b ≠ 0xFE then .done (false, dst)
              else
                let b := b + 8
                if len * 8 < b + (n + 2) * 8 + 8 then .again ⟨c.mem, xbuf⟩
                else
                  let (dst, c) := sdalign buf b dst n
                  let b := b + n * 8
                  .done (c = (xbits buf b <<< 8 ||| xbits buf (b + 8)), dst)

/-- `rd_xact`: 0 is `true`. -/
def rdXact (trials : Nat → Trial) (n : Nat) (m : Bufs) (dst : Buffer) : Bool × Buffer :=
  attempts (rdTry n dst) (false, dst) trials 3 0 m

/-! ### Writing -/

/-- `sd_cmd` and the byte after R1, `sd_next (1)`. -/
def sdCmd (u : Burst) (win : Buffer) : DWord × DWord :=
  match (burstLoop u (WINLEN / 2) (WINLEN / 2 - 2) 0 0 win).1 with
  | none => (-1, xbits win 8)
  | some win =>
      match findR1 win with
      | none => (-1, xbits win 7)
      | some r1bit => (xbits win r1bit, xbits win (r1bit + 8))

/-- The data response, `n` bytes from bit `b` on being looked at. -/
def response (buf : Buffer) : (n b : Nat) → DWord
  | 0, _ => 0xFF
  | n + 1, b => if xbits buf b = 0xFF then response buf n (b + 8) else xbits buf b

/-- The polls while the card is busy, `n` of them from poll `i` on. -/
def busyLoop (poll : Nat → Burst) (rx : Buffer) : (n i : Nat) → Bool
  | 0, _ => false
  | n + 1, i =>
      match (burstLoop (poll i) 2 0 0 0 rx).1 with
      | none => false
      | some rx => if rx 0 = 0xFF ∧ rx 1 = 0xFF then true else busyLoop poll rx n (i + 1)

/-- `sd_write`, its polls of the card at the instants `polled i`: 0 is `true`. -/
def sdWrite (l : WriteLine) (polled : Nat → Nat) (xbuf rx win : Buffer) : Bool :=
  match burstLoop l.data WTXW (WTXW - 2) 0 0 xbuf with
  | (none, _) => false
  | (some xbuf, err) =>
      if err &&& (TUE ||| ROE) ≠ 0 then false
      else
        match findR1 xbuf with
        | none => false
        | some z =>
            if xbits xbuf z ≠ 0 then false
            else
              let b := (WINLEN + 2 + 512 + 2) * 8
              let b := if z % 8 ≠ 0 then b - 8 + z % 8 else b
              if response xbuf (WRESP - 2) b &&& 0x1F ≠ 0x05 then false
              else if !busyLoop (fun i => l.busy (polled i)) rx 100000 0 then false
              else
                let (r, k) := sdCmd l.status win
                r = 0 ∧ k = 0

end Sbc386Ex.Sd.SbcSd

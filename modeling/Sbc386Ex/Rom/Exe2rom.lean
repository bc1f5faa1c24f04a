import Sbc386Ex.Lib.ByteFile
import Sbc386Ex.Machine

/-!
# Sbc386Ex.Rom.Exe2rom

`main` of `exe2rom.c`, from the sizes it is given to the file it leaves: filler, the code out of
the EXE file a page at a time, more filler, the startup block, and then the relocation table,
applied to the output where it lies.

A `dword` is the host's `unsigned long`. What a failed run leaves of the output is left out, and
so is what goes to the console but the message of a run that stops; every file opens, and takes
what is written to it.
-/

namespace Sbc386Ex.Rom

open ByteFile

/-- `dword` of `mytypes.h`, on the 64-bit host. -/
abbrev Dword := BitVec 64

def BUFSIZE : Nat := 4096
def PAGESIZE : Nat := 512
def FILL : Byte := 0xFF

/-- A `word` in memory and in files. -/
def wordOf (b : List Byte) : Word := b.getD 1 0 ++ b.getD 0 0

def bytesOf (w : Word) : List Byte := [w.setWidth 8, (w >>> 8).setWidth 8]

/-- `HEADER`, as far as it is looked at. -/
structure Header where
  length : Word
  pages : Word
  nreloc : Word
  header : Word
  reloc_displ : Word

def HEADER_SIZE : Nat := 28

def headerOf (exe : List Byte) : Header where
  length := wordOf (readAt exe 2 2)
  pages := wordOf (readAt exe 4 2)
  nreloc := wordOf (readAt exe 6 2)
  header := wordOf (readAt exe 8 2)
  reloc_displ := wordOf (readAt exe 24 2)

structure RelocItem where
  offset : Word
  segment : Word

def RelocItem.bytes (r : RelocItem) : List Byte := bytesOf r.offset ++ bytesOf r.segment

def relocOf (b : List Byte) : RelocItem := ⟨wordOf b, wordOf (b.drop 2)⟩

/-- Memory of `old`, with what `fread` got of it. -/
def stale (got old : List Byte) : List Byte := got ++ old.drop got.length

/-- Why a run stops, with its message. -/
inductive Stop
  | sizes
  | startupLength
  | header
  | read1
  | tooBig
  deriving DecidableEq

def Stop.text : Stop → String
  | .sizes => "\nROM or EPROM size specification error.\n"
  | .startupLength => "STARTUPfile length error.\n"
  | .header => "EXEfile: header read error.\n"
  | .read1 => "EXEfile read error 1.\n"
  | .tooBig => "EXEfile + STARTUPfile too big for EPROMfile.\n"

/-! ### The pieces of the file -/

def badSizes (ROMsize CHIPsize : Word) : Bool :=
  ROMsize &&& (ROMsize - 1) ≠ 0 ∨ CHIPsize &&& (CHIPsize - 1) ≠ 0 ∨ CHIPsize < ROMsize ∨
    256 < CHIPsize ∨ ROMsize < 32

def badStartup (startuplength : Nat) : Bool :=
  1024 < startuplength ∨ startuplength &&& (startuplength - 1) ≠ 0

/-- The filler before the code, a buffer at a time: by the check on the sizes it is some number
of buffers. -/
def prefill (filler : Nat) : List Byte :=
  if filler = 0 then [] else List.replicate BUFSIZE FILL ++ prefill (filler - BUFSIZE)
termination_by filler
decreasing_by
  have hpos : 0 < BUFSIZE := by decide
  omega

/-- The filler before the startup block. -/
def postfill (filler : Nat) : List Byte :=
  if filler = 0 then []
  else
    let temp := if filler < BUFSIZE then filler else BUFSIZE
    List.replicate temp FILL ++ postfill (filler - temp)
termination_by filler
decreasing_by
  have hpos : 0 < BUFSIZE := by decide
  split <;> omega

/-- The length of the code, in whole pages. -/
def codelength (h : Header) : Dword :=
  let c : Dword := BitVec.ofNat 64 (h.pages.toNat * PAGESIZE)
  let c := if h.length ≠ 0 then c - BitVec.ofNat 64 PAGESIZE + h.length.setWidth 64 else c
  let c := c - BitVec.ofNat 64 (h.header.toNat * 16)
  if c % BitVec.ofNat 64 PAGESIZE ≠ 0 then
    (c / BitVec.ofNat 64 PAGESIZE + 1) * BitVec.ofNat 64 PAGESIZE
  else c

/-- `i`, an `int`, as the copying starts. -/
def pagesOf (codelength : Dword) : Int :=
  ((codelength / BitVec.ofNat 64 PAGESIZE).setWidth 32).toInt

/-- The copying: what is left of the input, and the output. -/
def copyPages : Nat → List Byte → List Byte → Except Stop (List Byte)
  | 0, _, out => .ok out
  | i + 1, src, out =>
      let buffer := readAt src 0 PAGESIZE
      if buffer.length = 0 then .error .read1
      else copyPages i (src.drop PAGESIZE)
        (out ++ buffer ++ List.replicate (PAGESIZE - buffer.length) FILL)

/-! ### Relocation -/

/-- `0xFFFF - (ROMsize*64) + 1` -/
def relocConst (ROMsize : Word) : Word := BitVec.ofInt 16 (0xFFFF - (ROMsize.toNat * 64 : Nat) + 1)

/-- What the relocation loop keeps: both files, `reloc` and `lth`. -/
structure Loop where
  out : List Byte
  ipos : Nat
  reloc : RelocItem
  lth : Word

/-- Where the entry points in the code. -/
def RelocItem.place (r : RelocItem) : Nat := r.segment.toNat * 16 + r.offset.toNat

/-- An entry: none of the reads is looked at. -/
def relocate (exe : List Byte) (rombegin : Nat) (temp : Word) (s : Loop) : Loop :=
  let got := readAt exe s.ipos 4
  let reloc := relocOf (stale got s.reloc.bytes)
  let filler := reloc.place + rombegin
  let lth := wordOf (stale (readAt s.out filler 2) (bytesOf s.lth)) + temp
  { out := writeAt 0 s.out filler (bytesOf lth), ipos := s.ipos + got.length, reloc, lth }

def rombegin (ROMsize CHIPsize : Word) : Nat := (CHIPsize.toNat - ROMsize.toNat) * 1024

/-- Everything up to the relocation loop. `reloc` is what is on the stack. -/
def written (ROMsize CHIPsize : Word) (startup exe : List Byte) (reloc : RelocItem) :
    Except Stop Loop :=
  if badSizes ROMsize CHIPsize then .error .sizes
  else if badStartup startup.length then .error .startupLength
  else if exe.length < HEADER_SIZE then .error .header
  else
    let h := headerOf exe
    let code := codelength h
    match copyPages (pagesOf code).toNat (exe.drop (h.header.toNat * 16))
        (prefill (rombegin ROMsize CHIPsize)) with
    | .error e => .error e
    | .ok out =>
        let chip := BitVec.ofNat 64 (CHIPsize.toNat * 1024)
        let romlength := BitVec.ofNat 64 (rombegin ROMsize CHIPsize) + code
        let startuplength := BitVec.ofNat 64 startup.length
        if chip < romlength + startuplength then .error .tooBig
        else
          let out := out ++ postfill (chip - romlength - startuplength).toNat ++ startup
          .ok { out, ipos := h.reloc_displ.toNat, reloc, lth := BitVec.ofNat 16 startup.length }

/-- The output after `n` entries. -/
def relocated (ROMsize CHIPsize : Word) (exe : List Byte) (n : Nat) (s : Loop) : Loop :=
  (relocate exe (rombegin ROMsize CHIPsize) (relocConst ROMsize))^[n] s

def main (ROMsize CHIPsize : Word) (startup exe : List Byte) (reloc : RelocItem) :
    Except Stop (List Byte) :=
  match written ROMsize CHIPsize startup exe reloc with
  | .error e => .error e
  | .ok s => .ok (relocated ROMsize CHIPsize exe (headerOf exe).nreloc.toNat s).out

end Sbc386Ex.Rom

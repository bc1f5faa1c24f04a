import Sbc386Ex.Sd.Socket

/-!
# Sbc386Ex.Sd.SdSys

`SD.SYS`, the DOS block device driver (`sd.asm`). The request packet and the driver's own
data are kept apart from the memory its transfers go to. `search` is a ghost: what the
last volume search that succeeded read, and how often a card had been taken out by then.
-/

namespace Sbc386Ex.Sd.SdSys

open Prog

def ST_DONE : Word := 0x0100
def ST_ERROR : Word := 0x8000
def E_NOTREADY : Word := 0x02
def E_UNKNOWN : Word := 0x03
def E_SECTOR : Word := 0x08
def E_WRITE : Word := 0x0A
def E_READ : Word := 0x0B

def errorStatus (e : Word) : Word := ST_DONE ||| ST_ERROR ||| e

/-- A request packet. `addr` is the transfer address, a far pointer, or the answer to MEDIA
CHECK, in its low byte; `start32` counts when `start` is `FFFFh`. -/
structure Req where
  cmd : Byte
  status : Word
  units : Byte
  addrOff : Word
  addrSeg : Word
  count : Word
  start : Word
  start32 : DWord
  deriving DecidableEq

/-- What a volume search found, and where. -/
structure Search where
  card : Option Nat
  removals : Nat
  poff : DWord
  vsize : DWord

/-- `[fail]`: the message INIT would print. -/
inductive Fail
  | nocard
  | nostart
  | noread
  | nomedia
  | nopart
  | noboot
  deriving Repr, DecidableEq

/-- Where the driver was loaded: its segment, and what it hands out pointers to. -/
structure Layout where
  cs : Word
  bpb : Word
  bpbarr : Word
  residentEnd : Word

/-- The driver's data. -/
structure Drv where
  layout : Layout
  req : Req
  status : Word
  poff : DWord
  vsize : DWord
  lba : DWord
  xferOff : Word
  xferSeg : Word
  count : Word
  verify : Bool
  gone : Bool
  ccs : Bool
  bpb : Block
  secbuf : Block
  fail : Option Fail
  search : Option Search

abbrev DosM := SdM Drv

def setStatus (v : Word) : DosM Unit := setDrv fun d => { d with status := v }
def setGone (b : Bool) : DosM Unit := setDrv fun d => { d with gone := b }
def setFail (f : Fail) : DosM Unit := setDrv fun d => { d with fail := some f }

/-! ### The core (`sdcore.inc`) -/

/-- The sector a card is asked for by sector number `ebx`: a byte-addressed card is sent
`ebx` shifted left nine bits. -/
def addressedBy (ccs : Bool) (ebx : DWord) : Nat :=
  if ccs then ebx.toNat else (ebx <<< 9).toNat / 512

def Drv.addressed (d : Drv) (ebx : DWord) : Nat := addressedBy d.ccs ebx

/-- `sd_read`, a sector of the card to `secbuf`; `true` is carry clear. -/
def sdRead (ebx : DWord) : DosM Bool := do
  let d ← getDrv
  let r ← dataCommand false (d.addressed ebx) d.secbuf
  setDrv fun d => { d with secbuf := r.2 }
  pure r.1

/-- `wr_sector` -/
def wrSector (ebx : DWord) : DosM Bool := do
  let d ← getDrv
  let r ← dataCommand true (d.addressed ebx) d.secbuf
  pure r.1

def sdStart : DosM Bool := do
  match ← start with
  | none => pure false
  | some a => do
      setDrv fun d => { d with ccs := a.ccs }
      pure a.ok

/-! ### Tries -/

/-- `.t` of `rd_try` and `wr_try`, `rtries` to go. -/
def tryLoop (sector : DWord → DosM Bool) : Nat → DosM Bool
  | 0 => pure false
  | rtries + 1 => do
      let d ← getDrv
      if ← sector (d.lba + d.poff) then pure true else tryLoop sector rtries

def rdTry : DosM Bool := tryLoop sdRead 3
def wrTry : DosM Bool := tryLoop wrSector 3

/-! ### Finding the volume -/

/-- A word, and a dword, of a block. -/
def wordAt (b : Block) (i : Nat) : Word := (b (i + 1)).setWidth 16 <<< 8 ||| (b i).setWidth 16
def dwordAt (b : Block) (i : Nat) : DWord :=
  (wordAt b (i + 2)).setWidth 32 <<< 16 ||| (wordAt b i).setWidth 32

/-- `.p` of `findvol`: the first sector of the first FAT partition of the table. -/
def fatPartition (b : Block) : Option DWord :=
  [0, 1, 2, 3].findSome? fun i =>
    let si := 0x1BE + 16 * i
    if b (si + 4) ∈ [0x01, 0x04, 0x06, 0x0E] then some (dwordAt b (si + 8)) else none

/-- `isboot`: carry clear. -/
def isboot (b : Block) : Bool :=
  (b 0 = 0xEB ∨ b 0 = 0xE9) ∧ wordAt b 0x0B = 512 ∧ b 0x0D ≠ 0 ∧ b 0x0D &&& (b 0x0D - 1) = 0 ∧
    1 ≤ b 0x10 ∧ b 0x10 ≤ 2

/-- The sectors of the volume whose boot sector is `b`, by its BPB. -/
def totalSectors (b : Block) : DWord :=
  if wordAt b (0x0B + 8) ≠ 0 then (wordAt b (0x0B + 8)).setWidth 32 else dwordAt b (0x0B + 21)

def BPBLEN : Nat := 25

/-- `.bs` of `findvol`: the BPB, and the size of the volume. -/
def takeBpb : DosM Bool := do
  setDrv fun d =>
    { d with
      bpb := fun i => if i < BPBLEN then d.secbuf (0x0B + i) else d.bpb i
      vsize := totalSectors d.secbuf }
  pure true

def findvol : DosM Bool := do
  setFail .noread
  setDrv fun d => { d with poff := 0, lba := 0 }
  if !(← rdTry) then pure false
  else do
    setFail .nomedia
    let d ← getDrv
    if wordAt d.secbuf 510 ≠ 0xAA55 then pure false
    else
      match fatPartition d.secbuf with
      | none =>
          if isboot d.secbuf then takeBpb
          else do
            setFail .nopart
            pure false
      | some eax => do
          setDrv fun d => { d with poff := eax, lba := 0 }
          if !(← rdTry) then pure false
          else do
            setFail .noboot
            let d ← getDrv
            if wordAt d.secbuf 510 ≠ 0xAA55 then pure false
            else if isboot d.secbuf then takeBpb
            else pure false

/-- The ghost of a search that succeeded. -/
def noteFound (found : Bool) : DosM Unit :=
  modify fun s =>
    if found then
      { s with drv.search := some ⟨s.socket.card, s.socket.removals, s.drv.poff, s.drv.vsize⟩ }
    else s

/-- `restart`: the card from nothing, and its volume. -/
def restart : DosM Bool := do
  setFail .nocard
  if !(← cardIn) then pure false
  else do
    setFail .nostart
    if !(← sdStart) then pure false
    else do
      let found ← findvol
      noteFound found
      pure found

/-! ### MEDIA CHECK and BUILD BPB -/

/-- `mov byte [es:bx+RQ_ADDR],al` -/
def answerMedia (al : Byte) : DosM Unit :=
  setDrv fun d => { d with req.addrOff := (d.req.addrOff &&& 0xFF00) ||| al.setWidth 16 }

/-- The byte MEDIA CHECK answers with: 1 not changed, `FFh` changed. -/
def Req.media (q : Req) : Byte := q.addrOff.setWidth 8

def doMedia : DosM Unit := do
  answerMedia 1
  if !(← cardIn) then
    setGone true
    answerMedia 0xFF
  else
    let d ← getDrv
    if d.gone then
      if ← restart then
        setGone false
      answerMedia 0xFF

/-- BUILD BPB: the second half of the pointer is where a transfer has its start sector. -/
def doBpb : DosM Unit := do
  let d ← getDrv
  if d.gone then setStatus (errorStatus E_NOTREADY)
  else setDrv fun d => { d with req.count := d.layout.bpb, req.start := d.layout.cs }

/-! ### INPUT, OUTPUT, OUTPUT WITH VERIFY -/

/-- The starting sector a packet asks for. -/
def Req.startSector (q : Req) : DWord :=
  if q.start = 0xFFFF then q.start32 else q.start.setWidth 32

/-- The request in the driver's variables, the transfer address normalised, and none done
yet. -/
def Drv.taken (d : Drv) : Drv :=
  { d with
    xferOff := d.req.addrOff &&& 0x0F
    xferSeg := d.req.addrSeg + (d.req.addrOff >>> 4)
    count := d.req.count
    lba := d.req.startSector
    req.count := 0 }

/-- The range a request asks for is inside the volume: the carry of the 32-bit sum is the
first test, its size the second. -/
def Drv.inRange (d : Drv) : Bool :=
  d.count.toNat + d.lba.toNat < 2 ^ 32 ∧ d.count.setWidth 32 + d.lba ≤ d.vsize

/-- `.nr` of `getio` -/
def notReady : DosM Bool := do
  setGone true
  setStatus (errorStatus E_NOTREADY)
  pure false

def getio : DosM Bool := do
  setDrv Drv.taken
  if !(← cardIn) then notReady
  else
    let d ← getDrv
    if d.gone then notReady
    else if d.inRange then pure true
    else do
      setStatus (errorStatus E_SECTOR)
      pure false

def next : DosM Unit :=
  setDrv fun d =>
    let ax := d.xferOff + 512
    { d with
      req.count := d.req.count + 1
      xferSeg := d.xferSeg + (ax >>> 4)
      xferOff := ax &&& 0x0F
      lba := d.lba + 1
      count := d.count - 1 }

/-- The addresses `rep movsw` goes through from `xfer`. -/
def Drv.xferAddrs (d : Drv) : List Nat :=
  (List.range 512).map fun i => linear d.xferSeg (d.xferOff + BitVec.ofNat 16 i)

/-- `rep movsw` from `secbuf` to the caller's buffer. -/
def copyOut : DosM Unit :=
  modify fun s =>
    { s with
      log := s.log ++ [.copy s.drv.xferAddrs s.drv.secbuf]
      mem := (s.drv.xferAddrs.zipIdx).foldl
        (fun mem e => Function.update mem e.1 (s.drv.secbuf e.2)) s.mem }

/-- The bytes at the addresses of a list, as a block. -/
def gather (mem : Mem) (addrs : List Nat) : Block := fun i => mem (addrs.getD i 0)

/-- `rep movsw` from the caller's buffer to `secbuf`. -/
def copyIn : DosM Unit :=
  modify fun s =>
    { s with
      log := s.log ++ [.copy s.drv.xferAddrs (gather s.mem s.drv.xferAddrs)]
      drv.secbuf := gather s.mem s.drv.xferAddrs }

/-- `repe cmpsw` of `secbuf` and the caller's buffer. -/
def compare : DosM Bool := do
  let s ← get
  pure ((List.range 512).all fun i => s.drv.secbuf i = gather s.mem s.drv.xferAddrs i)

/-- `.s` of `do_read`. -/
def readLoop : Nat → DosM Unit
  | 0 => pure ()
  | n + 1 => do
      if ← rdTry then
        copyOut
        next
        readLoop n
      else setStatus (errorStatus E_READ)

def doRead : DosM Unit := do
  if ← getio then
    let d ← getDrv
    readLoop d.count.toNat

/-- One sector of `do_write`. -/
def writeSector : DosM Bool := do
  copyIn
  if !(← wrTry) then pure false
  else
    let d ← getDrv
    if !d.verify then pure true
    else if !(← rdTry) then pure false
    else compare

/-- `.s` of `do_write`. -/
def writeLoop : Nat → DosM Unit
  | 0 => pure ()
  | n + 1 => do
      if ← writeSector then
        next
        writeLoop n
      else setStatus (errorStatus E_WRITE)

def doWrite : DosM Unit := do
  if ← getio then
    let d ← getDrv
    writeLoop d.count.toNat

/-! ### The interrupt routine -/

/-- INIT: the driver stays if there is a volume. -/
def doInit : DosM Unit := do
  if ← restart then
    setDrv fun d =>
      { d with
        req.units := 1
        req.addrOff := d.layout.residentEnd
        req.addrSeg := d.layout.cs
        req.count := d.layout.bpbarr
        req.start := d.layout.cs }
  else do
    setDrv fun d => { d with req.units := 0, req.addrOff := 0, req.addrSeg := d.layout.cs }
    setStatus (errorStatus E_NOTREADY)

/-- OUTPUT, with or without verify. -/
def writeRequest (verify : Bool) : DosM Unit := do
  setDrv fun d => { d with verify := verify }
  doWrite

/-- The routine for each command. -/
def dispatch (cmd : Byte) : DosM Unit :=
  if cmd = 0 then doInit
  else if cmd = 1 then doMedia
  else if cmd = 2 then doBpb
  else if cmd = 4 then doRead
  else if cmd = 8 then writeRequest false
  else if cmd = 9 then writeRequest true
  else setStatus (errorStatus E_UNKNOWN)

def interrupt (q : Req) : DosM Req := do
  setDrv fun d => { d with req := q, status := ST_DONE }
  dispatch q.cmd
  setDrv fun d => { d with req.status := d.status }
  let d ← getDrv
  pure d.req

end Sbc386Ex.Sd.SdSys

import Sbc386Ex.Ide.Bus

/-!
# Sbc386Ex.Ide.Drive

A drive on the IDE port, with the clock beside it: an instance of `IdeBus` the
disk calls are run against.

What the drive does with each sector is laid down by a `Plan`, so "the point at
which the drive first fails" is a quantifier over plans: before any data of the
sector moves the drive may come ready, come to rest with any status (an error, a
fault, or nothing at all) or hang; and when it has taken the data of a written
sector it may be done, post a failure, or hang. `Timing` says how long it stays
busy before each of these and what the tick count reads meanwhile.
-/

namespace Sbc386Ex.Ide

/-- A 28-bit block address, the task file's. -/
abbrev Lba := BitVec 28

/-- A status and error register the drive can come to rest with: BSY and DRQ clear. -/
structure Rest where
  st : Byte
  er : Byte
  quiet : st &&& 0x88 = 0

/-- Ready, nothing wrong. -/
def Rest.clean : Rest := ⟨0x50, 0, rfl⟩

/-- ERR and ABRT: what a drive answers a command it does not know. -/
def Rest.aborted : Rest := ⟨0x51, 0x04, rfl⟩

/-- What becomes of a sector before its data moves. -/
inductive Before
  | ready
  | halt (r : Rest)
  | wedge

/-- What becomes of a written sector once its data has been taken. A `spoil`
leaves ERR or DF in the status. -/
inductive After
  | done
  | spoil (r : Rest) (posted : r.st &&& 0x21 ≠ 0)
  | wedge

/-- The drive's conduct on one sector. -/
structure Fate where
  before : Before
  after : After

/-- The conduct of the drives on the cable: by direction (`true` writes), unit
and block. -/
abbrev Plan := Bool → Bool → Lba → Fate

/-- The clock and the drive's delays. A wait that the drive ends is never cut
short by the clock (`inside`), and a wait that nothing ends is (`runsOut`). -/
structure Timing where
  /-- the `n`-th reading of `timer_count_low` -/
  clk : Nat → Word
  /-- busy polls before the `n`-th change of phase -/
  lag : Nat → Nat
  patience : Nat
  inside : ∀ t n j, j ≤ lag n → clk (t + j) - clk t < IDE_TIMEOUT
  runsOut : ∀ t, ∃ j ≤ patience, ¬ clk (t + j) - clk t < IDE_TIMEOUT

/-- A sector in transfer: `left` counts it and the ones after it. -/
structure Xfer where
  write : Bool
  unit : Bool
  lba : Lba
  left : Nat
  pos : Nat

inductive Phase
  | rest (r : Rest)
  | xfer (x : Xfer)
  | wedged

/-- The status register once the drive is no longer busy. -/
def Phase.status : Phase → Byte
  | .rest r => r.st
  | .xfer _ => 0x58
  | .wedged => 0x80

/-- The error register. -/
def Phase.error : Phase → Byte
  | .rest r => r.er
  | _ => 0

/-- A command as the drive understands it. -/
structure Cmd where
  write : Bool
  unit : Bool
  lba : Lba
  count : Byte
  deriving DecidableEq

/-- The drives and the clock. `cmds` and `served` are ghosts: the transfer
commands accepted, and the bytes that went through the data port, by block and
position, each in order. -/
structure Drive where
  plan : Plan
  timing : Timing
  disk : Bool → Lba → Nat → Byte
  drv : Byte
  lbah : Byte
  lbam : Byte
  lbal : Byte
  secc : Byte
  phase : Phase
  busyFor : Nat
  shown : Nat
  ticks : Nat
  cmds : List Cmd
  served : List (Lba × Nat)

namespace Drive

/-! ### The registers -/

/-- The block address in the task file. -/
def taskLba (d : Drive) : Lba := d.drv.extractLsb' 0 4 ++ d.lbah ++ d.lbam ++ d.lbal

/-- The unit the drive/head register selects. -/
def selected (d : Drive) : Bool := d.drv.getLsbD 4

/-- A read of the status register. -/
def status (d : Drive) : Byte × Drive :=
  if d.busyFor = 0 then (d.phase.status, d)
  else (0x80, { d with busyFor := d.busyFor - 1 })

/-! ### Changes of phase -/

/-- Go busy for a while and come out of it in `p`. -/
def present (d : Drive) (p : Phase) : Drive :=
  { d with phase := p, busyFor := d.timing.lag d.shown, shown := d.shown + 1 }

/-- Turn to the sector `x`. -/
def enter (d : Drive) (x : Xfer) : Drive :=
  match (d.plan x.write x.unit x.lba).before with
  | .ready => d.present (.xfer x)
  | .halt r => d.present (.rest r)
  | .wedge => { d with phase := .wedged }

/-- On to the sector after `x`, or to rest if there is none. -/
def next (d : Drive) (x : Xfer) : Drive :=
  if x.left ≤ 1 then d.present (.rest .clean)
  else d.enter { x with lba := x.lba + 1, left := x.left - 1, pos := 0 }

/-- All the data of `x` has moved. -/
def finish (d : Drive) (x : Xfer) : Drive :=
  if x.write then
    match (d.plan x.write x.unit x.lba).after with
    | .done => d.next x
    | .spoil r _ => d.present (.rest r)
    | .wedge => { d with phase := .wedged }
  else d.next x

/-- On to the next byte of `x`, or to what comes after its last. -/
def advance (d : Drive) (x : Xfer) : Drive :=
  if x.pos + 1 < 512 then { d with phase := .xfer { x with pos := x.pos + 1 } }
  else d.finish x

/-- A byte of `x` goes through the data port. -/
def serve (d : Drive) (x : Xfer) : Drive :=
  advance { d with served := d.served ++ [(x.lba, x.pos)] } x

/-! ### The ports -/

/-- A read of the data port. -/
def readData (d : Drive) : Byte × Drive :=
  match d.phase with
  | .xfer x =>
      if x.write ∨ d.busyFor ≠ 0 then (0xFF, d)
      else (d.disk x.unit x.lba x.pos, d.serve x)
  | _ => (0xFF, d)

/-- A byte of a sector on the medium. -/
def put (disk : Bool → Lba → Nat → Byte) (u : Bool) (l : Lba) (i : Nat) (b : Byte) :
    Bool → Lba → Nat → Byte :=
  fun u' l' i' => if u' = u ∧ l' = l ∧ i' = i then b else disk u' l' i'

/-- A write of the data port. -/
def writeData (d : Drive) (al : Byte) : Drive :=
  match d.phase with
  | .xfer x =>
      if ¬ x.write ∨ d.busyFor ≠ 0 then d
      else serve { d with disk := put d.disk x.unit x.lba x.pos al } x
  | _ => d

/-- A read or write command. ATA takes a count of zero as 256. -/
def transfer (d : Drive) (write : Bool) : Drive :=
  let cmd : Cmd := ⟨write, d.selected, d.taskLba, d.secc⟩
  let x : Xfer := ⟨write, d.selected, d.taskLba, if d.secc = 0 then 256 else d.secc.toNat, 0⟩
  enter { d with cmds := d.cmds ++ [cmd] } x

/-- A write of the command register. A drive that hangs takes no command; any
command but the two transfers is aborted. -/
def command (d : Drive) (al : Byte) : Drive :=
  match d.phase with
  | .wedged => d
  | _ =>
    if al = IDE_CMD_PIO_READ then d.transfer false
    else if al = IDE_CMD_PIO_WRITE then d.transfer true
    else d.present (.rest .aborted)

instance : IdeBus Drive where
  inb port d :=
    if port = IDESTTS then d.status
    else if port = IDEDTA then d.readData
    else if port = IDEERR then (d.phase.error, d)
    else (0xFF, d)
  outb port al d :=
    if port = IDESTTS then d.command al
    else if port = IDEDTA then d.writeData al
    else if port = IDEDRV then { d with drv := al }
    else if port = IDELBAH then { d with lbah := al }
    else if port = IDELBAM then { d with lbam := al }
    else if port = IDELBAL then { d with lbal := al }
    else if port = IDESECC then { d with secc := al }
    else d
  tick d := (d.timing.clk d.ticks, { d with ticks := d.ticks + 1 })

end Drive

/-! ### A bench -/

/-- A clock that goes on by one at every reading, and a drive that is never busy. -/
def Timing.steady : Timing where
  clk := BitVec.ofNat 16
  lag := fun _ => 0
  patience := 90
  inside := by
    intro t n j hj
    obtain rfl : j = 0 := Nat.le_zero.mp hj
    simp only [Nat.add_zero, BitVec.sub_self]
    decide
  runsOut := by
    intro t
    refine ⟨90, Nat.le_refl 90, ?_⟩
    have hdiff : BitVec.ofNat 16 (t + 90) - BitVec.ofNat 16 t = (90 : Word) := by
      rw [BitVec.ofNat_add, BitVec.add_comm, BitVec.add_sub_cancel]
      rfl
    rw [hdiff]
    decide

/-- A drive that does all it is asked. -/
def Plan.obliging : Plan := fun _ _ _ => ⟨.ready, .done⟩

/-- Blank memory, blank disks and a drive at rest. -/
def Host.bench (P : Plan) : Host Drive where
  bus :=
    { plan := P, timing := .steady, disk := fun _ _ _ => 0, drv := 0, lbah := 0, lbam := 0
      lbal := 0, secc := 0, phase := .rest .clean, busyFor := 0, shown := 0, ticks := 0
      cmds := [], served := [] }
  mem := fun _ => 0
  hdStatus := 0
  addrs := []

end Sbc386Ex.Ide

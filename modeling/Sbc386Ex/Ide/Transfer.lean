import Mathlib.Tactic.IntervalCases
import Sbc386Ex.Ide.Drive

/-!
# Sbc386Ex.Ide.Transfer

What the two transfer routines do to a drive, sector by sector.

A `View` is what a transfer is about: memory, the disks, the two logs, the
commands and the drive's phase; polls, ticks and the task file are gone. On views
the driver is the total function `View.transfer`, and `ideReadSector_refines` and
`ideWriteSector_refines` say that the routines of `Ide.Bus`, given fuel for one
timeout, return what it says.
-/

namespace Sbc386Ex.Ide

open Prog

/-! ### Views -/

structure View where
  mem : Mem
  hdStatus : Byte
  addrs : List Nat
  disk : Bool → Lba → Nat → Byte
  served : List (Lba × Nat)
  cmds : List Cmd
  phase : Phase

def Host.view (h : Host Drive) : View :=
  ⟨h.mem, h.hdStatus, h.addrs, h.bus.disk, h.bus.served, h.bus.cmds, h.bus.phase⟩

/-- The drive's conduct and clock, and the delay it owes is one of its own. -/
structure Host.Under (h : Host Drive) (P : Plan) (T : Timing) : Prop where
  plan : h.bus.plan = P
  timing : h.bus.timing = T
  lagging : ∃ n, h.bus.busyFor ≤ T.lag n

/-- Byte `i` of a sector in the buffer at `seg:off`, in the routine's own 16-bit
stepping. -/
def bufferByte (seg off : Word) (i : Nat) : Nat := linear seg (off + BitVec.ofNat 16 i)

/-- A byte through the data port: where in memory, and which byte of which block. -/
structure Exchange where
  addr : Nat
  lba : Lba
  pos : Nat
  deriving DecidableEq

/-- The bytes `p … p + n - 1` of a block, with the buffer at `seg:off`. -/
def bytesLog (seg off : Word) (lba : Lba) (p n : Nat) : List Exchange :=
  (List.range' p n).map fun i => ⟨bufferByte seg off i, lba, i⟩

/-- A whole block. -/
def sectorLog (seg off : Word) (lba : Lba) : List Exchange := bytesLog seg off lba 0 512

theorem bytesLog_succ (seg off : Word) (lba : Lba) (p n : Nat) :
    bytesLog seg off lba p (n + 1) =
      bytesLog seg off lba p 1 ++ bytesLog seg off lba (p + 1) n := by
  simp [bytesLog, List.range'_succ]

/-! ### The drive's next phase -/

/-- BSY for good. -/
def Phase.hangs : Phase → Bool
  | .wedged => true
  | _ => false

/-- Turning to the sector `x`. -/
def enterPhase (plan : Plan) (x : Xfer) : Phase :=
  match (plan x.write x.unit x.lba).before with
  | .ready => .xfer x
  | .halt r => .rest r
  | .wedge => .wedged

/-- The first sector of a command. -/
def Cmd.first (c : Cmd) : Xfer := ⟨c.write, c.unit, c.lba, c.count.toNat, 0⟩

/-- The sector after `x`. -/
def Xfer.succ (x : Xfer) : Xfer := { x with lba := x.lba + 1, left := x.left - 1, pos := 0 }

/-- On to the sector after `x`, or to rest. -/
def nextPhase (plan : Plan) (x : Xfer) : Phase :=
  if x.left ≤ 1 then .rest .clean else enterPhase plan x.succ

/-- When all the data of `x` has moved. -/
def finishPhase (plan : Plan) (x : Xfer) : Phase :=
  if x.write then
    match (plan x.write x.unit x.lba).after with
    | .done => nextPhase plan x
    | .spoil r _ => .rest r
    | .wedge => .wedged
  else nextPhase plan x

/-- The code of a status and an error register. -/
def statusCode (st er : Byte) : Byte :=
  if st &&& 0x80 ≠ 0 then TIME_OUT
  else if st &&& 0x01 = 0 then TIME_OUT
  else if st &&& 0x20 ≠ 0 then WRITE_FAULT
  else decodeError er

namespace View

/-- The bytes of `log` go through the data port: to memory in a read, to the disk
in a write. -/
def exchange (v : View) (write unit : Bool) (log : List Exchange) : View :=
  { v with
    mem := if write then v.mem
      else log.foldl (fun m e => Function.update m e.addr (v.disk unit e.lba e.pos)) v.mem
    disk := if write then
        log.foldl (fun d e => Drive.put d unit e.lba e.pos (v.mem e.addr)) v.disk
      else v.disk
    addrs := v.addrs ++ log.map Exchange.addr
    served := v.served ++ log.map fun e => (e.lba, e.pos) }

/-- A whole sector. -/
def move (v : View) (seg off : Word) (x : Xfer) : View :=
  v.exchange x.write x.unit (sectorLog seg off x.lba)

/-- All the data of `x` has moved. -/
def finish (v : View) (plan : Plan) (x : Xfer) : View :=
  { v with phase := finishPhase plan x }

/-- The code `ide_error` makes of the phase the drive is in. -/
def errorCode (p : Phase) : Byte := statusCode p.status p.error

/-- The driver reports an error. -/
def fail (v : View) : Word × View :=
  ((errorCode v.phase).setWidth 16, { v with hdStatus := errorCode v.phase })

/-- The sector loop: as long as the drive asks for data, it gets a sector. -/
def sectors (plan : Plan) (seg : Word) : Nat → Word → View → Bool × View
  | 0, _, v => (true, v)
  | cx + 1, bx, v =>
      match v.phase with
      | .xfer x => sectors plan seg cx (bx + 512) ((v.move seg bx x).finish plan x)
      | _ => (false, v)

/-- The drive accepts the command `c`. -/
def start (v : View) (plan : Plan) (c : Cmd) : View :=
  { v with cmds := v.cmds ++ [c], phase := enterPhase plan c.first }

/-- The end of a call: a read is done when its sectors are, a write when the drive
has come out of BSY once more. -/
def conclude (write : Bool) (r : Bool × View) : Word × View :=
  if r.1 ∧ ¬ (write ∧ r.2.phase.hangs) then (0, r.2) else r.2.fail

/-- A call of the driver for the command `c`. -/
def transfer (v : View) (plan : Plan) (c : Cmd) (seg off : Word) : Word × View :=
  if c.count = 0 then (0, v)
  else if v.phase.hangs then v.fail
  else conclude c.write (sectors plan seg c.count.toNat off (v.start plan c))

end View

theorem View.exchange_append (v : View) (w u : Bool) (l l' : List Exchange) :
    v.exchange w u (l ++ l') = (v.exchange w u l).exchange w u l' := by
  cases w with
  | true => simp [View.exchange, List.append_assoc]
  | false => simp [View.exchange, List.append_assoc]

/-! ### The waits -/

section Waits

variable {judge : Byte → Option Bool} {P : Plan} {T : Timing} {h : Host Drive}

/-- `h` after `i` rounds of a wait that began at it. -/
def Host.polled (h : Host Drive) (i : Nat) : Host Drive :=
  { h with bus := { h.bus with busyFor := h.bus.busyFor - i, ticks := h.bus.ticks + 1 + i } }

/-- `h` once the drive is no longer busy, at the `t`-th reading of the clock. -/
def Host.settled (h : Host Drive) (t : Nat) : Host Drive :=
  { h with bus := { h.bus with busyFor := 0, ticks := t } }

@[simp] theorem Host.view_settled (t : Nat) : (h.settled t).view = h.view := rfl

theorem Host.Under.settled (hu : h.Under P T) (t : Nat) : (h.settled t).Under P T :=
  ⟨hu.plan, hu.timing, 0, Nat.zero_le _⟩

/-- The status the round after `i` others sees. -/
theorem runs_status (i : Nat) :
    Runs (inPort IDESTTS) (h.polled i)
      (if h.bus.busyFor ≤ i then h.bus.phase.status else 0x80)
      { h with bus := { h.bus with busyFor := h.bus.busyFor - (i + 1),
                                   ticks := h.bus.ticks + 1 + i } } := by
  rw [inPort, runs_modifyGet]
  by_cases hi : h.bus.busyFor ≤ i
  · have h0 : h.bus.busyFor - i = 0 := by omega
    have h1 : h.bus.busyFor - (i + 1) = 0 := by omega
    simp [IdeBus.inb, Host.polled, Drive.status, h0, h1, hi]
  · have h0 : h.bus.busyFor - i ≠ 0 := by omega
    simp [IdeBus.inb, Host.polled, Drive.status, h0, hi, Nat.sub_sub]

/-- A round whose status decides. -/
theorem runs_waitRound_decided {zf : Bool} {i : Nat} (bx : Word)
    (hi : h.bus.busyFor ≤ i) (hj : judge h.bus.phase.status = some zf) :
    Runs (waitRound judge bx) (h.polled i) (some zf) (h.settled (h.bus.ticks + 1 + i)) := by
  have hs := runs_status (h := h) i
  rw [if_pos hi] at hs
  have h0 : h.bus.busyFor - (i + 1) = 0 := by omega
  refine hs.bind ?_
  rw [hj, runs_pure, Host.settled, h0]
  exact ⟨rfl, rfl⟩

/-- A round whose status does not, with the clock read after it. -/
theorem runs_waitRound_undecided (judge : Byte → Option Bool) (i : Nat) (bx : Word) (hT : h.bus.timing = T)
    (hj : judge (if h.bus.busyFor ≤ i then h.bus.phase.status else 0x80) = none) :
    Runs (waitRound judge bx) (h.polled i)
      (if T.clk (h.bus.ticks + (i + 1)) - bx < IDE_TIMEOUT then none else some false)
      (h.polled (i + 1)) := by
  refine (runs_status i).bind ?_
  rw [hj]
  have hclk : Runs (timerCountLow (W := Drive))
      { h with bus := { h.bus with busyFor := h.bus.busyFor - (i + 1),
                                   ticks := h.bus.ticks + 1 + i } }
      (T.clk (h.bus.ticks + (i + 1))) (h.polled (i + 1)) := by
    rw [timerCountLow, runs_modifyGet]
    have ht : h.bus.ticks + 1 + i = h.bus.ticks + (i + 1) := by omega
    simp [IdeBus.tick, Host.polled, hT, ht, Nat.add_assoc, Nat.add_comm 1]
  refine hclk.bind ?_
  split
  · exact runs_pure.mpr ⟨rfl, rfl⟩
  · exact runs_pure.mpr ⟨rfl, rfl⟩

/-- **A wait ends the way the status the drive settles on says**, in failure if that
status decides nothing. -/
theorem runs_waitStatus (judge : Byte → Option Bool) (hu : h.Under P T) (hbusy : judge 0x80 = none) {fuel : Nat}
    (hf : T.patience < fuel) :
    ∃ t, Runs (waitStatus judge fuel) h ((judge h.bus.phase.status).getD false)
      (h.settled t) := by
  obtain ⟨n, hlag⟩ := hu.lagging
  have hstart : Runs (timerCountLow (W := Drive)) h (T.clk h.bus.ticks) (h.polled 0) := by
    rw [timerCountLow, runs_modifyGet]
    simp [IdeBus.tick, Host.polled, hu.timing]
  -- the first reading that is too late, counted from the start of the wait
  obtain ⟨J, ⟨hJp, hJ⟩, hfirst⟩ :
      ∃ J, (J ≤ T.patience ∧ ¬ T.clk (h.bus.ticks + J) - T.clk h.bus.ticks < IDE_TIMEOUT) ∧
        ∀ j < J, T.clk (h.bus.ticks + j) - T.clk h.bus.ticks < IDE_TIMEOUT := by
    obtain ⟨j₀, hj₀, hlate⟩ := T.runsOut h.bus.ticks
    have hex : ∃ j, ¬ T.clk (h.bus.ticks + j) - T.clk h.bus.ticks < IDE_TIMEOUT := ⟨j₀, hlate⟩
    refine ⟨Nat.find hex, ⟨(Nat.find_min' hex hlate).trans hj₀, Nat.find_spec hex⟩, ?_⟩
    intro j hj
    exact not_not.mp (Nat.find_min hex hj)
  have hJlag : h.bus.busyFor < J := by
    by_contra hle
    exact hJ (T.inside h.bus.ticks n J (by omega))
  have hgo : ∀ i, i + 1 < J → (h.bus.busyFor ≤ i → judge h.bus.phase.status = none) →
      Runs (waitRound judge (T.clk h.bus.ticks)) (h.polled i) none (h.polled (i + 1)) := by
    intro i hi hsettled
    have hr := runs_waitRound_undecided judge i (T.clk h.bus.ticks) hu.timing
      (by split
          · next hle => exact hsettled hle
          · exact hbusy)
    rwa [if_pos (hfirst (i + 1) hi)] at hr
  cases hj : judge h.bus.phase.status with
  | some zf =>
      refine ⟨_, hstart.bind (Runs.loop_count (s := h.polled) (k := h.bus.busyFor) ?_
        (runs_waitRound_decided _ (Nat.le_refl _) hj) (by omega))⟩
      intro i hi
      exact hgo i (by omega) (by omega)
  | none =>
      obtain ⟨k, rfl⟩ : ∃ k, J = k + 1 := ⟨J - 1, by omega⟩
      refine ⟨h.bus.ticks + 1 + (k + 1), hstart.bind (Runs.loop_count (s := h.polled) (k := k)
        ?_ ?_ (by omega))⟩
      · intro i hi
        exact hgo i (by omega) (fun _ => hj)
      · have hr := runs_waitRound_undecided judge k (T.clk h.bus.ticks)
          hu.timing (by split
                        · exact hj
                        · exact hbusy)
        rw [if_neg hJ] at hr
        have he : h.polled (k + 1) = h.settled (h.bus.ticks + 1 + (k + 1)) := by
          have h0 : h.bus.busyFor - (k + 1) = 0 := by omega
          rw [Host.polled, Host.settled, h0]
        rwa [he] at hr

end Waits

/-! ### The data port -/

section DataPort

variable {P : Plan} {T : Timing} {h : Host Drive} {x : Xfer} {p : Nat}

/-- The drive is not busy and asks for byte `p` of the sector `x`. -/
structure Host.At (h : Host Drive) (x : Xfer) (p : Nat) : Prop where
  phase : h.bus.phase = .xfer { x with pos := p }
  ready : h.bus.busyFor = 0

theorem Host.Under.present (hu : h.Under P T) (p : Phase) :
    Host.Under { h with bus := h.bus.present p } P T :=
  ⟨hu.plan, hu.timing, h.bus.shown, by rw [← hu.timing]; exact Nat.le_refl _⟩

theorem Host.enter_spec (hu : h.Under P T) (x : Xfer) :
    Host.view { h with bus := h.bus.enter x } = { h.view with phase := enterPhase P x } ∧
      Host.Under { h with bus := h.bus.enter x } P T := by
  unfold Drive.enter enterPhase
  rw [hu.plan]
  cases (P x.write x.unit x.lba).before with
  | ready => exact ⟨rfl, hu.present _⟩
  | halt r => exact ⟨rfl, hu.present _⟩
  | wedge => exact ⟨rfl, rfl, hu.timing, hu.lagging⟩

theorem Host.next_spec (hu : h.Under P T) (x : Xfer) :
    Host.view { h with bus := h.bus.next x } = { h.view with phase := nextPhase P x } ∧
      Host.Under { h with bus := h.bus.next x } P T := by
  unfold Drive.next nextPhase
  split
  · exact ⟨rfl, hu.present _⟩
  · exact Host.enter_spec hu x.succ

theorem Host.finish_spec (hu : h.Under P T) (x : Xfer) :
    Host.view { h with bus := h.bus.finish x } = h.view.finish P x ∧
      Host.Under { h with bus := h.bus.finish x } P T := by
  unfold Drive.finish View.finish finishPhase
  rw [hu.plan]
  split
  · cases (P x.write x.unit x.lba).after with
    | done => exact Host.next_spec hu x
    | spoil r hr => exact ⟨rfl, hu.present _⟩
    | wedge => exact ⟨rfl, rfl, hu.timing, hu.lagging⟩
  · exact Host.next_spec hu x

theorem step_offset (off : Word) (p : Nat) :
    off + BitVec.ofNat 16 p + 1 = off + BitVec.ofNat 16 (p + 1) := by
  rw [BitVec.ofNat_add, BitVec.add_assoc]; rfl

/-- The byte `p` of `x` moved and logged, the drive not yet gone on. -/
def Host.moved (h : Host Drive) (seg off : Word) (x : Xfer) (p : Nat) : Host Drive :=
  { h with
    mem := if x.write then h.mem
      else Function.update h.mem (bufferByte seg off p) (h.bus.disk x.unit x.lba p)
    addrs := h.addrs ++ [bufferByte seg off p]
    bus := { h.bus with
      disk := if x.write then
          Drive.put h.bus.disk x.unit x.lba p (h.mem (bufferByte seg off p))
        else h.bus.disk
      served := h.bus.served ++ [(x.lba, p)] } }

theorem Host.view_moved (seg off : Word) :
    (h.moved seg off x p).view = h.view.exchange x.write x.unit (bytesLog seg off x.lba p 1) := by
  cases hw : x.write with
  | true => simp only [View.exchange, Host.moved, hw]; rfl
  | false => simp only [View.exchange, Host.moved, hw]; rfl

/-- What one round of a byte loop does: move the byte and let the drive go on. -/
def ByteRound (round : Word → IdeM Drive Unit) (seg off : Word) (x : Xfer) : Prop :=
  ∀ {h : Host Drive} {p : Nat}, h.At x p →
    Runs (round (off + BitVec.ofNat 16 p)) h ()
      { h.moved seg off x p with bus := (h.moved seg off x p).bus.advance { x with pos := p } }

/-- A loop of `n + 1` rounds, from byte `p` to the end of the sector. -/
theorem byteLoop_spec {round : Word → IdeM Drive Unit} (loop : Nat → Word → IdeM Drive Word)
    (hzero : ∀ di, loop 0 di = pure di)
    (hsucc : ∀ n di, loop (n + 1) di = round di >>= fun _ => loop n (di + 1))
    {seg off : Word} (hround : ByteRound round seg off x) :
    ∀ (n p : Nat) (h : Host Drive), p + (n + 1) = 512 → h.Under P T → h.At x p →
    ∃ h', Runs (loop (n + 1) (off + BitVec.ofNat 16 p)) h (off + BitVec.ofNat 16 512) h' ∧
      h'.view = (h.view.exchange x.write x.unit (bytesLog seg off x.lba p (n + 1))).finish P x ∧
      h'.Under P T := by
  intro n
  induction n with
  | zero =>
      intro p h hp hu hat
      have hlast : ¬ p + 1 < 512 := by omega
      have hr := hround hat
      simp only [Drive.advance, hlast, ↓reduceIte] at hr
      have hu₁ : (h.moved seg off x p).Under P T := ⟨hu.plan, hu.timing, hu.lagging⟩
      obtain ⟨hview, hunder⟩ := Host.finish_spec hu₁ x
      refine ⟨_, ?_, hview.trans (by rw [Host.view_moved]), hunder⟩
      rw [hsucc, hzero, step_offset, hp]
      exact hr.bind (runs_pure.mpr ⟨rfl, rfl⟩)
  | succ n ih =>
      intro p h hp hu hat
      have hr := hround hat
      have hmore : p + 1 < 512 := by omega
      simp only [Drive.advance, hmore, ↓reduceIte] at hr
      let h₁ := h.moved seg off x p
      let h₂ : Host Drive :=
        { h₁ with bus := { h₁.bus with phase := .xfer { x with pos := p + 1 } } }
      have hu₂ : h₂.Under P T := ⟨hu.plan, hu.timing, hu.lagging⟩
      obtain ⟨h', hrun, hview, hunder⟩ := ih (p + 1) h₂ (by omega) hu₂ ⟨rfl, hat.ready⟩
      refine ⟨h', ?_, ?_, hunder⟩
      · rw [hsucc, step_offset]
        exact hr.bind hrun
      · -- the phase between two bytes is not seen at the end
        rw [hview, bytesLog_succ _ _ _ p, View.exchange_append h.view, ← Host.view_moved]
        rfl

theorem readRound (es bx : Word) (hw : x.write = false) :
    ByteRound (fun di => do
      let al ← inPort IDEDTA
      storeByte es di al) es bx x := by
  intro h p hat
  have hin : Runs (inPort IDEDTA) h (h.bus.disk x.unit x.lba p)
      { h with bus := h.bus.serve { x with pos := p } } := by
    rw [inPort, runs_modifyGet]
    have hne : IDEDTA ≠ IDESTTS := by decide
    simp [IdeBus.inb, hne, Drive.readData, hat.phase, hat.ready, hw]
  refine hin.bind (runs_modify.mpr ?_)
  simp only [Host.moved, hw]
  rfl

theorem writeRound (ds bx : Word) (hw : x.write = true) :
    ByteRound (fun si => do
      let al ← loadByte ds si
      outPort IDEDTA al) ds bx x := by
  intro h p hat
  refine Runs.bind (runs_modifyGet.mpr ⟨rfl, rfl⟩) ?_
  rw [outPort, runs_modify]
  have hne : IDEDTA ≠ IDESTTS := by decide
  simp [IdeBus.outb, hne, Drive.writeData, hat.phase, hat.ready, hw, Drive.serve, Host.moved,
    bufferByte]

theorem readData_spec (es bx : Word) (hw : x.write = false) (hu : h.Under P T) (hat : h.At x 0) :
    ∃ h', Runs (readData es bx) h (bx + 512) h' ∧
      h'.view = (h.view.move es bx x).finish P x ∧ h'.Under P T := by
  have hloop := byteLoop_spec (readDataLoop es) (fun _ => rfl)
    (fun n di => by rw [readDataLoop, bind_assoc]) (readRound es bx hw) 511 0 h (by decide) hu hat
  simpa [readData, View.move, sectorLog, hw] using hloop

theorem writeData_spec (ds bx : Word) (hw : x.write = true) (hu : h.Under P T) (hat : h.At x 0) :
    ∃ h', Runs (writeData ds bx) h (bx + 512) h' ∧
      h'.view = (h.view.move ds bx x).finish P x ∧ h'.Under P T := by
  have hloop := byteLoop_spec (writeDataLoop ds) (fun _ => rfl)
    (fun n si => by rw [writeDataLoop, bind_assoc]) (writeRound ds bx hw) 511 0 h (by decide) hu hat
  simpa [writeData, View.move, sectorLog, hw] using hloop

end DataPort

/-! ### The sector loops -/

section Sectors

variable {P : Plan} {T : Timing} {w : Bool} {fuel : Nat}

/-- A sector the drive has come ready with is at its first byte, and goes the
way `w` says. -/
def Phase.AtStart (w : Bool) (p : Phase) : Prop :=
  ∀ x, p = .xfer x → x.write = w ∧ x.pos = 0

theorem enterPhase_atStart (x : Xfer) (hx : x.pos = 0) :
    (enterPhase P x).AtStart x.write := by
  intro y hy
  unfold enterPhase at hy
  cases hb : (P x.write x.unit x.lba).before with
  | ready =>
      rw [hb] at hy
      obtain rfl : x = y := by simpa using hy
      exact ⟨rfl, hx⟩
  | halt r => simp [hb] at hy
  | wedge => simp [hb] at hy

theorem nextPhase_atStart (x : Xfer) : (nextPhase P x).AtStart x.write := by
  unfold nextPhase
  split
  · intro y hy
    cases hy
  · exact enterPhase_atStart x.succ rfl

theorem finishPhase_atStart (x : Xfer) : (finishPhase P x).AtStart x.write := by
  unfold finishPhase
  split
  · cases (P x.write x.unit x.lba).after with
    | done => exact nextPhase_atStart x
    | spoil r hr => intro y hy; cases hy
    | wedge => intro y hy; cases hy
  · exact nextPhase_atStart x

/-- The wait for DRQ succeeds exactly when the drive comes ready with a sector. -/
theorem dataRequested_rest (r : Rest) : (dataRequested r.st).getD false = false := by
  unfold dataRequested
  rw [r.quiet]
  split
  · rfl
  · simp

/-- A sector loop of either routine, against the drive. -/
theorem sectorLoop_spec (loop : Nat → Word → IdeM Drive Bool) (step : Word → IdeM Drive Word)
    {seg : Word} (hzero : ∀ bx, loop 0 bx = pure true)
    (hsucc : ∀ cx bx, loop (cx + 1) bx = do
      if ← ideWaitDrq fuel then
        let bx ← step bx
        loop cx bx
      else pure false)
    (hstep : ∀ {x h} bx, x.write = w → h.Under P T → h.At x 0 →
      ∃ h', Runs (step bx) h (bx + 512) h' ∧
        h'.view = (h.view.move seg bx x).finish P x ∧ h'.Under P T)
    (hf : T.patience < fuel) :
    ∀ (cx : Nat) (bx : Word) (h : Host Drive), h.Under P T → h.bus.phase.AtStart w →
    ∃ h', Runs (loop cx bx) h (View.sectors P seg cx bx h.view).1 h' ∧
      h'.view = (View.sectors P seg cx bx h.view).2 ∧ h'.Under P T ∧
      ((View.sectors P seg cx bx h.view).1 = false → h'.bus.busyFor = 0) := by
  intro cx
  induction cx with
  | zero =>
      intro bx h hu _
      rw [hzero]
      exact ⟨h, runs_pure.mpr ⟨rfl, rfl⟩, rfl, hu, fun hend => by cases hend⟩
  | succ cx ih =>
      intro bx h hu hstart
      obtain ⟨t, hwait⟩ := runs_waitStatus dataRequested hu rfl hf
      rw [hsucc]
      cases hph : h.bus.phase with
      | xfer x =>
          obtain ⟨hw, hpos⟩ := hstart x hph
          have hat : (h.settled t).At x 0 := ⟨by rw [← hpos]; exact hph, rfl⟩
          obtain ⟨h₁, hrun, hview, hu₁⟩ := hstep bx hw (hu.settled t) hat
          have hstart₁ : h₁.bus.phase.AtStart w := by
            have hp : h₁.bus.phase = finishPhase P x := congrArg View.phase hview
            rw [hp, ← hw]
            exact finishPhase_atStart x
          obtain ⟨h', hrest, hview', hu', hready'⟩ := ih (bx + 512) h₁ hu₁ hstart₁
          have hsec : View.sectors P seg (cx + 1) bx h.view =
              View.sectors P seg cx (bx + 512) h₁.view := by
            rw [hview, View.sectors]
            simp only [Host.view, hph]
            rfl
          rw [hsec]
          have hready : (dataRequested h.bus.phase.status).getD false = true := by
            rw [hph, Phase.status]
            decide
          rw [hready] at hwait
          exact ⟨h', hwait.bind (hrun.bind hrest), hview', hu', hready'⟩
      | rest r =>
          rw [hph, Phase.status, dataRequested_rest] at hwait
          have hsec : View.sectors P seg (cx + 1) bx h.view = (false, h.view) := by
            rw [View.sectors]
            simp only [Host.view, hph]
          rw [hsec]
          exact ⟨_, hwait.bind (runs_pure.mpr ⟨rfl, rfl⟩), Host.view_settled t, hu.settled t,
            fun _ => rfl⟩
      | wedged =>
          rw [hph] at hwait
          have hsec : View.sectors P seg (cx + 1) bx h.view = (false, h.view) := by
            rw [View.sectors]
            simp only [Host.view, hph]
          rw [hsec]
          exact ⟨_, hwait.bind (runs_pure.mpr ⟨rfl, rfl⟩), Host.view_settled t, hu.settled t,
            fun _ => rfl⟩

theorem readSectors_spec (es : Word) (hf : T.patience < fuel) (cx : Nat) (bx : Word)
    (h : Host Drive) (hu : h.Under P T) (hstart : h.bus.phase.AtStart false) :
    ∃ h', Runs (readSectors fuel es cx bx) h (View.sectors P es cx bx h.view).1 h' ∧
      h'.view = (View.sectors P es cx bx h.view).2 ∧ h'.Under P T ∧
      ((View.sectors P es cx bx h.view).1 = false → h'.bus.busyFor = 0) :=
  sectorLoop_spec (readSectors fuel es) (readData es) (fun _ => rfl)
    (fun _ _ => rfl) (fun _ hw hu hat => readData_spec es _ hw hu hat) hf cx bx h hu hstart

theorem writeSectors_spec (ds : Word) (hf : T.patience < fuel) (cx : Nat) (bx : Word)
    (h : Host Drive) (hu : h.Under P T) (hstart : h.bus.phase.AtStart true) :
    ∃ h', Runs (writeSectors fuel ds cx bx) h (View.sectors P ds cx bx h.view).1 h' ∧
      h'.view = (View.sectors P ds cx bx h.view).2 ∧ h'.Under P T ∧
      ((View.sectors P ds cx bx h.view).1 = false → h'.bus.busyFor = 0) :=
  sectorLoop_spec (writeSectors fuel ds) (writeData ds) (fun _ => rfl)
    (fun _ _ => rfl) (fun _ hw hu hat => writeData_spec ds _ hw hu hat) hf cx bx h hu hstart

end Sectors

/-! ### The driver -/

section Driver

variable {P : Plan} {T : Timing} {h : Host Drive} {fuel : Nat}

theorem runs_outPort (port : Word) (al : Byte) :
    Runs (outPort port al) h () { h with bus := IdeBus.outb port al h.bus } :=
  runs_modify.mpr rfl

theorem ideErrorCode_spec {st er : Byte} (hst : Runs (inPort IDESTTS) h st h)
    (her : Runs (inPort IDEERR) h er h) : Runs ideErrorCode h (statusCode st er) h := by
  refine hst.bind ?_
  unfold statusCode
  by_cases hbusy : st &&& 0x80 ≠ 0
  · rw [if_pos hbusy, if_pos hbusy]
    exact runs_pure.mpr ⟨rfl, rfl⟩
  · rw [if_neg hbusy, if_neg hbusy]
    by_cases herr : st &&& 0x01 = 0
    · rw [if_pos herr, if_pos herr]
      exact runs_pure.mpr ⟨rfl, rfl⟩
    · rw [if_neg herr, if_neg herr]
      by_cases hdf : st &&& 0x20 ≠ 0
      · rw [if_pos hdf, if_pos hdf]
        exact runs_pure.mpr ⟨rfl, rfl⟩
      · rw [if_neg hdf, if_neg hdf]
        exact her.bind (runs_pure.mpr ⟨rfl, rfl⟩)

/-- `ide_error` reads the phase the drive is in. -/
theorem ideError_spec (hready : h.bus.busyFor = 0) :
    Runs ideError h (View.fail h.view).1 { h with hdStatus := View.errorCode h.bus.phase } := by
  have hstatus : Runs (inPort IDESTTS) h h.bus.phase.status h := by
    rw [inPort, runs_modifyGet]
    simp [IdeBus.inb, Drive.status, hready]
  have herror : Runs (inPort IDEERR) h h.bus.phase.error h := by
    rw [inPort, runs_modifyGet]
    have h1 : IDEERR ≠ IDESTTS := by decide
    have h2 : IDEERR ≠ IDEDTA := by decide
    simp [IdeBus.inb, h1, h2]
  exact (ideErrorCode_spec hstatus herror).bind
    (Runs.bind (a := ()) (runs_modify.mpr rfl) (runs_pure.mpr ⟨rfl, rfl⟩))

/-- The drive with the task file `wr_lba` leaves. -/
def Drive.addressed (d : Drive) (lba : DWord) (al count : Byte) : Drive :=
  { d with
    drv := (0x10 &&& al) ||| ((lba.extractLsb' 24 8 &&& 0x0F) ||| 0xE0)
    lbah := lba.extractLsb' 16 8
    lbam := lba.extractLsb' 8 8
    lbal := lba.extractLsb' 0 8
    secc := count }

@[simp] theorem Drive.taskLba_addressed (d : Drive) (lba : DWord) (al count : Byte) :
    (d.addressed lba al count).taskLba = lba.setWidth 28 := by
  simp only [Drive.taskLba, Drive.addressed]
  apply BitVec.eq_of_getLsbD_eq
  intro i hi
  simp only [BitVec.getLsbD_append]
  interval_cases i <;> simp

@[simp] theorem Drive.selected_addressed (d : Drive) (lba : DWord) (al count : Byte) :
    (d.addressed lba al count).selected = al.getLsbD 4 := by
  simp [Drive.selected, Drive.addressed]

theorem wrLba_spec (lba : DWord) (al count : Byte) :
    Runs (wrLba lba al count) h () { h with bus := h.bus.addressed lba al count } := by
  rw [wrLba]
  refine (runs_outPort _ _).bind ((runs_outPort _ _).bind ((runs_outPort _ _).bind
    ((runs_outPort _ _).bind (runs_modify.mpr ?_))))
  simp [IdeBus.outb, IDEDRV, IDELBAH, IDELBAM, IDELBAL, IDESECC, IDESTTS, IDEDTA, HF_PORT,
    Drive.addressed]

theorem notBusy_status (p : Phase) : (notBusy p.status).getD false = !p.hangs := by
  cases p with
  | rest r =>
      have hbusy : r.st &&& 0x80 = 0 := by
        have hq := congrArg (· &&& (0x80 : Byte)) r.quiet
        simpa [BitVec.and_assoc] using hq
      rw [Phase.status, notBusy, if_pos hbusy]
      rfl
  | xfer x =>
      show (notBusy 0x58).getD false = !false
      decide
  | wedged => rfl

/-- `ide_wait_not_busy` against the drive. -/
theorem ideWaitNotBusy_spec (hu : h.Under P T) (hf : T.patience < fuel) :
    ∃ t, Runs (ideWaitNotBusy fuel) h (!h.bus.phase.hangs) (h.settled t) := by
  have hw := runs_waitStatus notBusy hu rfl hf
  rwa [notBusy_status] at hw

/-- The command byte of each direction. -/
def pioCommand (write : Bool) : Byte := if write then IDE_CMD_PIO_WRITE else IDE_CMD_PIO_READ

/-- The registers and the command are written, and the drive turns to the first
sector. -/
theorem start_spec (hu : h.Under P T) (hph : h.bus.phase.hangs = false) (write : Bool)
    (lba : DWord) (al count : Byte) (hc : count ≠ 0) :
    ∃ h', Runs (do
        wrLba lba al count
        outPort IDESTTS (pioCommand write)) h () h' ∧
      h'.view = h.view.start P ⟨write, al.getLsbD 4, lba.setWidth 28, count⟩ ∧ h'.Under P T ∧
      h'.bus.phase.AtStart write := by
  let c : Cmd := ⟨write, al.getLsbD 4, lba.setWidth 28, count⟩
  let d := h.bus.addressed lba al count
  let h₁ : Host Drive := { h with bus := { d with cmds := d.cmds ++ [c] } }
  have hu₁ : h₁.Under P T := ⟨hu.plan, hu.timing, hu.lagging⟩
  obtain ⟨hview, hunder⟩ := Host.enter_spec hu₁ c.first
  have hcmd : IdeBus.outb IDESTTS (pioCommand write) d = h₁.bus.enter c.first := by
    have htransfer : d.transfer write = h₁.bus.enter c.first := by
      have hsecc : d.secc = count := rfl
      simp only [Drive.transfer, hsecc, hc, if_false, d, Drive.taskLba_addressed,
        Drive.selected_addressed]
      rfl
    rw [← htransfer]
    have hphase : d.phase = h.bus.phase := rfl
    simp only [IdeBus.outb, if_true, Drive.command, hphase]
    cases hp : h.bus.phase with
    | wedged => rw [hp] at hph; cases hph
    | rest r => cases write <;> rfl
    | xfer x => cases write <;> rfl
  have hout := runs_outPort (h := { h with bus := d }) IDESTTS (pioCommand write)
  rw [hcmd] at hout
  refine ⟨_, (wrLba_spec lba al count).bind hout, hview, hunder, ?_⟩
  have hp : (h₁.bus.enter c.first).phase = enterPhase P c.first := congrArg View.phase hview
  rw [hp]
  exact enterPhase_atStart c.first rfl

/-- The way out through `ide_error`. -/
theorem fail_spec (hu : h.Under P T) (hready : h.bus.busyFor = 0) :
    ∃ h', Runs ideError h h.view.fail.1 h' ∧ h'.view = h.view.fail.2 ∧ h'.Under P T :=
  ⟨_, ideError_spec hready, rfl, hu.plan, hu.timing, hu.lagging⟩

/-- What `p` returns and leaves is what `r` says. -/
def Does (P : Plan) (T : Timing) (p : IdeM Drive Word) (h : Host Drive) (r : Word × View) : Prop :=
  ∃ h', Runs p h r.1 h' ∧ h'.view = r.2 ∧ h'.Under P T

/-- The parts the two routines share: the count of zero, the wait before the
command, and the command itself. -/
theorem driver_refines (write : Bool) {body : IdeM Drive Word} {seg off : Word} {al : Byte}
    {lba : DWord} {count : Byte}
    (hbody : ∀ h₁ : Host Drive, h₁.Under P T → h₁.bus.phase.AtStart write →
      Does P T body h₁ (View.conclude write (View.sectors P seg count.toNat off h₁.view)))
    (hu : h.Under P T) (hf : T.patience < fuel) :
    Does P T (do
        if count = 0 then pure 0
        else if ← ideWaitNotBusy fuel then
          wrLba lba al count
          outPort IDESTTS (pioCommand write)
          body
        else ideError)
      h (h.view.transfer P ⟨write, al.getLsbD 4, lba.setWidth 28, count⟩ seg off) := by
  simp only [View.transfer]
  by_cases hc : count = 0
  · rw [if_pos hc, if_pos hc]
    exact ⟨h, runs_pure.mpr ⟨rfl, rfl⟩, rfl, hu⟩
  rw [if_neg hc, if_neg hc]
  obtain ⟨t, hwait⟩ := ideWaitNotBusy_spec hu hf
  have hphase : h.view.phase = h.bus.phase := rfl
  cases hh : h.bus.phase.hangs with
  | true =>
      rw [hphase, hh, if_pos rfl]
      rw [hh] at hwait
      obtain ⟨h', hrun, hview, hu'⟩ := fail_spec (hu.settled t) rfl
      exact ⟨h', hwait.bind hrun, hview, hu'⟩
  | false =>
      rw [hphase, hh, if_neg Bool.false_ne_true]
      rw [hh] at hwait
      obtain ⟨h₁, hstart, hview₁, hu₁, hat₁⟩ :=
        start_spec (hu.settled t) hh write lba al count hc
      obtain ⟨_, h₀, hwr, hcmd⟩ := runs_bind.mp hstart
      rw [Host.view_settled] at hview₁
      rw [← hview₁]
      obtain ⟨h', hrun, hview, hu'⟩ := hbody h₁ hu₁ hat₁
      exact ⟨h', hwait.bind (hwr.bind (hcmd.bind hrun)), hview, hu'⟩

/-- **`IDE_READ_SECTOR` is the transfer of its command.** -/
theorem ideReadSector_refines (hu : h.Under P T) (hf : T.patience < fuel) (al : Byte)
    (cx bx : Word) (sectorStart : DWord) (nsectors : Word) :
    Does P T (ideReadSector fuel al cx bx sectorStart nsectors) h
      (h.view.transfer P ⟨false, al.getLsbD 4, sectorStart.setWidth 28, nsectors.setWidth 8⟩
        cx bx) := by
  refine driver_refines false ?_ hu hf
  intro h₁ hu₁ hat₁
  obtain ⟨h₂, hsec, hview₂, hu₂, hready₂⟩ := readSectors_spec cx hf
    (nsectors.setWidth 8 : Byte).toNat bx h₁ hu₁ hat₁
  unfold View.conclude
  rw [← hview₂]
  cases hok : (View.sectors P cx (nsectors.setWidth 8 : Byte).toNat bx h₁.view).1 with
  | true =>
      rw [hok] at hsec
      exact ⟨h₂, hsec.bind (runs_pure.mpr ⟨by simp, rfl⟩), by simp, hu₂⟩
  | false =>
      rw [hok] at hsec
      obtain ⟨h', hfail, hview', hu'⟩ := fail_spec hu₂ (hready₂ hok)
      exact ⟨h', hsec.bind (by simpa using hfail), by simpa using hview', hu'⟩

/-- **`IDE_WRITE_SECTOR` is the transfer of its command.** The last wait sees BSY only,
so whatever else the drive posts after the last sector is not an error here. -/
theorem ideWriteSector_refines (hu : h.Under P T) (hf : T.patience < fuel) (al : Byte)
    (cx bx : Word) (sectorStart : DWord) (nsectors : Word) :
    Does P T (ideWriteSector fuel al cx bx sectorStart nsectors) h
      (h.view.transfer P ⟨true, al.getLsbD 4, sectorStart.setWidth 28, nsectors.setWidth 8⟩
        cx bx) := by
  refine driver_refines true ?_ hu hf
  intro h₁ hu₁ hat₁
  obtain ⟨h₂, hsec, hview₂, hu₂, hready₂⟩ := writeSectors_spec cx hf
    (nsectors.setWidth 8 : Byte).toNat bx h₁ hu₁ hat₁
  unfold View.conclude
  rw [← hview₂]
  cases hok : (View.sectors P cx (nsectors.setWidth 8 : Byte).toNat bx h₁.view).1 with
  | true =>
      rw [hok] at hsec
      obtain ⟨t, hwait⟩ := ideWaitNotBusy_spec hu₂ hf
      have hphase : h₂.view.phase = h₂.bus.phase := rfl
      cases hh : h₂.bus.phase.hangs with
      | true =>
          rw [hh] at hwait
          obtain ⟨h', hfail, hview', hu'⟩ := fail_spec (hu₂.settled t) rfl
          exact ⟨h', hsec.bind (hwait.bind (by simpa [hphase, hh] using hfail)),
            by simpa [hphase, hh] using hview', hu'⟩
      | false =>
          rw [hh] at hwait
          refine ⟨_, hsec.bind (hwait.bind (runs_pure.mpr ⟨by simp [hphase, hh], rfl⟩)), ?_,
            hu₂.settled t⟩
          simp [hphase, hh]
  | false =>
      rw [hok] at hsec
      obtain ⟨h', hfail, hview', hu'⟩ := fail_spec hu₂ (hready₂ hok)
      exact ⟨h', hsec.bind (by simpa using hfail), by simpa using hview', hu'⟩

end Driver
end Sbc386Ex.Ide

import Sbc386Ex.Int13.ChsBuffer
import Sbc386Ex.Int13.Edd

/-!
# Sbc386Ex.Int13.EddCount

The block count of a disk address packet. The packet calls promise that success means
that many sectors, that a count above 127 never reaches the drive, and that after a
driver error the count word is the number of sectors that were completed.

The validator compares one byte of the count and the mask keeps seven bits of it, and
functions 42h and 43h have only a zero to put back, so the promise has a condition:
`CountKept`.
-/

namespace Sbc386Ex.Int13

open Prog Ide

/-! ### The calls -/

/-- Functions 42h, 43h and 44h. -/
inductive PacketFn
  | read
  | write
  | verify
  deriving DecidableEq

/-- The direction of the data. -/
def PacketFn.writes : PacketFn → Bool
  | .write => true
  | _ => false

def packetCall (f : PacketFn) (fuel : Nat) (a : DiskArea) (r : Regs) (p : Packet) :
    IdeM Drive (Regs × Packet) :=
  match f with
  | .read => fn42ReadSector fuel a r p
  | .write => fn43WriteSector fuel a r p
  | .verify => fn44VerifySector fuel a r p

/-- The request gets past the checks ahead of the driver. -/
def Admitted (a : DiskArea) (r : Regs) (p : Packet) (dt : DiskTab) : Prop :=
  getDiskTable a r.dl = some (dt, 2) ∧ pktRwValidate p 2 = true

/-- Only the IDE driver's slot is not null. -/
theorem slot_null {tab : List (Option (Driver Drive))} {d : Driver Drive}
    (htab : tab = [none, none, some d]) {bx : Nat} (hbx : bx ≠ 2) : slot tab bx = none := by
  subst htab
  match bx, hbx with
  | 0, _ => rfl
  | 1, _ => rfl
  | n + 3, _ => rfl

/-- A request that does not is answered without a look at the drive. -/
theorem packetCall_refused {a : DiskArea} {r : Regs} {p : Packet} (f : PacketFn) (fuel : Nat)
    (hno : ∀ dt, ¬ Admitted a r p dt) (h : Host Drive) :
    ∃ h', Runs (packetCall f fuel a r p) h ({ r with ah := INVALID_COMMAND, cf := true }, p) h' ∧
      h'.bus = h.bus := by
  have hback : Runs (do return (← retInvalidCommand r, p) : IdeM Drive (Regs × Packet)) h
      ({ r with ah := INVALID_COMMAND, cf := true }, p) { h with hdStatus := INVALID_COMMAND } :=
    (runs_errorReturn r INVALID_COMMAND h).bind (runs_pure.mpr ⟨rfl, rfl⟩)
  refine ⟨{ h with hdStatus := INVALID_COMMAND }, ?_, rfl⟩
  cases hdt : getDiskTable a r.dl with
  | none =>
      cases f <;>
        simpa only [packetCall, fn42ReadSector, fn43WriteSector, packetTransfer, fn44VerifySector,
          hdt] using hback
  | some q =>
      obtain ⟨dt, bx⟩ := q
      cases hval : pktRwValidate p bx with
      | false =>
          cases f <;>
            simpa only [packetCall, fn42ReadSector, fn43WriteSector, packetTransfer,
              fn44VerifySector, hdt, hval, Bool.false_eq_true, not_false_eq_true, if_true]
              using hback
      | true =>
          have hbx : bx ≠ 2 := by
            intro h2
            subst h2
            exact hno dt ⟨hdt, hval⟩
          cases f <;>
            simpa only [packetCall, fn42ReadSector, fn43WriteSector, packetTransfer,
              fn44VerifySector, hdt, hval, not_true_eq_false, if_false,
              slot_null rfl hbx, readTab, writeTab] using hback

/-! ### One account of the three -/

section Calls

variable {P : Plan} {T : Timing} {h : Host Drive} {a : DiskArea} {r : Regs} {p : Packet}
  {dt : DiskTab} {fuel : Nat}

theorem clocked_read : Clocked (ideReadSector fuel) := fun hn hr => ideReadSector_later hn hr

theorem clocked_write : Clocked (ideWriteSector fuel) := fun hn hr => ideWriteSector_later hn hr

theorem length_blocks {f : Nat → List Exchange} (hf : ∀ k, (f k).length = 512) (m : Nat) :
    ((List.range m).flatMap f).length = 512 * m := by
  simp [List.length_flatMap, hf, Nat.mul_comm]

theorem length_blockAt (seg off : Word) (lba : Lba) (k : Nat) :
    (blockAt seg off lba k).length = 512 := length_sectorLog _ _ _

/-- Reading, the drive goes on from every sector the driver is satisfied with. -/
theorem goesOn_read (f : Fate) : f.goesOn false = f.succeeds false := by
  rcases f with ⟨_ | _ | _, _⟩ <;> rfl

theorem callDone_read (P : Plan) (u : Bool) (L : Lba) (n : Nat) (q : Phase) :
    callDone P false u L n q = sectorsDone P false u L n q := by
  simp only [callDone, sectorsDone, goesOn_read]

theorem sectorsMoved_le (P : Plan) (w u : Bool) (L : Lba) (n : Nat) (q : Phase) :
    sectorsMoved P w u L n q ≤ n := by
  unfold sectorsMoved
  split
  · exact Nat.zero_le n
  · exact attempted_le

theorem callMoved_of_not_fails {w u : Bool} {L : Lba} {n : Nat} {q : Phase}
    (hf : ¬ CallFails P w u L n q) : callMoved P w u L n q = n := by
  rcases Nat.eq_zero_or_pos n with rfl | hn
  · simp [callMoved, runMoved]
  · have hboth : ¬ (q.hangs = true ∨
        ¬ (runMoved P w u L n = n ∧ ¬ (w = true ∧ (runLeaves P w u L n).hangs = true))) :=
      fun hor => hf ⟨by omega, hor⟩
    rw [not_or, not_not] at hboth
    rw [callMoved, if_neg hboth.1]
    exact hboth.2.1

/-- A sector that stops a read has not moved. -/
theorem runMoved_read (P : Plan) (u : Bool) (L : Lba) (n : Nat) :
    runMoved P false u L n = leading (fun k => (fateAt P false u L k).succeeds false) n := by
  have hmoves : ∀ f : Fate, f.moves = f.succeeds false := by
    intro f
    rcases f with ⟨_ | _ | _, _⟩ <;> rfl
  rw [runMoved, attempted_eq]
  simp only [goesOn_read, hmoves]
  split
  · next hstop =>
      have hfail := leading_fails hstop.1
      rw [hfail] at hstop
      exact absurd hstop.2 Bool.false_ne_true
  · rfl

/-- Verifying, the call fails when not all of its sectors are done. -/
theorem callFails_verify (P : Plan) (u : Bool) (L : Lba) (n : Nat) (q : Phase) :
    CallFails P false u L n q ↔ sectorsDone P false u L n q < n := by
  unfold CallFails sectorsDone
  rw [runMoved_read]
  have hle : leading (fun k => (fateAt P false u L k).succeeds false) n ≤ n := leading_le
  cases q.hangs with
  | true => simp [Nat.pos_iff_ne_zero]
  | false =>
      simp only [Bool.false_eq_true, false_or, false_and, not_false_eq_true, and_true, if_false]
      omega

/-- The sectors of the request the drive completes. -/
def completed (P : Plan) (f : PacketFn) (p : Packet) (dt : DiskTab) (q : Phase) : Nat :=
  p.over callDone P f.writes dt q

/-- The request runs into a driver error. -/
def Fails (P : Plan) (f : PacketFn) (p : Packet) (dt : DiskTab) (q : Phase) : Prop :=
  p.over CallFails P f.writes dt q

/-- An admitted request: the sectors moved, and what comes back in either case. -/
theorem packetCall_admitted (f : PacketFn) (hu : h.Under P T) (hf : T.patience < fuel)
    (hadm : Admitted a r p dt) :
    ∃ r' p' h', Runs (packetCall f fuel a r p) h (r', p') h' ∧
      (¬ Fails P f p dt h.bus.phase → r'.cf = false ∧ p' = p ∧
        (exchanged h h').length = 512 * (p.blocks.toNat % 128)) ∧
      (Fails P f p dt h.bus.phase → r'.cf = true ∧
        p'.blocks = if f = .verify then BitVec.ofNat 16 (completed P f p dt h.bus.phase)
          else p.blocks &&& 0xFF00) ∧
      (p.blocks.toNat % 128 ≠ 0 → h'.bus ≠ h.bus) := by
  obtain ⟨hdt, hval⟩ := hadm
  have hne : ∀ {h' : Host Drive}, h.bus.ticks < h'.bus.ticks → h'.bus ≠ h.bus := by
    intro h' hlt heq
    rw [heq] at hlt
    exact Nat.lt_irrefl _ hlt
  have hcount : p.blocks.toNat % 128 ≠ 0 → p.count ≠ 0 := by
    intro hn h0
    apply hn
    rw [← p.count_toNat, h0]
    rfl
  have hpacket : ∀ {w : Bool} {tab : List (Option (Driver Drive))} {drv : Driver Drive},
      slot tab 2 = some drv → IsDriver P T w drv → Clocked drv →
      ∃ r' p' h', Runs (packetTransfer tab a r p) h (r', p') h' ∧
        (¬ p.over CallFails P w dt h.bus.phase → r'.cf = false ∧ p' = p ∧
          (exchanged h h').length = 512 * (p.blocks.toNat % 128)) ∧
        (p.over CallFails P w dt h.bus.phase → r'.cf = true ∧ p'.blocks = p.blocks &&& 0xFF00) ∧
        (p.blocks.toNat % 128 ≠ 0 → h'.bus ≠ h.bus) := by
    intro w tab drv htab hdrv hclk
    obtain ⟨cs, q, st, r', p', h', hrun, hview, hfail, hok, hlater⟩ :=
      packetTransfer_spec hu hdt hval htab hdrv hclk
    refine ⟨r', p', h', hrun, ?_, ?_, fun hn => hne (hlater (hcount hn))⟩
    · intro hnot
      obtain ⟨rfl, rfl⟩ := hok hnot
      refine ⟨rfl, rfl, ?_⟩
      rw [(exchanged_of_view hview).1, length_blocks (length_blockAt _ _ _)]
      exact congrArg (512 * ·) (callMoved_of_not_fails hnot)
    · intro hyes
      obtain ⟨rfl, rfl⟩ := hfail hyes
      exact ⟨rfl, rfl⟩
  cases f with
  | read =>
      obtain ⟨r', p', h', hrun, hok, hfail, htouch⟩ :=
        hpacket (show slot (readTab fuel) 2 = some (ideReadSector fuel) from rfl)
          (isDriver_read hf) clocked_read
      exact ⟨r', p', h', hrun, hok, hfail, htouch⟩
  | write =>
      obtain ⟨r', p', h', hrun, hok, hfail, htouch⟩ :=
        hpacket (show slot (writeTab fuel) 2 = some (ideWriteSector fuel) from rfl)
          (isDriver_write hf) clocked_write
      exact ⟨r', p', h', hrun, hok, hfail, htouch⟩
  | verify =>
      obtain ⟨cs, q, st, r', p', h', hrun, hview, hfail, hok, hlater⟩ :=
        fn44_spec hu hdt hval rfl (isDriver_read hf) clocked_read
      refine ⟨r', p', h', hrun, ?_, ?_, fun hn => hne (hlater hn)⟩
      · intro hnot
        have hall : ¬ p.over sectorsDone P false dt h.bus.phase < p.blocks.toNat % 128 :=
          fun hlt => hnot ((callFails_verify P _ _ _ _).mpr hlt)
        obtain ⟨rfl, rfl⟩ := hok hall
        refine ⟨rfl, rfl, ?_⟩
        have hmoved : p'.over sectorsMoved P false dt h.bus.phase = p'.blocks.toNat % 128 :=
          Nat.le_antisymm (sectorsMoved_le _ _ _ _ _ _)
            ((Nat.le_of_not_lt hall).trans (sectorsDone_le_moved _ _ _ _ _ _))
        rw [(exchanged_of_view hview).1, length_blocks (length_sectorAt _ _ _ _), hmoved]
      · intro hyes
        obtain ⟨rfl, rfl⟩ := hfail ((callFails_verify P _ _ _ _).mp hyes)
        refine ⟨rfl, ?_⟩
        have hdone := callDone_read P ((unitBit dt).getLsbD 4) (p.diskLba.setWidth 28)
          (p.blocks.toNat % 128) h.bus.phase
        rw [if_pos rfl]
        exact congrArg (BitVec.ofNat 16) hdone.symm

/-! ### The promise -/

/-- What the packet calls promise of the count, when the drive completes `done` sectors. -/
structure CountLaw (r' : Regs) (p p' : Packet) (h h' : Host Drive) (done : Nat) : Prop where
  success : r'.cf = false → (exchanged h h').length = 512 * p.blocks.toNat
  refused : 127 < p.blocks.toNat → r'.cf = true ∧ h'.bus = h.bus
  driverError : r'.cf = true → h'.bus ≠ h.bus → p'.blocks.toNat = done

/-- Where it is kept: the request is turned away by the other checks, or its count is at
most 127 and, if it is a read or a write the driver fails on, it fails on the first
sector. -/
def CountKept (P : Plan) (f : PacketFn) (a : DiskArea) (r : Regs) (p : Packet) (q : Phase) : Prop :=
  ∀ dt, Admitted a r p dt → p.blocks.toNat ≤ 127 ∧
    (f = .verify ∨ ¬ Fails P f p dt q ∨ completed P f p dt q = 0)

/-- No more sectors are completed than the drive is asked for. -/
theorem completed_lt (P : Plan) (f : PacketFn) (p : Packet) (dt : DiskTab) (q : Phase) :
    completed P f p dt q < 128 := by
  have hn : p.blocks.toNat % 128 < 128 := Nat.mod_lt _ (by decide)
  have hle : ∀ {w u L n q}, callDone P w u L n q ≤ n := by
    intro w u L n q
    unfold callDone
    split
    · exact Nat.zero_le n
    · exact leading_le
  exact Nat.lt_of_le_of_lt hle hn

theorem blocks_highByte {b : Word} (hb : b.toNat ≤ 127) : b &&& 0xFF00 = 0 := by
  have h7 : ∀ c : BitVec 7, (c.setWidth 16 : Word) &&& 0xFF00 = 0 := by decide
  have hb7 : ((b.setWidth 7).setWidth 16 : Word) = b := by
    apply BitVec.eq_of_toNat_eq
    simp only [BitVec.toNat_setWidth]
    omega
  rw [← hb7]
  exact h7 _

/-- What `packetCall_admitted` says of an outcome decides the promise. -/
theorem countLaw_iff {f : PacketFn} {r' : Regs} {p' : Packet} {h' : Host Drive}
    (hok : ¬ Fails P f p dt h.bus.phase → r'.cf = false ∧ p' = p ∧
      (exchanged h h').length = 512 * (p.blocks.toNat % 128))
    (hfail : Fails P f p dt h.bus.phase → r'.cf = true ∧
      p'.blocks = if f = .verify then BitVec.ofNat 16 (completed P f p dt h.bus.phase)
        else p.blocks &&& 0xFF00)
    (htouch : p.blocks.toNat % 128 ≠ 0 → h'.bus ≠ h.bus) :
    CountLaw r' p p' h h' (completed P f p dt h.bus.phase) ↔ p.blocks.toNat ≤ 127 ∧
      (f = .verify ∨ ¬ Fails P f p dt h.bus.phase ∨ completed P f p dt h.bus.phase = 0) := by
  have hsome : Fails P f p dt h.bus.phase → p.blocks.toNat % 128 ≠ 0 := fun hf => hf.1
  constructor
  · intro hlaw
    have hle : p.blocks.toNat ≤ 127 := by
      by_contra hgt
      obtain ⟨hcf, hbus⟩ := hlaw.refused (Nat.lt_of_not_le hgt)
      -- an untouched drive was asked for nothing, and nothing does not fail
      have hnot : ¬ Fails P f p dt h.bus.phase := fun hf => htouch (hsome hf) hbus
      rw [(hok hnot).1] at hcf
      cases hcf
    refine ⟨hle, ?_⟩
    by_cases hv : f = .verify
    · exact Or.inl hv
    · by_cases hf : Fails P f p dt h.bus.phase
      · obtain ⟨hcf, hblocks⟩ := hfail hf
        have hlaw' := hlaw.driverError hcf (htouch (hsome hf))
        rw [hblocks, if_neg hv, blocks_highByte hle] at hlaw'
        exact Or.inr (Or.inr hlaw'.symm)
      · exact Or.inr (Or.inl hf)
  · rintro ⟨hle, hor⟩
    have hmod : p.blocks.toNat % 128 = p.blocks.toNat := Nat.mod_eq_of_lt (by omega)
    by_cases hf : Fails P f p dt h.bus.phase
    · obtain ⟨hcf, hblocks⟩ := hfail hf
      refine ⟨?_, fun hgt => absurd hle (Nat.not_le_of_lt hgt), ?_⟩
      · intro hclear
        rw [hcf] at hclear
        cases hclear
      · intro _ _
        rw [hblocks]
        split
        · have hlt := completed_lt P f p dt h.bus.phase
          rw [BitVec.toNat_ofNat]
          exact Nat.mod_eq_of_lt (by omega)
        · next hv =>
            rcases hor with h1 | h1 | h1
            · exact absurd h1 hv
            · exact absurd hf h1
            · rw [h1, blocks_highByte hle]
              rfl
    · obtain ⟨hcf, rfl, hlen⟩ := hok hf
      refine ⟨fun _ => hlen.trans (by rw [hmod]), fun hgt => absurd hle (Nat.not_le_of_lt hgt), ?_⟩
      intro hset
      rw [hcf] at hset
      cases hset

/-- The sectors completed, whichever drive the request is for. -/
def completedBy (P : Plan) (f : PacketFn) (a : DiskArea) (r : Regs) (p : Packet) (q : Phase) : Nat :=
  match getDiskTable a r.dl with
  | some (dt, _) => completed P f p dt q
  | none => 0

/-- **The count of a packet call is right exactly when `CountKept` says.** -/
theorem packetCall_count_iff (f : PacketFn) (hu : h.Under P T) (hf : T.patience < fuel)
    (a : DiskArea) (r : Regs) (p : Packet) :
    ∃ r' p' h', Runs (packetCall f fuel a r p) h (r', p') h' ∧
      (CountLaw r' p p' h h' (completedBy P f a r p h.bus.phase) ↔
        CountKept P f a r p h.bus.phase) := by
  by_cases hadm : ∃ dt, Admitted a r p dt
  · obtain ⟨dt, hadm⟩ := hadm
    obtain ⟨r', p', h', hrun, hok, hfail, htouch⟩ := packetCall_admitted f hu hf hadm
    have hdone : completedBy P f a r p h.bus.phase = completed P f p dt h.bus.phase := by
      rw [completedBy, hadm.1]
    have honly : CountKept P f a r p h.bus.phase ↔ p.blocks.toNat ≤ 127 ∧
        (f = .verify ∨ ¬ Fails P f p dt h.bus.phase ∨ completed P f p dt h.bus.phase = 0) := by
      refine ⟨fun hk => hk dt hadm, fun hk dt' hadm' => ?_⟩
      obtain rfl : dt' = dt := by
        have heq := hadm'.1.symm.trans hadm.1
        simpa using heq
      exact hk
    refine ⟨r', p', h', hrun, ?_⟩
    rw [hdone, honly]
    exact countLaw_iff hok hfail htouch
  · have hno : ∀ dt, ¬ Admitted a r p dt := fun dt hdt => hadm ⟨dt, hdt⟩
    obtain ⟨h', hrun, hbus⟩ := packetCall_refused f fuel hno h
    refine ⟨_, p, h', hrun, ?_⟩
    constructor
    · intro _ dt hdt
      exact absurd hdt (hno dt)
    · intro _
      refine ⟨?_, ?_, ?_⟩
      · intro hcf
        cases hcf
      · intro _
        exact ⟨rfl, hbus⟩
      · intro _ hne
        exact absurd hbus hne

end Calls

/-! ### On the bench -/

/-- A packet for `blocks` sectors from the first of the disk, with a buffer at `1000:off`. -/
def benchPacket (off blocks : Word) : Packet := ⟨16, blocks, off, 0x1000, 0, 0⟩

theorem packetCall_count_bench :
    ∃ r' p' h', Runs (packetCall .read 91 benchArea (benchRegs 0x42 0 0 0) (benchPacket 0 3))
        (Host.bench .obliging) (r', p') h' ∧
      (CountLaw r' (benchPacket 0 3) p' (Host.bench .obliging) h'
          (completedBy .obliging .read benchArea (benchRegs 0x42 0 0 0) (benchPacket 0 3)
            (Host.bench .obliging).bus.phase) ↔
        CountKept .obliging .read benchArea (benchRegs 0x42 0 0 0) (benchPacket 0 3)
          (Host.bench .obliging).bus.phase) :=
  packetCall_count_iff .read (bench_under .obliging) bench_patience benchArea
    (benchRegs 0x42 0 0 0) (benchPacket 0 3)

/-- A write of 257 sectors succeeds with one of them written. -/
theorem packetCall_count_257 :
    ∃ r' p' h', Runs (packetCall .write 91 benchArea (benchRegs 0x43 0 0 0) (benchPacket 0 257))
        (Host.bench .obliging) (r', p') h' ∧ r'.cf = false ∧
      (exchanged (Host.bench .obliging) h').length = 512 ∧
      ¬ CountLaw r' (benchPacket 0 257) p' (Host.bench .obliging) h'
          (completedBy .obliging .write benchArea (benchRegs 0x43 0 0 0) (benchPacket 0 257)
            (Host.bench .obliging).bus.phase) := by
  have hadm : Admitted benchArea (benchRegs 0x43 0 0 0) (benchPacket 0 257) benchTab :=
    ⟨bench_table, by decide⟩
  obtain ⟨r', p', h', hrun, hok, -, -⟩ :=
    packetCall_admitted .write (bench_under .obliging) bench_patience hadm
  have hnot : ¬ Fails .obliging .write (benchPacket 0 257) benchTab
      (Host.bench .obliging).bus.phase := by
    unfold Fails Packet.over CallFails
    decide
  obtain ⟨hcf, -, hlen⟩ := hok hnot
  refine ⟨r', p', h', hrun, hcf, hlen, ?_⟩
  intro hlaw
  have hset := (hlaw.refused (by decide)).1
  rw [hcf] at hset
  cases hset

end Sbc386Ex.Int13

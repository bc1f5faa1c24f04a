import Sbc386Ex.Ide.Clock
import Sbc386Ex.Int13.Chs

/-!
# Sbc386Ex.Int13.Edd

The packet transfers, functions 42h, 43h and 44h of `13h_disk.asm`, and what they do
to a drive.
-/

namespace Sbc386Ex.Int13

open Prog Ide

/-- `T_PACKET`, the disk address packet at `DS:SI`. -/
structure Packet where
  size : Word
  blocks : Word
  addressOff : Word
  addressSeg : Word
  diskLba : DWord
  lbaHigh : DWord
  deriving DecidableEq

/-- `pkt_rw_validate`. The size and the block count are compared as bytes. -/
def pktRwValidate (p : Packet) (bx : Nat) : Bool :=
  if (p.size.setWidth 8 : Byte) ≠ 16 then false
  else if ¬ (p.blocks.setWidth 8 : Byte) < 128 then false
  else if p.lbaHigh ≠ 0 then false
  else if p.diskLba > 0x0FFFFFFF then false
  else if ¬ bx < lenReadTab then false
  else true

section Code

variable {W : Type} [IdeBus W]

/-- Functions 42h and 43h, with the driver table of each. One command takes all the
sectors; on an error the low byte of `pkt_blocks` and `AL` come back zero. -/
def packetTransfer (tab : List (Option (Driver W))) (a : DiskArea) (r : Regs) (p : Packet) :
    IdeM W (Regs × Packet) := do
  match getDiskTable a r.dl with
  | none => return (← retInvalidCommand r, p)
  | some (dt, bx) =>
    if ¬ pktRwValidate p bx then return (← retInvalidCommand r, p)
    else match slot tab bx with
    | none => return (← retInvalidCommand r, p)
    | some drv => do
      let cx := p.blocks &&& 127
      let ax ← drv (unitBit dt) p.addressSeg p.addressOff p.diskLba cx
      if (ax.setWidth 8 : Byte) = NO_ERROR then return (← goodReturn r, p)
      else
        let ax := ax <<< 8
        let al : Byte := ax.setWidth 8
        let p := { p with blocks := (p.blocks &&& 0xFF00) ||| al.setWidth 16 }
        return (← errorReturn { r with al := al } (ax.extractLsb' 8 8), p)

def fn42ReadSector (fuel : Nat) (a : DiskArea) (r : Regs) (p : Packet) : IdeM W (Regs × Packet) :=
  packetTransfer (readTab fuel) a r p

def fn43WriteSector (fuel : Nat) (a : DiskArea) (r : Regs) (p : Packet) : IdeM W (Regs × Packet) :=
  packetTransfer (writeTab fuel) a r p

/-- Function 44h. Its loop is that of `rwv_common`, into the BIOS sector buffer; on an
error `pkt_blocks` comes back as the number of sectors that did verify. -/
def fn44VerifySector (fuel : Nat) (a : DiskArea) (r : Regs) (p : Packet) :
    IdeM W (Regs × Packet) := do
  match getDiskTable a r.dl with
  | none => return (← retInvalidCommand r, p)
  | some (dt, bx) =>
    if ¬ pktRwValidate p bx then return (← retInvalidCommand r, p)
    else match slot (readTab fuel) bx with
    | none => return (← retInvalidCommand r, p)
    | some drv => do
      let want := p.blocks &&& 127
      let (ax, left) ←
        rwvLoop drv (unitBit dt) true want.toNat p.diskLba secBufferSeg secBufferOff
      if ax = 0 then return (← goodReturn r, p)
      else
        let p := { p with blocks := want - BitVec.ofNat 16 left }
        return (← errorReturn r (ax.setWidth 8), p)

end Code

/-! ### The count -/

/-- The count the driver is handed: what is left of `pkt_blocks` under the mask. -/
def Packet.count (p : Packet) : Byte := (p.blocks &&& 127).setWidth 8

theorem Packet.count_toNat (p : Packet) : p.count.toNat = p.blocks.toNat % 128 := by
  have hmask : p.blocks.toNat &&& 127 = p.blocks.toNat % 128 :=
    Nat.and_two_pow_sub_one_eq_mod p.blocks.toNat 7
  have h127 : (127 : Word).toNat = 127 := rfl
  rw [Packet.count, BitVec.toNat_setWidth, BitVec.toNat_and, h127, hmask]
  omega

/-! ### One command for all the sectors -/

section Calls

variable {P : Plan} {T : Timing} {w : Bool} {h : Host Drive} {a : DiskArea} {r : Regs} {p : Packet}
  {dt : DiskTab} {bx : Nat} {tab : List (Option (Driver Drive))} {drv : Driver Drive}

/-- `AX` shifted up by eight: the code moves from `AL` to `AH`. -/
theorem shiftedCode (e : Byte) :
    ((e.setWidth 16 : Word).setWidth 8 : Byte) = e ∧
      (((e.setWidth 16 : Word) <<< 8).setWidth 8 : Byte) = 0 ∧
      ((e.setWidth 16 : Word) <<< 8).extractLsb' 8 8 = e := by
  refine ⟨by simp, ?_, ?_⟩
  · apply BitVec.eq_of_getLsbD_eq
    intro i hi
    simp [hi]
  · apply BitVec.eq_of_getLsbD_eq
    intro i hi
    have h1 : 8 + i < 16 := by omega
    simp [hi, h1]

/-- Any call of `drv` for at least one sector reads the clock. -/
def Clocked (drv : Driver Drive) : Prop :=
  ∀ {al seg off lba n h ax h'}, (n.setWidth 8 : Byte) ≠ 0 → Runs (drv al seg off lba n) h ax h' →
    h.bus.ticks < h'.bus.ticks

/-- The command a packet gives rise to. -/
def Packet.cmd (p : Packet) (w : Bool) (dt : DiskTab) : Cmd :=
  ⟨w, (unitBit dt).getLsbD 4, p.diskLba.setWidth 28, p.count⟩

/-- The sectors of the packet, as `callMoved` and its like count them. -/
abbrev Packet.over {α : Sort _} (f : Plan → Bool → Bool → Lba → Nat → Phase → α) (p : Packet)
    (P : Plan) (w : Bool) (dt : DiskTab) (q : Phase) : α :=
  f P w ((unitBit dt).getLsbD 4) (p.diskLba.setWidth 28) (p.blocks.toNat % 128) q

theorem packetTransfer_spec (hu : h.Under P T) (hdt : getDiskTable a r.dl = some (dt, bx))
    (hval : pktRwValidate p bx = true) (htab : slot tab bx = some drv) (hdrv : IsDriver P T w drv)
    (hclk : Clocked drv) :
    let moved := p.over callMoved P w dt h.bus.phase
    let log := (List.range moved).flatMap
      (blockAt p.addressSeg p.addressOff (p.diskLba.setWidth 28))
    let fails := p.over CallFails P w dt h.bus.phase
    ∃ cs q st r' p' h', Runs (packetTransfer tab a r p) h (r', p') h' ∧
      h'.view = { h.view.after w ((unitBit dt).getLsbD 4) log cs q with hdStatus := st } ∧
      (fails → r' = { r with al := 0, ah := View.errorCode q, cf := true } ∧
        p' = { p with blocks := p.blocks &&& 0xFF00 }) ∧
      (¬ fails → r' = { r with ah := 0, cf := false } ∧ p' = p) ∧
      (p.count ≠ 0 → h.bus.ticks < h'.bus.ticks) := by
  intro moved log fails
  obtain ⟨h₁, hrun, hview, hu₁⟩ := hdrv hu (unitBit dt) p.addressSeg p.addressOff p.diskLba
    (p.blocks &&& 127)
  have hcmd : (⟨w, (unitBit dt).getLsbD 4, p.diskLba.setWidth 28,
      (p.blocks &&& 127).setWidth 8⟩ : Cmd) = p.cmd w dt := rfl
  rw [hcmd] at hrun hview
  have hlater : p.count ≠ 0 → h.bus.ticks < h₁.bus.ticks := fun hc => hclk hc hrun
  obtain ⟨cs, q, hfail, hok⟩ :=
    transfer_summary P (p.cmd w dt) p.addressSeg p.addressOff h.view
  have hn : (p.cmd w dt).count.toNat = p.blocks.toNat % 128 := p.count_toNat
  rw [hn] at hfail hok
  have hcall : ∀ {x : Word} {r' p' h'}, (h.view.transfer P (p.cmd w dt) p.addressSeg
        p.addressOff).1 = x → Runs (if (x.setWidth 8 : Byte) = NO_ERROR then do
          return (← goodReturn r, p)
        else do
          return (← errorReturn { r with al := (x <<< 8).setWidth 8 } ((x <<< 8).extractLsb' 8 8),
            { p with blocks := (p.blocks &&& 0xFF00) |||
                ((x <<< 8).setWidth 8 : Byte).setWidth 16 })) h₁ (r', p') h' →
      Runs (packetTransfer tab a r p) h (r', p') h' := by
    intro x r' p' h' hx hback
    unfold packetTransfer
    simp only [hdt, htab, hval]
    rw [hx] at hrun
    exact hrun.bind hback
  by_cases hf : fails
  · have htr := hfail hf
    obtain ⟨hlow, hal, hah⟩ := shiftedCode (View.errorCode q)
    have hcode : View.errorCode q ≠ NO_ERROR := statusCode_ne_zero _ _
    have hx : (h.view.transfer P (p.cmd w dt) p.addressSeg p.addressOff).1 =
        (View.errorCode q).setWidth 16 := by rw [htr]; rfl
    have hback := runs_errorReturn { r with al := 0 } (View.errorCode q) h₁
    refine ⟨cs, q, View.errorCode q, _, _, { h₁ with hdStatus := View.errorCode q },
      hcall hx ?_, ?_, fun _ => ⟨rfl, rfl⟩,
      fun hnot => absurd hf hnot, hlater⟩
    · rw [hlow, if_neg hcode, hal, hah]
      refine hback.bind (runs_pure.mpr ⟨?_, rfl⟩)
      simp
    · have hv := hview.trans (congrArg Prod.snd htr)
      exact congrArg (fun v => { v with hdStatus := View.errorCode q }) hv
  · have htr := hok hf
    have hx : (h.view.transfer P (p.cmd w dt) p.addressSeg p.addressOff).1 = 0 := by rw [htr]
    have hzero : ((0 : Word).setWidth 8 : Byte) = NO_ERROR := by decide
    refine ⟨cs, q, 0, _, _, { h₁ with hdStatus := 0 }, hcall hx ?_, ?_, fun hyes => absurd hyes hf,
      fun _ => ⟨rfl, rfl⟩, hlater⟩
    · rw [if_pos hzero]
      exact (runs_goodReturn r h₁).bind (runs_pure.mpr ⟨rfl, rfl⟩)
    · have hv := hview.trans (congrArg Prod.snd htr)
      exact congrArg (fun v => { v with hdStatus := (0 : Byte) }) hv

/-! ### One command a sector -/

theorem rwvLoop_later (hclk : Clocked drv) (unit : Byte) (verify : Bool) :
    ∀ {n : Nat} {lba : DWord} {seg off : Word} {h : Host Drive} {b : Word × Nat} {h' : Host Drive},
      Runs (rwvLoop drv unit verify n lba seg off) h b h' →
      h.bus.ticks ≤ h'.bus.ticks ∧ (n ≠ 0 → h.bus.ticks < h'.bus.ticks) := by
  intro n
  induction n with
  | zero =>
      intro lba seg off h b h' hr
      obtain ⟨-, rfl⟩ := runs_pure.mp hr
      exact ⟨Nat.le_refl _, fun hn => absurd rfl hn⟩
  | succ n ih =>
      intro lba seg off h b h' hr
      obtain ⟨ax, h₁, hdrv, hrest⟩ := runs_bind.mp hr
      have hone : ((1 : Word).setWidth 8 : Byte) ≠ 0 := by decide
      have hlt : h.bus.ticks < h₁.bus.ticks := hclk hone hdrv
      have hle : h₁.bus.ticks ≤ h'.bus.ticks := by
        rcases runs_ite.mp hrest with ⟨-, hstop⟩ | ⟨-, hgo⟩
        · obtain ⟨-, rfl⟩ := runs_pure.mp hstop
          exact Nat.le_refl _
        · exact (ih hgo).1
      exact ⟨by omega, fun _ => by omega⟩

theorem fn44_spec {fuel : Nat} (hu : h.Under P T) (hdt : getDiskTable a r.dl = some (dt, bx))
    (hval : pktRwValidate p bx = true) (htab : slot (readTab fuel) bx = some drv)
    (hdrv : IsDriver P T false drv) (hclk : Clocked drv) :
    let n := p.blocks.toNat % 128
    let m := p.over sectorsDone P false dt h.bus.phase
    let log := (List.range (p.over sectorsMoved P false dt h.bus.phase)).flatMap
      (sectorAt true (p.diskLba.setWidth 28) secBufferSeg secBufferOff)
    ∃ cs q st r' p' h', Runs (fn44VerifySector fuel a r p) h (r', p') h' ∧
      h'.view = { h.view.after false ((unitBit dt).getLsbD 4) log cs q with hdStatus := st } ∧
      (m < n → r' = { r with ah := View.errorCode q, cf := true } ∧
        p' = { p with blocks := BitVec.ofNat 16 m }) ∧
      (¬ m < n → r' = { r with ah := 0, cf := false } ∧ p' = p) ∧
      (n ≠ 0 → h.bus.ticks < h'.bus.ticks) := by
  intro n m log
  have hwant : (p.blocks &&& 127).toNat = n := by
    have hmask : p.blocks.toNat &&& 127 = p.blocks.toNat % 128 :=
      Nat.and_two_pow_sub_one_eq_mod p.blocks.toNat 7
    have h127 : (127 : Word).toNat = 127 := rfl
    rw [BitVec.toNat_and, h127, hmask]
  obtain ⟨h₁, hrun, hview, hu₁⟩ := rwvLoop_refines hdrv (unitBit dt) true n p.diskLba
    secBufferSeg secBufferOff h hu
  have hlater := (rwvLoop_later hclk (unitBit dt) true hrun).2
  obtain ⟨j, q, -, hloop⟩ := rwvView_done P false ((unitBit dt).getLsbD 4) true
    (p.diskLba.setWidth 28) n secBufferSeg secBufferOff h.view
  have hcall : ∀ {x : Word × Nat} {r' p' h'}, (rwvView P false ((unitBit dt).getLsbD 4) true n
        (p.diskLba.setWidth 28) secBufferSeg secBufferOff h.view).1 = x →
      Runs (if x.1 = 0 then do
          return (← goodReturn r, p)
        else do
          return (← errorReturn r (x.1.setWidth 8),
            { p with blocks := (p.blocks &&& 127) - BitVec.ofNat 16 x.2 })) h₁ (r', p') h' →
      Runs (fn44VerifySector fuel a r p) h (r', p') h' := by
    intro x r' p' h' hx hback
    unfold fn44VerifySector
    simp only [hdt, htab, hval, hwant]
    rw [hx] at hrun
    exact hrun.bind hback
  have hmn : m ≤ n := sectorsDone_le _ _ _ _ _ _
  by_cases hm : m = n
  · have hlt : ¬ m < n := by omega
    have htr := hloop.trans (if_pos hm)
    refine ⟨(List.range j).map (cmdAt false ((unitBit dt).getLsbD 4) (p.diskLba.setWidth 28)), q,
      0, _, _, { h₁ with hdStatus := 0 }, hcall (congrArg Prod.fst htr) ?_, ?_,
      fun hyes => absurd hyes hlt, fun _ => ⟨rfl, rfl⟩, hlater⟩
    · rw [if_pos rfl]
      exact (runs_goodReturn r h₁).bind (runs_pure.mpr ⟨rfl, rfl⟩)
    · exact congrArg (fun v => { v with hdStatus := (0 : Byte) }) (hview.trans (congrArg Prod.snd htr))
  · have hlt : m < n := by omega
    have htr := hloop.trans (if_neg hm)
    have hcode : ∀ v : View, v.fail.1.setWidth 8 = View.errorCode v.phase := by
      intro v
      simp [View.fail]
    have hblocks : (p.blocks &&& 127) - BitVec.ofNat 16 (n - m) = BitVec.ofNat 16 m := by
      apply BitVec.eq_of_toNat_eq
      have hn : n < 128 := Nat.mod_lt _ (by decide)
      simp only [BitVec.toNat_sub, BitVec.toNat_ofNat, hwant]
      omega
    refine ⟨(List.range j).map (cmdAt false ((unitBit dt).getLsbD 4) (p.diskLba.setWidth 28)), q,
      View.errorCode q, _, _, { h₁ with hdStatus := View.errorCode q },
      hcall (congrArg Prod.fst htr) ?_, ?_, fun _ => ⟨rfl, rfl⟩,
      fun hnot => absurd hlt hnot, hlater⟩
    · rw [if_neg (View.fail_ne_zero _), hcode]
      refine (runs_errorReturn r _ h₁).bind (runs_pure.mpr ⟨?_, rfl⟩)
      rw [← hblocks]
      rfl
    · exact congrArg (fun v => { v with hdStatus := View.errorCode q })
        (hview.trans (congrArg Prod.snd htr))

end Calls

end Sbc386Ex.Int13

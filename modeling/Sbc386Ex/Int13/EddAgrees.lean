import Sbc386Ex.Int13.EddCount

/-!
# Sbc386Ex.Int13.EddAgrees

A packet transfer beside the CHS transfer of the same sectors. One sends the drive a
single command and steps the buffer inside the driver; the other sends a command a
sector and carries the buffer into the segment between them.

They part company in two places. The driver's offset wraps where the other's segment
moves on (`sectorAt_eq_blockAt_iff`), and a failure the drive posts after taking the
data of a sector is seen by the wait of the next sector of the same command, while a
new command clears it (`SpoiledAhead`).
-/

namespace Sbc386Ex.Int13

open Prog Ide

/-! ### One sector, either way -/

/-- A sector the drive does not go on from: none of its data moved, or it was taken and a
failure posted, or it was taken and the drive hangs. -/
theorem Fate.stops_cases {w : Bool} {f : Fate} (h : f.goesOn w = false) :
    (f.moves = false ∧ f.succeeds w = false) ∨
    (f.moves = true ∧ f.spoils w = true ∧ f.succeeds w = true ∧ (f.leaves w).hangs = false) ∨
    (f.moves = true ∧ f.spoils w = false ∧ f.succeeds w = false ∧
      w = true ∧ (f.leaves w).hangs = true) := by
  rcases f with ⟨_ | _ | _, _ | _ | _⟩ <;> cases w <;> simp_all [Fate.goesOn, Fate.moves,
    Fate.succeeds, Fate.spoils, Fate.leaves, Phase.hangs]

theorem Fate.spoils_cases {w : Bool} {f : Fate} (h : f.spoils w = true) :
    f.goesOn w = false ∧ f.moves = true ∧ f.succeeds w = true := by
  rcases f with ⟨_ | _ | _, _ | _ | _⟩ <;> cases w <;> simp_all [Fate.spoils, Fate.goesOn,
    Fate.moves, Fate.succeeds]

/-- The drive posts a failure on a sector of the run that is not its last, and would
come ready with the next. -/
def SpoiledAhead (P : Plan) (w u : Bool) (L : Lba) (n : Nat) (q : Phase) : Prop :=
  q.hangs = false ∧ ∃ k, k + 1 < n ∧ (∀ i < k, (fateAt P w u L i).goesOn w = true) ∧
    (fateAt P w u L k).spoils w = true ∧ (fateAt P w u L (k + 1)).moves = true

section Runs

variable {P : Plan} {w u : Bool} {L : Lba} {n : Nat} {q : Phase}

/-- Then the single command stops where the other loop goes on. -/
theorem moved_lt_of_spoiledAhead (h : SpoiledAhead P w u L n q) :
    callMoved P w u L n q < sectorsMoved P w u L n q := by
  obtain ⟨hq, k, hk, hon, hspoil, hmoves⟩ := h
  obtain ⟨hstop, hmk, hsk⟩ := Fate.spoils_cases hspoil
  have hlead : leading (fun k => (fateAt P w u L k).goesOn w) n = k :=
    leading_eq_of_fails hon (by omega) hstop
  have hcall : callMoved P w u L n q = k + 1 := by
    rw [callMoved, hq, if_neg Bool.false_ne_true, runMoved, attempted_eq, hlead,
      if_pos ⟨by omega, hmk⟩]
  have hsucc : ∀ i < k + 1, (fateAt P w u L i).succeeds w = true := by
    intro i hi
    rcases Nat.lt_succ_iff_lt_or_eq.mp hi with hi | rfl
    · exact Fate.succeeds_of_goesOn (hon i hi)
    · exact hsk
  have hdone : k + 1 ≤ leading (fun k => (fateAt P w u L k).succeeds w) n :=
    le_leading hsucc (by omega)
  rw [hcall, sectorsMoved, hq, if_neg Bool.false_ne_true, attempted_eq]
  rcases Nat.eq_or_lt_of_le hdone with heq | hlt
  · rw [← heq, if_pos ⟨hk, hmoves⟩]
    omega
  · omega

theorem callMoved_le (P : Plan) (w u : Bool) (L : Lba) (n : Nat) (q : Phase) :
    callMoved P w u L n q ≤ n := by
  unfold callMoved runMoved
  split
  · exact Nat.zero_le n
  · exact attempted_le

/-- Otherwise the two move as many sectors and end the same way. -/
theorem same_of_not_spoiledAhead (h : ¬ SpoiledAhead P w u L n q) :
    sectorsMoved P w u L n q = callMoved P w u L n q ∧
      (sectorsDone P w u L n q < n ↔ CallFails P w u L n q) := by
  cases hq : q.hangs with
  | true => simp [sectorsMoved, callMoved, sectorsDone, CallFails, hq, Nat.pos_iff_ne_zero]
  | false =>
      have hsucc : ∀ {j}, (∀ i < j, (fateAt P w u L i).goesOn w = true) →
          ∀ i < j, (fateAt P w u L i).succeeds w = true :=
        fun hon i hi => Fate.succeeds_of_goesOn (hon i hi)
      have hon : ∀ i < leading (fun k => (fateAt P w u L k).goesOn w) n,
          (fateAt P w u L i).goesOn w = true := fun i hi => leading_ok hi
      have hle : leading (fun k => (fateAt P w u L k).goesOn w) n ≤ n := leading_le
      simp only [sectorsMoved, callMoved, sectorsDone, CallFails, runMoved, runLeaves, hq,
        Bool.false_eq_true, if_false, false_or, attempted_eq]
      generalize hj : leading (fun k => (fateAt P w u L k).goesOn w) n = j at hon hle
      rcases Nat.eq_or_lt_of_le hle with rfl | hlt
      · have hdone : leading (fun k => (fateAt P w u L k).succeeds w) j = j :=
          leading_eq_all (hsucc hon)
        simp [hdone, Phase.hangs]
      · have hstop : (fateAt P w u L j).goesOn w = false := by
          have hfail := leading_fails (hj.trans_lt hlt)
          rw [hj] at hfail
          exact hfail
        rcases Fate.stops_cases hstop with ⟨hm, hs⟩ | ⟨hm, hspoil, hs, hh⟩ | ⟨hm, -, hs, hw, hh⟩
        · have hdone : leading (fun k => (fateAt P w u L k).succeeds w) n = j :=
            leading_eq_of_fails (hsucc hon) hlt hs
          simp [hdone, hm]
          omega
        · -- the failure was posted on sector `j`: it is the last, or the next does not move
          have hsucc' : ∀ i < j + 1, (fateAt P w u L i).succeeds w = true := by
            intro i hi
            rcases Nat.lt_succ_iff_lt_or_eq.mp hi with hi | rfl
            · exact hsucc hon i hi
            · exact hs
          rcases Nat.eq_or_lt_of_le (Nat.succ_le_of_lt hlt) with rfl | hnext
          · have hdone : leading (fun k => (fateAt P w u L k).succeeds w) (j + 1) = j + 1 :=
              leading_eq_all hsucc'
            simp [hdone, hm, hh]
          · have hm' : (fateAt P w u L (j + 1)).moves = false := by
              rw [← Bool.not_eq_true]
              exact fun hmoves => h ⟨hq, j, hnext, hon, hspoil, hmoves⟩
            have hs' : (fateAt P w u L (j + 1)).succeeds w = false := by
              rw [← Bool.not_eq_true]
              intro hyes
              rw [Fate.moves_of_succeeds hyes] at hm'
              cases hm'
            have hdone : leading (fun k => (fateAt P w u L k).succeeds w) n = j + 1 :=
              leading_eq_of_fails hsucc' hnext hs'
            simp [hdone, hm, hm', hlt]
            omega
        · have hdone : leading (fun k => (fateAt P w u L k).succeeds w) n = j :=
            leading_eq_of_fails (hsucc hon) hlt hs
          subst hw
          simp [hdone, hm, hlt, hh]
          omega

end Runs

/-! ### One buffer, either way -/

/-- The two put sector `k` at the same addresses up to the first carry out of the
offset. A second one is out of reach of 127 sectors. -/
theorem sectorAt_eq_blockAt_iff (seg off : Word) (L : Lba) {k : Nat} (hk : k < 127) :
    sectorAt false L seg off k = blockAt seg off L k ↔ off.toNat + 512 * k < 65536 := by
  have hoff := off.isLt
  constructor
  · intro heq
    have hfirst := congrArg (fun l => (l[0]?).map Exchange.addr) heq
    simp only [sectorAt, blockAt, getElem?_sectorLog _ _ _ (show 0 < 512 by decide), Option.map_some,
      Option.some.injEq, bufferAt_eq, bufferByte, linear, BitVec.toNat_add, BitVec.toNat_ofNat]
      at hfirst
    have hseg := seg.isLt
    omega
  · intro hlt
    have hcarry : (off.toNat + 512 * k) / 65536 = 0 := Nat.div_eq_of_lt hlt
    rw [sectorAt, blockAt, bufferAt_eq, hcarry]
    simp

theorem flatMap_range_eq_iff {α : Type} {f g : Nat → List α} {c m : Nat}
    (hf : ∀ k, (f k).length = c) (hg : ∀ k, (g k).length = c) :
    (List.range m).flatMap f = (List.range m).flatMap g ↔ ∀ k < m, f k = g k := by
  induction m with
  | zero => simp
  | succ m ih =>
      have hlen : ((List.range m).flatMap f).length = ((List.range m).flatMap g).length := by
        simp [List.length_flatMap, hf, hg]
      rw [List.range_succ, List.flatMap_append, List.flatMap_append, List.flatMap_singleton,
        List.flatMap_singleton]
      constructor
      · intro heq
        obtain ⟨hinit, hlast⟩ := List.append_inj heq hlen
        intro k hk
        rcases Nat.lt_succ_iff_lt_or_eq.mp hk with hk | rfl
        · exact ih.mp hinit k hk
        · exact hlast
      · intro hall
        rw [ih.mpr fun k hk => hall k (by omega), hall m (by omega)]

/-- So the two runs of `m` sectors exchange the same bytes exactly when no carry lies
between them. -/
theorem sectors_eq_blocks_iff (seg off : Word) (L : Lba) {m : Nat} (hm : m ≤ 127) :
    (List.range m).flatMap (sectorAt false L seg off) = (List.range m).flatMap (blockAt seg off L) ↔
      m = 0 ∨ off.toNat + 512 * (m - 1) < 65536 := by
  rw [flatMap_range_eq_iff (length_sectorAt _ _ _ _) (length_blockAt _ _ _)]
  constructor
  · intro hall
    rcases Nat.eq_zero_or_pos m with h0 | hpos
    · exact Or.inl h0
    · exact Or.inr ((sectorAt_eq_blockAt_iff seg off L (by omega)).mp (hall (m - 1) (by omega)))
  · intro hor k hk
    refine (sectorAt_eq_blockAt_iff seg off L (by omega)).mpr ?_
    omega

/-! ### The two calls -/

/-- The packet `p` asks for the sectors the registers `r` ask for, from block `lba`. -/
structure SameRequest (r : Regs) (lba : DWord) (p : Packet) : Prop where
  size : (p.size.setWidth 8 : Byte) = 16
  blocks : p.blocks.toNat = r.al.toNat
  addressOff : p.addressOff = r.bx
  addressSeg : p.addressSeg = r.es
  diskLba : p.diskLba = lba
  lbaHigh : p.lbaHigh = 0

/-- The two calls, from `h` to `h₁` and to `h₂`, did the same to memory and disk and ended
the same way. -/
structure Agree (r₁ r₂ : Regs) (h h₁ h₂ : Host Drive) : Prop where
  exchanged : exchanged h h₁ = exchanged h h₂
  mem : h₁.mem = h₂.mem
  disk : h₁.bus.disk = h₂.bus.disk
  ended : r₁.cf = r₂.cf

section Calls

variable {P : Plan} {T : Timing} {h : Host Drive} {a : DiskArea} {r : Regs} {p : Packet}
  {dt : DiskTab} {lba : DWord} {fuel : Nat}

/-- The packet call that moves data in direction `w`. -/
def PacketFn.moving (w : Bool) : PacketFn := if w then .write else .read

theorem SameRequest.valid (hs : SameRequest r lba p) (hn : r.al.toNat ≤ 127)
    (hlba : lba.toNat < 2 ^ 26) : pktRwValidate p 2 = true := by
  have hcount : (p.blocks.setWidth 8 : Byte) < 128 := by
    have hb := hs.blocks
    rw [BitVec.lt_def, BitVec.toNat_setWidth]
    have h128 : (128 : Byte).toNat = 128 := rfl
    omega
  have hbig : ¬ p.diskLba > 0x0FFFFFFF := by
    rw [hs.diskLba, gt_iff_lt, BitVec.lt_def]
    have hmax : (0x0FFFFFFF : DWord).toNat = 268435455 := rfl
    omega
  have hbx : 2 < lenReadTab := by decide
  rw [pktRwValidate, if_neg (not_not.mpr hs.size), if_neg (not_not.mpr hcount),
    if_neg (not_not.mpr hs.lbaHigh), if_neg hbig, if_neg (not_not.mpr hbx)]

/-- The two calls beside each other: what each exchanges and how it ends. -/
theorem calls_beside (w : Bool) (hu : h.Under P T) (hf : T.patience < fuel)
    (hdt : getDiskTable a r.dl = some (dt, 2)) (hlba : cvLba dt r.ch r.cl r.dh = some lba)
    (hah : r.ah = if w then 3 else 2) (hn : r.al.toNat ≤ 127) {r' : Regs} (hdl : r'.dl = r.dl)
    (hs : SameRequest r lba p) :
    let u := (unitBit dt).getLsbD 4
    let L : Lba := lba.setWidth 28
    let n := r.al.toNat
    ∃ r₁ h₁ r₂ p₂ h₂, Runs (transferCall w fuel a r) h r₁ h₁ ∧
      Runs (packetCall (.moving w) fuel a r' p) h (r₂, p₂) h₂ ∧
      exchanged h h₁ = (List.range (sectorsMoved P w u L n h.bus.phase)).flatMap
        (sectorAt false L r.es r.bx) ∧
      exchanged h h₂ = (List.range (callMoved P w u L n h.bus.phase)).flatMap
        (blockAt r.es r.bx L) ∧
      (exchanged h h₁ = exchanged h h₂ → h₁.mem = h₂.mem ∧ h₁.bus.disk = h₂.bus.disk) ∧
      (r₁.cf = true ↔ sectorsDone P w u L n h.bus.phase < n) ∧
      (r₂.cf = true ↔ CallFails P w u L n h.bus.phase) := by
  intro u L n
  have hah' : r.ah ≠ 4 := by
    rw [hah]
    cases w <;> decide
  have hdrv : IsDriver P T w (if w then ideWriteSector fuel else ideReadSector fuel) := by
    cases w
    · exact isDriver_read hf
    · exact isDriver_write hf
  have hclk : Clocked (if w then ideWriteSector fuel else ideReadSector fuel) := by
    cases w
    · exact clocked_read
    · exact clocked_write
  have hslot : slot (if w then writeTab fuel else readTab fuel) 2 =
      some (if w then ideWriteSector fuel else ideReadSector fuel : Driver Drive) := by
    cases w <;> rfl
  obtain ⟨j, q, h₁, r₁, hrun₁, -, -, hview₁, hr₁⟩ :=
    rwvCommon_spec hu hdt hslot hdrv hlba hah'
  have hdt' : getDiskTable a r'.dl = some (dt, 2) := by rw [hdl, hdt]
  obtain ⟨cs, q₂, st, r₂, p₂, h₂, hrun₂, hview₂, hfail, hok, -⟩ :=
    packetTransfer_spec (r := r') hu hdt' (hs.valid hn (cvLba_lt hlba)) hslot hdrv hclk
  have hcount : p.blocks.toNat % 128 = r.al.toNat := by
    rw [hs.blocks]
    exact Nat.mod_eq_of_lt (by omega)
  simp only [Packet.over, hcount, hs.diskLba, hs.addressSeg, hs.addressOff] at hview₂ hfail hok
  have hex₁ := (exchanged_of_view hview₁).1
  have hex₂ := (exchanged_of_view hview₂).1
  refine ⟨r₁, h₁, r₂, p₂, h₂, ?_, ?_, hex₁, hex₂, ?_, ?_, ?_⟩
  · cases w <;> exact hrun₁
  · cases w <;> exact hrun₂
  · intro hex
    have hlog := hex₁.symm.trans (hex.trans hex₂)
    have hmem₁ : h₁.mem = _ := congrArg View.mem hview₁
    have hmem₂ : h₂.mem = _ := congrArg View.mem hview₂
    have hdisk₁ : h₁.bus.disk = _ := congrArg View.disk hview₁
    have hdisk₂ : h₂.bus.disk = _ := congrArg View.disk hview₂
    constructor
    · rw [hmem₁, hmem₂, hlog]
      rfl
    · rw [hdisk₁, hdisk₂, hlog]
      rfl
  · rw [hr₁]
    exact decide_eq_true_iff
  · by_cases hcall : CallFails P w u L n h.bus.phase
    · rw [(hfail hcall).1]
      exact ⟨fun _ => hcall, fun _ => rfl⟩
    · rw [(hok hcall).1]
      exact ⟨fun hcf => absurd hcf Bool.false_ne_true, fun hyes => absurd hyes hcall⟩

/-- **The packet call and the CHS call agree exactly when no carry out of the offset lies
between the sectors moved and no posted failure is cleared by a command.** -/
theorem calls_agree_iff (w : Bool) (hu : h.Under P T) (hf : T.patience < fuel)
    (hdt : getDiskTable a r.dl = some (dt, 2)) (hlba : cvLba dt r.ch r.cl r.dh = some lba)
    (hah : r.ah = if w then 3 else 2) (hn : r.al.toNat ≤ 127) {r' : Regs} (hdl : r'.dl = r.dl)
    (hs : SameRequest r lba p) :
    let u := (unitBit dt).getLsbD 4
    let m := callMoved P w u (lba.setWidth 28) r.al.toNat h.bus.phase
    ∃ r₁ h₁ r₂ p₂ h₂, Runs (transferCall w fuel a r) h r₁ h₁ ∧
      Runs (packetCall (.moving w) fuel a r' p) h (r₂, p₂) h₂ ∧
      (Agree r₁ r₂ h h₁ h₂ ↔ (m = 0 ∨ r.bx.toNat + 512 * (m - 1) < 65536) ∧
        ¬ SpoiledAhead P w u (lba.setWidth 28) r.al.toNat h.bus.phase) := by
  intro u m
  obtain ⟨r₁, h₁, r₂, p₂, h₂, hrun₁, hrun₂, hex₁, hex₂, heffect, hcf₁, hcf₂⟩ :=
    calls_beside w hu hf hdt hlba hah hn hdl hs
  refine ⟨r₁, h₁, r₂, p₂, h₂, hrun₁, hrun₂, ?_⟩
  by_cases hspoil : SpoiledAhead P w u (lba.setWidth 28) r.al.toNat h.bus.phase
  · have hlt := moved_lt_of_spoiledAhead hspoil
    refine ⟨fun hag => ?_, fun hcond => absurd hspoil hcond.2⟩
    have hlen := congrArg List.length hag.exchanged
    rw [hex₁, hex₂, length_blocks (length_sectorAt _ _ _ _), length_blocks (length_blockAt _ _ _)]
      at hlen
    exact absurd (Nat.eq_of_mul_eq_mul_left (by decide) hlen) (Nat.ne_of_gt hlt)
  · obtain ⟨hmoved, hends⟩ := same_of_not_spoiledAhead hspoil
    have hm : m ≤ 127 := (callMoved_le _ _ _ _ _ _).trans hn
    have hsame : exchanged h h₁ = exchanged h h₂ ↔ m = 0 ∨ r.bx.toNat + 512 * (m - 1) < 65536 := by
      rw [hex₁, hex₂, hmoved]
      exact sectors_eq_blocks_iff _ _ _ hm
    constructor
    · intro hag
      exact ⟨hsame.mp hag.exchanged, hspoil⟩
    · rintro ⟨hcarry, -⟩
      have hex := hsame.mpr hcarry
      refine ⟨hex, (heffect hex).1, (heffect hex).2, ?_⟩
      rw [Bool.eq_iff_iff, hcf₁, hcf₂]
      exact hends

end Calls

/-! ### On the bench -/

theorem calls_agree_bench :
    ∃ r₁ h₁ r₂ p₂ h₂,
      Runs (transferCall true 91 benchArea (benchRegs 3 3 0x1000 0)) (Host.bench .obliging) r₁ h₁ ∧
      Runs (packetCall (.moving true) 91 benchArea (benchRegs 0x43 0 0 0) (benchPacket 0 3))
        (Host.bench .obliging) (r₂, p₂) h₂ ∧
      (Agree r₁ r₂ (Host.bench .obliging) h₁ h₂ ↔
        (3 = 0 ∨ (0 : Word).toNat + 512 * (3 - 1) < 65536) ∧
          ¬ SpoiledAhead .obliging true false 0 3 (Host.bench .obliging).bus.phase) :=
  calls_agree_iff (r := benchRegs 3 3 0x1000 0) true
    (bench_under .obliging) bench_patience bench_table bench_lba rfl (by decide)
    (show (benchRegs 0x43 0 0 0).dl = (benchRegs 3 3 0x1000 0).dl from rfl)
    ⟨by decide, rfl, rfl, rfl, rfl, rfl⟩

/-- Two sectors to `1000:FE00`: the CHS call puts the second at `2000:0000`, the packet
call at `1000:0000`. -/
theorem calls_disagree_at_wrap :
    ∃ r₁ h₁ r₂ p₂ h₂,
      Runs (transferCall false 91 benchArea (benchRegs 2 2 0x1000 0xFE00)) (Host.bench .obliging)
        r₁ h₁ ∧
      Runs (packetCall (.moving false) 91 benchArea (benchRegs 0x42 0 0 0) (benchPacket 0xFE00 2))
        (Host.bench .obliging) (r₂, p₂) h₂ ∧
      ¬ Agree r₁ r₂ (Host.bench .obliging) h₁ h₂ := by
  obtain ⟨r₁, h₁, r₂, p₂, h₂, hrun₁, hrun₂, hex₁, hex₂, -⟩ :=
    calls_beside (r := benchRegs 2 2 0x1000 0xFE00)
      (p := benchPacket 0xFE00 2) false (bench_under .obliging) bench_patience bench_table bench_lba
      rfl (by decide)
      (show (benchRegs 0x42 0 0 0).dl = (benchRegs 2 2 0x1000 0xFE00).dl from rfl)
      ⟨by decide, rfl, rfl, rfl, rfl, rfl⟩
  refine ⟨r₁, h₁, r₂, p₂, h₂, hrun₁, hrun₂, ?_⟩
  intro hag
  have hboth := hex₁.symm.trans (hag.exchanged.trans hex₂)
  have hcarry := (sectors_eq_blocks_iff 0x1000 0xFE00 0 (m := 2) (by decide)).mp hboth
  revert hcarry
  decide

end Sbc386Ex.Int13

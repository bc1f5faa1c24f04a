import Sbc386Ex.Int13.Chs

/-!
# Sbc386Ex.Int13.ChsBuffer

Where a CHS transfer puts its bytes. The routine promises that byte `i` of the
`k`-th sector is exchanged with linear address `16 * seg + off + 512 * k + i`; it
keeps that promise exactly when no sector straddles the end of its 64K window and
the carries into the segment do not run it past `FFFFh`.
-/

namespace Sbc386Ex.Int13

open Prog Ide

/-! ### The stepping in numbers -/

theorem bufferAt_eq (seg off : Word) (k : Nat) :
    bufferAt false seg off k =
      (seg + BitVec.ofNat 16 (0x1000 * ((off.toNat + 512 * k) / 65536)),
        off + BitVec.ofNat 16 (512 * k)) := by
  induction k generalizing seg off with
  | zero =>
      have h0 : off.toNat / 65536 = 0 := Nat.div_eq_of_lt off.isLt
      simp [bufferAt, h0]
  | succ k ih =>
      have hlt := off.isLt
      have hoff : (off + 512).toNat = (off.toNat + 512) % 65536 := by
        rw [BitVec.toNat_add]
        rfl
      have hsum : off + 512 + BitVec.ofNat 16 (512 * k) = off + BitVec.ofNat 16 (512 * (k + 1)) := by
        apply BitVec.eq_of_toNat_eq
        simp only [BitVec.toNat_add, BitVec.toNat_ofNat, hoff]
        omega
      rw [bufferAt, ih]
      unfold nextBuffer
      by_cases hcarry : off.toNat + 512 < 65536
      · have hq : ((off + 512).toNat + 512 * k) / 65536 = (off.toNat + 512 * (k + 1)) / 65536 := by
          rw [hoff]
          omega
        simp only [Bool.false_eq_true, if_false, if_pos hcarry, hsum, hq]
      · have hq : (off.toNat + 512 * (k + 1)) / 65536 =
            ((off + 512).toNat + 512 * k) / 65536 + 1 := by
          rw [hoff]
          omega
        have hseg : seg + 0x1000 + BitVec.ofNat 16 (0x1000 * (((off + 512).toNat + 512 * k) / 65536)) =
            seg + BitVec.ofNat 16 (0x1000 * ((off.toNat + 512 * (k + 1)) / 65536)) := by
          rw [hq]
          generalize ((off + 512).toNat + 512 * k) / 65536 = q
          have hstep : (0x1000 : Word).toNat = 4096 := rfl
          apply BitVec.eq_of_toNat_eq
          simp only [BitVec.toNat_add, BitVec.toNat_ofNat, hstep]
          omega
        simp only [Bool.false_eq_true, if_false, if_neg hcarry, hsum, hseg]

/-- Byte `i` of the `k`-th sector is where it should be when the sector has not
wrapped in its segment before it and the segment has not wrapped. -/
theorem bufferByte_iff (seg off : Word) (k i : Nat) (hi : i < 512) :
    bufferByte (bufferAt false seg off k).1 (bufferAt false seg off k).2 i =
        16 * seg.toNat + off.toNat + 512 * k + i ↔
      (off.toNat + 512 * k) % 65536 + i < 65536 ∧
        seg.toNat + 0x1000 * ((off.toNat + 512 * k) / 65536) < 65536 := by
  have hseg := seg.isLt
  have hoff := off.isLt
  rw [bufferAt_eq]
  simp only [bufferByte, linear, BitVec.toNat_add, BitVec.toNat_ofNat]
  omega

/-- The buffers of `m` sectors from `seg:off` that the stepping gets right. -/
def Straight (seg off : Word) (m : Nat) : Prop :=
  (512 ∣ off.toNat ∨ off.toNat + 512 * m ≤ 65536) ∧
    (m = 0 ∨ seg.toNat + 0x1000 * ((off.toNat + 512 * (m - 1)) / 65536) < 65536)

theorem straight_iff (seg off : Word) (m : Nat) :
    (∀ k < m, ∀ i < 512, bufferByte (bufferAt false seg off k).1 (bufferAt false seg off k).2 i =
        16 * seg.toNat + off.toNat + 512 * k + i) ↔ Straight seg off m := by
  have hoff := off.isLt
  constructor
  · intro h
    refine ⟨?_, ?_⟩
    · by_contra hnot
      rw [not_or] at hnot
      obtain ⟨hdvd, hend⟩ := hnot
      -- the sector that holds offset FFFFh
      have hk : (65535 - off.toNat) / 512 < m := by omega
      have hbyte := (bufferByte_iff seg off _ 511 (by decide)).mp (h _ hk 511 (by decide))
      omega
    · rcases Nat.eq_zero_or_pos m with h0 | hpos
      · exact Or.inl h0
      · exact Or.inr ((bufferByte_iff seg off _ 0 (by decide)).mp
          (h (m - 1) (by omega) 0 (by decide))).2
  · rintro ⟨hwhole, hseg⟩ k hk i hi
    rw [bufferByte_iff seg off k i hi]
    have hmono : (off.toNat + 512 * k) / 65536 ≤ (off.toNat + 512 * (m - 1)) / 65536 :=
      Nat.div_le_div_right (by omega)
    constructor
    · rcases hwhole with ⟨c, hc⟩ | hend
      · omega
      · omega
    · omega

/-! ### What was exchanged -/

/-- The bytes exchanged between `h` and `h'`: address, block and position, in order. -/
def exchanged (h h' : Host Drive) : List Exchange :=
  List.zipWith (fun a s => ⟨a, s.1, s.2⟩) (h'.addrs.drop h.addrs.length)
    (h'.bus.served.drop h.bus.served.length)

/-- The commands the drive accepted between `h` and `h'`. -/
def accepted (h h' : Host Drive) : List Cmd := h'.bus.cmds.drop h.bus.cmds.length

theorem exchanged_of_view {h h' : Host Drive} {w u : Bool} {log : List Exchange} {cs : List Cmd}
    {p : Phase} {st : Byte} (hv : h'.view = { h.view.after w u log cs p with hdStatus := st }) :
    exchanged h h' = log ∧ accepted h h' = cs := by
  have haddrs : h'.addrs = h.addrs ++ log.map Exchange.addr := congrArg View.addrs hv
  have hserved : h'.bus.served = h.bus.served ++ log.map fun e => (e.lba, e.pos) :=
    congrArg View.served hv
  have hcmds : h'.bus.cmds = h.bus.cmds ++ cs := congrArg View.cmds hv
  rw [exchanged, accepted, haddrs, hserved, hcmds]
  simp only [List.drop_left, List.zipWith_map, List.zipWith_self, and_true]
  exact List.map_id log

theorem length_sectorLog (seg off : Word) (lba : Lba) : (sectorLog seg off lba).length = 512 := by
  simp [sectorLog, bytesLog]

theorem length_sectorAt (verify : Bool) (lba : Lba) (seg off : Word) (k : Nat) :
    (sectorAt verify lba seg off k).length = 512 := length_sectorLog _ _ _

/-- Byte `i` of a sector's log. -/
theorem getElem?_sectorLog (seg off : Word) (lba : Lba) {i : Nat} (hi : i < 512) :
    (sectorLog seg off lba)[i]? = some ⟨bufferByte seg off i, lba, i⟩ := by
  simp [sectorLog, bytesLog, hi]

/-- Sector `k` of a run of sectors. -/
theorem getElem?_sectors {α : Type} {c : Nat} {f : Nat → List α} (hf : ∀ k, (f k).length = c) :
    ∀ {m k i : Nat}, k < m → i < c → ((List.range m).flatMap f)[c * k + i]? = (f k)[i]? := by
  intro m
  induction m with
  | zero => intro k i hk; cases hk
  | succ m ih =>
      intro k i hk hi
      have hlen : ((List.range m).flatMap f).length = c * m := by
        simp [List.length_flatMap, hf, Nat.mul_comm]
      rw [List.range_succ, List.flatMap_append, List.flatMap_singleton]
      rcases Nat.lt_or_ge k m with hkm | hkm
      · have hin : c * k + i < c * m := by
          calc c * k + i < c * k + c := by omega
            _ = c * (k + 1) := by rw [Nat.mul_succ]
            _ ≤ c * m := Nat.mul_le_mul_left c hkm
        rw [List.getElem?_append_left (by rw [hlen]; exact hin)]
        exact ih hkm hi
      · obtain rfl : k = m := by omega
        rw [List.getElem?_append_right (by rw [hlen]; omega), hlen, Nat.add_sub_cancel_left]

/-! ### The call -/

/-- The account functions 02h (`w` false) and 03h (`w` true) give of a call for `r.al`
sectors from block `L` of unit `u`, when the driver does `m` of them and then, if `m`
is not all, reports an error. -/
structure Accounted (w u : Bool) (L : Nat) (m : Nat) (r r' : Regs) (h h' : Host Drive) : Prop where
  /-- no block number wraps -/
  inside : L + r.al.toNat < 2 ^ 28
  /-- the blocks are asked for one by one, in order, up to the first failure -/
  touched : ∃ j, m ≤ j ∧ j ≤ m + 1 ∧ j ≤ r.al.toNat ∧
    accepted h h' = (List.range j).map fun k => ⟨w, u, BitVec.ofNat 28 (L + k), 1⟩
  /-- the exchanges are what happened to memory and to the disk -/
  carried : h'.mem = (if w then h.mem else (exchanged h h').foldl
        (fun mem e => Function.update mem e.addr (h.bus.disk u e.lba e.pos)) h.mem) ∧
    h'.bus.disk = if w then (exchanged h h').foldl
        (fun disk e => Drive.put disk u e.lba e.pos (h.mem e.addr)) h.bus.disk else h.bus.disk
  al : r'.al.toNat = m
  ah : r'.ah = if m < r.al.toNat then View.errorCode h'.bus.phase else NO_ERROR
  cf : r'.cf = true ↔ m < r.al.toNat

/-- Byte `i` of the `k`-th block done is exchanged with linear address `at_ k i`. -/
def ExchangedAt (at_ : Nat → Nat → Nat) (L m : Nat) (h h' : Host Drive) : Prop :=
  ∀ k < m, ∀ i < 512, (exchanged h h')[512 * k + i]? =
    some ⟨at_ k i, BitVec.ofNat 28 (L + k), i⟩

/-- What the call promises: the account, and consecutive linear addresses from the
caller's buffer on. -/
structure AsNamed (w u : Bool) (L : Nat) (m : Nat) (r r' : Regs) (h h' : Host Drive) : Prop
    extends Accounted w u L m r r' h h' where
  named : ExchangedAt (fun k i => 16 * r.es.toNat + r.bx.toNat + 512 * k + i) L m h h'

/-- Functions 02h and 03h, by direction. -/
def transferCall (w : Bool) (fuel : Nat) (a : DiskArea) (r : Regs) : IdeM Drive Regs :=
  if w then fn03WriteSector fuel a r else fn02ReadSector fuel a r

section Law

variable {P : Plan} {T : Timing} {h : Host Drive} {a : DiskArea} {r : Regs} {dt : DiskTab}
  {lba : DWord} {fuel : Nat}

/-- A call the tables and `cv_lba` accept keeps the account, with every byte where the
stepping of the buffer puts it. -/
theorem transferCall_accounted (w : Bool) (hu : h.Under P T) (hf : T.patience < fuel)
    (hdt : getDiskTable a r.dl = some (dt, 2)) (hlba : cvLba dt r.ch r.cl r.dh = some lba)
    (hah : r.ah = if w then 3 else 2) :
    let u := (unitBit dt).getLsbD 4
    let m := sectorsDone P w u (lba.setWidth 28) r.al.toNat h.bus.phase
    ∃ r' h', Runs (transferCall w fuel a r) h r' h' ∧ Accounted w u lba.toNat m r r' h h' ∧
      ExchangedAt (fun k => bufferByte (bufferAt false r.es r.bx k).1 (bufferAt false r.es r.bx k).2)
        lba.toNat m h h' := by
  intro u m
  have hah' : r.ah ≠ 4 := by
    rw [hah]
    cases w <;> decide
  have hslot : slot (if w then writeTab fuel else readTab fuel) 2 =
      some (if w then ideWriteSector fuel else ideReadSector fuel : Driver Drive) := by
    cases w <;> rfl
  have hdrv : IsDriver P T w (if w then ideWriteSector fuel else ideReadSector fuel) := by
    cases w
    · exact isDriver_read hf
    · exact isDriver_write hf
  obtain ⟨j, p, h', r', hrun, -, hj, hview, hr'⟩ :=
    rwvCommon_spec hu hdt hslot hdrv hlba hah'
  obtain ⟨hex, hacc⟩ := exchanged_of_view hview
  have hmn : m ≤ r.al.toNat := sectorsDone_le _ _ _ _ _ _
  have hal := r.al.isLt
  have hlt := cvLba_lt hlba
  have hblock : ∀ k, (lba.setWidth 28 : Lba) + BitVec.ofNat 28 k =
      BitVec.ofNat 28 (lba.toNat + k) := by
    intro k
    apply BitVec.eq_of_toNat_eq
    simp only [BitVec.toNat_add, BitVec.toNat_setWidth, BitVec.toNat_ofNat]
    omega
  refine ⟨r', h', ?_, ⟨by omega, ⟨j, hj.1, hj.2.1, hj.2.2, ?_⟩, ⟨?_, ?_⟩, ?_, ?_, ?_⟩, ?_⟩
  · cases w <;> exact hrun
  · rw [hacc]
    simp only [List.map_inj_left, cmdAt, hblock]
    intro k _
    trivial
  · rw [hex]
    exact congrArg View.mem hview
  · rw [hex]
    exact congrArg View.disk hview
  · rw [hr']
    simp only [BitVec.toNat_ofNat]
    exact Nat.mod_eq_of_lt (Nat.lt_of_le_of_lt hmn hal)
  · have hph : h'.bus.phase = p := congrArg View.phase hview
    rw [hr', hph]
    rfl
  · rw [hr']
    simp [m, u]
  · intro k hk i hi
    have hkm := Nat.lt_of_lt_of_le hk
      (sectorsDone_le_moved P w u (lba.setWidth 28) r.al.toNat h.bus.phase)
    rw [hex, getElem?_sectors (length_sectorAt _ _ _ _) hkm hi, sectorAt,
      getElem?_sectorLog _ _ _ hi, hblock]

theorem ExchangedAt.addr_eq {f g : Nat → Nat → Nat} {L m : Nat} {h h' : Host Drive}
    (hf : ExchangedAt f L m h h') (hg : ExchangedAt g L m h h') :
    ∀ k < m, ∀ i < 512, f k i = g k i := by
  intro k hk i hi
  have hboth := (hf k hk i hi).symm.trans (hg k hk i hi)
  simpa using hboth

/-- **A CHS transfer puts every byte where the caller named it exactly when the buffer
is straight.** -/
theorem transferCall_as_named_iff (w : Bool) (hu : h.Under P T) (hf : T.patience < fuel)
    (hdt : getDiskTable a r.dl = some (dt, 2)) (hlba : cvLba dt r.ch r.cl r.dh = some lba)
    (hah : r.ah = if w then 3 else 2) :
    let u := (unitBit dt).getLsbD 4
    let m := sectorsDone P w u (lba.setWidth 28) r.al.toNat h.bus.phase
    ∃ r' h', Runs (transferCall w fuel a r) h r' h' ∧
      (AsNamed w u lba.toNat m r r' h h' ↔ Straight r.es r.bx m) := by
  intro u m
  obtain ⟨r', h', hrun, hacc, hat⟩ := transferCall_accounted w hu hf hdt hlba hah
  refine ⟨r', h', hrun, ?_⟩
  rw [← straight_iff]
  constructor
  · intro hn
    exact hat.addr_eq hn.named
  · intro hs
    refine ⟨hacc, ?_⟩
    intro k hk i hi
    have hbyte := hat k hk i hi
    simp only [hs k hk i hi] at hbyte
    exact hbyte

end Law

/-! ### On the bench -/

/-- 1024 cylinders, 16 heads and 63 sectors, the master. -/
def benchTab : DiskTab := ⟨1024, 16, 0, 0xFC000, 63, 0⟩

/-- That drive alone. -/
def benchArea : DiskArea where
  hdNumber := 1
  diskTab := fun i => if i = 0 then FX_IDEm else FX_NONE
  table := fun _ => benchTab
  few := by decide

/-- A call for `al` sectors from the first of the disk. -/
def benchRegs (ah al : Byte) (es bx : Word) : Regs := ⟨ah, al, bx, 0, 1, 0, 0x80, es, false⟩

theorem bench_under (P : Plan) : (Host.bench P).Under P .steady := ⟨rfl, rfl, 0, Nat.zero_le _⟩

theorem bench_patience : Timing.steady.patience < 91 := by decide

theorem bench_table : getDiskTable benchArea 0x80 = some (benchTab, 2) := by decide

theorem bench_lba : cvLba benchTab 0 1 0 = some 0 := by decide

theorem transferCall_as_named_bench :
    ∃ r' h', Runs (transferCall false 91 benchArea (benchRegs 2 3 0x1000 0))
        (Host.bench .obliging) r' h' ∧
      (AsNamed false false 0 3 (benchRegs 2 3 0x1000 0) r' (Host.bench .obliging) h' ↔
        Straight 0x1000 0 3) :=
  transferCall_as_named_iff (r := benchRegs 2 3 0x1000 0) false (bench_under .obliging)
    bench_patience bench_table bench_lba rfl

/-- A read of one sector to `1000:FF00`: its last 256 bytes go to the start of the
segment. -/
theorem transferCall_straddle :
    ∃ r' h', Runs (transferCall false 91 benchArea (benchRegs 2 1 0x1000 0xFF00))
        (Host.bench .obliging) r' h' ∧
      ¬ AsNamed false false 0 1 (benchRegs 2 1 0x1000 0xFF00) r' (Host.bench .obliging) h' := by
  obtain ⟨r', h', hrun, -, hat⟩ := transferCall_accounted (r := benchRegs 2 1 0x1000 0xFF00) false
    (bench_under .obliging) bench_patience bench_table bench_lba rfl
  refine ⟨r', h', hrun, ?_⟩
  intro hn
  have hbyte := hat.addr_eq hn.named 0 (by decide) 256 (by decide)
  revert hbyte
  decide

end Sbc386Ex.Int13

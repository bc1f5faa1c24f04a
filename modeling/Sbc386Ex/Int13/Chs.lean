import Sbc386Ex.Ide.Fate
import Sbc386Ex.Int13.Table

/-!
# Sbc386Ex.Int13.Chs

The CHS transfers, functions 02h, 03h and 04h of `13h_disk.asm`, and what they do
to a drive.
-/

namespace Sbc386Ex.Int13

open Prog Ide

section Code

variable {W : Type} [IdeBus W]

/-- Where the buffer goes after a sector. A verify keeps the one it has; otherwise the
carry out of the offset goes into the segment. -/
def nextBuffer (verify : Bool) (seg off : Word) : Word × Word :=
  if verify then (seg, off)
  else if off.toNat + 512 < 65536 then (seg, off + 512)
  else (seg + 0x1000, off + 512)

/-- `.loop` of `rwv_common`: one sector per driver call. Returns the driver's `AX`
and the sectors still to do. -/
def rwvLoop (drv : Driver W) (unit : Byte) (verify : Bool) :
    Nat → DWord → Word → Word → IdeM W (Word × Nat)
  | 0, _, _, _ => pure (0, 0)
  | count + 1, lba, seg, off => do
      let ax ← drv unit seg off lba 1
      if ax ≠ 0 then pure (ax, count + 1)
      else
        let b := nextBuffer verify seg off
        rwvLoop drv unit verify count (lba + 1) b.1 b.2

/-- `rwv_common`, with the driver table the entry point chose. -/
def rwvCommon (tab : List (Option (Driver W))) (a : DiskArea) (r : Regs) : IdeM W Regs := do
  match getDiskTable a r.dl with
  | none => retInvalidCommand r
  | some (dt, bx) =>
    match slot tab bx with
    | none => retInvalidCommand r
    | some drv =>
      match cvLba dt r.ch r.cl r.dh with
      | none => retSectorNotFound r
      | some lba => do
        let verify := r.ah = 4
        let off := if verify then secBufferOff else r.bx
        let seg := if verify then secBufferSeg else r.es
        let (ax, left) ← rwvLoop drv (unitBit dt) verify r.al.toNat lba seg off
        if ax ≠ 0 then
          errorReturn { r with al := r.al - BitVec.ofNat 8 left } (ax.setWidth 8)
        else goodReturn r

def fn02ReadSector (fuel : Nat) (a : DiskArea) (r : Regs) : IdeM W Regs :=
  rwvCommon (readTab fuel) a r

def fn03WriteSector (fuel : Nat) (a : DiskArea) (r : Regs) : IdeM W Regs :=
  rwvCommon (writeTab fuel) a r

def fn04VerifySector (fuel : Nat) (a : DiskArea) (r : Regs) : IdeM W Regs :=
  rwvCommon (readTab fuel) a r

end Code

/-! ### The loop on views -/

section Views

variable {P : Plan} {T : Timing} {w u : Bool}

/-- The loop of `rwv_common` over the transfers it calls for. -/
def rwvView (plan : Plan) (write unit verify : Bool) :
    Nat → Lba → Word → Word → View → (Word × Nat) × View
  | 0, _, _, _, v => ((0, 0), v)
  | n + 1, lba, seg, off, v =>
      let r := v.transfer plan ⟨write, unit, lba, 1⟩ seg off
      if r.1 ≠ 0 then ((r.1, n + 1), r.2)
      else
        let b := nextBuffer verify seg off
        rwvView plan write unit verify n (lba + 1) b.1 b.2 r.2

/-- `drv` is the driver of direction `w`. -/
def IsDriver (P : Plan) (T : Timing) (w : Bool) (drv : Driver Drive) : Prop :=
  ∀ {h : Host Drive}, h.Under P T → ∀ al seg off lba count,
    Does P T (drv al seg off lba count) h
      (h.view.transfer P ⟨w, al.getLsbD 4, lba.setWidth 28, count.setWidth 8⟩ seg off)

theorem isDriver_read {fuel : Nat} (hf : T.patience < fuel) :
    IsDriver P T false (ideReadSector fuel) :=
  fun hu al seg off lba count => ideReadSector_refines hu hf al seg off lba count

theorem isDriver_write {fuel : Nat} (hf : T.patience < fuel) :
    IsDriver P T true (ideWriteSector fuel) :=
  fun hu al seg off lba count => ideWriteSector_refines hu hf al seg off lba count

theorem rwvLoop_refines {drv : Driver Drive} (hdrv : IsDriver P T w drv) (unit : Byte)
    (verify : Bool) :
    ∀ (n : Nat) (lba : DWord) (seg off : Word) (h : Host Drive), h.Under P T →
      let r := rwvView P w (unit.getLsbD 4) verify n (lba.setWidth 28) seg off h.view
      ∃ h', Runs (rwvLoop drv unit verify n lba seg off) h r.1 h' ∧ h'.view = r.2 ∧
        h'.Under P T := by
  intro n
  induction n with
  | zero =>
      intro lba seg off h hu
      exact ⟨h, runs_pure.mpr ⟨rfl, rfl⟩, rfl, hu⟩
  | succ n ih =>
      intro lba seg off h hu
      obtain ⟨h₁, hrun, hview, hu₁⟩ := hdrv hu unit seg off lba 1
      have hcount : (1 : Word).setWidth 8 = (1 : Byte) := by decide
      rw [hcount] at hrun hview
      simp only [rwvView]
      by_cases hax : (h.view.transfer P ⟨w, unit.getLsbD 4, lba.setWidth 28, 1⟩ seg off).1 ≠ 0
      · rw [if_pos hax]
        refine ⟨h₁, hrun.bind ?_, hview, hu₁⟩
        rw [if_pos hax]
        exact runs_pure.mpr ⟨rfl, rfl⟩
      · rw [if_neg hax]
        obtain ⟨h', hrest, hview', hu'⟩ := ih (lba + 1) (nextBuffer verify seg off).1
          (nextBuffer verify seg off).2 h₁ hu₁
        have hlba : (lba + 1).setWidth 28 = lba.setWidth 28 + 1 := by
          rw [BitVec.setWidth_add _ _ (by decide)]
          rfl
        rw [hview, hlba] at hrest hview'
        refine ⟨h', hrun.bind ?_, hview', hu'⟩
        rw [if_neg hax]
        exact hrest

/-- The buffer of the `k`-th sector. -/
def bufferAt (verify : Bool) (seg off : Word) : Nat → Word × Word
  | 0 => (seg, off)
  | k + 1 =>
      bufferAt verify (nextBuffer verify seg off).1 (nextBuffer verify seg off).2 k

/-- The bytes of the `k`-th sector of a run from `lba`. -/
def sectorAt (verify : Bool) (lba : Lba) (seg off : Word) (k : Nat) : List Exchange :=
  sectorLog (bufferAt verify seg off k).1 (bufferAt verify seg off k).2 (lba + BitVec.ofNat 28 k)

theorem sectorAt_succ (verify : Bool) (lba : Lba) (seg off : Word) (k : Nat) :
    sectorAt verify (lba + 1) (nextBuffer verify seg off).1 (nextBuffer verify seg off).2 k =
      sectorAt verify lba seg off (k + 1) := by
  rw [sectorAt, sectorAt, lba_succ]
  rfl

/-- The `k`-th command of the loop. -/
def cmdAt (w u : Bool) (lba : Lba) (k : Nat) : Cmd := ⟨w, u, lba + BitVec.ofNat 28 k, 1⟩

/-- **A run of the loop.** It stops at the first sector the driver fails on; that one has
been asked for, and its data moved if the drive came ready with it. -/
theorem rwvView_run (P : Plan) (w u verify : Bool) :
    ∀ (n : Nat) (lba : Lba) (seg off : Word) (v : View), v.phase.hangs = false →
      let ok := fun k => (fateAt P w u lba k).succeeds w
      let moved := attempted ok (fun k => (fateAt P w u lba k).moves) n
      ∃ p, let v' := v.after w u ((List.range moved).flatMap (sectorAt verify lba seg off))
                       ((List.range (attempted ok (fun _ => true) n)).map (cmdAt w u lba)) p
        rwvView P w u verify n lba seg off v =
          if leading ok n = n then ((0, 0), v')
          else ((v'.fail.1, n - leading ok n), v'.fail.2) := by
  intro n
  induction n with
  | zero =>
      intro lba seg off v hv
      refine ⟨v.phase, ?_⟩
      simp [rwvView, View.after, View.exchange]
  | succ n ih =>
      intro lba seg off v hv
      simp only
      have h0 : fateAt P w u lba 0 = P w u lba := by simp [fateAt]
      have hs0 : sectorAt verify lba seg off 0 = sectorLog seg off lba := by
        simp [sectorAt, bufferAt]
      have hc0 : cmdAt w u lba 0 = ⟨w, u, lba, 1⟩ := by simp [cmdAt]
      rw [rwvView, transfer_one hv]
      cases hok : (P w u lba).succeeds w with
      | false =>
          have hok0 : (fateAt P w u lba 0).succeeds w = false := by rw [h0, hok]
          rw [attempted_succ_of_false hok0, attempted_succ_of_false hok0,
            leading_succ_of_false hok0]
          refine ⟨(P w u lba).leaves w, ?_⟩
          have hlog : (P w u lba).log seg off lba =
              (List.range (if (fateAt P w u lba 0).moves then 1 else 0)).flatMap
                (sectorAt verify lba seg off) := by
            rw [h0, Fate.log]
            split <;> simp [hs0]
          simp only [Bool.false_eq_true, if_false, View.fail_ne_zero, ne_eq, not_false_eq_true,
            if_true, hlog]
          simp [hc0]
      | true =>
          have hok0 : (fateAt P w u lba 0).succeeds w = true := by rw [h0, hok]
          have hcmds : cmdAt w u (lba + 1) = cmdAt w u lba ∘ Nat.succ := by
            funext k
            rw [Function.comp_apply, cmdAt, cmdAt, lba_succ]
          have hlog : (P w u lba).log seg off lba = sectorLog seg off lba := by
            rw [Fate.log, if_pos (Fate.moves_of_succeeds hok)]
          have hrun := ih (lba + 1) (nextBuffer verify seg off).1 (nextBuffer verify seg off).2
            (v.after w u (sectorLog seg off lba) [⟨w, u, lba, 1⟩] ((P w u lba).leaves w))
            (Fate.not_hangs_of_succeeds hok)
          simp only [View.after_after, fateAt_succ, hcmds] at hrun
          obtain ⟨p, hp⟩ := hrun
          refine ⟨p, ?_⟩
          rw [attempted_succ_of_true hok0, attempted_succ_of_true hok0, leading_succ_of_true hok0]
          simp only [if_true, ne_eq, not_true_eq_false, if_false, hlog, Nat.add_right_cancel_iff,
            Nat.add_sub_add_right, List.range_succ_eq_map, List.flatMap_cons, List.map_cons,
            List.flatMap_map, List.map_map, hs0, hc0]
          refine hp.trans ?_
          have hsec : sectorAt verify (lba + 1) (nextBuffer verify seg off).1
              (nextBuffer verify seg off).2 = fun k => sectorAt verify lba seg off k.succ :=
            funext fun k => sectorAt_succ verify lba seg off k
          rw [hsec]
          rfl

/-- A drive that hangs takes no command. -/
theorem rwvView_hangs (P : Plan) (w u verify : Bool) {n : Nat} (hn : n ≠ 0) (lba : Lba)
    (seg off : Word) {v : View} (hv : v.phase.hangs = true) :
    rwvView P w u verify n lba seg off v = ((v.fail.1, n), v.fail.2) := by
  obtain ⟨n, rfl⟩ := Nat.exists_eq_succ_of_ne_zero hn
  have hone : ¬ (1 : Byte) = 0 := by decide
  have htr : v.transfer P ⟨w, u, lba, 1⟩ seg off = v.fail := by
    rw [View.transfer, if_neg hone, hv, if_pos rfl]
  rw [rwvView, htr, if_pos v.fail_ne_zero]

end Views

/-! ### A call -/

section Calls

variable {P : Plan} {T : Timing} {w : Bool} {h : Host Drive} {a : DiskArea} {r : Regs}
  {dt : DiskTab} {bx : Nat} {tab : List (Option (Driver Drive))} {drv : Driver Drive} {lba : DWord}

/-- How many of `n` sectors from `lba` the driver does, one command each. -/
def sectorsDone (P : Plan) (w u : Bool) (lba : Lba) (n : Nat) (p : Phase) : Nat :=
  if p.hangs then 0 else leading (fun k => (fateAt P w u lba k).succeeds w) n

/-- The sectors whose data moves: those, and the one the driver fails on if the
drive came ready with it. -/
def sectorsMoved (P : Plan) (w u : Bool) (lba : Lba) (n : Nat) (p : Phase) : Nat :=
  if p.hangs then 0
  else attempted (fun k => (fateAt P w u lba k).succeeds w) (fun k => (fateAt P w u lba k).moves) n

theorem sectorsDone_le (P : Plan) (w u : Bool) (lba : Lba) (n : Nat) (p : Phase) :
    sectorsDone P w u lba n p ≤ n := by
  unfold sectorsDone
  split
  · exact Nat.zero_le n
  · exact leading_le

theorem sectorsDone_le_moved (P : Plan) (w u : Bool) (lba : Lba) (n : Nat) (p : Phase) :
    sectorsDone P w u lba n p ≤ sectorsMoved P w u lba n p := by
  unfold sectorsDone sectorsMoved
  split
  · exact Nat.le_refl 0
  · exact leading_le_attempted

/-- `rwvView_run` whether or not the drive hangs. -/
theorem rwvView_done (P : Plan) (w u verify : Bool) (L : Lba) (n : Nat) (seg off : Word) (v : View) :
    let m := sectorsDone P w u L n v.phase
    ∃ j p, (m ≤ j ∧ j ≤ m + 1 ∧ j ≤ n) ∧
      let v' := v.after w u
        ((List.range (sectorsMoved P w u L n v.phase)).flatMap (sectorAt verify L seg off))
        ((List.range j).map (cmdAt w u L)) p
      rwvView P w u verify n L seg off v =
        if m = n then ((0, 0), v') else ((v'.fail.1, n - m), v'.fail.2) := by
  intro m
  cases hh : v.phase.hangs with
  | true =>
      have hm : m = 0 := by simp [m, sectorsDone, hh]
      have hmoved : sectorsMoved P w u L n v.phase = 0 := by simp [sectorsMoved, hh]
      refine ⟨0, v.phase, by omega, ?_⟩
      simp only [hmoved, hm, List.range_zero, List.flatMap_nil, List.map_nil, View.after_nothing]
      by_cases hn : n = 0
      · rw [hn]
        rfl
      · rw [rwvView_hangs P w u verify hn L seg off hh, if_neg (Ne.symm hn)]
        rfl
  | false =>
      have hm : m = leading (fun k => (fateAt P w u L k).succeeds w) n := by
        simp [m, sectorsDone, hh]
      obtain ⟨p, hp⟩ := rwvView_run P w u verify n L seg off v hh
      refine ⟨attempted (fun k => (fateAt P w u L k).succeeds w) (fun _ => true) n, p,
        ⟨?_, ?_, attempted_le⟩, ?_⟩
      · rw [hm]
        exact leading_le_attempted
      · rw [hm, attempted_all]
        exact Nat.min_le_right _ _
      · rw [hp, hm]
        simp [sectorsMoved, hh]

/-- **A read or write call on a drive the tables know.** -/
theorem rwvCommon_spec (hu : h.Under P T) (hdt : getDiskTable a r.dl = some (dt, bx))
    (htab : slot tab bx = some drv) (hdrv : IsDriver P T w drv)
    (hlba : cvLba dt r.ch r.cl r.dh = some lba) (hah : r.ah ≠ 4) :
    let u := (unitBit dt).getLsbD 4
    let L : Lba := lba.setWidth 28
    let n := r.al.toNat
    let m := sectorsDone P w u L n h.bus.phase
    ∃ j p h' r', Runs (rwvCommon tab a r) h r' h' ∧ h'.Under P T ∧
      (m ≤ j ∧ j ≤ m + 1 ∧ j ≤ n) ∧
      h'.view = { h.view.after w u
          ((List.range (sectorsMoved P w u L n h.bus.phase)).flatMap (sectorAt false L r.es r.bx))
          ((List.range j).map (cmdAt w u L)) p with
        hdStatus := if m < n then View.errorCode p else 0 } ∧
      r' = { r with al := BitVec.ofNat 8 m, ah := if m < n then View.errorCode p else 0
                    cf := decide (m < n) } := by
  intro u L n m
  obtain ⟨h₁, hrun, hview, hu₁⟩ :=
    rwvLoop_refines hdrv (unitBit dt) false n lba r.es r.bx h hu
  have hphase : h.view.phase = h.bus.phase := rfl
  -- the call is the loop and one of the two ways back
  have hcall : ∀ {r' h'}, Runs (if (rwvView P w u false n L r.es r.bx h.view).1.1 ≠ 0 then
        errorReturn { r with
          al := r.al - BitVec.ofNat 8 (rwvView P w u false n L r.es r.bx h.view).1.2 }
          ((rwvView P w u false n L r.es r.bx h.view).1.1.setWidth 8)
      else goodReturn r) h₁ r' h' → Runs (rwvCommon tab a r) h r' h' := by
    intro r' h' hback
    unfold rwvCommon
    simp only [hdt, htab, hlba, hah]
    exact hrun.bind hback
  have hcode : ∀ v : View, v.fail.1.setWidth 8 = View.errorCode v.phase := by
    intro v
    simp [View.fail]
  have hal : ∀ k ≤ n, r.al - BitVec.ofNat 8 (n - k) = BitVec.ofNat 8 k := by
    intro k hk
    have hn : r.al = BitVec.ofNat 8 n := by simp [n]
    rw [hn]
    apply BitVec.eq_of_toNat_eq
    have hlt : n < 2 ^ 8 := r.al.isLt
    simp only [BitVec.toNat_sub, BitVec.toNat_ofNat]
    omega
  obtain ⟨j, p, hj, hloop⟩ := rwvView_done P w u false L n r.es r.bx h.view
  have hmn : m ≤ n := sectorsDone_le P w u L n _
  by_cases hm : m = n
  · have hlt : ¬ m < n := by omega
    replace hloop := hloop.trans (if_pos hm)
    rw [hloop] at hcall hview
    refine ⟨j, p, _, _, hcall (runs_goodReturn r h₁), ⟨hu₁.plan, hu₁.timing, hu₁.lagging⟩, hj, ?_, ?_⟩
    · rw [if_neg hlt]
      exact congrArg (fun v => { v with hdStatus := (0 : Byte) }) hview
    · rw [if_neg hlt, hm]
      simp [n]
  · have hlt : m < n := by omega
    replace hloop := hloop.trans (if_neg hm)
    rw [hloop] at hcall hview
    have hal : r.al - BitVec.ofNat 8 (n - m) = BitVec.ofNat 8 m := hal m hmn
    simp only [View.fail_ne_zero, ne_eq, not_false_eq_true, if_true, hcode] at hcall
    refine ⟨j, p, _, _, hcall (runs_errorReturn _ _ h₁), ⟨hu₁.plan, hu₁.timing, hu₁.lagging⟩, hj, ?_, ?_⟩
    · rw [if_pos hlt]
      exact congrArg (fun v => { v with hdStatus := View.errorCode p }) hview
    · simp only [hlt, decide_true, ← hal]
      rfl

end Calls

end Sbc386Ex.Int13

import Mathlib.Data.Set.Function
import Sbc386Ex.Lib.MixedRadix
import Sbc386Ex.Fdc.SbcFdHeads

/-!
# Sbc386Ex.Fdc.FdBlock

`fdblock` of `sbcfd.c` in the machine's arithmetic: a block number is a `long`, a count an
`unsigned`, and the check against the end of the diskette adds the two at 32 bits.

What the controller makes of an attempt at a sector is a parameter: any pattern of outcomes, by
sector and by attempt. The driver of `SbcFd`, run on its card, follows one of the patterns
(`fdblock_pattern`).
-/

namespace Sbc386Ex.Fdc.FdBlock

open SbcFd MixedRadix

/-- An `int` of the formats' table. -/
def int (v : Nat) : DWord := BitVec.ofNat 32 v

/-- `fdsector`'s 0, and its -1 with ST1's NW set or clear. -/
inductive Outcome
  | done
  | notWritable
  | failed
  deriving DecidableEq

structure Chs where
  cyl : DWord
  head : DWord
  sec : DWord
  deriving DecidableEq

/-- `fdsector`'s split of a block number; C rounds to zero. -/
def chs (kind : Fin 8) (bno : DWord) : Chs where
  cyl := bno.sdiv (int ((fk kind).nspt * (fk kind).nhds))
  head := (bno.sdiv (int (fk kind).nspt)).srem (int (fk kind).nhds)
  sec := bno.srem (int (fk kind).nspt) + 1

/-- The READ or WRITE of a sector, and where its bytes are. -/
structure Command where
  write : Bool
  drive : Nat
  chs : Chs
  addr : DWord
  deriving DecidableEq

structure Attempt where
  cmd : Command
  outcome : Outcome
  deriving DecidableEq

/-- What `fdblock` has the controller do. -/
inductive Did
  | sector (a : Attempt)
  | reset
  deriving DecidableEq

def Did.attempt : Did → Option Attempt
  | .sector a => some a
  | .reset => none

/-- A buffer as `fdblock` is given it. -/
structure Request where
  minor : Byte
  req : Req
  bno : DWord
  count : DWord
  paddr : DWord

/-- A buffer as it comes back, and what was done for it. -/
structure Answer where
  did : List Did
  bferr : Bool
  resid : DWord

/-- The attempts among what was done. -/
def attempts (did : List Did) : List Attempt := did.filterMap Did.attempt

def Answer.attempts (r : Answer) : List Attempt := FdBlock.attempts r.did

/-! ### The driver -/

def fdsector (bp : Request) (bno addr : DWord) : Command where
  write := bp.req = .BWRITE
  drive := funit bp.minor
  chs := chs (fkind bp.minor) bno
  addr := addr

/-- The inner loop: `try` as it leaves it, which is all the outer one looks at. -/
def tryLoop (pat : Nat → Outcome) (cmd : Command) (tr : Nat) : Nat × List Did :=
  if tr < FD_TRIES then
    match pat tr with
    | .done => (tr, [.sector ⟨cmd, .done⟩])
    | .notWritable => (FD_TRIES + 1, [.sector ⟨cmd, .notWritable⟩])
    | .failed =>
        let r := tryLoop pat cmd (tr + 1)
        (r.1, .sector ⟨cmd, .failed⟩ :: (if tr = FD_TRIES / 2 then [.reset] else []) ++ r.2)
  else (tr, [])
termination_by FD_TRIES - tr

/-- The outer loop from sector `k` on, with `n` sectors left. -/
def sectorLoop (pat : Nat → Nat → Outcome) (bp : Request) :
    Nat → Nat → DWord → DWord → DWord → Answer
  | 0, _, _, _, resid => ⟨[], false, resid⟩
  | n + 1, k, bno, addr, resid =>
      let r := tryLoop (pat k) (fdsector bp bno addr) 0
      if FD_TRIES < r.1 then ⟨r.2, true, resid⟩
      else if r.1 = FD_TRIES then ⟨r.2, true, resid⟩
      else
        let rest := sectorLoop pat bp n (k + 1) (bno + 1) (addr + int FD_SECSIZE)
          (resid - int FD_SECSIZE)
        { rest with did := r.2 ++ rest.did }

/-- `k->size` -/
def size (bp : Request) : DWord := int (fk (fkind bp.minor)).size

/-- The read at the end of the diskette. -/
def atEnd (bp : Request) : Prop := bp.req = .BREAD ∧ bp.bno = size bp

instance (bp : Request) : Decidable (atEnd bp) := inferInstanceAs (Decidable (_ ∧ _))

def refuses (fdpresent : Bool) (bp : Request) : Bool :=
  !fdpresent ∨ FD_NDRV ≤ funit bp.minor ∨ !fnormal bp.minor
    ∨ size bp < bp.bno + bp.count / int FD_SECSIZE
    ∨ bp.count % int FD_SECSIZE ≠ 0 ∨ bp.count = 0

def fdblock (fdpresent : Bool) (pat : Nat → Nat → Outcome) (bp : Request) : Answer :=
  if atEnd bp then ⟨[], false, bp.count⟩
  else if refuses fdpresent bp then ⟨[], true, bp.count⟩
  else sectorLoop pat bp (bp.count / int FD_SECSIZE).toNat 0 bp.bno bp.paddr bp.count

/-! ### Blocks and sectors -/

/-- A sector of the format. -/
structure Chs.Within (kind : Fin 8) (c : Chs) : Prop where
  cyl : c.cyl.toNat < (fk kind).ncyl
  head : c.head.toNat < (fk kind).nhds
  sec_pos : 0 < c.sec.toNat
  sec_le : c.sec.toNat ≤ (fk kind).nspt

/-- The logical number of a sector. -/
def lba (kind : Fin 8) (c : Chs) : Nat :=
  pack (fk kind).nspt (pack (fk kind).nhds c.cyl.toNat c.head.toNat) (c.sec.toNat - 1)

theorem fk_small (kind : Fin 8) : (fk kind).nspt ≤ 18 ∧ (fk kind).size ≤ 2880 := by
  revert kind
  decide

theorem int_toNat {v : Nat} (h : v < 2 ^ 32) : (int v).toNat = v := by
  rw [int, BitVec.toNat_ofNat, Nat.mod_eq_of_lt h]

theorem lba_lt {kind : Fin 8} {c : Chs} (h : c.Within kind) : lba kind c < (fk kind).size := by
  have hpos := h.sec_pos
  have hle := h.sec_le
  calc lba kind c < (fk kind).ncyl * (fk kind).nhds * (fk kind).nspt :=
        pack_lt (pack_lt h.cyl h.head) (by omega)
    _ = (fk kind).ncyl * ((fk kind).nspt * (fk kind).nhds) := by rw [Nat.mul_assoc, Nat.mul_comm (fk kind).nhds]
    _ = (fk kind).size := (fk_bounds kind).2.2.2.2.symm

theorem lba_inj {kind : Fin 8} {c c' : Chs} (h : c.Within kind) (h' : c'.Within kind)
    (heq : lba kind c = lba kind c') : c = c' := by
  have hs := h.sec_pos
  have hs' := h'.sec_pos
  have hle := h.sec_le
  have hle' := h'.sec_le
  obtain ⟨hhead, hsec⟩ := pack_inj (by omega) (by omega) heq
  obtain ⟨hcyl, hhead⟩ := pack_inj h.head h'.head hhead
  cases c
  cases c'
  simp only [Chs.mk.injEq]
  exact ⟨BitVec.eq_of_toNat_eq hcyl, BitVec.eq_of_toNat_eq hhead,
    BitVec.eq_of_toNat_eq (by simp only at hs hs' hsec; omega)⟩

/-- Of numbers that are not negative C's division is the usual one. -/
theorem sdiv_toNat {b d : DWord} (hb : b.toNat < 2 ^ 31) (hd : d.toNat < 2 ^ 31) :
    (b.sdiv d).toNat = b.toNat / d.toNat := by
  have hmb : b.msb = false := BitVec.msb_eq_false_iff_two_mul_lt.mpr (by omega)
  have hmd : d.msb = false := BitVec.msb_eq_false_iff_two_mul_lt.mpr (by omega)
  rw [BitVec.sdiv_eq, hmb, hmd]
  exact BitVec.toNat_udiv

theorem srem_toNat {b d : DWord} (hb : b.toNat < 2 ^ 31) (hd : d.toNat < 2 ^ 31) :
    (b.srem d).toNat = b.toNat % d.toNat := by
  have hmb : b.msb = false := BitVec.msb_eq_false_iff_two_mul_lt.mpr (by omega)
  have hmd : d.msb = false := BitVec.msb_eq_false_iff_two_mul_lt.mpr (by omega)
  rw [BitVec.srem_eq, hmb, hmd]
  exact BitVec.toNat_umod

/-- A block of the format is at the sector that has its number. -/
theorem chs_spec {kind : Fin 8} {b : DWord} (hb : b.toNat < (fk kind).size) :
    (chs kind b).Within kind ∧ lba kind (chs kind b) = b.toNat := by
  obtain ⟨hspt, hhds, hhds2, hncyl, hsize⟩ := fk_bounds kind
  obtain ⟨hspt18, hsize2⟩ := fk_small kind
  have hmul : (fk kind).nspt * (fk kind).nhds ≤ 18 * 2 := Nat.mul_le_mul hspt18 hhds2
  have hspt' : (int (fk kind).nspt).toNat = (fk kind).nspt := int_toNat (by omega)
  have hhds' : (int (fk kind).nhds).toNat = (fk kind).nhds := int_toNat (by omega)
  have hmul' : (int ((fk kind).nspt * (fk kind).nhds)).toNat = (fk kind).nspt * (fk kind).nhds :=
    int_toNat (by omega)
  have hcyl : (chs kind b).cyl.toNat = b.toNat / (fk kind).nspt / (fk kind).nhds := by
    rw [Nat.div_div_eq_div_mul, ← hmul']
    exact sdiv_toNat (by omega) (by omega)
  have hdiv : (b.sdiv (int (fk kind).nspt)).toNat = b.toNat / (fk kind).nspt := by
    rw [sdiv_toNat (by omega) (by omega), hspt']
  have hhead : (chs kind b).head.toNat = b.toNat / (fk kind).nspt % (fk kind).nhds := by
    have hle : b.toNat / (fk kind).nspt ≤ b.toNat := Nat.div_le_self _ _
    rw [chs, srem_toNat (by omega) (by omega), hdiv, hhds']
  have hmod : b.toNat % (fk kind).nspt < (fk kind).nspt := Nat.mod_lt _ hspt
  have hsec : (chs kind b).sec.toNat = b.toNat % (fk kind).nspt + 1 := by
    have hrem : (b.srem (int (fk kind).nspt)).toNat = b.toNat % (fk kind).nspt := by
      rw [srem_toNat (by omega) (by omega), hspt']
    have hone : (1 : DWord).toNat = 1 := rfl
    rw [chs, BitVec.toNat_add, hrem, hone, Nat.mod_eq_of_lt (by omega)]
  refine ⟨⟨?_, ?_, ?_, ?_⟩, ?_⟩
  · rw [hcyl, Nat.div_div_eq_div_mul]
    exact cylOf_lt hb
  · rw [hhead]
    exact Nat.mod_lt _ hhds
  · omega
  · omega
  · rw [lba, hcyl, hhead, hsec, Nat.add_sub_cancel, pack, pack, Nat.div_add_mod', Nat.div_add_mod']

/-- Sectors of a format and its blocks are the same thing. -/
theorem lba_bijOn (kind : Fin 8) :
    Set.BijOn (lba kind) {c | c.Within kind} {b | b < (fk kind).size} := by
  refine ⟨fun c hc => lba_lt hc, fun c hc c' hc' => lba_inj hc hc', fun b hb => ?_⟩
  have hb' : b < (fk kind).size := hb
  have hsmall := (fk_small kind).2
  have hint : (int b).toNat = b := int_toNat (by omega)
  obtain ⟨hwithin, hlba⟩ := chs_spec (b := int b) (hint.symm ▸ hb')
  exact ⟨chs kind (int b), hwithin, hlba.trans hint⟩

/-! ### The inner loop -/

/-- How many of the attempts were a success. -/
def good (as : List Attempt) : Nat := as.countP (·.outcome = .done)

@[simp] theorem attempts_nil : attempts [] = [] := rfl

@[simp] theorem attempts_sector (a : Attempt) (did : List Did) :
    attempts (.sector a :: did) = a :: attempts did := rfl

@[simp] theorem attempts_append (did did' : List Did) :
    attempts (did ++ did') = attempts did ++ attempts did' := List.filterMap_append

@[simp] theorem attempts_reset (c : Prop) [Decidable c] :
    attempts (if c then [.reset] else []) = [] := by
  split <;> rfl

@[simp] theorem good_nil : good [] = 0 := rfl

@[simp] theorem good_append (as as' : List Attempt) : good (as ++ as') = good as + good as' :=
  List.countP_append

/-- What the inner loop does from attempt `tr` on. It leaves `try` below `FD_TRIES` when the
sector is done, and not otherwise. -/
structure Tries (cmd : Command) (tr : Nat) (r : Nat × List Did) : Prop where
  cmd : ∀ a ∈ attempts r.2, a.cmd = cmd
  length : (attempts r.2).length ≤ FD_TRIES - tr
  good : good (attempts r.2) = if r.1 < FD_TRIES then 1 else 0

theorem tryLoop_tries (pat : Nat → Outcome) (cmd : Command) (tr : Nat) :
    Tries cmd tr (tryLoop pat cmd tr) := by
  fun_induction tryLoop pat cmd tr with
  | case1 tr h hpat =>
      refine ⟨by simp, ?_, ?_⟩
      · simp only [attempts_sector, attempts_nil, List.length_singleton]
        omega
      · rw [if_pos h]
        rfl
  | case2 tr h hpat =>
      refine ⟨by simp, ?_, rfl⟩
      simp only [attempts_sector, attempts_nil, List.length_singleton]
      omega
  | case3 tr h hpat r ih =>
      have hcons : attempts (.sector ⟨cmd, .failed⟩ :: (if tr = FD_TRIES / 2 then [.reset] else [])
          ++ r.2) = ⟨cmd, .failed⟩ :: attempts r.2 := by simp
      refine ⟨fun a ha => ?_, ?_, ?_⟩
      · rw [hcons] at ha
        rcases List.mem_cons.mp ha with rfl | ha
        · rfl
        · exact ih.cmd a ha
      · have hlen : (attempts r.2).length ≤ FD_TRIES - (tr + 1) := ih.length
        rw [hcons, List.length_cons]
        omega
      · rw [hcons]
        exact ih.good
  | case4 tr h => exact ⟨by simp, by simp, by rw [if_neg h]; rfl⟩

/-! ### The outer loop -/

/-- The command of sector `k` of a request. -/
def command (bp : Request) (k : Nat) : Command :=
  fdsector bp (bp.bno + int k) (bp.paddr + int (FD_SECSIZE * k))

/-- What the outer loop does for the `n` sectors from sector `k` on: `m` of them succeed. -/
structure Sweeps (bp : Request) (n k : Nat) (resid : DWord) (r : Answer) : Prop where
  cmd : ∀ a ∈ r.attempts, ∃ i < n, a.cmd = command bp (k + i)
  tries : ∀ j, r.attempts.countP (·.cmd = command bp j) ≤ FD_TRIES
  resid : r.resid = resid - int (FD_SECSIZE * good r.attempts)
  le : good r.attempts ≤ n
  bferr : r.bferr = true ↔ good r.attempts < n
  only : ∀ a ∈ r.attempts, a.outcome = .done → ∃ i < good r.attempts, a.cmd = command bp (k + i)
  each : ∀ i < good r.attempts, ∃ a ∈ r.attempts, a.outcome = .done ∧ a.cmd = command bp (k + i)

theorem int_add (u v : Nat) : int u + int v = int (u + v) := (BitVec.ofNat_add u v).symm

/-- Different sectors of the request take different commands. -/
def Distinct (bp : Request) (n : Nat) : Prop :=
  ∀ i < n, ∀ j < n, command bp i = command bp j → i = j

theorem good_pos {as : List Attempt} (h : 0 < good as) : ∃ a ∈ as, a.outcome = .done := by
  simpa using List.countP_pos_iff.mp h

/-- The sector that is not done is the last. -/
theorem sweeps_stop {bp : Request} {n k tr : Nat} {resid : DWord} {did : List Did}
    (ht : Tries (command bp k) 0 (tr, did)) (hstop : ¬ tr < FD_TRIES) :
    Sweeps bp (n + 1) k resid ⟨did, true, resid⟩ := by
  have hgood : good (attempts did) = 0 := ht.good.trans (if_neg hstop)
  have hgood' : good (Answer.attempts ⟨did, true, resid⟩) = 0 := hgood
  refine ⟨fun a ha => ⟨0, Nat.succ_pos n, ht.cmd a ha⟩, fun j => ?_, ?_, ?_, ?_, ?_, ?_⟩
  · exact List.countP_le_length.trans ht.length
  · rw [hgood', Nat.mul_zero]
    exact (BitVec.sub_zero resid).symm
  · omega
  · simp [hgood']
  · intro a ha hdone
    have hpos : 0 < good (attempts did) := List.countP_pos_iff.mpr ⟨a, ha, by simpa using hdone⟩
    omega
  · intro i hi
    omega

/-- A sector that is done, and the rest. -/
theorem sweeps_next {bp : Request} {n k tr N : Nat} {resid : DWord} {did : List Did} {rest : Answer}
    (hdist : Distinct bp N) (hN : k + (n + 1) ≤ N) (ht : Tries (command bp k) 0 (tr, did))
    (hlt : tr < FD_TRIES) (hr : Sweeps bp n (k + 1) (resid - int FD_SECSIZE) rest) :
    Sweeps bp (n + 1) k resid { rest with did := did ++ rest.did } := by
  have happ : Answer.attempts { rest with did := did ++ rest.did } =
      attempts did ++ rest.attempts := attempts_append did rest.did
  have hone : good (attempts did) = 1 := ht.good.trans (if_pos hlt)
  have hgood : good (attempts did ++ rest.attempts) = good rest.attempts + 1 := by
    rw [good_append, hone, Nat.add_comm]
  have hnext (i : Nat) : command bp (k + 1 + i) = command bp (k + (i + 1)) := by
    rw [Nat.add_assoc, Nat.add_comm 1 i]
  refine ⟨fun a ha => ?_, fun j => ?_, ?_, ?_, ?_, fun a ha hdone => ?_, fun i hi => ?_⟩
  · rw [happ] at ha
    rcases List.mem_append.mp ha with ha | ha
    · exact ⟨0, Nat.succ_pos n, ht.cmd a ha⟩
    · obtain ⟨i, hi, hcmd⟩ := hr.cmd a ha
      exact ⟨i + 1, Nat.succ_lt_succ hi, hcmd.trans (hnext i)⟩
  · -- the attempts at one sector are all before those at the others
    rw [happ, List.countP_append]
    by_cases hj : command bp k = command bp j
    · have hnone : rest.attempts.countP (·.cmd = command bp j) = 0 := by
        refine List.countP_eq_zero.mpr fun a ha hcmd => ?_
        obtain ⟨i, hi, hcmd'⟩ := hr.cmd a ha
        have heq : command bp k = command bp (k + 1 + i) :=
          hj.trans ((of_decide_eq_true hcmd).symm.trans hcmd')
        have hk := hdist k (by omega) (k + 1 + i) (by omega) heq
        omega
      rw [hnone, Nat.add_zero]
      exact List.countP_le_length.trans ht.length
    · have hnone : (attempts did).countP (·.cmd = command bp j) = 0 := by
        refine List.countP_eq_zero.mpr fun a ha hcmd => hj ?_
        exact (ht.cmd a ha).symm.trans (of_decide_eq_true hcmd)
      rw [hnone, Nat.zero_add]
      exact hr.tries j
  · rw [happ, hgood, Nat.mul_succ, Nat.add_comm, ← int_add]
    simp only [hr.resid]
    rw [BitVec.sub_sub]
  · rw [happ, hgood]
    exact Nat.succ_le_succ hr.le
  · rw [happ, hgood, Nat.succ_lt_succ_iff]
    exact hr.bferr
  · rw [happ] at ha ⊢
    rw [hgood]
    rcases List.mem_append.mp ha with ha | ha
    · exact ⟨0, Nat.succ_pos _, ht.cmd a ha⟩
    · obtain ⟨i, hi, hcmd⟩ := hr.only a ha hdone
      exact ⟨i + 1, Nat.succ_lt_succ hi, hcmd.trans (hnext i)⟩
  · rw [happ] at hi ⊢
    rw [hgood] at hi
    cases i with
    | zero =>
        have hpos : 0 < good (attempts did) := by omega
        obtain ⟨a, ha, hdone⟩ := good_pos hpos
        exact ⟨a, List.mem_append_left _ ha, hdone, ht.cmd a ha⟩
    | succ i =>
        obtain ⟨a, ha, hdone, hcmd⟩ := hr.each i (by omega)
        exact ⟨a, List.mem_append_right _ ha, hdone, hcmd.trans (hnext i)⟩

theorem sectorLoop_sweeps (pat : Nat → Nat → Outcome) {bp : Request} {N : Nat}
    (hdist : Distinct bp N) : ∀ (n k : Nat) (resid : DWord), k + n ≤ N →
      Sweeps bp n k resid
        (sectorLoop pat bp n k (bp.bno + int k) (bp.paddr + int (FD_SECSIZE * k)) resid)
  | 0, k, resid, _ => by
      refine ⟨by simp [sectorLoop, Answer.attempts], fun j => Nat.zero_le _, ?_, Nat.le_refl _, ?_, ?_, ?_⟩
      · exact (BitVec.sub_zero resid).symm
      · simp [sectorLoop, Answer.attempts]
      · simp [sectorLoop, Answer.attempts]
      · intro i hi
        cases hi
  | n + 1, k, resid, hN => by
      have ht : Tries (command bp k) 0 (tryLoop (pat k) (command bp k) 0) := tryLoop_tries _ _ _
      have hbno : bp.bno + int k + 1 = bp.bno + int (k + 1) := by
        rw [BitVec.add_assoc]
        exact congrArg (bp.bno + ·) (int_add k 1)
      have haddr : bp.paddr + int (FD_SECSIZE * k) + int FD_SECSIZE =
          bp.paddr + int (FD_SECSIZE * (k + 1)) := by
        rw [BitVec.add_assoc, int_add, Nat.mul_succ]
      have ih := sectorLoop_sweeps pat hdist n (k + 1) (resid - int FD_SECSIZE) (by omega)
      have hcmd : fdsector bp (bp.bno + int k) (bp.paddr + int (FD_SECSIZE * k)) = command bp k := rfl
      rw [sectorLoop, hcmd, hbno, haddr]
      by_cases hgt : FD_TRIES < (tryLoop (pat k) (command bp k) 0).1
      · rw [if_pos hgt]
        exact sweeps_stop ht (by omega)
      rw [if_neg hgt]
      by_cases heq : (tryLoop (pat k) (command bp k) 0).1 = FD_TRIES
      · rw [if_pos heq]
        exact sweeps_stop ht (by omega)
      rw [if_neg heq]
      exact sweeps_next hdist hN ht (by omega) ih

/-! ### Requests -/

/-- The block of sector `k`. -/
def Request.block (bp : Request) (k : Nat) : Nat := bp.bno.toNat + k

/-- Sector `k` of the request was read or written. -/
def Succeeded (bp : Request) (r : Answer) (k : Nat) : Prop :=
  ∃ a ∈ r.attempts, a.outcome = .done ∧ lba (fkind bp.minor) a.cmd.chs = bp.block k

/-- Some sector of the request, whole or not, was neither read nor written. -/
def Short (bp : Request) (r : Answer) : Prop :=
  ∃ k, FD_SECSIZE * k < bp.count.toNat ∧ ¬ Succeeded bp r k

/-- A command for sector `k` of a request: of a block of the format, and at its place in the
buffer. -/
structure For (bp : Request) (k : Nat) (c : Command) : Prop where
  write : c.write = decide (bp.req = .BWRITE)
  drive : c.drive = funit bp.minor
  lt : bp.block k < (fk (fkind bp.minor)).size
  within : c.chs.Within (fkind bp.minor)
  lba : lba (fkind bp.minor) c.chs = bp.block k
  addr : c.addr = bp.paddr + int (FD_SECSIZE * k)

/-- A request that was answered as it should be, where `Bad` is what makes it an error. -/
structure Handled (bp : Request) (r : Answer) (Bad : Prop) : Prop where
  commands : ∀ a ∈ r.attempts, ∃ k, For bp k a.cmd
  tries : ∀ b, r.attempts.countP (fun a => lba (fkind bp.minor) a.cmd.chs = b) ≤ FD_TRIES
  resid : r.resid.toNat + FD_SECSIZE * good r.attempts = bp.count.toNat
  bferr : r.bferr = true ↔ ¬ atEnd bp ∧ Bad

theorem secsize_toNat : (int FD_SECSIZE).toNat = FD_SECSIZE := rfl

/-- The sectors a request asks for, by its count. -/
def Request.sectors (bp : Request) : Nat := bp.count.toNat / FD_SECSIZE

theorem sectors_toNat (bp : Request) : (bp.count / int FD_SECSIZE).toNat = bp.sectors := by
  rw [BitVec.toNat_udiv, secsize_toNat, Request.sectors]

/-- What the checks let through: whole sectors, and where the sum of block and sectors does not
pass 2^32, inside the format. -/
theorem of_not_refuses {fdpresent : Bool} {bp : Request} (h : ¬ refuses fdpresent bp = true)
    (hsum : bp.block bp.sectors < 2 ^ 32) :
    bp.block bp.sectors ≤ (fk (fkind bp.minor)).size ∧
      bp.count.toNat = FD_SECSIZE * bp.sectors ∧ bp.count ≠ 0 := by
  simp only [refuses, decide_eq_true_eq, not_or, Decidable.not_not] at h
  obtain ⟨-, -, -, hsize, hmod, hzero⟩ := h
  have hsize' : (size bp).toNat = (fk (fkind bp.minor)).size := by
    have hsmall := (fk_small (fkind bp.minor)).2
    exact int_toNat (by omega)
  have hadd : (bp.bno + bp.count / int FD_SECSIZE).toNat = bp.block bp.sectors := by
    rw [BitVec.toNat_add, sectors_toNat]
    exact Nat.mod_eq_of_lt hsum
  have hle : (bp.bno + bp.count / int FD_SECSIZE).toNat ≤ (size bp).toNat := not_lt.mp hsize
  have hmod' : bp.count.toNat % FD_SECSIZE = 0 := by
    have heq := congrArg BitVec.toNat hmod
    rwa [BitVec.toNat_umod, secsize_toNat] at heq
  refine ⟨by omega, ?_, hzero⟩
  have hdiv := Nat.div_add_mod bp.count.toNat FD_SECSIZE
  rw [Request.sectors]
  omega

/-- The command of a sector is for it. -/
theorem command_for {bp : Request} {k : Nat} (h : bp.block k < (fk (fkind bp.minor)).size) :
    For bp k (command bp k) := by
  have hsmall := (fk_small (fkind bp.minor)).2
  have hbno : bp.block k = bp.bno.toNat + k := rfl
  have hint : (int k).toNat = k := int_toNat (by omega)
  have hadd : (bp.bno + int k).toNat = bp.block k := by
    rw [BitVec.toNat_add, hint]
    exact Nat.mod_eq_of_lt (by omega)
  have hlt : (bp.bno + int k).toNat < (fk (fkind bp.minor)).size := hadd ▸ h
  obtain ⟨hwithin, hlba⟩ := chs_spec hlt
  exact ⟨rfl, rfl, h, hwithin, hlba.trans hadd, rfl⟩

theorem distinct_of_le {bp : Request} {n : Nat} (h : bp.block n ≤ (fk (fkind bp.minor)).size) :
    Distinct bp n := by
  intro i hi j hj heq
  have hblock (k : Nat) : bp.block k = bp.bno.toNat + k := rfl
  have hi' := hblock i
  have hj' := hblock j
  have hn' := hblock n
  have hfori : For bp i (command bp i) := command_for (by omega)
  have hforj : For bp j (command bp j) := command_for (by omega)
  have hlba := hfori.lba
  rw [heq, hforj.lba] at hlba
  omega

theorem For.block_eq {bp : Request} {j k : Nat} {c : Command} (hj : For bp j c) (hk : For bp k c) :
    j = k :=
  Nat.add_left_cancel (hj.lba.symm.trans hk.lba)

/-- Requests the outer loop is run for. -/
theorem Sweeps.handled {bp : Request} {r : Answer} (h : Sweeps bp bp.sectors 0 bp.count r)
    (hle : bp.block bp.sectors ≤ (fk (fkind bp.minor)).size)
    (hcount : bp.count.toNat = FD_SECSIZE * bp.sectors) (hend : ¬ atEnd bp) :
    Handled bp r (Short bp r) := by
  have hfor {k : Nat} (hk : k < bp.sectors) : For bp k (command bp k) :=
    command_for (Nat.lt_of_lt_of_le (Nat.add_lt_add_left hk _) hle)
  have hcmds : ∀ a ∈ r.attempts, ∃ k < bp.sectors, a.cmd = command bp k ∧ For bp k a.cmd := by
    intro a ha
    obtain ⟨k, hk, hcmd⟩ := h.cmd a ha
    rw [Nat.zero_add] at hcmd
    exact ⟨k, hk, hcmd, hcmd ▸ hfor hk⟩
  have hgood := h.le
  have hsucc : ∀ k, Succeeded bp r k ↔ k < good r.attempts := by
    intro k
    constructor
    · rintro ⟨a, ha, hdone, hlba⟩
      obtain ⟨i, hi, hcmd⟩ := h.only a ha hdone
      rw [Nat.zero_add] at hcmd
      have hlba' := (hfor (Nat.lt_of_lt_of_le hi hgood)).lba
      rw [← hcmd, hlba] at hlba'
      exact (Nat.add_left_cancel hlba').symm ▸ hi
    · intro hk
      obtain ⟨a, ha, hdone, hcmd⟩ := h.each k hk
      rw [Nat.zero_add] at hcmd
      exact ⟨a, ha, hdone, hcmd ▸ (hfor (Nat.lt_of_lt_of_le hk hgood)).lba⟩
  refine ⟨fun a ha => ?_, fun b => ?_, ?_, ?_⟩
  · obtain ⟨k, -, -, hk⟩ := hcmds a ha
    exact ⟨k, hk⟩
  · -- the attempts at a block are the attempts at one sector
    refine le_trans (List.countP_mono_left fun a ha hb => ?_) (h.tries (b - bp.bno.toNat))
    obtain ⟨k, hk, hcmd, hfork⟩ := hcmds a ha
    have hlba : bp.block k = b := hfork.lba.symm.trans (of_decide_eq_true hb)
    have hkb : b - bp.bno.toNat = k := by
      rw [← hlba, Request.block, Nat.add_sub_cancel_left]
    exact decide_eq_true (hkb.symm ▸ hcmd)
  · have hmul : FD_SECSIZE * good r.attempts ≤ bp.count.toNat :=
      hcount ▸ Nat.mul_le_mul_left _ hgood
    have hint : (int (FD_SECSIZE * good r.attempts)).toNat = FD_SECSIZE * good r.attempts :=
      int_toNat (lt_of_le_of_lt hmul bp.count.isLt)
    rw [h.resid, BitVec.toNat_sub_of_le (by rw [BitVec.le_def, hint]; exact hmul), hint]
    omega
  · rw [h.bferr]
    constructor
    · intro hlt
      exact ⟨hend, good r.attempts, hcount ▸ Nat.mul_lt_mul_of_pos_left hlt (by decide),
        fun hs => Nat.lt_irrefl _ ((hsucc _).mp hs)⟩
    · rintro ⟨-, k, hk, hnot⟩
      have hk' : k < bp.sectors := Nat.lt_of_mul_lt_mul_left (hcount ▸ hk)
      exact Nat.lt_of_le_of_lt (not_lt.mp fun hlt => hnot ((hsucc k).mpr hlt)) hk'

/-- Requests that come back at once. -/
theorem handled_untouched {bp : Request} {b : Bool} {Bad : Prop} (h : b = true ↔ ¬ atEnd bp ∧ Bad) :
    Handled bp ⟨[], b, bp.count⟩ Bad :=
  ⟨fun _ ha => absurd ha List.not_mem_nil, fun _ => Nat.zero_le _, rfl, h⟩

/-- A request is answered as it should be, whatever the attempts come to, and an empty one is an
error like one that falls short. -/
theorem fdblock_handled (fdpresent : Bool) (pat : Nat → Nat → Outcome) (bp : Request)
    (hsum : bp.bno.toNat + bp.count.toNat / FD_SECSIZE < 2 ^ 32) :
    Set.BijOn (lba (fkind bp.minor)) {c | c.Within (fkind bp.minor)}
        {b | b < (fk (fkind bp.minor)).size} ∧
      Handled bp (fdblock fdpresent pat bp)
        (bp.count = 0 ∨ Short bp (fdblock fdpresent pat bp)) := by
  refine ⟨lba_bijOn _, ?_⟩
  rw [fdblock]
  by_cases hend : atEnd bp
  · rw [if_pos hend]
    exact handled_untouched ⟨fun hf => (by cases hf), fun h => absurd hend h.1⟩
  rw [if_neg hend]
  by_cases href : refuses fdpresent bp = true
  · rw [if_pos href]
    refine handled_untouched (iff_of_true rfl ⟨hend, ?_⟩)
    by_cases hzero : bp.count = 0
    · exact .inl hzero
    · refine .inr ⟨0, Nat.pos_of_ne_zero fun h0 => hzero (BitVec.eq_of_toNat_eq h0), ?_⟩
      rintro ⟨a, ha, -⟩
      exact List.not_mem_nil ha
  · rw [if_neg href]
    obtain ⟨hle, hcount, hne⟩ := of_not_refuses href hsum
    have hdist : Distinct bp bp.sectors := distinct_of_le hle
    have hsweeps := sectorLoop_sweeps pat hdist bp.sectors 0 bp.count (Nat.zero_add _).le
    have hbno : bp.bno + int 0 = bp.bno := BitVec.add_zero _
    have haddr : bp.paddr + int (FD_SECSIZE * 0) = bp.paddr := BitVec.add_zero _
    rw [hbno, haddr] at hsweeps
    rw [sectors_toNat]
    have hhandled := hsweeps.handled hle hcount hend
    exact { hhandled with bferr := by rw [or_iff_right hne]; exact hhandled.bferr }

/-- A read of two sectors from block 5 of a 1.44M diskette. -/
def someRead : Request := { minor := 0x0F, req := .BREAD, bno := 5, count := 1024, paddr := 0x1000 }

theorem fdblock_handled_someRead :
    someRead.bno.toNat + someRead.count.toNat / FD_SECSIZE < 2 ^ 32 ∧
      Handled someRead (fdblock true (fun _ _ => .done) someRead)
        (someRead.count = 0 ∨ Short someRead (fdblock true (fun _ _ => .done) someRead)) :=
  ⟨by decide, (fdblock_handled true (fun _ _ => .done) someRead (by decide)).2⟩

/-- A read of nothing is refused with `BFERR`, though no sector of it is left out. -/
def emptyRead : Request := { minor := 0x0F, req := .BREAD, bno := 0, count := 0, paddr := 0 }

theorem fdblock_empty (pat : Nat → Nat → Outcome) :
    fdblock true pat emptyRead = ⟨[], true, 0⟩ := by
  have hend : ¬ atEnd emptyRead := by decide
  have href : refuses true emptyRead = true := by decide
  rw [fdblock, if_neg hend, if_pos href]
  rfl

theorem fdblock_empty_bferr :
    ¬ ∀ (fdpresent : Bool) (pat : Nat → Nat → Outcome) (bp : Request),
      Handled bp (fdblock fdpresent pat bp) (Short bp (fdblock fdpresent pat bp)) := by
  intro h
  have hempty := h true (fun _ _ => .done) emptyRead
  rw [fdblock_empty] at hempty
  obtain ⟨-, k, hk, -⟩ := hempty.bferr.mp rfl
  exact absurd hk (Nat.not_lt_zero _)

/-- The sum of block and sectors can pass 2^32, and then the checks let the request through. -/
example : refuses true { someRead with bno := 0xFFFFFFFF, count := 512 } = false ∧
    (chs 7 0xFFFFFFFF).sec = 0 := by
  decide

/-! ### The driver on its card

A run of `SbcFd.fdblock` is one of the patterns: what each attempt came to is read off the run,
the attempts never made being anything. -/

/-- What the outer loop makes of `try`. -/
def tried (tr : Nat) : Tried :=
  if FD_TRIES < tr then .writeProtected else if tr = FD_TRIES then .gaveUp else .done

/-- The inner loop looks at no attempt before its own. -/
theorem tryLoop_congr {pat pat' : Nat → Outcome} {cmd : Command} {tr : Nat}
    (h : ∀ t, tr ≤ t → pat t = pat' t) : tryLoop pat cmd tr = tryLoop pat' cmd tr := by
  fun_induction tryLoop pat cmd tr with
  | case1 tr hlt hpat | case2 tr hlt hpat =>
      rw [tryLoop, if_pos hlt, ← h tr (Nat.le_refl tr), hpat]
  | case3 tr hlt hpat r ih =>
      have hr : r = tryLoop pat' cmd (tr + 1) := ih fun t ht => h t (Nat.le_of_succ_le ht)
      rw [tryLoop, if_pos hlt, ← h tr (Nat.le_refl tr), hpat, hr]
  | case4 tr hlt => rw [tryLoop, if_neg hlt]

theorem tryLoop_cons {pat : Nat → Outcome} {cmd : Command} {tr : Nat} {o : Outcome}
    (hlt : tr < FD_TRIES) : (tryLoop (Function.update pat tr o) cmd tr).1 =
      match o with
      | .done => tr
      | .notWritable => FD_TRIES + 1
      | .failed => (tryLoop pat cmd (tr + 1)).1 := by
  rw [tryLoop, if_pos hlt, Function.update_self]
  cases o with
  | done | notWritable => rfl
  | failed =>
      have hlater : tryLoop (Function.update pat tr .failed) cmd (tr + 1) = tryLoop pat cmd (tr + 1) :=
        tryLoop_congr fun t ht => Function.update_of_ne (by omega) _ _
      change (tryLoop (Function.update pat tr .failed) cmd (tr + 1)).1 = _
      rw [hlater]

theorem fdtry_pattern {fuel : Nat} {write : Bool} {drive : Fin 2} {kind : Fin 8} {bno addr : Nat} :
    ∀ {n : Nat} {t u : Host Statics} {r : Tried}, n ≤ FD_TRIES →
      Prog.Runs (fdtry fuel write drive kind bno addr n) t r u →
        ∃ pat, ∀ cmd, tried (tryLoop pat cmd (FD_TRIES - n)).1 = r
  | 0, t, u, r, _, hrun => by
      obtain ⟨rfl, -⟩ := Prog.runs_pure.mp hrun
      exact ⟨fun _ => .failed, fun cmd => by rw [tryLoop]; rfl⟩
  | n + 1, t, u, r, hn, hrun => by
      have hlt : FD_TRIES - (n + 1) < FD_TRIES := Nat.sub_lt (by decide) (Nat.succ_pos n)
      have hsucc : FD_TRIES - (n + 1) + 1 = FD_TRIES - n := by omega
      rw [fdtry] at hrun
      obtain ⟨ok, t₁, -, hrun⟩ := Prog.runs_bind.mp hrun
      rcases Prog.runs_ite.mp hrun with ⟨-, hdone⟩ | ⟨-, hrun⟩
      · obtain ⟨rfl, -⟩ := Prog.runs_pure.mp hdone
        refine ⟨Function.update (fun _ => .failed) (FD_TRIES - (n + 1)) .done, fun cmd => ?_⟩
        rw [tryLoop_cons hlt, tried, if_neg (Nat.lt_asymm hlt), if_neg (Nat.ne_of_lt hlt)]
      -- the attempt failed: write protected, or one of those after it decides
      have hlater {t u : Host Statics}
          (hrun : Prog.Runs (fdtry fuel write drive kind bno addr n) t r u) :
          ∃ pat, ∀ cmd, tried (tryLoop pat cmd (FD_TRIES - (n + 1))).1 = r := by
        obtain ⟨pat, hpat⟩ := fdtry_pattern (Nat.le_of_succ_le hn) hrun
        refine ⟨Function.update pat (FD_TRIES - (n + 1)) .failed, fun cmd => ?_⟩
        rw [tryLoop_cons hlt, hsucc]
        exact hpat cmd
      obtain ⟨s, t₂, -, hrun⟩ := Prog.runs_bind.mp hrun
      rcases Prog.runs_ite.mp hrun with ⟨-, hnw⟩ | ⟨-, hrun⟩
      · obtain ⟨rfl, -⟩ := Prog.runs_pure.mp hnw
        refine ⟨Function.update (fun _ => .failed) (FD_TRIES - (n + 1)) .notWritable, fun cmd => ?_⟩
        rw [tryLoop_cons hlt]
        rfl
      rcases Prog.runs_ite.mp hrun with ⟨-, hrun⟩ | ⟨-, hrun⟩
      · obtain ⟨_, t₃, -, hrun⟩ := Prog.runs_bind.mp hrun
        exact hlater hrun
      · exact hlater hrun

/-- The outer loop looks at no sector before its own. -/
theorem sectorLoop_congr {pat pat' : Nat → Nat → Outcome} {bp : Request} :
    ∀ {n k : Nat} {bno addr resid : DWord}, (∀ j, k ≤ j → pat j = pat' j) →
      sectorLoop pat bp n k bno addr resid = sectorLoop pat' bp n k bno addr resid
  | 0, _, _, _, _, _ => rfl
  | n + 1, k, bno, addr, resid, h => by
      rw [sectorLoop, sectorLoop, h k (Nat.le_refl k),
        sectorLoop_congr (n := n) fun j hj => h j (Nat.le_of_succ_le hj)]

/-- The answer the outer loop comes to, without what was done. -/
def Answers (resid : DWord) (r : Bool × Nat) (a : Answer) : Prop :=
  a.bferr = !r.1 ∧ a.resid = resid - int (FD_SECSIZE * r.2)

theorem sectorLoop_stop {pat : Nat → Nat → Outcome} {bp : Request} {n k : Nat}
    {bno addr resid : DWord} (h : tried (tryLoop (pat k) (fdsector bp bno addr) 0).1 ≠ .done) :
    Answers resid (false, 0) (sectorLoop pat bp (n + 1) k bno addr resid) := by
  have hzero : resid = resid - int (FD_SECSIZE * 0) := (BitVec.sub_zero resid).symm
  rw [sectorLoop]
  unfold tried at h
  by_cases hgt : FD_TRIES < (tryLoop (pat k) (fdsector bp bno addr) 0).1
  · rw [if_pos hgt]
    exact ⟨rfl, hzero⟩
  rw [if_neg hgt] at h ⊢
  by_cases heq : (tryLoop (pat k) (fdsector bp bno addr) 0).1 = FD_TRIES
  · rw [if_pos heq]
    exact ⟨rfl, hzero⟩
  · rw [if_neg heq] at h
    exact absurd rfl h

theorem sectorLoop_next {pat : Nat → Nat → Outcome} {bp : Request} {n k : Nat}
    {bno addr resid : DWord} {r : Bool × Nat}
    (h : tried (tryLoop (pat k) (fdsector bp bno addr) 0).1 = .done)
    (hr : Answers (resid - int FD_SECSIZE) r (sectorLoop pat bp n (k + 1) (bno + 1)
      (addr + int FD_SECSIZE) (resid - int FD_SECSIZE))) :
    Answers resid (r.1, r.2 + 1) (sectorLoop pat bp (n + 1) k bno addr resid) := by
  rw [sectorLoop]
  unfold tried at h
  by_cases hgt : FD_TRIES < (tryLoop (pat k) (fdsector bp bno addr) 0).1
  · rw [if_pos hgt] at h
    cases h
  rw [if_neg hgt] at h ⊢
  by_cases heq : (tryLoop (pat k) (fdsector bp bno addr) 0).1 = FD_TRIES
  · rw [if_pos heq] at h
    cases h
  rw [if_neg heq]
  refine ⟨hr.1, ?_⟩
  rw [Nat.mul_succ, Nat.add_comm (FD_SECSIZE * r.2), ← int_add, ← BitVec.sub_sub]
  exact hr.2

theorem fdsectors_pattern {fuel : Nat} {write : Bool} {drive : Fin 2} {kind : Fin 8}
    {bp : Request} : ∀ {n b a : Nat} {t u : Host Statics} {r : Bool × Nat} (k : Nat),
      Prog.Runs (fdsectors fuel write drive kind n b a) t r u →
        r.2 ≤ n ∧ ∃ pat, ∀ bno addr resid, Answers resid r (sectorLoop pat bp n k bno addr resid)
  | 0, _, _, t, u, r, k, hrun => by
      obtain ⟨rfl, -⟩ := Prog.runs_pure.mp hrun
      exact ⟨Nat.le_refl 0, fun _ _ => .failed, fun _ _ resid => ⟨rfl, (BitVec.sub_zero resid).symm⟩⟩
  | n + 1, b, a, t, u, r, k, hrun => by
      rw [fdsectors] at hrun
      obtain ⟨r₁, t₁, htry, hrun⟩ := Prog.runs_bind.mp hrun
      obtain ⟨p, hp⟩ : ∃ p, ∀ cmd, tried (tryLoop p cmd 0).1 = r₁ :=
        fdtry_pattern (Nat.le_refl FD_TRIES) htry
      cases r₁ with
      | writeProtected | gaveUp =>
          obtain ⟨rfl, -⟩ := Prog.runs_pure.mp hrun
          refine ⟨Nat.zero_le _, fun _ => p, fun bno addr resid => sectorLoop_stop ?_⟩
          rw [hp]
          decide
      | done =>
          obtain ⟨r₂, t₂, hrest, hrun⟩ := Prog.runs_bind.mp hrun
          obtain ⟨rfl, -⟩ := Prog.runs_pure.mp hrun
          obtain ⟨hle, pat, hpat⟩ := fdsectors_pattern (k + 1) hrest
          refine ⟨Nat.succ_le_succ hle, Function.update pat k p, fun bno addr resid => ?_⟩
          refine sectorLoop_next ?_ ?_
          · rw [Function.update_self]
            exact hp _
          · rw [sectorLoop_congr fun j hj => Function.update_of_ne (by omega) p pat]
            exact hpat _ _ _

/-- The buffer `SbcFd` is given for a request. -/
def Request.buf (bp : Request) : Buf where
  minor := bp.minor
  req := bp.req
  bno := bp.bno.toNat
  count := bp.count.toNat
  paddr := bp.paddr.toNat

theorem atEnd_iff (bp : Request) :
    atEnd bp ↔ bp.buf.req = .BREAD ∧ bp.buf.bno = (fk (fkind bp.buf.minor)).size := by
  have hsmall := (fk_small (fkind bp.minor)).2
  have hsize : (size bp).toNat = (fk (fkind bp.minor)).size := int_toNat (by omega)
  exact and_congr_right fun _ => ⟨fun h => (congrArg BitVec.toNat h).trans hsize,
    fun h => BitVec.eq_of_toNat_eq (h.trans hsize.symm)⟩

theorem refuses_eq {s : Statics} {bp : Request} (hsum : bp.block bp.sectors < 2 ^ 32) :
    refuses s.fdpresent bp = fdrefuses s bp.buf := by
  have hsmall := (fk_small (fkind bp.minor)).2
  have hsize : (size bp).toNat = (fk (fkind bp.minor)).size := int_toNat (by omega)
  have hadd : (bp.bno + bp.count / int FD_SECSIZE).toNat = bp.block bp.sectors := by
    rw [BitVec.toNat_add, sectors_toNat]
    exact Nat.mod_eq_of_lt hsum
  have hlt : size bp < bp.bno + bp.count / int FD_SECSIZE ↔
      (fk (fkind bp.minor)).size < bp.bno.toNat + bp.count.toNat / FD_SECSIZE := by
    rw [BitVec.lt_def, hsize, hadd]
    rfl
  have hmod : bp.count % int FD_SECSIZE ≠ 0 ↔ bp.count.toNat % FD_SECSIZE ≠ 0 := by
    rw [ne_eq, ne_eq, ← BitVec.toNat_inj, BitVec.toNat_umod, secsize_toNat]
    rfl
  have hzero : bp.count = 0 ↔ bp.count.toNat = 0 := by
    rw [← BitVec.toNat_inj]
    rfl
  unfold refuses fdrefuses
  simp only [hlt, hmod, hzero]
  rfl

/-- Where block and sectors do not add up past 2^32, the driver's run on its card comes back as
`fdblock` does for one of the patterns. -/
theorem fdblock_pattern {fuel : Nat} {bp : Request} {t u : Host Statics} {b : Bdone}
    (hsum : bp.bno.toNat + bp.count.toNat / FD_SECSIZE < 2 ^ 32)
    (hrun : Prog.Runs (SbcFd.fdblock fuel bp.buf) t b u) :
    ∃ pat, b = ⟨(fdblock t.vars.fdpresent pat bp).bferr,
      (fdblock t.vars.fdpresent pat bp).resid.toNat⟩ := by
  rw [SbcFd.fdblock] at hrun
  rcases Prog.runs_ite.mp hrun with ⟨hend, hpure⟩ | ⟨hend, hrun⟩
  · obtain ⟨rfl, -⟩ := Prog.runs_pure.mp hpure
    exact ⟨fun _ _ => .failed, by rw [fdblock, if_pos ((atEnd_iff bp).mpr hend)]; rfl⟩
  have hend' : ¬ atEnd bp := fun h => hend ((atEnd_iff bp).mp h)
  obtain ⟨s, t₁, hget, hrun⟩ := Prog.runs_bind.mp hrun
  obtain ⟨rfl, rfl⟩ := runs_getVars.mp hget
  have href := refuses_eq (s := t₁.vars) hsum
  rcases Prog.runs_ite.mp hrun with ⟨hyes, hpure⟩ | ⟨hno, hrun⟩
  · obtain ⟨rfl, -⟩ := Prog.runs_pure.mp hpure
    refine ⟨fun _ _ => .failed, ?_⟩
    rw [fdblock, if_neg hend', if_pos (href.trans hyes)]
    rfl
  · have hno' : ¬ refuses t₁.vars.fdpresent bp = true := fun h => hno (href.symm.trans h)
    obtain ⟨r, t₂, hsectors, hpure⟩ := Prog.runs_bind.mp hrun
    obtain ⟨rfl, -⟩ := Prog.runs_pure.mp hpure
    obtain ⟨hle, pat, hpat⟩ := @fdsectors_pattern _ _ _ _ bp _ _ _ _ _ _ 0 hsectors
    have hn : bp.buf.count / FD_SECSIZE = bp.sectors := rfl
    rw [hn] at hle hpat
    obtain ⟨hbferr, hresid⟩ := hpat bp.bno bp.paddr bp.count
    have hcount := (of_not_refuses hno' hsum).2.1
    have hmul : FD_SECSIZE * r.2 ≤ bp.count.toNat := hcount ▸ Nat.mul_le_mul_left _ hle
    have hint : (int (FD_SECSIZE * r.2)).toNat = FD_SECSIZE * r.2 :=
      int_toNat (lt_of_le_of_lt hmul bp.count.isLt)
    refine ⟨pat, ?_⟩
    rw [fdblock, if_neg hend', if_neg hno', sectors_toNat]
    rw [hbferr, hresid, BitVec.toNat_sub_of_le (by rw [BitVec.le_def, hint]; exact hmul), hint]
    rfl

end Sbc386Ex.Fdc.FdBlock

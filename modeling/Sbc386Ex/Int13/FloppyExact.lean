import Sbc386Ex.Int13.FloppyRun

/-!
# Sbc386Ex.Int13.FloppyExact

The call as a whole. Everything functions 02h, 03h and 04h promise holds of every call,
except where the buffer goes: `stosb` and `lodsb` wrap the offset inside its segment and
the carry into `ES` is lost past `FFFFh`, so a read or a write is exact just when the
buffer is straight over the sectors done.
-/

namespace Sbc386Ex.Int13

open Ide

/-! ### The data phase -/

theorem bufferByte_succ (seg off : Word) (i : Nat) :
    bufferByte seg (off + 1) i = bufferByte seg off (i + 1) := by
  rw [bufferByte, bufferByte, BitVec.add_assoc, Nat.add_comm i 1, BitVec.ofNat_add]
  rfl

theorem getElem?_fdcPioIn (es : Word) (given : Nat → Byte) :
    ∀ {n i j : Nat} {di : Word}, j < n →
      (fdcPioIn es given n i di)[j]? = some (bufferByte es di j, given (i + j)) := by
  intro n
  induction n with
  | zero => intro i j di hj; cases hj
  | succ n ih =>
      intro i j di hj
      cases j with
      | zero => simp [fdcPioIn, bufferByte]
      | succ j =>
          rw [fdcPioIn, List.getElem?_cons_succ, ih (by omega), bufferByte_succ, Nat.add_assoc,
            Nat.add_comm 1 j]

theorem getElem?_fdcPioOut (ds : Word) (mem : Mem) :
    ∀ {n j : Nat} {si : Word}, j < n →
      (fdcPioOut ds mem n si)[j]? = some (bufferByte ds si j, mem (bufferByte ds si j)) := by
  intro n
  induction n with
  | zero => intro j si hj; cases hj
  | succ n ih =>
      intro j si hj
      cases j with
      | zero => simp [fdcPioOut, bufferByte]
      | succ j => rw [fdcPioOut, List.getElem?_cons_succ, ih (by omega), bufferByte_succ]

theorem length_fdcPioIn (es : Word) (given : Nat → Byte) :
    ∀ (n i : Nat) (di : Word), (fdcPioIn es given n i di).length = n := by
  intro n
  induction n with
  | zero => intro i di; rfl
  | succ n ih => intro i di; rw [fdcPioIn, List.length_cons, ih]

/-- Stores leave what they do not name alone. -/
theorem stores_of_forall_ne {a : Nat} :
    ∀ {l : List (Nat × Byte)} {mem : Mem}, (∀ e ∈ l, e.1 ≠ a) → stores l mem a = mem a := by
  intro l
  induction l with
  | nil => intro mem _; rfl
  | cons e l ih =>
      intro mem h
      obtain ⟨hhead, htail⟩ := List.forall_mem_cons.mp h
      have hrest : stores l (Function.update mem e.1 e.2) a = Function.update mem e.1 e.2 a := ih htail
      rw [Function.update_of_ne hhead.symm] at hrest
      exact hrest

/-! ### The law -/

/-- `_SecBuffer`, a sector long. -/
def InSecBuffer (a : Nat) : Prop :=
  linear secBufferSeg secBufferOff ≤ a ∧ a < linear secBufferSeg secBufferOff + 512

section Law

variable (g : FdGeom) (ty : Byte) (rw : Nat → FdEnd) (r : Regs) (mem : Mem)

/-- The sectors from the address in the frame to the end of the disk. -/
def FdGeom.room : Nat := g.total - g.lba r

/-- The address byte `i` of sector `k` belongs at. -/
def namedByte (k i : Nat) : Nat := 16 * r.es.toNat + r.bx.toNat + 512 * k + i

/-- What a call to read, write or verify promises. -/
structure FdExact (out : FdOutcome) : Prop where
  /-- consecutive logical sectors, up to the first failure or the end of the disk -/
  visited : out.work.calls = (List.range (tries rw (g.room r) r.al.toNat)).map fun k =>
    g.call (r.ah = 3) ty r.dl (g.lba r + k)
  al : out.regs.al.toNat = done rw (g.room r) r.al.toNat
  ah : out.regs.ah = status rw (g.room r) r.al.toNat ∧ out.fdStatus = out.regs.ah
  cf : out.regs.cf = true ↔ out.regs.ah ≠ NO_ERROR
  kept : out.regs = { r with al := out.regs.al, ah := out.regs.ah, cf := out.regs.cf }
  named : r.ah ≠ 4 → ∀ k < done rw (g.room r) r.al.toNat, ∀ i < 512,
    (out.work.moved.getD k [])[i]? = some (namedByte r k i,
      if r.ah = 3 then mem (namedByte r k i) else (rw k).given i)
  /-- memory is what the bytes moved made of it -/
  memory : out.work.mem = if r.ah = 3 then mem else stores out.work.moved.flatten mem
  verify : r.ah = 4 → ∀ a, ¬ InSecBuffer a → out.work.mem a = mem a

variable {g ty rw r mem} {floppyTab : Byte → Byte}

/-- The frame `rw_common` works in: a verify reads to the scratch buffer. -/
def frame40 (r : Regs) : Regs :=
  if r.ah = 4 then { r with bx := secBufferOff, es := secBufferSeg } else r

theorem cursor_zero (hg : g.Usable) (hv : g.Valid r) : cursor g (g.lba r) (frame40 r) 0 = frame40 r := by
  have hseek := (hv.seek_lba hg).1
  have hv' : g.seek (g.lba r) (frame40 r) = frame40 r := by
    rw [frame40]
    split_ifs
    · rw [Regs.mk.injEq] at hseek
      simpa [FdGeom.seek] using hseek
    · exact hseek
  exact hv'

variable (rw mem) in
/-- How `rw_common` returns from a valid address on a configured drive. -/
theorem rwCommon40_ended (write : Bool) (ht : fdType floppyTab r.dl = some (ty, g)) (hv : g.Valid r) :
    ∃ out : Byte × Work,
      Ended g ty rw write (g.lba r) (frame40 r) mem (g.room r) r.al.toNat out ∧
        rwCommon40 floppyTab rw write r mem = .ret r (out.2.dx.setWidth 8) out.1 out.2 := by
  have hg := fdType_usable ht
  have hin := (hv.seek_lba hg).2
  have hdl : (frame40 r).dl = r.dl := by
    rw [frame40]
    split_ifs <;> rfl
  have hroom : g.lba r + g.room r = g.total := by
    rw [FdGeom.room]
    omega
  have hstart : stage g ty rw write (g.lba r) (frame40 r) mem 0 = ⟨frame40 r, 0, [], [], mem⟩ := by
    rw [stage, cursor_zero hg hv]
    simp [stores]
  have hended : Ended g ty rw write (g.lba r) (frame40 r) mem (g.room r) r.al.toNat
      (rwLoop floppyTab rw write ty r.al.toNat (stage g ty rw write (g.lba r) (frame40 r) mem 0)) :=
    rwLoop_ended (hdl.symm ▸ ht) hroom (k := 0) (Nat.zero_add _) (Or.inl (by omega))
      fun j hj => absurd hj (Nat.not_lt_zero j)
  rw [hstart] at hended
  refine ⟨_, hended, ?_⟩
  rw [rwCommon40, ht]
  rfl

theorem done_le {room count : Nat} : done rw room count ≤ min count room := leading_le

theorem done_le_tries {room count : Nat} : done rw room count ≤ tries rw room count := by
  rw [tries]
  split <;> omega

/-- Where a call leaves byte `i` of sector `k`: at the address the buffer stepped to. -/
theorem Ended.named {write : Bool} {L room count : Nat} {out : Byte × Work}
    (h : Ended g ty rw write L r mem room count out) {k i : Nat} (hk : k < done rw room count)
    (hi : i < 512) :
    let b := bufferAt (r.ah = 4) r.es r.bx k
    (out.2.moved.getD k [])[i]? = some (bufferByte b.1 b.2 i,
      if write then mem (bufferByte b.1 b.2 i) else (rw k).given i) := by
  intro b
  have hkt := Nat.lt_of_lt_of_le hk done_le_tries
  have hok : (rw k).rc = NO_ERROR := of_decide_eq_true (leading_ok hk)
  have hfull := (rw k).full hok
  have hchunk : out.2.moved.getD k [] = movedAt rw write r mem k := by
    rw [h.moved, List.getD_eq_getElem?_getD]
    simp [stage, hkt]
  rw [hchunk, movedAt]
  cases write with
  | true => simp only [if_true]; exact getElem?_fdcPioOut _ _ (by omega)
  | false =>
      have hbyte : (fdcPioIn b.1 (rw k).given (rw k).moved 0 b.2)[i]? =
          some (bufferByte b.1 b.2 i, (rw k).given (0 + i)) := getElem?_fdcPioIn _ _ (by omega)
      rw [Nat.zero_add] at hbyte
      exact hbyte

/-- A verify reads nowhere but the scratch buffer. -/
theorem mem_movedAt_verify (hah : r.ah = 4) {k : Nat} {e : Nat × Byte}
    (he : e ∈ movedAt rw false (frame40 r) mem k) : InSecBuffer e.1 := by
  have hframe : frame40 r = { r with bx := secBufferOff, es := secBufferSeg } := if_pos hah
  have hstay : ∀ j, bufferAt true secBufferSeg secBufferOff j = (secBufferSeg, secBufferOff) := by
    intro j
    induction j with
    | zero => rfl
    | succ j ih => exact ih
  simp only [movedAt, hframe, hah, decide_true, hstay] at he
  obtain ⟨i, hi⟩ := List.mem_iff_getElem?.mp he
  have hlen := (List.getElem?_eq_some_iff.mp hi).1
  have hfew := (rw k).few
  rw [if_neg Bool.false_ne_true] at hlen hi
  rw [length_fdcPioIn] at hlen
  rw [getElem?_fdcPioIn _ _ hlen] at hi
  obtain rfl := Option.some.inj hi
  have hoff : (0x8000 : Word).toNat = 32768 := rfl
  simp only [InSecBuffer, bufferByte, linear, secBufferSeg, secBufferOff, BitVec.toNat_add,
    BitVec.toNat_ofNat, hoff]
  omega

/-- All that is promised but the addresses holds of every call. -/
theorem exact_of_named {w : Bool} (hw : w = true ↔ r.ah = 3) {out : Byte × Work}
    (h : Ended g ty rw w (g.lba r) (frame40 r) mem (g.room r) r.al.toNat out)
    (hnamed : r.ah ≠ 4 → ∀ k < done rw (g.room r) r.al.toNat, ∀ i < 512,
      (out.2.moved.getD k [])[i]? = some (namedByte r k i,
        if r.ah = 3 then mem (namedByte r k i) else (rw k).given i)) :
    FdExact g ty rw r mem (.ret r (out.2.dx.setWidth 8) out.1 out.2) := by
  have hw' : w = decide (r.ah = 3) := by
    rw [Bool.eq_iff_iff, hw, decide_eq_true_iff]
  have hdl : (frame40 r).dl = r.dl := by
    rw [frame40]
    split_ifs <;> rfl
  have hmem : out.2.mem = if r.ah = 3 then mem else stores out.2.moved.flatten mem := by
    rw [h.mem, h.moved, stage]
    simp only [hw, List.flatMap_def]
  refine ⟨?_, ?_, ⟨h.status, rfl⟩, decide_eq_true_iff, rfl, hnamed, hmem, ?_⟩
  · have hcalls := h.calls
    rw [stage, hw', hdl] at hcalls
    exact hcalls
  · have hle : done rw (g.room r) r.al.toNat ≤ min r.al.toNat (g.room r) := done_le
    have hal := r.al.isLt
    have hdx := congrArg (fun v : Word => (v.setWidth 8).toNat) h.dx
    simp only [BitVec.toNat_setWidth, BitVec.toNat_ofNat] at hdx
    show (out.2.dx.setWidth 8).toNat = _
    rw [BitVec.toNat_setWidth, hdx]
    omega
  · intro hah a ha
    have hread : r.ah ≠ 3 := by
      rw [hah]
      decide
    have hfalse : w = false := by
      rw [hw']
      exact decide_eq_false hread
    show out.2.mem a = mem a
    rw [hmem, if_neg hread, h.moved, stage, hfalse]
    refine stores_of_forall_ne ?_
    intro e he hea
    obtain ⟨chunk, hchunk, he⟩ := List.mem_flatten.mp he
    obtain ⟨k, -, rfl⟩ := List.mem_map.mp hchunk
    exact ha (hea ▸ mem_movedAt_verify hah he)

/-- The addresses are right just where the buffer is straight. -/
theorem exact_iff_of_ended {w : Bool} (hw : w = true ↔ r.ah = 3) {out : Byte × Work}
    (h : Ended g ty rw w (g.lba r) (frame40 r) mem (g.room r) r.al.toNat out) :
    FdExact g ty rw r mem (.ret r (out.2.dx.setWidth 8) out.1 out.2) ↔
      r.ah = 4 ∨ Straight r.es r.bx (done rw (g.room r) r.al.toNat) := by
  by_cases hah : r.ah = 4
  · exact ⟨fun _ => Or.inl hah, fun _ => exact_of_named hw h (absurd hah)⟩
  have hframe : frame40 r = r := if_neg hah
  have hstepped : ∀ k < done rw (g.room r) r.al.toNat, ∀ i < 512,
      let b := bufferAt false r.es r.bx k
      (out.2.moved.getD k [])[i]? = some (bufferByte b.1 b.2 i,
        if r.ah = 3 then mem (bufferByte b.1 b.2 i) else (rw k).given i) := by
    intro k hk i hi
    have hat := h.named hk hi
    rw [hframe] at hat
    simp only [hah, decide_false, hw] at hat
    exact hat
  rw [← straight_iff]
  constructor
  · intro hexact
    refine Or.inr ?_
    intro k hk i hi
    have hboth := (hstepped k hk i hi).symm.trans (hexact.named hah k hk i hi)
    exact congrArg Prod.fst (Option.some.inj hboth)
  · intro hor
    have hstraight := hor.resolve_left hah
    refine exact_of_named hw h ?_
    intro _ k hk i hi
    have hat := hstepped k hk i hi
    simp only [hstraight k hk i hi] at hat
    exact hat

end Law

/-! ### Two 1.44M drives -/

def benchTypes (_ : Byte) : Byte := 4

/-- A call that moves its sector. -/
def benchEnd : FdEnd := ⟨NO_ERROR, 512, fun _ => 0xE5, Nat.le_refl _, fun _ => rfl⟩

/-- A read of `al` sectors from the last of a track. -/
def floppyRegs (al : Byte) (es bx : Word) : Regs := ⟨2, al, bx, 0, 18, 0, 1, es, false⟩

theorem floppyRegs_valid (al : Byte) (es bx : Word) :
    (⟨80, 2, 18⟩ : FdGeom).Valid (floppyRegs al es bx) where
  cyl := (by decide : (cylinder 0 18).toNat < 80)
  head := (by decide : (0 : Byte).toNat < 2)
  first := (by decide : 0 < ((18 : Byte) &&& 0x3F).toNat)
  last := (by decide : ((18 : Byte) &&& 0x3F).toNat ≤ 18)

theorem benchTypes_row : fdType benchTypes 1 = some (4, ⟨80, 2, 18⟩) := by decide

end Sbc386Ex.Int13

import Sbc386Ex.Int13.Floppy
import Sbc386Ex.Lib.Leading

/-!
# Sbc386Ex.Int13.FloppyRun

What a diskette transfer does, at whichever sector `fd_rw` first fails. `stage k` is the
state before the call for sector `k`; one round of the loop goes from a stage to the next
or ends, so a run ends where the calls stop succeeding, the count runs out or the disk
does.
-/

namespace Sbc386Ex.Int13

theorem bufferAt_succ (verify : Bool) (seg off : Word) (k : Nat) :
    bufferAt verify seg off (k + 1) =
      nextBuffer verify (bufferAt verify seg off k).1 (bufferAt verify seg off k).2 := by
  induction k generalizing seg off with
  | zero => rfl
  | succ k ih => rw [bufferAt, ih, bufferAt]

/-- `fd_rw`'s arguments for logical sector `n`. -/
def FdGeom.call (g : FdGeom) (write : Bool) (ty dl : Byte) (n : Nat) : FdCall where
  write := write
  drive := dl &&& 1
  fdtype := ty
  cyl := BitVec.ofNat 16 (g.cylOf n)
  head := BitVec.ofNat 8 (g.headOf n)
  sec := BitVec.ofNat 8 (g.secOf n)

section Run

variable (g : FdGeom) (ty : Byte) (rw : Nat → FdEnd) (write : Bool) (L : Nat) (r : Regs) (mem : Mem)

/-- The frame at the `k`-th sector from `L`. -/
def cursor (k : Nat) : Regs :=
  let b := bufferAt (r.ah = 4) r.es r.bx k
  g.seek (L + k) { r with es := b.1, bx := b.2 }

/-- What the `k`-th call moves. -/
def movedAt (k : Nat) : List (Nat × Byte) :=
  let b := bufferAt (r.ah = 4) r.es r.bx k
  if write then fdcPioOut b.1 mem (rw k).moved b.2 else fdcPioIn b.1 (rw k).given (rw k).moved 0 b.2

/-- The run before the call for the `k`-th sector. -/
def stage (k : Nat) : Work where
  regs := cursor g L r k
  dx := BitVec.ofNat 16 k
  calls := (List.range k).map fun j => g.call write ty r.dl (L + j)
  moved := (List.range k).map (movedAt rw write r mem)
  mem := if write then mem else stores ((List.range k).flatMap (movedAt rw write r mem)) mem

/-- The sectors done of `count`, and the calls made for them. -/
def done (room count : Nat) : Nat := leading (fun k => (rw k).rc = NO_ERROR) (min count room)

def tries (room count : Nat) : Nat :=
  if done rw room count < min count room then done rw room count + 1 else done rw room count

/-- The status of the call that failed, or of the end of the disk. -/
def status (room count : Nat) : Byte :=
  if done rw room count < min count room then (rw (done rw room count)).rc
  else if room < count then SECTOR_NOT_FOUND else NO_ERROR

/-- How the loop ends. -/
structure Ended (room count : Nat) (out : Byte × Work) : Prop where
  status : out.1 = status rw room count
  dx : out.2.dx = BitVec.ofNat 16 (done rw room count)
  calls : out.2.calls = (stage g ty rw write L r mem (tries rw room count)).calls
  moved : out.2.moved = (stage g ty rw write L r mem (tries rw room count)).moved
  mem : out.2.mem = (stage g ty rw write L r mem (tries rw room count)).mem

variable {g ty rw write L r mem}

theorem cylinder_of_low (ch : Byte) {cl : Byte} (h : cl &&& 0xC0 = 0) :
    cylinder ch cl = ch.setWidth 16 := by
  rw [cylinder, h]
  simp

theorem call_stage (hg : g.Usable) {k : Nat} (hk : L + k < g.total) :
    (stage g ty rw write L r mem k).call write ty = g.call write ty r.dl (L + k) := by
  obtain ⟨hsec, hsix⟩ := hg.secOf_lt (L + k)
  obtain ⟨hlow, hhigh⟩ := low_six (hsec.symm ▸ hsix)
  have hcyl : g.cylOf (L + k) < 256 := Nat.lt_trans (hg.lt_total.mp hk) g.cylinders.isLt
  have hwide : (BitVec.ofNat 8 (g.cylOf (L + k))).setWidth 16 = BitVec.ofNat 16 (g.cylOf (L + k)) := by
    apply BitVec.eq_of_toNat_eq
    simp only [BitVec.toNat_setWidth, BitVec.toNat_ofNat]
    omega
  simp only [Work.call, stage, cursor, FdGeom.seek, FdGeom.call, hlow, cylinder_of_low _ hhigh, hwide]

theorem data_stage (k : Nat) :
    (stage g ty rw write L r mem k).data write (rw k) = movedAt rw write r mem k := by
  cases write <;> rfl

/-- A call at a stage moves the logs and memory to the next one. -/
theorem fdRw_stage (hg : g.Usable) {k : Nat} (hk : L + k < g.total) :
    (stage g ty rw write L r mem k).fdRw write ty (rw k) =
      { stage g ty rw write L r mem (k + 1) with regs := cursor g L r k, dx := BitVec.ofNat 16 k } := by
  rw [Work.fdRw, call_stage hg hk, data_stage]
  cases write <;> simp [stage, List.range_succ, stores]

/-- The frame moves on as the buffer does. -/
theorem fdNext_cursor {floppyTab : Byte → Byte} (ht : fdType floppyTab r.dl = some (ty, g)) {k : Nat}
    (hk : L + (k + 1) < g.total) :
    ∃ f, fdNext floppyTab (cursor g L r k) = (true, f) ∧
      { f with
        es := (nextBuffer (f.ah = 4) f.es f.bx).1
        bx := (nextBuffer (f.ah = 4) f.es f.bx).2 } = cursor g L r (k + 1) := by
  let b := bufferAt (r.ah = 4) r.es r.bx k
  have htype : fdType floppyTab ({ r with es := b.1, bx := b.2 } : Regs).dl = some (ty, g) := ht
  have hnext := (fdNext_seek htype (n := L + k) (by omega)).1 hk
  refine ⟨_, hnext, ?_⟩
  simp only [cursor, bufferAt_succ, FdGeom.seek, b]
  rfl

section Loop

variable {floppyTab : Byte → Byte} (ht : fdType floppyTab r.dl = some (ty, g))

include ht

variable (rw write mem)

/-- **One round of the loop**: it fails, or it was the last sector asked for, or it goes on to
the next stage, or the disk has ended. -/
theorem rwLoop_stage {k : Nat} (si : Nat) (hk : L + k < g.total) :
    let at_ := stage g ty rw write L r mem
    let out := rwLoop floppyTab rw write ty (si + 1) (at_ k)
    ((rw k).rc ≠ NO_ERROR → out = ((rw k).rc,
        { at_ (k + 1) with regs := cursor g L r k, dx := BitVec.ofNat 16 k })) ∧
      ((rw k).rc = NO_ERROR → si = 0 → ∃ f, out = (NO_ERROR, { at_ (k + 1) with regs := f })) ∧
      ((rw k).rc = NO_ERROR → si ≠ 0 → L + (k + 1) < g.total →
        out = rwLoop floppyTab rw write ty si (at_ (k + 1))) ∧
      ((rw k).rc = NO_ERROR → si ≠ 0 → ¬ L + (k + 1) < g.total →
        ∃ f, out = (SECTOR_NOT_FOUND, { at_ (k + 1) with regs := f })) := by
  intro at_ out
  have hlen : (stage g ty rw write L r mem k).calls.length = k := by simp [stage]
  have hdx : (BitVec.ofNat 16 k + 1 : Word) = BitVec.ofNat 16 (k + 1) := (BitVec.ofNat_add k 1).symm
  have hout : out = rwLoop floppyTab rw write ty (si + 1) (stage g ty rw write L r mem k) := rfl
  rw [rwLoop, hlen, fdRw_stage (fdType_usable ht) hk] at hout
  simp only [hdx] at hout
  refine ⟨?_, ?_, ?_, ?_⟩
  · intro hfail
    rw [hout, if_pos hfail]
  · intro hok hlast
    rw [hout, if_neg (not_not_intro hok), if_pos hlast]
    exact ⟨_, rfl⟩
  · intro hok hmore hin
    obtain ⟨f, hnext, hf⟩ := fdNext_cursor ht hin
    rw [hout, if_neg (not_not_intro hok), if_neg hmore, hnext]
    simp only [hf]
    rfl
  · intro hok hmore hend
    let b := bufferAt (r.ah = 4) r.es r.bx k
    have htype : fdType floppyTab ({ r with es := b.1, bx := b.2 } : Regs).dl = some (ty, g) := ht
    have hnext : (fdNext floppyTab (cursor g L r k)).1 = false := (fdNext_seek htype hk).2 hend
    rw [hout, if_neg (not_not_intro hok), if_neg hmore]
    generalize fdNext floppyTab (cursor g L r k) = nx at hnext ⊢
    obtain ⟨more, f⟩ := nx
    obtain rfl : more = false := hnext
    exact ⟨f, rfl⟩

variable {rw write mem}

omit ht in
theorem done_eq {count room k : Nat} (hok : ∀ j < k, (rw j).rc = NO_ERROR) :
    (k = min count room → done rw room count = k) ∧
      (k < min count room → (rw k).rc ≠ NO_ERROR → done rw room count = k) := by
  have hok' : ∀ j < k, decide ((rw j).rc = NO_ERROR) = true := fun j hj => decide_eq_true (hok j hj)
  constructor
  · intro hk
    subst hk
    exact leading_eq_all hok'
  · intro hk hfail
    exact leading_eq_of_fails hok' hk (decide_eq_false hfail)

omit ht in
/-- The ways a run ends. -/
theorem ended_of {count room t m : Nat} {st : Byte} {f : Regs} (hdone : done rw room count = m)
    (htries : tries rw room count = t) (hst : status rw room count = st) :
    Ended g ty rw write L r mem room count
      (st, { stage g ty rw write L r mem t with regs := f, dx := BitVec.ofNat 16 m }) := by
  subst htries hdone
  exact ⟨hst.symm, rfl, rfl, rfl, rfl⟩

/-- **The whole run**, from any stage: by induction on the sectors still to do. -/
theorem rwLoop_ended {count room : Nat} (hroom : L + room = g.total) :
    ∀ {si k : Nat}, k + si = count → (k < room ∨ si = 0 ∧ k ≤ room) →
      (∀ j < k, (rw j).rc = NO_ERROR) →
      Ended g ty rw write L r mem room count
        (rwLoop floppyTab rw write ty si (stage g ty rw write L r mem k)) := by
  -- where every call up to the limit is good
  have hall : ∀ {m}, done rw room count = m → m = min count room → tries rw room count = m ∧
      status rw room count = if room < count then SECTOR_NOT_FOUND else NO_ERROR := by
    intro m hdone hm
    have hnot : ¬ done rw room count < min count room := by omega
    rw [tries, status, if_neg hnot, if_neg hnot]
    exact ⟨hdone, rfl⟩
  intro si
  induction si with
  | zero =>
      intro k hcount hin hok
      have hm : k = min count room := by omega
      have hdone := (done_eq hok).1 hm
      obtain ⟨htries, hst⟩ := hall hdone hm
      rw [if_neg (by omega)] at hst
      exact ended_of hdone htries hst
  | succ si ih =>
      intro k hcount hin hok
      have hk : L + k < g.total := by omega
      obtain ⟨hfail, hlast, hmore, hend⟩ :=
        rwLoop_stage rw write mem ht si hk
      by_cases hrc : (rw k).rc = NO_ERROR
      · have hok' : ∀ j < k + 1, (rw j).rc = NO_ERROR := by
          intro j hj
          rcases Nat.lt_succ_iff_lt_or_eq.mp hj with hlt | rfl
          · exact hok j hlt
          · exact hrc
        by_cases hsi : si = 0
        · have hm : k + 1 = min count room := by omega
          have hdone := (done_eq hok').1 hm
          obtain ⟨htries, hst⟩ := hall hdone hm
          rw [if_neg (by omega)] at hst
          obtain ⟨f, hout⟩ := hlast hrc hsi
          rw [hout]
          exact ended_of hdone htries hst
        · by_cases hin' : L + (k + 1) < g.total
          · rw [hmore hrc hsi hin']
            exact ih (by omega) (Or.inl (by omega)) hok'
          · have hm : k + 1 = min count room := by omega
            have hdone := (done_eq hok').1 hm
            obtain ⟨htries, hst⟩ := hall hdone hm
            rw [if_pos (by omega)] at hst
            obtain ⟨f, hout⟩ := hend hrc hsi hin'
            rw [hout]
            exact ended_of hdone htries hst
      · have hm : k < min count room := by omega
        have hdone := (done_eq hok).2 hm hrc
        have hlt : done rw room count < min count room := by omega
        have htries : tries rw room count = k + 1 := by rw [tries, if_pos hlt, hdone]
        have hst : status rw room count = (rw k).rc := by rw [status, if_pos hlt, hdone]
        rw [hfail hrc]
        exact ended_of hdone htries hst

end Loop

end Run

end Sbc386Ex.Int13

import Sbc386Ex.Int13.ChsBuffer

/-!
# Sbc386Ex.Int13.Floppy

INT 13h read, write and verify on a diskette: functions 02h, 03h and 04h of `40h_flop.asm`,
where `floppy_call` sends them.

How each call of `fd_rw` ends is a parameter: its status and what its data phase moved.
What the data phase does to memory is `_fdc_pio_in` and `_fdc_pio_out` of `fdcpio.asm`.
-/

namespace Sbc386Ex.Int13

/-! ### Geometry -/

/-- A row of `fd_geom`. -/
structure FdGeom where
  cylinders : Byte
  heads : Byte
  sectors : Byte
  deriving DecidableEq

def fdGeom : List FdGeom :=
  [⟨0, 0, 0⟩, ⟨40, 2, 9⟩, ⟨80, 2, 15⟩, ⟨80, 2, 9⟩, ⟨80, 2, 18⟩]

/-- `fd_type`: the configured type of the drive in `DL`, and its row. -/
def fdType (floppyTab : Byte → Byte) (dl : Byte) : Option (Byte × FdGeom) :=
  if ¬ dl < 2 then none
  else
    let al := floppyTab dl
    if al = 0 then none else (fdGeom[al.toNat]?).map fun g => (al, g)

/-- `fd_next`: the frame at the next sector, or as it is left where the disk ends. -/
def fdNext (floppyTab : Byte → Byte) (r : Regs) : Bool × Regs :=
  match fdType floppyTab r.dl with
  | none => (false, r)
  | some (_, g) =>
      let putsec (al : Byte) (r : Regs) : Bool × Regs := (true, { r with cl := (r.cl &&& 0xC0) ||| al })
      let al := (r.cl &&& 0x3F) + 1
      if al ≤ g.sectors then putsec al r
      else
        let r := { r with dh := r.dh + 1 }
        if r.dh < g.heads then putsec 1 r
        else
          let r := { r with dh := 0, ch := r.ch + 1 }
          if r.ch < g.cylinders then putsec 1 r else (false, r)

/-! ### One sector -/

/-- The arguments of `fd_rw` up to the buffer. -/
structure FdCall where
  write : Bool
  drive : Byte
  fdtype : Byte
  cyl : Word
  head : Byte
  sec : Byte
  deriving DecidableEq

/-- How a call of `fd_rw` ends: its status, how many bytes its data phase moved and, for a
read, which. The controller's result is good only for a whole sector. -/
structure FdEnd where
  rc : Byte
  moved : Nat
  given : Nat → Byte
  few : moved ≤ 512
  full : rc = NO_ERROR → moved = 512

/-- `.next` of `_fdc_pio_in`: the stores of `n` bytes from the controller to `ES:DI`. -/
def fdcPioIn (es : Word) (given : Nat → Byte) : Nat → Nat → Word → List (Nat × Byte)
  | 0, _, _ => []
  | n + 1, i, di => (linear es di, given i) :: fdcPioIn es given n (i + 1) (di + 1)

/-- `.next` of `_fdc_pio_out`: the loads of `n` bytes for the controller from `DS:SI`. -/
def fdcPioOut (ds : Word) (mem : Mem) : Nat → Word → List (Nat × Byte)
  | 0, _ => []
  | n + 1, si => (linear ds si, mem (linear ds si)) :: fdcPioOut ds mem n (si + 1)

def stores (l : List (Nat × Byte)) (mem : Mem) : Mem :=
  l.foldl (fun mem e => Function.update mem e.1 e.2) mem

/-- The run of a transfer: the frame, the sectors done, the calls made, what the data phase
of each moved, and memory. -/
structure Work where
  regs : Regs
  dx : Word
  calls : List FdCall
  moved : List (List (Nat × Byte))
  mem : Mem

/-- The arguments `rw_common` pushes. -/
def Work.call (w : Work) (write : Bool) (bh : Byte) : FdCall where
  write := write
  drive := w.regs.dl &&& 1
  fdtype := bh
  cyl := cylinder w.regs.ch w.regs.cl
  head := w.regs.dh
  sec := w.regs.cl &&& 0x3F

/-- What the data phase of a call moves, with the buffer in the frame. -/
def Work.data (w : Work) (write : Bool) (e : FdEnd) : List (Nat × Byte) :=
  if write then fdcPioOut w.regs.es w.mem e.moved w.regs.bx
  else fdcPioIn w.regs.es e.given e.moved 0 w.regs.bx

/-- `fd_rw` called for the sector in the frame. -/
def Work.fdRw (w : Work) (write : Bool) (bh : Byte) (e : FdEnd) : Work :=
  { w with
    calls := w.calls ++ [w.call write bh]
    moved := w.moved ++ [w.data write e]
    mem := if write then w.mem else stores (w.data write e) w.mem }

/-- `.loop` of `rw_common`, `SI` sectors to go: the status it ends with. -/
def rwLoop (floppyTab : Byte → Byte) (rw : Nat → FdEnd) (write : Bool) (bh : Byte) :
    Nat → Work → Byte × Work
  | 0, w => (NO_ERROR, w)
  | si + 1, w =>
      let e := rw w.calls.length
      let w := w.fdRw write bh e
      if e.rc ≠ NO_ERROR then (e.rc, w)
      else
        let w := { w with dx := w.dx + 1 }
        if si = 0 then (NO_ERROR, w)
        else
          match fdNext floppyTab w.regs with
          | (false, r) => (SECTOR_NOT_FOUND, { w with regs := r })
          | (true, r) =>
              let b := nextBuffer (r.ah = 4) r.es r.bx
              rwLoop floppyTab rw write bh si { w with regs := { r with es := b.1, bx := b.2 } }

/-- What a call of INT 40h leaves. -/
structure FdOutcome where
  regs : Regs
  fdStatus : Byte
  work : Work

/-- `fd_good` and `fd_error`, with the registers `rw_pop` put back. -/
def FdOutcome.ret (r : Regs) (al ah : Byte) (w : Work) : FdOutcome where
  regs := { r with al := al, ah := ah, cf := ah ≠ NO_ERROR }
  fdStatus := ah
  work := w

def rwCommon40 (floppyTab : Byte → Byte) (rw : Nat → FdEnd) (write : Bool) (r : Regs) (mem : Mem) :
    FdOutcome :=
  match fdType floppyTab r.dl with
  | none => .ret r 0 TIME_OUT ⟨r, 0, [], [], mem⟩
  | some (bh, _) =>
      let frame := if r.ah = 4 then { r with bx := secBufferOff, es := secBufferSeg } else r
      let out := rwLoop floppyTab rw write bh r.al.toNat ⟨frame, 0, [], [], mem⟩
      .ret r (out.2.dx.setWidth 8) out.1 out.2

variable (floppyTab : Byte → Byte) (rw : Nat → FdEnd) (r : Regs) (mem : Mem)

def fn02Read : FdOutcome := rwCommon40 floppyTab rw false r mem
def fn03Write : FdOutcome := rwCommon40 floppyTab rw true r mem
def fn04Verify : FdOutcome := rwCommon40 floppyTab rw false r mem

/-- `int_40h`, the functions that move sectors. -/
def int40h : Option FdOutcome :=
  if r.ah = 2 then some (fn02Read floppyTab rw r mem)
  else if r.ah = 3 then some (fn03Write floppyTab rw r mem)
  else if r.ah = 4 then some (fn04Verify floppyTab rw r mem)
  else none

/-! ### Consecutive sectors -/

namespace FdGeom

/-- A row a drive can be configured with. -/
structure Usable (g : FdGeom) : Prop where
  heads : 0 < g.heads.toNat
  sectors : 0 < g.sectors.toNat
  fits : g.sectors.toNat < 64

variable (g : FdGeom)

/-- The logical sectors of a disk. -/
def total : Nat := g.cylinders.toNat * g.heads.toNat * g.sectors.toNat

/-- A CHS address on the disk. -/
structure Valid (r : Regs) : Prop where
  cyl : (cylinder r.ch r.cl).toNat < g.cylinders.toNat
  head : r.dh.toNat < g.heads.toNat
  first : 0 < (r.cl &&& 0x3F).toNat
  last : (r.cl &&& 0x3F).toNat ≤ g.sectors.toNat

/-- Its logical sector number. -/
def lba (r : Regs) : Nat :=
  ((cylinder r.ch r.cl).toNat * g.heads.toNat + r.dh.toNat) * g.sectors.toNat +
    ((r.cl &&& 0x3F).toNat - 1)

def cylOf (n : Nat) : Nat := n / g.sectors.toNat / g.heads.toNat
def headOf (n : Nat) : Nat := n / g.sectors.toNat % g.heads.toNat
def secOf (n : Nat) : Nat := n % g.sectors.toNat + 1

/-- The frame at logical sector `n`. -/
def seek (n : Nat) (r : Regs) : Regs :=
  { r with
    ch := BitVec.ofNat 8 (g.cylOf n)
    dh := BitVec.ofNat 8 (g.headOf n)
    cl := BitVec.ofNat 8 (g.secOf n) }

end FdGeom

theorem fdType_usable {floppyTab : Byte → Byte} {dl ty : Byte} {g : FdGeom}
    (h : fdType floppyTab dl = some (ty, g)) : g.Usable := by
  have hrows : ∀ row ∈ fdGeom.tail,
      0 < row.heads.toNat ∧ 0 < row.sectors.toNat ∧ row.sectors.toNat < 64 := by
    decide
  simp only [fdType] at h
  split_ifs at h with hdl hnone
  obtain ⟨row, hrow, heq⟩ := Option.map_eq_some_iff.mp h
  obtain ⟨-, rfl⟩ := Prod.mk.inj heq
  -- not the row of `FD_NONE`
  have hpos : (floppyTab dl).toNat ≠ 0 := fun h0 => hnone (BitVec.eq_of_toNat_eq h0)
  obtain ⟨n, hn⟩ := Nat.exists_eq_succ_of_ne_zero hpos
  rw [hn] at hrow
  obtain ⟨hheads, hsectors, hfits⟩ := hrows row (List.mem_of_getElem? (i := n) hrow)
  exact ⟨hheads, hsectors, hfits⟩

/-- Counting in base `b`: the last digit goes up, or it wraps and carries. -/
theorem digit_step {b : Nat} (hb : 0 < b) (n : Nat) :
    (n % b + 1 < b ∧ (n + 1) / b = n / b ∧ (n + 1) % b = n % b + 1) ∨
      (n % b + 1 = b ∧ (n + 1) / b = n / b + 1 ∧ (n + 1) % b = 0) := by
  have hdiv := Nat.div_add_mod n b
  have hmod := Nat.mod_lt n hb
  rcases Nat.lt_or_ge (n % b + 1) b with hlt | hge
  · refine Or.inl ⟨hlt, (Nat.div_mod_unique hb).mpr ⟨?_, hlt⟩⟩
    omega
  · refine Or.inr ⟨by omega, (Nat.div_mod_unique hb).mpr ⟨?_, hb⟩⟩
    rw [Nat.mul_succ]
    omega

theorem low_six : ∀ {b : Byte}, b.toNat < 64 → b &&& 0x3F = b ∧ b &&& 0xC0 = 0 := by
  decide

section Stepping

variable {floppyTab : Byte → Byte} {g : FdGeom} {ty : Byte} {r : Regs}

theorem FdGeom.Usable.lt_total (hg : g.Usable) {n : Nat} :
    n < g.total ↔ g.cylOf n < g.cylinders.toNat := by
  rw [FdGeom.total, FdGeom.cylOf, Nat.div_lt_iff_lt_mul hg.heads, Nat.div_lt_iff_lt_mul hg.sectors]

theorem FdGeom.Usable.secOf_lt (hg : g.Usable) (n : Nat) :
    (BitVec.ofNat 8 (g.secOf n)).toNat = g.secOf n ∧ g.secOf n < 64 := by
  have hmod := Nat.mod_lt n hg.sectors
  have hfits := hg.fits
  have hlt : g.secOf n < 64 := by
    rw [FdGeom.secOf]
    omega
  exact ⟨by rw [BitVec.toNat_ofNat]; omega, hlt⟩

/-- A cylinder below 256 has nothing in `CL`. -/
theorem low_cylinder {ch cl : Byte} (h : (cylinder ch cl).toNat < 256) :
    (cylinder ch cl).toNat = ch.toNat ∧ cl &&& 0x3F = cl := by
  have hbits : ∀ b : Byte, b &&& 0xC0 = 0 ∨ 64 ≤ (b &&& 0xC0).toNat := by decide
  have hrest : ∀ b : Byte, b &&& 0xC0 = 0 → b &&& 0x3F = b := by decide
  rcases hbits cl with h0 | hhigh
  · refine ⟨?_, hrest cl h0⟩
    have hch : ch.toNat < 65536 := Nat.lt_trans ch.isLt (by decide)
    rw [cylinder, h0]
    simp [Nat.mod_eq_of_lt hch]
  · have hle : ((((cl &&& 0xC0).setWidth 16) <<< 2 : Word)).toNat ≤ (cylinder ch cl).toNat := by
      rw [cylinder, BitVec.toNat_or]
      exact Nat.left_le_or
    have hlt := (cl &&& 0xC0).isLt
    simp only [BitVec.toNat_shiftLeft, BitVec.toNat_setWidth, Nat.shiftLeft_eq] at hle
    omega

/-- A valid address is the one its logical number has. -/
theorem FdGeom.Valid.seek_lba (hg : g.Usable) (h : g.Valid r) :
    g.seek (g.lba r) r = r ∧ g.lba r < g.total := by
  obtain ⟨hcyl, hhead, hfirst, hlast⟩ := h
  obtain ⟨hch, hcl⟩ := low_cylinder (Nat.lt_trans hcyl g.cylinders.isLt)
  rw [hch] at hcyl
  rw [hcl] at hfirst hlast
  have hsec : g.lba r / g.sectors.toNat = r.ch.toNat * g.heads.toNat + r.dh.toNat ∧
      g.lba r % g.sectors.toNat = r.cl.toNat - 1 := by
    refine (Nat.div_mod_unique hg.sectors).mpr ⟨?_, by omega⟩
    rw [FdGeom.lba, hch, hcl, Nat.mul_comm g.sectors.toNat, Nat.add_comm]
  have hhd : (r.ch.toNat * g.heads.toNat + r.dh.toNat) / g.heads.toNat = r.ch.toNat ∧
      (r.ch.toNat * g.heads.toNat + r.dh.toNat) % g.heads.toNat = r.dh.toNat := by
    refine (Nat.div_mod_unique hg.heads).mpr ⟨?_, hhead⟩
    rw [Nat.mul_comm g.heads.toNat, Nat.add_comm]
  have hcylOf : g.cylOf (g.lba r) = r.ch.toNat := by rw [FdGeom.cylOf, hsec.1, hhd.1]
  refine ⟨?_, hg.lt_total.mpr (by rwa [hcylOf])⟩
  have hheadOf : g.headOf (g.lba r) = r.dh.toNat := by rw [FdGeom.headOf, hsec.1, hhd.2]
  have hsecOf : g.secOf (g.lba r) = r.cl.toNat := by
    rw [FdGeom.secOf, hsec.2]
    omega
  rw [FdGeom.seek, hcylOf, hheadOf, hsecOf]
  simp only [BitVec.ofNat_toNat, BitVec.setWidth_eq]

theorem ofNat_succ (n : Nat) : (BitVec.ofNat 8 n + 1 : Byte) = BitVec.ofNat 8 (n + 1) := by
  apply BitVec.eq_of_toNat_eq
  simp

/-- **`fd_next` goes to the next logical sector, as long as there is one.** -/
theorem fdNext_seek (ht : fdType floppyTab r.dl = some (ty, g)) {n : Nat} (hn : n < g.total) :
    (n + 1 < g.total → fdNext floppyTab (g.seek n r) = (true, g.seek (n + 1) r)) ∧
      (¬ n + 1 < g.total → (fdNext floppyTab (g.seek n r)).1 = false) := by
  have hg := fdType_usable ht
  have hcyl := hg.lt_total.mp hn
  obtain ⟨hsec, hsix⟩ := hg.secOf_lt n
  obtain ⟨hlow, hhigh⟩ := low_six (hsec.symm ▸ hsix)
  have hcyls := g.cylinders.isLt
  have hheads := g.heads.isLt
  have hsectors := g.sectors.isLt
  have hfits := hg.fits
  have htype : fdType floppyTab (g.seek n r).dl = some (ty, g) := ht
  have hcarry : BitVec.ofNat 8 (g.secOf n) + 1 ≤ g.sectors ↔ n % g.sectors.toNat + 1 < g.sectors.toNat := by
    rw [ofNat_succ, BitVec.le_def, BitVec.toNat_ofNat, Nat.mod_eq_of_lt (by omega), FdGeom.secOf]
    omega
  have hflip : BitVec.ofNat 8 (g.headOf n) + 1 < g.heads ↔
      n / g.sectors.toNat % g.heads.toNat + 1 < g.heads.toNat := by
    have hmod : g.headOf n < g.heads.toNat := Nat.mod_lt _ hg.heads
    rw [ofNat_succ, BitVec.lt_def, BitVec.toNat_ofNat, Nat.mod_eq_of_lt (by omega), FdGeom.headOf]
  have hstep : BitVec.ofNat 8 (g.cylOf n) + 1 < g.cylinders ↔ g.cylOf n + 1 < g.cylinders.toNat := by
    rw [ofNat_succ, BitVec.lt_def, BitVec.toNat_ofNat, Nat.mod_eq_of_lt (by omega)]
  rw [hg.lt_total]
  simp only [fdNext, htype]
  simp only [FdGeom.seek, hlow, hhigh, hcarry, hflip, hstep]
  rcases digit_step hg.sectors n with ⟨hup, hq, hr⟩ | ⟨hwrap, hq, hr⟩
  · have hcylOf : g.cylOf (n + 1) = g.cylOf n := by rw [FdGeom.cylOf, hq, FdGeom.cylOf]
    have hheadOf : g.headOf (n + 1) = g.headOf n := by rw [FdGeom.headOf, hq, FdGeom.headOf]
    have hsecOf : g.secOf (n + 1) = g.secOf n + 1 := by rw [FdGeom.secOf, hr, FdGeom.secOf]
    simp only [if_pos hup, hcylOf, hheadOf, hsecOf, ofNat_succ]
    exact ⟨fun _ => by simp, fun hend => absurd hcyl hend⟩
  · have hsecOf : g.secOf (n + 1) = 1 := by rw [FdGeom.secOf, hr]
    have hnot : ¬ n % g.sectors.toNat + 1 < g.sectors.toNat := by omega
    simp only [if_neg hnot, hsecOf]
    rcases digit_step hg.heads (n / g.sectors.toNat) with ⟨hup, hq', hr'⟩ | ⟨hwrap', hq', hr'⟩
    · have hcylOf : g.cylOf (n + 1) = g.cylOf n := by rw [FdGeom.cylOf, hq, hq', FdGeom.cylOf]
      have hheadOf : g.headOf (n + 1) = g.headOf n + 1 := by
        rw [FdGeom.headOf, hq, hr', FdGeom.headOf]
      simp only [if_pos hup, hcylOf, hheadOf, ofNat_succ]
      exact ⟨fun _ => rfl, fun hend => absurd hcyl hend⟩
    · have hcylOf : g.cylOf (n + 1) = g.cylOf n + 1 := by rw [FdGeom.cylOf, hq, hq', FdGeom.cylOf]
      have hheadOf : g.headOf (n + 1) = 0 := by rw [FdGeom.headOf, hq, hr']
      have hnot' : ¬ n / g.sectors.toNat % g.heads.toNat + 1 < g.heads.toNat := by omega
      simp only [if_neg hnot', hcylOf, hheadOf, ofNat_succ]
      constructor
      · intro hin
        rw [if_pos hin]
        rfl
      · intro hend
        rw [if_neg hend]

end Stepping

end Sbc386Ex.Int13

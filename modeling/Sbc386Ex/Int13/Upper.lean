import Sbc386Ex.Cpu
import Sbc386Ex.Int13.ChsBuffer
import Sbc386Ex.Int13.Geometry
import Sbc386Ex.Lib.Hoare

/-!
# Sbc386Ex.Int13.Upper

The 32-bit registers across a fixed-disk call.

The frame of INT 13h is 16 bits wide: `pushm all,ds,es` on entry and the pops on return put back
the lower halves of the general registers, and nothing puts back the upper ones. They are what
the 32-bit instructions on the way leave in them. There are none in the drivers of `diskide.asm`,
and the C routines of function 00h work on bytes and words.
-/

namespace Sbc386Ex.Int13

open Prog Ide

/-! ### 32-bit registers -/

/-- The upper halves of the general registers. -/
structure Upper where
  eax : Word
  ebx : Word
  ecx : Word
  edx : Word
  esi : Word
  edi : Word
  ebp : Word
  deriving DecidableEq

/-- The upper half of a register. -/
def upper (v : DWord) : Word := v.extractLsb' 16 16

/-- A 16-bit instruction with the result `w`. -/
def setLower (v : DWord) (w : Word) : DWord := upper v ++ w

@[simp] theorem upper_append (h l : Word) : upper (h ++ l) = h :=
  BitVec.extractLsb'_append_eq_left

@[simp] theorem upper_setLower (v : DWord) (w : Word) : upper (setLower v w) = upper v :=
  upper_append _ _

/-- The bytes of the lower half. -/
theorem bytes_append (h : Word) (b l : Byte) :
    ((h ++ (b ++ l : Word) : DWord).extractLsb' 8 8 : Byte) = b ∧
      ((h ++ (b ++ l : Word) : DWord).extractLsb' 0 8 : Byte) = l := by
  have hb := b.isLt
  have hl := l.isLt
  have hw : (b ++ l : Word).toNat = b.toNat * 256 + l.toNat := by
    rw [BitVec.toNat_append, ← Nat.shiftLeft_add_eq_or_of_lt hl, Nat.shiftLeft_eq]
  have hd : (h ++ (b ++ l : Word) : DWord).toNat = h.toNat * 65536 + (b.toNat * 256 + l.toNat) := by
    rw [BitVec.toNat_append, ← Nat.shiftLeft_add_eq_or_of_lt (b ++ l : Word).isLt, hw,
      Nat.shiftLeft_eq]
  constructor
  · apply BitVec.eq_of_toNat_eq
    rw [BitVec.extractLsb'_toNat, hd, Nat.shiftRight_eq_div_pow]
    omega
  · apply BitVec.eq_of_toNat_eq
    rw [BitVec.extractLsb'_toNat, hd, Nat.shiftRight_eq_div_pow]
    omega
theorem toNat_upper (v : DWord) : (upper v).toNat = v.toNat / 65536 := by
  have hlt := v.isLt
  rw [upper, BitVec.extractLsb'_toNat, Nat.shiftRight_eq_div_pow]
  omega

theorem upper_eq_zero {v : DWord} (h : v.toNat < 65536) : upper v = 0 := by
  apply BitVec.eq_of_toNat_eq
  rw [toNat_upper, Nat.div_eq_of_lt h]
  rfl

/-- The registers `cv_lba` works in. -/
structure CvRegs where
  eax : DWord
  ebx : DWord
  ecx : DWord
  edx : DWord

/-- `mul ecx` -/
def mulEcx (s : CvRegs) : CvRegs :=
  let p : BitVec 64 := s.eax.setWidth 64 * s.ecx.setWidth 64
  { s with eax := p.setWidth 32, edx := p.extractLsb' 32 32 }

/-- `cv_lba` on its registers; the flag is the carry. -/
def cvLba32 (tab : DiskTab) (s : CvRegs) : CvRegs × Bool :=
  let ch : Byte := s.ecx.extractLsb' 8 8
  let cl : Byte := s.ecx.extractLsb' 0 8
  let bh : Byte := s.edx.extractLsb' 8 8
  let bl := cl &&& 0x3F
  let s := { s with ebx := setLower s.ebx (bh ++ bl) }
  let ax : Word := (s.eax.extractLsb' 8 8 ++ cl : Word) &&& 0x00C0
  let ax := ax <<< 2
  let ax : Word := Cpu.high ax ++ ch
  let s := { s with eax := setLower s.eax ax }
  if bl = 0 then (s, true)
  else if bl > tab.nsectors then (s, true)
  else if ¬ bh < tab.nHeads then (s, true)
  else if ¬ ax < tab.ncylinders then (s, true)
  else
    let s := { s with eax := ax.setWidth 32 }
    let s := { s with ecx := tab.nHeads.setWidth 32 }
    let s := mulEcx s
    let s := { s with ecx := bh.setWidth 32 }
    let s := { s with eax := s.eax + s.ecx }
    let s := { s with ecx := tab.nsectors.setWidth 32 }
    let s := mulEcx s
    let s := { s with ecx := bl.setWidth 32 }
    let s := { s with ecx := s.ecx - 1 }
    let s := { s with eax := s.eax + s.ecx }
    (s, false)

/-- A product that fits in `EAX`. -/
theorem mulEcx_eq {eax ecx : DWord} (h : eax.toNat * ecx.toNat < 2 ^ 32) (ebx edx : DWord) :
    mulEcx ⟨eax, ebx, ecx, edx⟩ = ⟨eax * ecx, ebx, ecx, 0⟩ := by
  have hlt := eax.isLt
  have hlt' := ecx.isLt
  have hprod : (eax.setWidth 64 * ecx.setWidth 64 : BitVec 64).toNat = eax.toNat * ecx.toNat := by
    rw [BitVec.toNat_mul, BitVec.toNat_setWidth, BitVec.toNat_setWidth,
      Nat.mod_eq_of_lt (a := eax.toNat) (by omega), Nat.mod_eq_of_lt (a := ecx.toNat) (by omega),
      Nat.mod_eq_of_lt (by omega)]
  have hlow : (eax.setWidth 64 * ecx.setWidth 64 : BitVec 64).setWidth 32 = eax * ecx := by
    apply BitVec.eq_of_toNat_eq
    rw [BitVec.toNat_setWidth, hprod, BitVec.toNat_mul]
  have hhigh : (eax.setWidth 64 * ecx.setWidth 64 : BitVec 64).extractLsb' 32 32 = 0 := by
    apply BitVec.eq_of_toNat_eq
    rw [BitVec.extractLsb'_toNat, hprod, Nat.shiftRight_eq_div_pow, Nat.div_eq_of_lt h]
    rfl
  simp only [mulEcx, hlow, hhigh]

/-- The cylinder number, shifted through `AX`. -/
theorem cylinder_eq (ah ch cl : Byte) :
    (Cpu.high (((ah ++ cl : Word) &&& 0x00C0) <<< 2) ++ ch : Word) = cylinder ch cl := by
  have hmask : (ah ++ cl : Word) &&& 0x00C0 = (cl &&& 0xC0).setWidth 16 := by
    apply BitVec.eq_of_getLsbD_eq
    intro i hi
    by_cases hlow : i < 8
    · have hmasks : (0x00C0 : Word).getLsbD i = (0xC0 : Byte).getLsbD i := by
        interval_cases i <;> rfl
      rw [BitVec.getLsbD_and, BitVec.getLsbD_append, if_pos hlow, BitVec.getLsbD_setWidth,
        BitVec.getLsbD_and, hmasks]
      simp [hi]
    · have hzero : (0x00C0 : Word).getLsbD i = false := by
        interval_cases i <;> rfl
      rw [BitVec.getLsbD_and, hzero, Bool.and_false, BitVec.getLsbD_setWidth,
        BitVec.getLsbD_of_ge _ _ (not_lt.mp hlow), Bool.and_false]
  have hhigh : ∀ cl : Byte, (Cpu.high ((cl &&& 0xC0).setWidth 16 <<< 2)).toNat = cl.toNat / 64 := by
    decide
  apply BitVec.eq_of_toNat_eq
  rw [hmask, toNat_cylinder, BitVec.toNat_append, hhigh, ← Nat.shiftLeft_add_eq_or_of_lt ch.isLt,
    Nat.shiftLeft_eq]

/-- What `cv_lba` leaves in its registers. Where it finds no sector it has not come to a 32-bit
instruction. -/
theorem cvLba32_spec (tab : DiskTab) (s : CvRegs) :
    match cvLba tab (s.ecx.extractLsb' 8 8) (s.ecx.extractLsb' 0 8) (s.edx.extractLsb' 8 8) with
    | none => (cvLba32 tab s).2 = true ∧ upper (cvLba32 tab s).1.eax = upper s.eax ∧
        upper (cvLba32 tab s).1.ebx = upper s.ebx ∧ (cvLba32 tab s).1.ecx = s.ecx ∧
        (cvLba32 tab s).1.edx = s.edx
    | some lba => (cvLba32 tab s).2 = false ∧ (cvLba32 tab s).1.eax = lba ∧
        upper (cvLba32 tab s).1.ebx = upper s.ebx ∧ upper (cvLba32 tab s).1.ecx = 0 ∧
        upper (cvLba32 tab s).1.edx = 0 := by
  obtain ⟨eax, ebx, ecx, edx⟩ := s
  simp only [cvLba32, cvLba, cylinder_eq]
  generalize hch : (ecx.extractLsb' 8 8 : Byte) = ch
  generalize hcl : (ecx.extractLsb' 0 8 : Byte) = cl
  generalize hbh : (edx.extractLsb' 8 8 : Byte) = bh
  by_cases h1 : cl &&& 0x3F = 0
  · simp only [if_pos h1, upper_setLower, and_self]
  by_cases h2 : cl &&& 0x3F > tab.nsectors
  · simp only [if_neg h1, if_pos h2, upper_setLower, and_self]
  by_cases h3 : ¬ bh < tab.nHeads
  · simp only [if_neg h1, if_neg h2, if_pos h3, upper_setLower, and_self]
  by_cases h4 : ¬ cylinder ch cl < tab.ncylinders
  · simp only [if_neg h1, if_neg h2, if_neg h3, if_pos h4, upper_setLower, and_self]
  simp only [if_neg h1, if_neg h2, if_neg h3, if_neg h4]
  have hc := cylinder_lt ch cl
  have hH := tab.nHeads.isLt
  have hS := tab.nsectors.isLt
  have hhead := bh.isLt
  have hax : ((cylinder ch cl).setWidth 32 : DWord).toNat = (cylinder ch cl).toNat := by
    rw [BitVec.toNat_setWidth]
    omega
  have hbyte : ∀ b : Byte, (b.setWidth 32 : DWord).toNat = b.toNat := by
    intro b
    have hlt := b.isLt
    rw [BitVec.toNat_setWidth]
    omega
  -- neither product has more than 26 bits
  have hfirst : ((cylinder ch cl).setWidth 32 : DWord).toNat *
      (tab.nHeads.setWidth 32 : DWord).toNat ≤ 1023 * 255 := by
    rw [hax, hbyte]
    exact Nat.mul_le_mul (by omega) (by omega)
  have hsum : ((cylinder ch cl).setWidth 32 * tab.nHeads.setWidth 32 + bh.setWidth 32 :
      DWord).toNat ≤ 1023 * 255 + 255 := by
    rw [BitVec.toNat_add, BitVec.toNat_mul, hbyte bh]
    omega
  have hsecond : ((cylinder ch cl).setWidth 32 * tab.nHeads.setWidth 32 + bh.setWidth 32 :
      DWord).toNat * (tab.nsectors.setWidth 32 : DWord).toNat ≤ (1023 * 255 + 255) * 255 := by
    rw [hbyte tab.nsectors]
    exact Nat.mul_le_mul hsum (by omega)
  rw [mulEcx_eq (lt_of_le_of_lt hfirst (by decide))]
  simp only
  rw [mulEcx_eq (lt_of_le_of_lt hsecond (by decide))]
  have hpos : 1 ≤ (cl &&& 0x3F).toNat :=
    Nat.pos_of_ne_zero fun hzero => h1 (BitVec.eq_of_toNat_eq hzero)
  have hecx : ((cl &&& 0x3F).setWidth 32 - 1 : DWord).toNat < 65536 := by
    have hlt := (cl &&& 0x3F).isLt
    have hone : (1 : DWord).toNat = 1 := rfl
    rw [BitVec.toNat_sub_of_le (by rw [BitVec.le_def, hbyte, hone]; exact hpos), hbyte]
    omega
  have hedx : upper 0 = 0 := by decide
  exact ⟨trivial, rfl, upper_setLower _ _, upper_eq_zero hecx, hedx⟩

/-! ### The functions -/

section Code

variable {W : Type} [IdeBus W]

/-- `mov eax,v` and `movzx eax,v` -/
def movEax (v : DWord) (u : Upper) : Upper := { u with eax := upper v }

/-- `rwv_common`: the only 32-bit instructions are those of `cv_lba`. `BX` is twice the driver
index then. -/
def rwvUpper (tab : List (Option (Driver W))) (a : DiskArea) (r : Regs) (u : Upper) : Upper :=
  match getDiskTable a r.dl with
  | none => u
  | some (dt, bx) =>
    match slot tab bx with
    | none => u
    | some _ =>
      let s := (cvLba32 dt
        { eax := u.eax ++ (r.ah ++ r.al : Word)
          ebx := u.ebx ++ (BitVec.ofNat 16 (2 * bx))
          ecx := u.ecx ++ (r.ch ++ r.cl : Word)
          edx := u.edx ++ (r.dh ++ r.dl : Word) }).1
      { u with eax := upper s.eax, ebx := upper s.ebx, ecx := upper s.ecx, edx := upper s.edx }

/-- Function 15h: the capacity, shifted down. -/
def fn15Upper (a : DiskArea) (r : Regs) (u : Upper) : Upper :=
  match getDiskTable a r.dl with
  | none => u
  | some (dt, _) => movEax (dt.maxLba >>> 16) (movEax dt.maxLba u)

/-- Function 44h -/
def fn44Upper (tab : List (Option (Driver W))) (a : DiskArea) (r : Regs) (p : Packet)
    (u : Upper) : Upper :=
  match getDiskTable a r.dl with
  | none => u
  | some (_, bx) =>
    if ¬ pktRwValidate p bx then u
    else match slot tab bx with
    | none => u
    | some _ => movEax p.diskLba u

/-- Function 47h -/
def fn47Upper (a : DiskArea) (r : Regs) (p : Packet) (u : Upper) : Upper :=
  match getDiskTable a r.dl with
  | none => u
  | some (_, bx) => if ¬ pktRwValidate p bx then u else movEax p.diskLba u

/-- Function 48h -/
def fn48Upper (a : DiskArea) (r : Regs) (q : ParamPacket) (u : Upper) : Upper :=
  match getDiskTable a r.dl with
  | none => u
  | some (dt, _) =>
    if q.paramSize < 26 then u
    else
      let u := movEax (dt.ncylinders.setWidth 32) u
      let u := movEax (dt.nHeads.setWidth 32) u
      let u := movEax (dt.nsectors.setWidth 32) u
      movEax dt.maxLba u

/-- The upper halves after a call. The other functions have 16-bit instructions only. -/
def int13hUpper (W : Type) [IdeBus W] (fuel : Nat) (a : DiskArea) (c : Call) (u : Upper) : Upper :=
  let r := c.regs
  match r.ah.toNat with
  | 0x02 => rwvUpper (readTab fuel : List (Option (Driver W))) a r u
  | 0x03 => rwvUpper (writeTab fuel : List (Option (Driver W))) a r u
  | 0x04 => rwvUpper (readTab fuel : List (Option (Driver W))) a r u
  | 0x15 => fn15Upper a r u
  | 0x44 => fn44Upper (readTab fuel : List (Option (Driver W))) a r c.packet u
  | 0x47 => fn47Upper a r c.packet u
  | 0x48 => fn48Upper a r c.param u
  | _ => u

/-- All the registers of a caller, beside the frame that the functions work on. -/
structure Caller where
  call : Call
  upper : Upper
  si : Word
  di : Word
  bp : Word
  ds : Word
  fs : Word
  gs : Word

/-- `int_13h`, from its first instruction to `iret`. The frame is popped; `FS` and `GS` are not
in it, and are not written. -/
def int13h32 (fuel : Nat) (a : DiskArea) (c : Caller) : IdeM W Caller := do
  let call ← int13h fuel a c.call
  pure { c with call := call, upper := int13hUpper W fuel a c.call c.upper }

end Code

/-! ### What is preserved -/

/-- The registers a function says it returns something in, beside `AX`. -/
structure Results where
  bx : Bool
  cx : Bool
  dx : Bool

def results (ah : Byte) : Results :=
  match ah.toNat with
  | 0x08 => ⟨false, true, true⟩
  | 0x15 => ⟨false, true, true⟩
  | 0x41 => ⟨true, true, false⟩
  | _ => ⟨false, false, false⟩

/-- `r'` is `r` but for the results. -/
structure Regs.Agree (res : Results) (r r' : Regs) : Prop where
  bx : res.bx = false → r'.bx = r.bx
  cx : res.cx = false → r'.ch = r.ch ∧ r'.cl = r.cl
  dx : res.dx = false → r'.dh = r.dh ∧ r'.dl = r.dl
  es : r'.es = r.es

section Frames

variable {W : Type} {res : Results} {r r' : Regs} {P : Host W → Prop}

theorem errorReturn_agree (h : r.Agree res r') (ah : Byte) :
    Triple P (errorReturn r' ah) fun r'' _ => r.Agree res r'' :=
  Triple.bind Triple.top fun _ => Triple.pure fun _ _ => ⟨h.bx, h.cx, h.dx, h.es⟩

theorem goodReturn_agree (h : r.Agree res r') :
    Triple P (goodReturn r') fun r'' _ => r.Agree res r'' :=
  Triple.bind Triple.top fun _ => Triple.pure fun _ _ => ⟨h.bx, h.cx, h.dx, h.es⟩

theorem goodReturnAH_agree (h : r.Agree res r') (ah : Byte) :
    Triple P (goodReturnAH r' ah) fun r'' _ => r.Agree res r'' :=
  Triple.bind Triple.top fun _ => Triple.pure fun _ _ => ⟨h.bx, h.cx, h.dx, h.es⟩

theorem Regs.Agree.refl (res : Results) (r : Regs) : r.Agree res r :=
  ⟨fun _ => rfl, fun _ => ⟨rfl, rfl⟩, fun _ => ⟨rfl, rfl⟩, rfl⟩

theorem Regs.Agree.setAl (h : r.Agree res r') (al : Byte) : r.Agree res { r' with al := al } :=
  ⟨h.bx, h.cx, h.dx, h.es⟩

theorem rwvCommon_agree (tab : List (Option (Driver W))) (a : DiskArea) (res : Results) (r : Regs) :
    Triple P (rwvCommon tab a r) fun r' _ => r.Agree res r' := by
  have hsame := Regs.Agree.refl res r
  unfold rwvCommon
  split
  · exact errorReturn_agree hsame _
  split
  · exact errorReturn_agree hsame _
  split
  · exact errorReturn_agree hsame _
  · exact Triple.bind Triple.top fun _ => Triple.ite
      (fun _ => errorReturn_agree (hsame.setAl _) _) fun _ => goodReturn_agree hsame

theorem packetTransfer_agree (tab : List (Option (Driver W))) (a : DiskArea) (res : Results)
    (r : Regs) (p : Packet) :
    Triple P (packetTransfer tab a r p) fun rp _ => r.Agree res rp.1 := by
  have hsame := Regs.Agree.refl res r
  have hbad : Triple P (do return (← retInvalidCommand r, p) : IdeM W (Regs × Packet))
      fun rp _ => r.Agree res rp.1 :=
    (errorReturn_agree hsame _).bind fun _ => Triple.pure fun _ h => h
  unfold packetTransfer
  split
  · exact hbad
  refine Triple.ite (fun _ => hbad) fun _ => ?_
  split
  · exact hbad
  · exact Triple.bind Triple.top fun _ => Triple.ite
      (fun _ => (goodReturn_agree hsame).bind fun _ => Triple.pure fun _ h => h)
      fun _ => (errorReturn_agree (hsame.setAl _) _).bind fun _ => Triple.pure fun _ h => h

theorem fn44_agree [IdeBus W] (fuel : Nat) (a : DiskArea) (res : Results) (r : Regs) (p : Packet) :
    Triple P (fn44VerifySector fuel a r p : IdeM W (Regs × Packet))
      fun rp _ => r.Agree res rp.1 := by
  have hsame := Regs.Agree.refl res r
  have hbad : Triple P (do return (← retInvalidCommand r, p) : IdeM W (Regs × Packet))
      fun rp _ => r.Agree res rp.1 :=
    (errorReturn_agree hsame _).bind fun _ => Triple.pure fun _ h => h
  unfold fn44VerifySector
  split
  · exact hbad
  refine Triple.ite (fun _ => hbad) fun _ => ?_
  split
  · exact hbad
  · exact Triple.bind Triple.top fun _ => Triple.ite
      (fun _ => (goodReturn_agree hsame).bind fun _ => Triple.pure fun _ h => h)
      fun _ => (errorReturn_agree hsame _).bind fun _ => Triple.pure fun _ h => h

theorem fn00_agree [IdeBus W] (fuel : Nat) (a : DiskArea) (res : Results) (r : Regs) :
    Triple P (fn00ResetDisk fuel a r : IdeM W Regs) fun r' _ => r.Agree res r' := by
  have hsame := Regs.Agree.refl res r
  unfold fn00ResetDisk
  split
  · exact errorReturn_agree hsame _
  · exact Triple.bind Triple.top fun _ => Triple.ite
      (fun _ => Triple.bind Triple.top fun _ => Triple.ite (fun _ => goodReturn_agree hsame)
        fun _ => Triple.bind Triple.top fun _ => goodReturn_agree hsame)
      fun _ => errorReturn_agree hsame _

theorem fn01_agree (res : Results) (r : Regs) :
    Triple P (fn01GetStatus r : IdeM W Regs) fun r' _ => r.Agree res r' :=
  Triple.bind Triple.top fun _ => Triple.pure fun _ _ =>
    ⟨fun _ => rfl, fun _ => ⟨rfl, rfl⟩, fun _ => ⟨rfl, rfl⟩, rfl⟩

theorem fn08_agree (a : DiskArea) (r : Regs) :
    Triple P (fn08GetDriveParameters a r : IdeM W Regs)
      fun r' _ => r.Agree ⟨false, true, true⟩ r' := by
  have hzero : r.Agree ⟨false, true, true⟩ { r with dl := 0 } :=
    ⟨fun _ => rfl, fun _ => ⟨rfl, rfl⟩, nofun, rfl⟩
  unfold fn08GetDriveParameters
  split
  · exact errorReturn_agree hzero _
  · refine Triple.ite (fun _ => errorReturn_agree hzero _) fun _ => ?_
    apply goodReturn_agree
    exact ⟨fun _ => rfl, nofun, nofun, rfl⟩

theorem fn15_agree (a : DiskArea) (r : Regs) :
    Triple P (fn15GetDiskType a r : IdeM W Regs) fun r' _ => r.Agree ⟨false, true, true⟩ r' := by
  unfold fn15GetDiskType
  split
  · exact errorReturn_agree (.refl _ r) _
  · apply goodReturnAH_agree
    exact ⟨fun _ => rfl, nofun, nofun, rfl⟩

theorem fn41_agree (a : DiskArea) (r : Regs) :
    Triple P (fn41CheckExtensionsPresent a r : IdeM W Regs)
      fun r' _ => r.Agree ⟨true, true, false⟩ r' := by
  have hsame := Regs.Agree.refl ⟨true, true, false⟩ r
  unfold fn41CheckExtensionsPresent
  split
  · exact errorReturn_agree hsame _
  · refine Triple.ite (fun _ => errorReturn_agree hsame _) fun _ =>
      Triple.ite (fun _ => errorReturn_agree hsame _) fun _ => ?_
    apply goodReturnAH_agree
    exact ⟨nofun, nofun, fun _ => ⟨rfl, rfl⟩, rfl⟩

theorem fn47_agree (a : DiskArea) (res : Results) (r : Regs) (p : Packet) :
    Triple P (fn47ExtendedSeek a r p : IdeM W Regs) fun r' _ => r.Agree res r' := by
  have hsame := Regs.Agree.refl res r
  unfold fn47ExtendedSeek
  split
  · exact errorReturn_agree hsame _
  · exact Triple.ite (fun _ => errorReturn_agree hsame _) fun _ =>
      Triple.ite (fun _ => errorReturn_agree hsame _) fun _ => goodReturn_agree hsame

theorem fn48_agree (a : DiskArea) (res : Results) (r : Regs) (q : ParamPacket) :
    Triple P (fn48GetDriveParameters a r q : IdeM W (Regs × ParamPacket))
      fun rq _ => r.Agree res rq.1 := by
  have hsame := Regs.Agree.refl res r
  have hbad : Triple P (do return (← retInvalidCommand r, q) : IdeM W (Regs × ParamPacket))
      fun rq _ => r.Agree res rq.1 :=
    (errorReturn_agree hsame _).bind fun _ => Triple.pure fun _ h => h
  unfold fn48GetDriveParameters
  split
  · exact hbad
  · exact Triple.ite (fun _ => hbad) fun _ => Triple.ite
      (fun _ => (goodReturn_agree hsame).bind fun _ => Triple.pure fun _ h => h)
      fun _ => (goodReturn_agree hsame).bind fun _ => Triple.pure fun _ h => h

/-- Every function keeps the lower halves, but for its results. -/
theorem int13h_agree [IdeBus W] (fuel : Nat) (a : DiskArea) (c : Call) :
    Triple P (int13h fuel a c : IdeM W Call) fun c' _ =>
      c.regs.Agree (results c.regs.ah) c'.regs := by
  have hcall : ∀ {res : Results} {p : IdeM W Regs},
      Triple P p (fun r' _ => c.regs.Agree res r') →
      Triple P (do return { c with regs := ← p } : IdeM W Call)
        fun c' _ => c.regs.Agree res c'.regs :=
    fun h => h.bind fun _ => Triple.pure fun _ h => h
  unfold int13h results
  simp only
  split
  · exact hcall (fn00_agree fuel a _ c.regs)
  · exact hcall (fn01_agree _ c.regs)
  · exact hcall (rwvCommon_agree _ a _ c.regs)
  · exact hcall (rwvCommon_agree _ a _ c.regs)
  · exact hcall (rwvCommon_agree _ a _ c.regs)
  · rename_i hah
    rw [hah]
    exact hcall (fn08_agree a c.regs)
  · rename_i hah
    rw [hah]
    exact hcall (fn15_agree a c.regs)
  · rename_i hah
    rw [hah]
    exact hcall (fn41_agree a c.regs)
  · exact (packetTransfer_agree _ a _ _ _).bind fun _ => Triple.pure fun _ h => h
  · exact (packetTransfer_agree _ a _ _ _).bind fun _ => Triple.pure fun _ h => h
  · exact (fn44_agree fuel a _ _ _).bind fun _ => Triple.pure fun _ h => h
  · exact hcall (fn47_agree a _ _ _)
  · exact (fn48_agree a _ _ _).bind fun _ => Triple.pure fun _ h => h
  · exact hcall (errorReturn_agree (.refl _ _) _)

end Frames

/-- What the caller had comes back, but for the results. -/
structure Caller.Preserved (c c' : Caller) : Prop where
  upper : c'.upper = c.upper
  lower : c.call.regs.Agree (results c.call.regs.ah) c'.call.regs
  si : c'.si = c.si
  di : c'.di = c.di
  bp : c'.bp = c.bp
  segments : c'.ds = c.ds ∧ c'.fs = c.fs ∧ c'.gs = c.gs

/-- The transfer by C:H:S of a drive with a driver, of an address it has: `EAX` has the number of
the sector then, and `ECX` and `EDX` are numbers below 65536. -/
def ChsSafe (a : DiskArea) (r : Regs) (u : Upper) : Prop :=
  ∀ dt, getDiskTable a r.dl = some (dt, 2) → dt.HasAddress r.ch r.cl r.dh →
    u.eax.toNat = dt.index r.ch r.cl r.dh / 65536 ∧ u.ecx = 0 ∧ u.edx = 0

/-- The upper halves are what the 32-bit instructions of the function leave in them, or it does
not come to one. -/
def UpperSafe (a : DiskArea) (c : Caller) : Prop :=
  let r := c.call.regs
  match r.ah.toNat with
  | 0x02 | 0x03 | 0x04 => ChsSafe a r c.upper
  | 0x15 => ∀ dt bx, getDiskTable a r.dl = some (dt, bx) → c.upper.eax = 0
  | 0x44 => ∀ dt, getDiskTable a r.dl = some (dt, 2) → pktRwValidate c.call.packet 2 = true →
      c.upper.eax = upper c.call.packet.diskLba
  | 0x47 => ∀ dt bx, getDiskTable a r.dl = some (dt, bx) →
      pktRwValidate c.call.packet bx = true → c.upper.eax = upper c.call.packet.diskLba
  | 0x48 => ∀ dt bx, getDiskTable a r.dl = some (dt, bx) → 26 ≤ c.call.param.paramSize →
      c.upper.eax = upper dt.maxLba
  | _ => True

section Upper

variable {W : Type}

theorem movEax_eq_iff (v : DWord) (u : Upper) : movEax v u = u ↔ u.eax = upper v := by
  obtain ⟨eax, ebx, ecx, edx, esi, edi, ebp⟩ := u
  simp only [movEax, Upper.mk.injEq, and_true]
  exact eq_comm

/-- The IDE driver is the only one. -/
theorem slot_eq_none_iff {drv : Driver W} {bx : Nat} :
    slot [none, none, some drv] bx = none ↔ bx ≠ 2 := by
  match bx with
  | 0 => simp [slot]
  | 1 => simp [slot]
  | 2 => simp [slot]
  | bx + 3 => simp [slot]

theorem rwvUpper_eq_iff (drv : Driver W) (a : DiskArea) (r : Regs) (u : Upper) :
    rwvUpper [none, none, some drv] a r u = u ↔ ChsSafe a r u := by
  unfold rwvUpper ChsSafe
  cases hdt : getDiskTable a r.dl with
  | none => simp
  | some t =>
      obtain ⟨dt, bx⟩ := t
      by_cases hbx : bx = 2
      · subst hbx
        have hslot : slot [none, none, some drv] 2 = some drv := rfl
        simp only [hslot]
        generalize hs : (CvRegs.mk (u.eax ++ (r.ah ++ r.al : Word))
          (u.ebx ++ BitVec.ofNat 16 (2 * 2)) (u.ecx ++ (r.ch ++ r.cl : Word))
          (u.edx ++ (r.dh ++ r.dl : Word))) = s
        have hspec := cvLba32_spec dt s
        rw [← hs] at hspec
        simp only [(bytes_append u.ecx r.ch r.cl).1, (bytes_append u.ecx r.ch r.cl).2,
          (bytes_append u.edx r.dh r.dl).1, upper_append] at hspec
        rw [hs] at hspec
        cases hcv : cvLba dt r.ch r.cl r.dh with
        | none =>
            rw [hcv] at hspec
            obtain ⟨-, heax, hebx, hecx, hedx⟩ := hspec
            rw [heax, hebx, hecx, hedx, upper_append, upper_append, upper_append]
            refine iff_of_true rfl fun dt' hdt' haddr => ?_
            cases hdt'
            obtain ⟨lba, hlba, -⟩ := haddr.cvLba
            rw [hcv] at hlba
            cases hlba
        | some lba =>
            rw [hcv] at hspec
            obtain ⟨-, heax, hebx, hecx, hedx⟩ := hspec
            obtain ⟨haddr, hindex⟩ := DiskTab.HasAddress.of_cvLba hcv
            have hiff : upper lba = u.eax ↔ u.eax.toNat = dt.index r.ch r.cl r.dh / 65536 := by
              rw [← hindex, ← toNat_upper]
              exact ⟨fun h => by rw [h], fun h => BitVec.eq_of_toNat_eq h.symm⟩
            rw [heax, hebx, hecx, hedx]
            constructor
            · intro hsame dt' hdt' _
              cases hdt'
              exact ⟨hiff.mp (congrArg Upper.eax hsame), (congrArg Upper.ecx hsame).symm,
                (congrArg Upper.edx hsame).symm⟩
            · intro hsafe
              obtain ⟨heax', hecx', hedx'⟩ := hsafe dt rfl haddr
              rw [hiff.mpr heax']
              cases u
              cases hecx'
              cases hedx'
              rfl
      · simp only [slot_eq_none_iff.mpr hbx]
        simp [hbx]

variable [IdeBus W]

theorem int13hUpper_eq_iff (fuel : Nat) (a : DiskArea) (c : Caller) :
    int13hUpper W fuel a c.call c.upper = c.upper ↔ UpperSafe a c := by
  obtain ⟨⟨r, p, q⟩, u, si, di, bp, ds, fs, gs⟩ := c
  have hread : ∀ (a : DiskArea) (r : Regs) (u : Upper),
      rwvUpper (readTab fuel : List (Option (Driver W))) a r u = u ↔ ChsSafe a r u :=
    rwvUpper_eq_iff _
  have hwrite : ∀ (a : DiskArea) (r : Regs) (u : Upper),
      rwvUpper (writeTab fuel : List (Option (Driver W))) a r u = u ↔ ChsSafe a r u :=
    rwvUpper_eq_iff _
  have hedx : ∀ v : DWord, upper (v >>> 16) = 0 := by
    intro v
    have hlt := v.isLt
    apply upper_eq_zero
    rw [BitVec.toNat_ushiftRight, Nat.shiftRight_eq_div_pow]
    omega
  have hlast : ∀ (v w : DWord) (u : Upper), movEax v (movEax w u) = movEax v u := fun _ _ _ => rfl
  simp only [int13hUpper, UpperSafe]
  split
  · exact hread a r u
  · exact hwrite a r u
  · exact hread a r u
  · unfold fn15Upper
    cases getDiskTable a r.dl with
    | none => simp
    | some t =>
        obtain ⟨dt, bx⟩ := t
        simp [hlast, movEax_eq_iff, hedx]
  · unfold fn44Upper
    cases getDiskTable a r.dl with
    | none => simp
    | some t =>
        obtain ⟨dt, bx⟩ := t
        by_cases hbx : bx = 2
        · subst hbx
          by_cases hvalid : pktRwValidate p 2 = true
          · have hslot : ∃ drv, slot (readTab fuel : List (Option (Driver W))) 2 = some drv :=
              ⟨_, rfl⟩
            obtain ⟨drv, hdrv⟩ := hslot
            simp [hvalid, hdrv, movEax_eq_iff]
          · simp [hvalid]
        · have hslot : slot (readTab fuel : List (Option (Driver W))) bx = none :=
            slot_eq_none_iff.mpr hbx
          simp [hslot, hbx]
  · unfold fn47Upper
    cases getDiskTable a r.dl with
    | none => simp
    | some t =>
        obtain ⟨dt, bx⟩ := t
        by_cases hvalid : pktRwValidate p bx = true
        · simp [hvalid, movEax_eq_iff]
        · simp [hvalid]
  · unfold fn48Upper
    cases getDiskTable a r.dl with
    | none => simp
    | some t =>
        obtain ⟨dt, bx⟩ := t
        simp only [hlast]
        by_cases hsize : q.paramSize < 26
        · rw [if_pos hsize]
          refine iff_of_true rfl fun _ _ _ hle => ?_
          rw [BitVec.le_def] at hle
          rw [BitVec.lt_def] at hsize
          omega
        · rw [if_neg hsize, movEax_eq_iff]
          rw [BitVec.lt_def, not_lt] at hsize
          constructor
          · intro heax dt' bx' hdt' _
            cases hdt'
            exact heax
          · intro hall
            exact hall dt bx rfl hsize
  · simp

end Upper

/-- **A call preserves the registers just if the upper halves are what its 32-bit instructions
leave in them**, whatever comes of it. -/
theorem int13h_preserved_iff {W : Type} [IdeBus W] {fuel : Nat} {a : DiskArea} {c c' : Caller}
    {h h' : Host W} (hr : Runs (int13h32 fuel a c) h c' h') :
    c.Preserved c' ↔ UpperSafe a c := by
  obtain ⟨call, h'', hcall, hpure⟩ := runs_bind.mp hr
  obtain ⟨rfl, rfl⟩ := runs_pure.mp hpure
  rw [← int13hUpper_eq_iff (W := W) fuel a c]
  exact ⟨fun hpres => hpres.upper, fun hupper =>
    ⟨hupper, int13h_agree fuel a c.call (P := fun _ => True) trivial hcall, rfl, rfl, rfl,
      rfl, rfl, rfl⟩⟩

/-- A caller with 1234h in the upper half of every register. -/
def benchCaller (ah : Byte) : Caller where
  call :=
    { regs := benchRegs ah 1 0x1000 0
      packet := ⟨16, 1, 0, 0x1000, 0, 0⟩
      param := ⟨30, 0, 0, 0, 0, 0, 0, 0, 0⟩ }
  upper := ⟨0x1234, 0x1234, 0x1234, 0x1234, 0x1234, 0x1234, 0x1234⟩
  si := 0
  di := 0
  bp := 0
  ds := 0
  fs := 0
  gs := 0

theorem int13h_preserved_fn08 :
    ∃ c' h', Runs (int13h32 91 benchArea (benchCaller 8)) (Host.bench .obliging) c' h' ∧
      ((benchCaller 8).Preserved c' ↔ UpperSafe benchArea (benchCaller 8)) := by
  have hr : ∃ c' h', Runs (int13h32 91 benchArea (benchCaller 8)) (Host.bench .obliging) c' h' :=
    ⟨_, _, rfl⟩
  obtain ⟨c', h', hr⟩ := hr
  exact ⟨c', h', hr, int13h_preserved_iff hr⟩

/-- Function 15h clears the upper half of `EAX`. -/
theorem not_int13h_preserved :
    ∃ c' h', Runs (int13h32 91 benchArea (benchCaller 0x15)) (Host.bench .obliging) c' h' ∧
      ¬ (benchCaller 0x15).Preserved c' := by
  refine ⟨_, _, rfl, fun hpres => ?_⟩
  have heax := congrArg Upper.eax hpres.upper
  revert heax
  decide

end Sbc386Ex.Int13

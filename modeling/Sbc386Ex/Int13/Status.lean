import Sbc386Ex.Int13.ChsBuffer
import Sbc386Ex.Int13.Dispatch
import Sbc386Ex.Lib.Hoare
import Sbc386Ex.Lib.Trace

/-!
# Sbc386Ex.Int13.Status

The status byte, and what function 01h says of the call before it.

Every way out but one, `good_return_AH`, records what the carry flag says: a code that
is not zero with it set, zero with it clear. That one is taken with a result in `AH`,
which is recorded as if it were a code.
-/

namespace Sbc386Ex.Int13

open Prog Ide

variable {W : Type} [IdeBus W] {fuel : Nat} {a : DiskArea}

/-- What function 01h has to answer, `q`, after a call that ended with `r`. -/
def StatusLaw (r q : Regs) : Prop :=
  if r.cf then q.cf = true ∧ q.ah = r.ah else q.cf = false ∧ q.ah = 0

/-- The calls that come back with a result in `AH`: the type of a drive there is, and the
version of the extensions where they can be had. -/
def AnswersInAH (a : DiskArea) (r : Regs) : Prop :=
  (r.ah = 0x15 ∧ (getDiskTable a r.dl).isSome) ∨
    (r.ah = 0x41 ∧ r.bx = 0x55AA ∧
      ∃ dt bx, getDiskTable a r.dl = some (dt, bx) ∧ dt.diskFlags &&& USE_LBA ≠ 0)

/-! ### The ways out -/

/-- The carry is set exactly for a code in `AH`, and `AH` is what was recorded. -/
def Filed (r : Regs) (h : Host W) : Prop :=
  h.hdStatus = r.ah ∧ (r.cf = true ↔ r.ah ≠ 0)

/-- `AH` is a result, and has been recorded all the same. -/
def Misfiled (r : Regs) (h : Host W) : Prop :=
  h.hdStatus = r.ah ∧ r.cf = false ∧ r.ah ≠ 0

omit [IdeBus W] in
theorem errorReturn_filed (r : Regs) {ah : Byte} (hah : ah ≠ 0) {P : Host W → Prop} :
    Triple P (errorReturn r ah) Filed := by
  intro h r' h' _ hr
  obtain ⟨rfl, rfl⟩ := (runs_errorReturn r ah h).det hr
  exact ⟨rfl, fun _ => hah, fun _ => rfl⟩

omit [IdeBus W] in
theorem goodReturn_filed (r : Regs) {P : Host W → Prop} : Triple P (goodReturn r) Filed := by
  intro h r' h' _ hr
  obtain ⟨rfl, rfl⟩ := (runs_goodReturn r h).det hr
  simp [Filed]

omit [IdeBus W] in
theorem goodReturnAH_misfiled (r : Regs) {ah : Byte} (hah : ah ≠ 0) {P : Host W → Prop} :
    Triple P (goodReturnAH r ah) Misfiled :=
  Triple.bind (Triple.modify (Q := fun _ h => h.hdStatus = ah) fun _ _ => rfl) fun _ =>
    Triple.pure fun _ hst => ⟨hst, rfl, hah⟩

omit [IdeBus W] in
theorem retInvalidCommand_filed (r : Regs) {P : Host W → Prop} :
    Triple P (retInvalidCommand r) Filed :=
  errorReturn_filed r (by decide)

omit [IdeBus W] in
theorem retSectorNotFound_filed (r : Regs) {P : Host W → Prop} :
    Triple P (retSectorNotFound r) Filed :=
  errorReturn_filed r (by decide)

/-! ### The drivers -/

/-- The `AX` of a driver: zero, or a code that is not zero in `AL`. -/
def Coded (ax : Word) : Prop := ax = 0 ∨ ∃ bl : Byte, bl ≠ 0 ∧ ax = bl.setWidth 16

theorem Coded.low {ax : Word} (h : Coded ax) (hax : ax ≠ 0) : (ax.setWidth 8 : Byte) ≠ 0 := by
  rcases h with rfl | ⟨bl, hbl, rfl⟩
  · exact absurd rfl hax
  · simpa using hbl

/-- A driver whose `AX` is always of that kind. -/
def DriverCodes (drv : Driver W) : Prop :=
  ∀ {P : Host W → Prop} al seg off lba n, Triple P (drv al seg off lba n) fun ax _ => Coded ax

theorem ideError_codes {P : Host W → Prop} : Triple P (ideError : IdeM W Word) fun ax _ => Coded ax := by
  have hcode : Triple P (ideErrorCode : IdeM W Byte) fun bl _ => bl ≠ 0 := by
    refine Triple.bind Triple.top fun ah => ?_
    refine Triple.ite (fun _ => Triple.pure fun _ _ => by decide) fun _ => ?_
    refine Triple.ite (fun _ => Triple.pure fun _ _ => by decide) fun _ => ?_
    refine Triple.ite (fun _ => Triple.pure fun _ _ => by decide) fun _ => ?_
    exact Triple.bind Triple.top fun al => Triple.pure fun _ _ => decodeError_ne_zero al
  refine hcode.bind fun bl => ?_
  exact Triple.bind (Triple.modify (Q := fun _ _ => bl ≠ 0) fun _ hbl => hbl) fun _ =>
    Triple.pure fun _ hbl => Or.inr ⟨bl, hbl, rfl⟩

theorem ideReadSector_codes (fuel : Nat) : DriverCodes (ideReadSector fuel : Driver W) := by
  intro P al seg off lba n
  refine Triple.ite (fun _ => Triple.pure fun _ _ => Or.inl rfl) fun _ => ?_
  refine Triple.bind Triple.top fun ready => ?_
  refine Triple.ite (fun _ => ?_) fun _ => ideError_codes
  refine Triple.bind Triple.top fun _ => Triple.bind Triple.top fun _ => ?_
  exact Triple.bind Triple.top fun ok =>
    Triple.ite (fun _ => Triple.pure fun _ _ => Or.inl rfl) fun _ => ideError_codes

theorem ideWriteSector_codes (fuel : Nat) : DriverCodes (ideWriteSector fuel : Driver W) := by
  intro P al seg off lba n
  refine Triple.ite (fun _ => Triple.pure fun _ _ => Or.inl rfl) fun _ => ?_
  refine Triple.bind Triple.top fun ready => ?_
  refine Triple.ite (fun _ => ?_) fun _ => ideError_codes
  refine Triple.bind Triple.top fun _ => Triple.bind Triple.top fun _ => ?_
  refine Triple.bind Triple.top fun ok => Triple.ite (fun _ => ?_) fun _ => ideError_codes
  exact Triple.bind Triple.top fun done =>
    Triple.ite (fun _ => Triple.pure fun _ _ => Or.inl rfl) fun _ => ideError_codes

/-- Every entry of a driver table. -/
theorem driverCodes_slot {tab : List (Option (Driver W))}
    (htab : tab = readTab fuel ∨ tab = writeTab fuel) {bx : Nat} {drv : Driver W}
    (hdrv : slot tab bx = some drv) : DriverCodes drv := by
  intro P al seg off lba n
  rcases htab with rfl | rfl
  · match bx, hdrv with
    | 2, hdrv => cases hdrv; exact ideReadSector_codes fuel al seg off lba n
  · match bx, hdrv with
    | 2, hdrv => cases hdrv; exact ideWriteSector_codes fuel al seg off lba n

omit [IdeBus W] in
theorem rwvLoop_codes {drv : Driver W} (hdrv : DriverCodes drv) (unit : Byte) (verify : Bool) :
    ∀ n lba seg off {P : Host W → Prop},
      Triple P (rwvLoop drv unit verify n lba seg off) fun r _ => Coded r.1 := by
  intro n
  induction n with
  | zero => exact fun _ _ _ _ => Triple.pure fun _ _ => Or.inl rfl
  | succ n ih =>
      intro lba seg off P
      refine (hdrv unit seg off lba 1).bind fun ax => ?_
      exact Triple.ite (fun _ => Triple.pure fun _ hax => hax) fun _ => ih _ _ _

/-! ### The functions -/

theorem rwvCommon_filed {tab : List (Option (Driver W))}
    (htab : tab = readTab fuel ∨ tab = writeTab fuel) (r : Regs) {P : Host W → Prop} :
    Triple P (rwvCommon tab a r) Filed := by
  unfold rwvCommon
  split
  · exact retInvalidCommand_filed _
  split
  · exact retInvalidCommand_filed _
  next drv hdrv =>
    split
    · exact retSectorNotFound_filed _
    · refine (rwvLoop_codes (driverCodes_slot htab hdrv) _ _ _ _ _ _).bind fun q => ?_
      refine Triple.assume fun hq => Triple.ite (fun hax => ?_) fun _ => goodReturn_filed _
      exact errorReturn_filed _ (hq.low hax)

omit [IdeBus W] in
/-- The registers of a packet call, beside the packet. -/
theorem filed_with {p : IdeM W Regs} {α : Type} {x : α} {P : Host W → Prop}
    (hp : Triple P p Filed) :
    Triple P (do return (← p, x)) fun rp h => Filed rp.1 h :=
  hp.bind fun _ => Triple.pure fun _ hf => hf

theorem packetTransfer_filed {tab : List (Option (Driver W))}
    (htab : tab = readTab fuel ∨ tab = writeTab fuel) (r : Regs) (p : Packet) {P : Host W → Prop} :
    Triple P (packetTransfer tab a r p) fun rp h => Filed rp.1 h := by
  unfold packetTransfer
  split
  · exact filed_with (retInvalidCommand_filed _)
  refine Triple.ite (fun _ => filed_with (retInvalidCommand_filed _)) fun _ => ?_
  split
  · exact filed_with (retInvalidCommand_filed _)
  next drv hdrv =>
    refine (driverCodes_slot htab hdrv _ _ _ _ _).bind fun ax => ?_
    refine Triple.assume fun hax => Triple.ite (fun _ => filed_with (goodReturn_filed _)) fun hal => ?_
    have hcode : (ax <<< 8).extractLsb' 8 8 ≠ 0 := by
      rcases hax with rfl | ⟨bl, hbl, rfl⟩
      · exact absurd rfl hal
      · rw [(shiftedCode bl).2.2]
        exact hbl
    exact filed_with (errorReturn_filed _ hcode)

theorem fn44VerifySector_filed (r : Regs) (p : Packet) {P : Host W → Prop} :
    Triple P (fn44VerifySector fuel a r p) fun rp h => Filed rp.1 h := by
  unfold fn44VerifySector
  split
  · exact filed_with (retInvalidCommand_filed _)
  refine Triple.ite (fun _ => filed_with (retInvalidCommand_filed _)) fun _ => ?_
  split
  · exact filed_with (retInvalidCommand_filed _)
  next drv hdrv =>
    refine (rwvLoop_codes (driverCodes_slot (Or.inl rfl) hdrv) _ _ _ _ _ _).bind fun q => ?_
    refine Triple.assume fun hq => Triple.ite (fun _ => filed_with (goodReturn_filed _)) fun hax => ?_
    exact filed_with (errorReturn_filed _ (hq.low hax))

theorem fn00ResetDisk_filed (r : Regs) {P : Host W → Prop} :
    Triple P (fn00ResetDisk fuel a r) Filed := by
  unfold fn00ResetDisk
  split
  · exact retInvalidCommand_filed _
  refine Triple.bind Triple.top fun ok => Triple.ite (fun _ => ?_) fun _ =>
    errorReturn_filed _ (by decide)
  refine Triple.bind Triple.top fun _ => Triple.ite (fun _ => goodReturn_filed _) fun _ => ?_
  exact Triple.bind Triple.top fun _ => goodReturn_filed _

omit [IdeBus W] in
theorem fn08GetDriveParameters_filed (r : Regs) {P : Host W → Prop} :
    Triple P (fn08GetDriveParameters a r) Filed := by
  unfold fn08GetDriveParameters
  split
  · exact retInvalidCommand_filed _
  · exact Triple.ite (fun _ => retInvalidCommand_filed _) fun _ => goodReturn_filed _

omit [IdeBus W] in
theorem fn47ExtendedSeek_filed (r : Regs) (p : Packet) {P : Host W → Prop} :
    Triple P (fn47ExtendedSeek a r p) Filed := by
  unfold fn47ExtendedSeek
  split
  · exact retInvalidCommand_filed _
  refine Triple.ite (fun _ => retInvalidCommand_filed _) fun _ => ?_
  exact Triple.ite (fun _ => retSectorNotFound_filed _) fun _ => goodReturn_filed _

omit [IdeBus W] in
theorem fn48GetDriveParameters_filed (r : Regs) (q : ParamPacket) {P : Host W → Prop} :
    Triple P (fn48GetDriveParameters a r q) fun rq h => Filed rq.1 h := by
  unfold fn48GetDriveParameters
  split
  · exact filed_with (retInvalidCommand_filed _)
  refine Triple.ite (fun _ => filed_with (retInvalidCommand_filed _)) fun _ => ?_
  exact Triple.ite (fun _ => filed_with (goodReturn_filed _)) fun _ =>
    filed_with (goodReturn_filed _)

/-- What is recorded once the call `c` has ended as `c'`. -/
def Recorded (a : DiskArea) (c c' : Call) (h : Host W) : Prop :=
  (AnswersInAH a c.regs → Misfiled c'.regs h) ∧ (¬ AnswersInAH a c.regs → Filed c'.regs h)

omit [IdeBus W] in
theorem fn15GetDiskType_recorded {r : Regs} (hah : r.ah = 0x15) {P : Host W → Prop} :
    Triple P (fn15GetDiskType a r) fun r' h =>
      (AnswersInAH a r → Misfiled r' h) ∧ (¬ AnswersInAH a r → Filed r' h) := by
  unfold fn15GetDiskType
  split
  · next hnone =>
    have hno : ¬ AnswersInAH a r := by simp [AnswersInAH, hah, hnone]
    exact (retInvalidCommand_filed _).post fun _ _ hf => ⟨fun hyes => absurd hyes hno, fun _ => hf⟩
  · next hsome =>
    have hyes : AnswersInAH a r := by simp [AnswersInAH, hah, hsome]
    exact (goodReturnAH_misfiled _ (by decide)).post fun _ _ hm =>
      ⟨fun _ => hm, fun hno => absurd hyes hno⟩

omit [IdeBus W] in
theorem fn41CheckExtensionsPresent_recorded {r : Regs} (hah : r.ah = 0x41) {P : Host W → Prop} :
    Triple P (fn41CheckExtensionsPresent a r) fun r' h =>
      (AnswersInAH a r → Misfiled r' h) ∧ (¬ AnswersInAH a r → Filed r' h) := by
  have hbad : ¬ AnswersInAH a r → Triple P (retInvalidCommand r) fun r' h =>
      (AnswersInAH a r → Misfiled r' h) ∧ (¬ AnswersInAH a r → Filed r' h) := fun hno =>
    (retInvalidCommand_filed _).post fun _ _ hf => ⟨fun hyes => absurd hyes hno, fun _ => hf⟩
  unfold fn41CheckExtensionsPresent
  split
  · next hnone => exact hbad (by simp [AnswersInAH, hah, hnone])
  next dt bx hsome =>
    refine Triple.ite (fun hmagic => hbad ?_) fun hmagic => ?_
    · rintro (⟨h15, -⟩ | ⟨-, hbx, -⟩)
      · rw [hah] at h15
        exact absurd h15 (by decide)
      · exact hmagic hbx
    refine Triple.ite (fun hlba => hbad ?_) fun hlba => ?_
    · simp [AnswersInAH, hah, hsome, hlba]
    · have hyes : AnswersInAH a r := Or.inr ⟨hah, not_not.mp hmagic, dt, bx, hsome, hlba⟩
      exact (goodReturnAH_misfiled _ (by decide)).post fun _ _ hm =>
        ⟨fun _ => hm, fun hno => absurd hyes hno⟩

omit [IdeBus W] in
/-- The registers of a call that answers nothing in `AH`, put back into it. -/
theorem recorded_plain {c : Call} (hno : ¬ AnswersInAH a c.regs) {α : Type} {p : IdeM W α}
    {f : α → Call} (hf : Triple (fun _ => True) p fun x h => Filed (f x).regs h) :
    Triple (fun _ => True) (p >>= fun x => pure (f x)) (Recorded a c) :=
  hf.bind fun _ => Triple.pure fun _ hfiled => ⟨fun hyes => absurd hyes hno, fun _ => hfiled⟩

/-- **One call.** -/
theorem int13h_recorded {c : Call} (hah : c.regs.ah ≠ 1) :
    Triple (fun _ => True) (int13h fuel a c : IdeM W Call) (Recorded a c) := by
  have hno : c.regs.ah.toNat ≠ 0x15 → c.regs.ah.toNat ≠ 0x41 → ¬ AnswersInAH a c.regs := by
    rintro h15 h41 (⟨hyes, -⟩ | ⟨hyes, -⟩)
    · exact h15 (congrArg BitVec.toNat hyes)
    · exact h41 (congrArg BitVec.toNat hyes)
  have hread : Triple (fun _ : Host W => True) (rwvCommon (readTab fuel) a c.regs) Filed :=
    rwvCommon_filed (Or.inl rfl) c.regs
  unfold int13h
  simp only
  split
  · next h => exact recorded_plain (hno (by simp [h]) (by simp [h])) (fn00ResetDisk_filed _)
  · next h => exact absurd (BitVec.eq_of_toNat_eq h) hah
  · next h => exact recorded_plain (hno (by simp [h]) (by simp [h])) hread
  · next h =>
    exact recorded_plain (hno (by simp [h]) (by simp [h])) (rwvCommon_filed (Or.inr rfl) _)
  · next h => exact recorded_plain (hno (by simp [h]) (by simp [h])) hread
  · next h => exact recorded_plain (hno (by simp [h]) (by simp [h])) (fn08GetDriveParameters_filed _)
  · next h =>
    exact (fn15GetDiskType_recorded (BitVec.eq_of_toNat_eq h)).bind fun _ =>
      Triple.pure fun _ hrec => hrec
  · next h =>
    exact (fn41CheckExtensionsPresent_recorded (BitVec.eq_of_toNat_eq h)).bind fun _ =>
      Triple.pure fun _ hrec => hrec
  · next h =>
    exact recorded_plain (hno (by simp [h]) (by simp [h])) (packetTransfer_filed (Or.inl rfl) _ _)
  · next h =>
    exact recorded_plain (hno (by simp [h]) (by simp [h])) (packetTransfer_filed (Or.inr rfl) _ _)
  · next h => exact recorded_plain (hno (by simp [h]) (by simp [h])) (fn44VerifySector_filed _ _)
  · next h => exact recorded_plain (hno (by simp [h]) (by simp [h])) (fn47ExtendedSeek_filed _ _)
  · next h =>
    exact recorded_plain (hno (by simp [h]) (by simp [h])) (fn48GetDriveParameters_filed _ _)
  · next h15 h41 _ _ _ _ _ => exact recorded_plain (hno h15 h41) (retInvalidCommand_filed _)

/-! ### A session -/

/-- A fixed-disk call of INT 13h, with the most recent call other than function 01h, and
what it came back with, kept beside the machine. -/
def StatusStep (fuel : Nat) (a : DiskArea) (s : Option (Call × Call) × Host W) (c : Call)
    (s' : Option (Call × Call) × Host W) : Prop :=
  ∃ c', Runs (int13h fuel a c) s.2 c' s'.2 ∧ s'.1 = if c.regs.ah = 1 then s.1 else some (c, c')

/-- Function 01h as `int_13h` calls it. -/
theorem int13h_getStatus {q q' : Call} {h h' : Host W} (hq : q.regs.ah = 1)
    (hr : Runs (int13h fuel a q) h q' h') :
    q'.regs.ah = h.hdStatus ∧ (q'.regs.cf = true ↔ h.hdStatus ≠ 0) ∧ h' = h := by
  unfold int13h at hr
  simp only [hq] at hr
  obtain ⟨r, h₁, hget, hpure⟩ := runs_bind.mp hr
  obtain ⟨s, h₂, hs, hr'⟩ := runs_bind.mp hget
  obtain ⟨rfl, rfl⟩ := runs_get.mp hs
  obtain ⟨rfl, rfl⟩ := runs_pure.mp hr'
  obtain ⟨rfl, rfl⟩ := runs_pure.mp hpure
  simp

/-- What is recorded stays so over a call of function 01h, and is renewed by any other. -/
theorem statusStep_recorded {s s' : Option (Call × Call) × Host W} {q : Call}
    (hs : ∀ c c', s.1 = some (c, c') → Recorded a c c' s.2) (hstep : StatusStep fuel a s q s') :
    ∀ c c', s'.1 = some (c, c') → Recorded a c c' s'.2 := by
  obtain ⟨q', hrun, hlast⟩ := hstep
  intro c c' hc
  by_cases hq : q.regs.ah = 1
  · rw [if_pos hq] at hlast
    rw [(int13h_getStatus hq hrun).2.2]
    exact hs c c' (hlast.symm.trans hc)
  · rw [if_neg hq, hc] at hlast
    cases hlast
    exact int13h_recorded hq trivial hrun

/-- **After any calls, function 01h tells how the last of them other than its own ended,
exactly if that one did not come back with a result in `AH`.** -/
theorem status_tells {h₀ h h' : Host W} {calls : List Call} {c c' q q' : Call}
    (hrun : Trace (StatusStep fuel a) (none, h₀) calls (some (c, c'), h)) (hq : q.regs.ah = 1)
    (hr : Runs (int13h fuel a q) h q' h') :
    StatusLaw c'.regs q'.regs ↔ ¬ AnswersInAH a c.regs := by
  have hrec : ∀ d d', some (c, c') = some (d, d') → Recorded a d d' h :=
    hrun.inv (I := fun s => ∀ d d', s.1 = some (d, d') → Recorded a d d' s.2)
      (fun _ _ hd => by cases hd) statusStep_recorded
  obtain ⟨hmis, hfiled⟩ := hrec c c' rfl
  obtain ⟨hah, hcf, -⟩ := int13h_getStatus hq hr
  rw [hah.symm] at hcf
  by_cases hans : AnswersInAH a c.regs
  · obtain ⟨hst, hclear, hne⟩ := hmis hans
    have hlie : ¬ StatusLaw c'.regs q'.regs := by
      simp only [StatusLaw, hclear, Bool.false_eq_true, if_false]
      rintro ⟨-, hzero⟩
      exact hne (hst.symm.trans (hah.symm.trans hzero))
    exact ⟨fun hlaw => absurd hlaw hlie, fun hno => absurd hans hno⟩
  · obtain ⟨hst, hiff⟩ := hfiled hans
    rw [← hah] at hst
    have htold : StatusLaw c'.regs q'.regs := by
      rw [← hst, ← hcf] at hiff
      rw [StatusLaw]
      cases hset : c'.regs.cf with
      | true => exact ⟨hiff.mp hset, hst⟩
      | false =>
          have hclear : q'.regs.cf = false := by
            rw [← Bool.not_eq_true, ← hiff, hset]
            decide
          refine ⟨hclear, not_not.mp fun hne => ?_⟩
          rw [hcf.mpr hne] at hclear
          cases hclear
    exact ⟨fun _ => hans, fun _ => htold⟩

/-! ### On the bench -/

/-- A call that transfers nothing. -/
def askCall (ah : Byte) : Call :=
  ⟨benchRegs ah 0 0 0, ⟨0, 0, 0, 0, 0, 0⟩, ⟨0, 0, 0, 0, 0, 0, 0, 0, 0⟩⟩

/-- The call `ah`, and function 01h after it. -/
def askAndStatus (ah : Byte) : IdeM Drive (Call × Call) := do
  let c ← int13h 0 benchArea (askCall ah)
  let q ← int13h 0 benchArea (askCall 1)
  return (c, q)

theorem askAndStatus_runs (ah : Byte) (hah : ah ≠ 1) {α : Type} {f : Call × Call → α} {v : α}
    (h : ((askAndStatus ah).run (Host.bench .obliging)).map (fun q => f q.1) = .ok v) :
    ∃ c' q' h₁ h₂,
      Trace (StatusStep 0 benchArea) (none, Host.bench .obliging) [askCall ah]
        (some (askCall ah, c'), h₁) ∧
      Runs (int13h 0 benchArea (askCall 1)) h₁ q' h₂ ∧ f (c', q') = v := by
  obtain ⟨⟨c, q⟩, h₂, hrun, hv⟩ := runs_of_eval h
  obtain ⟨c', h₁, hcall, hrest⟩ := runs_bind.mp hrun
  obtain ⟨q', h₃, hask, hpure⟩ := runs_bind.mp hrest
  obtain ⟨hcq, rfl⟩ := runs_pure.mp hpure
  cases hcq
  exact ⟨c, q, h₁, h₂, Trace.cons ⟨c, hcall, (if_neg hah).symm⟩ Trace.refl, hask, hv⟩

/-- Function 08h, for the drive parameters. -/
theorem status_tells_bench :
    ∃ c' q' h₁ h₂,
      Trace (StatusStep 0 benchArea) (none, Host.bench .obliging) [askCall 8]
        (some (askCall 8, c'), h₁) ∧
      Runs (int13h 0 benchArea (askCall 1)) h₁ q' h₂ ∧
      (StatusLaw c'.regs q'.regs ↔ ¬ AnswersInAH benchArea (askCall 8).regs) := by
  obtain ⟨c', q', h₁, h₂, hrun, hask, -⟩ := askAndStatus_runs 8 (by decide)
    (f := fun q => q.1.regs.cf) (v := false) (by decide +kernel)
  exact ⟨c', q', h₁, h₂, hrun, hask, status_tells hrun rfl hask⟩

/-- Function 15h says there is a drive, and function 01h then that something went wrong. -/
theorem status_lies :
    ∃ c' q' h₁ h₂,
      Trace (StatusStep 0 benchArea) (none, Host.bench .obliging) [askCall 0x15]
        (some (askCall 0x15, c'), h₁) ∧
      Runs (int13h 0 benchArea (askCall 1)) h₁ q' h₂ ∧ ¬ StatusLaw c'.regs q'.regs := by
  obtain ⟨c', q', h₁, h₂, hrun, hask, hv⟩ := askAndStatus_runs 0x15 (by decide)
    (f := fun q => (q.1.regs.cf, q.2.regs.cf)) (v := (false, true)) (by decide +kernel)
  simp only [Prod.mk.injEq] at hv
  obtain ⟨hgood, hbad⟩ := hv
  refine ⟨c', q', h₁, h₂, hrun, hask, ?_⟩
  simp [StatusLaw, hgood, hbad]

end Sbc386Ex.Int13

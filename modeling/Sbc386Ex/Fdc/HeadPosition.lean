import Sbc386Ex.Lib.Trace
import Sbc386Ex.Fdc.DiskFdc

/-!
# Sbc386Ex.Fdc.HeadPosition

Where the BIOS floppy driver's heads are. `fd_seek` keeps no cylinder, only a bit a drive
for "its head may be anywhere", and takes a seek to cylinder 0 for done when the bit is
clear. So it is right about the head in every run in which no request for cylinder 0 finds
the bit clear and the head elsewhere, and only then about what a format overwrites.
-/

namespace Sbc386Ex.Fdc.DiskFdc

open Prog Spindle

variable {S : List Sought} {T : List Access} {Y : (Fin 4 → Spindle) → Prop} {fuel : Nat}

/-- The good seeks so far. -/
def Sofar (S : List Sought) (b : Bda) : Prop := b.sought = S

/-- Nothing but `fd_seek` changes them. -/
theorem setVars_sofar {f : Bda → Bda} (hf : ∀ b, (f b).sought = b.sought) :
    Triple (Rest (Sofar S) T Y) (setVars f) fun _ => Rest (Sofar S) T Y :=
  setVars_spec fun b hb => (hf b).trans hb

/-! ### The waits -/

theorem fdWait_waits (fuel : Nat) : Waits (fdWait fuel) := by
  intro V T Y cmd res busy hY want
  refine (readClock_spec hY).bind fun t0 => .loop ?_ fuel
  refine (inMsr_spec hY).bind fun msr => .ite (fun _ => .pure fun h hh => hh) fun _ => ?_
  refine (readClock_spec hY).bind fun t => .ite (fun _ => .pure fun h hh => hh) fun _ => ?_
  exact letGo_spec.bind fun _ => .pure fun h hh => hh

theorem fdSeekDone_spec {V : Bda → Prop} {d : Fin 4} {k : Byte} :
    Triple (Rest V T fun drive => Faithful drive ∧ (drive d).Toward k) (fdSeekDone fuel d)
      fun r h => match r with
      | none => Rest V T Faithful h
      | some (st0, pcn) => Rest V T (fun drive =>
          Faithful drive ∧ (st0 &&& 0xC0 = 0 ∧ pcn = k → (drive d).Still k)) h := by
  have hY : Lasting fun drive => Faithful drive ∧ (drive d).Toward k :=
    lasting_faithful.and (lasting_toward d k)
  refine (readClock_spec hY).bind fun t0 => .loop ?_ fuel
  refine (senseWith_sent (fdWait_waits fuel)).bind fun r => ?_
  cases r with
  | none => exact .pure fun h hh => hh
  | some a =>
      obtain ⟨st0, pcn⟩ := a
      refine .ite (fun hfor => .pure fun h hh => ?_) fun _ => ?_
      · exact hh.mono (fun _ hv => hv) fun _ hd =>
          ⟨hd.1.1, fun hk => hd.2 ⟨hfor.1, hfor.2, hk.1, hk.2⟩⟩
      · refine (readClock_spec (hY.and (lasting_tells d k st0 pcn))).bind fun t => ?_
        refine .ite (fun _ => .pure fun h hh => ?_) fun _ => .pure fun h hh => ?_
        · exact hh.mono (fun _ hv => hv) fun _ hd => hd.1
        · exact hh.mono (fun _ hv => hv) fun _ hd => hd.1.1

theorem unitOf_driveByte (d : Fin 4) : unitOf (driveByte d) = d := by
  revert d
  decide

/-! ### The latch, the motor and the reset -/

variable {V : Bda → Prop}

/-- What a routine may change of the data area: anything but what `V` looks at. -/
structure Untouched (V : Bda → Prop) : Prop where
  latch : ∀ b v, V b → V { b with motorStatus := v }
  motor : ∀ b v, V b → V { b with motorCount := v }

theorem fdLatchBits_spec (hV : Untouched V) (hY : Lasting Y) (clear set : Byte) :
    Triple (Rest V T Y) (fdLatchBits clear set) fun _ => Rest V T Y := by
  refine getVars_spec.bind fun b => .and_pre fun _ => ?_
  exact (setVars_spec fun v hv => hV.latch v _ hv).bind fun _ => outLatch_rest hY _

theorem fdMotorOn_spec (hV : Untouched V) (hY : Lasting Y) (d : Fin 4) (fdtype : FdType) :
    Triple (Rest V T Y) (fdMotorOn fuel d fdtype) fun _ => Rest V T Y := by
  have hcount : Triple (Rest V T Y) (setVars fun b => { b with motorCount := FD_MOTOR_TIME })
      fun _ => Rest V T Y := setVars_spec fun v hv => hV.motor v _ hv
  have hspin : ∀ t0, Triple (Rest V T Y) (loop .outOfFuel (fdSpinupRound t0) fuel)
      fun _ => Rest V T Y := fun t0 => .loop
    ((readClock_spec hY).bind fun t =>
      .ite (fun _ => .pure fun h hh => hh) fun _ => .pure fun h hh => hh) fuel
  refine getVars_spec.bind fun b => .and_pre fun _ => .ite (fun _ => ?_) fun _ => hcount
  refine Triple.bind ?_ fun _ => hcount.bind fun _ => (readClock_spec hY).bind fun t0 =>
    (hspin t0).bind fun _ => hcount
  exact (setVars_spec fun v hv => hV.latch v _ hv).bind fun _ => outLatch_rest hY _

theorem untouched_sofar : Untouched (Sofar S) := ⟨fun _ _ h => h, fun _ _ h => h⟩

/-- Every interrupt a reset left is answered for, or the reset has failed. -/
theorem fdCollect_spec : ∀ n : Nat, Triple (Rest V T Faithful) (fdCollect fuel n)
    fun _ => Rest V T Faithful
  | 0 => .pure fun h hh => hh
  | n + 1 => by
      have hsense : Triple (Rest V T Faithful) (fdSense fuel) fun _ => Rest V T Faithful :=
        senseWith_rest (fdWait_waits fuel) lasting_faithful fun _ hf => hf
      refine hsense.bind fun r => ?_
      cases r with
      | none => exact .pure fun h hh => hh
      | some a => exact fdCollect_spec n

theorem fdFail_spec (rc : Byte) :
    Triple (Rest (Sofar S) T Y) (fdFail rc) fun r h => r = rc ∧ Rest (Sofar S) T Y h :=
  (setVars_sofar (by intro b; rfl)).bind fun _ => .pure fun h hh => ⟨rfl, hh⟩

theorem fdReset_spec :
    Triple (Rest (Sofar S) T Faithful) (fdReset fuel) fun _ => Rest (Sofar S) T Faithful := by
  have hlatch := fdLatchBits_spec (T := T) (untouched_sofar (S := S)) lasting_faithful
  have hfail : ∀ rc, Triple (Rest (Sofar S) T Faithful) (fdFail rc)
      fun _ => Rest (Sofar S) T Faithful := fun rc => (fdFail_spec rc).post fun _ _ h => h.2
  have hdelay : ∀ n, Triple (Rest (Sofar S) T Faithful) (fdDelay n)
      fun _ => Rest (Sofar S) T Faithful := by
    intro n
    induction n with
    | zero => exact .pure fun h hh => hh
    | succ n ih => exact (inMsr_spec lasting_faithful).bind fun _ => ih
  have hwait : ∀ t0, Triple (Rest (Sofar S) T Faithful) (loop .outOfFuel (fdResetRound t0) fuel)
      fun _ => Rest (Sofar S) T Faithful := fun t0 => .loop
    ((inMsr_spec lasting_faithful).bind fun _ => .ite (fun _ => .pure fun h hh => hh) fun _ =>
      (readClock_spec lasting_faithful).bind fun _ =>
        .ite (fun _ => .pure fun h hh => hh) fun _ => .pure fun h hh => hh) fuel
  refine (hlatch _ _).bind fun _ => (hdelay 200).bind fun _ => (hlatch _ _).bind fun _ => ?_
  refine (readClock_spec lasting_faithful).bind fun t0 => (hwait t0).bind fun _ => ?_
  refine .ite (fun _ => hfail _) fun _ => (fdCollect_spec 4).bind fun _ => ?_
  refine .ite (fun _ => hfail _) fun _ => ?_
  refine (specifyWith_spec lasting_faithful (fdWait_waits fuel)).bind fun _ => ?_
  refine .ite (fun _ => hfail _) fun _ => ?_
  exact (setVars_sofar (by intro b; rfl)).bind fun _ => .pure fun h hh => hh

/-! ### The seek -/

/-- The good seeks so far, and whether drive `d` is known to need recalibrating. -/
def Known (S : List Sought) (d : Fin 4) (r : Prop) (b : Bda) : Prop :=
  b.sought = S ∧ (b.seekStatus &&& FD_RECAL d ≠ 0 ↔ r)

/-- The rate bits are not the recalibrate bits. -/
theorem known_formatRate {d : Fin 4} {r : Prop} {fdtype : FdType} {nsec : Word} {b : Bda}
    (hb : Known S d r b) : Known S d r (fdFormatRate d fdtype nsec b) := by
  have hmask : ∀ d : Fin 4, ~~~(FD_ALTRATE d) &&& FD_RECAL d = FD_RECAL d ∧ FD_ALTRATE d &&& FD_RECAL d = 0 := by
    decide
  have hclear : ∀ (s : Byte) (d : Fin 4),
      (s &&& ~~~(FD_ALTRATE d)) &&& FD_RECAL d = s &&& FD_RECAL d := fun s d => by
    rw [BitVec.and_assoc, (hmask d).1]
  have hset : ∀ (s : Byte) (d : Fin 4),
      (s ||| FD_ALTRATE d) &&& FD_RECAL d = s &&& FD_RECAL d := fun s d => by
    rw [BitVec.and_or_distrib_right, (hmask d).2]
    exact BitVec.or_zero
  by_cases hrate : fdRate fdtype = if 15 ≤ nsec.toInt then 0 else L_MINI
  · rw [fdFormatRate, if_pos hrate]
    exact ⟨hb.1, by rw [← hb.2]; show _ &&& _ ≠ _ ↔ _; rw [hclear]⟩
  · rw [fdFormatRate, if_neg hrate]
    exact ⟨hb.1, by rw [← hb.2]; show _ &&& _ ≠ _ ↔ _; rw [hset]⟩

theorem untouched_known {d : Fin 4} {r : Prop} : Untouched (Known S d r) :=
  ⟨fun _ _ h => h, fun _ _ h => h⟩

theorem fdRecal_spec {d : Fin 4} : ∀ (n : Nat) (st0 pcn : Byte),
    Triple (Rest (Sofar S) T fun drive =>
        Faithful drive ∧ (n = 0 → st0 &&& 0xC0 = 0 ∧ pcn = 0 → (drive d).Still 0))
      (fdRecal fuel d st0 pcn n) fun r h => match r with
      | none => Rest (Sofar S) T Faithful h
      | some (st0, pcn) => Rest (Sofar S) T (fun drive =>
          Faithful drive ∧ (st0 &&& 0xC0 = 0 ∧ pcn = 0 → (drive d).Still 0)) h
  | 0, _, _ => .pure fun h hh => hh.mono (fun _ hv => hv) fun _ hd => ⟨hd.1, hd.2 rfl⟩
  | n + 1, st0, pcn => by
      have hsend : Triple (Rest (Sofar S) T Faithful) (fdOuts fuel [0x07, driveByte d]) _ :=
        sendWith_recalibrate (fdWait_waits fuel) (unitOf_driveByte d)
      have hnote : Triple (Rest (Sofar S) T Faithful) (fdNoteSeek 0 0)
          fun _ => Rest (Sofar S) T Faithful := setVars_sofar fun _ => rfl
      refine (hsend.pre fun h hh => Holds.mono hh (fun _ hv => hv) fun _ hd => hd.1).bind fun ok => ?_
      cases ok with
      | false => exact hnote.bind fun _ => .pure fun h hh => hh
      | true =>
          refine fdSeekDone_spec.bind fun r => ?_
          cases r with
          | none => exact hnote.bind fun _ => .pure fun h hh => hh
          | some a =>
              obtain ⟨st0', pcn'⟩ := a
              refine .ite (fun _ => .pure fun h hh => hh) fun hbad => ?_
              refine (fdRecal_spec n st0' pcn').pre fun h hh =>
                hh.mono (fun _ hv => hv) fun _ hd => ⟨hd.1, fun _ hgood => absurd hgood hbad⟩

/-- The second byte of a command, of a head given as an `int`. -/
def headDrive (head : Word) (d : Fin 4) : Byte := (head <<< 2).setWidth 8 ||| driveByte d

theorem headDrive_eq (head : Word) (d : Fin 4) :
    headDrive head d = (head.setWidth 8) <<< 2 ||| driveByte d := by
  rw [headDrive, BitVec.setWidth_shiftLeft_of_le (by decide)]

theorem unitOf_headDrive (head : Word) (d : Fin 4) : unitOf (headDrive head d) = d := by
  have hdrive : (driveByte d).toNat % 2 ^ 2 = d.val := by
    revert d
    decide
  have hhead : ((head.setWidth 8) <<< 2).toNat % 2 ^ 2 = 0 := by
    rw [BitVec.toNat_shiftLeft, Nat.shiftLeft_eq]
    omega
  refine Fin.ext ?_
  show (headDrive head d).toNat % 2 ^ 2 = d.val
  rw [headDrive_eq, BitVec.toNat_or, Nat.or_mod_two_pow, hdrive, hhead, Nat.zero_or]

/-- HD carries the low bit of the head and nothing else of it. -/
theorem side_headDrive (head : Word) (d : Fin 4) :
    (headDrive head d >>> 2) &&& 1 = head.setWidth 8 &&& 1 := by
  have hdrive : driveByte d >>> 2 = 0#8 := by
    revert d
    decide
  have hhead : ∀ b : Byte, (b <<< 2) >>> 2 &&& 1 = b &&& 1 := by decide +kernel
  rw [headDrive_eq, BitVec.ushiftRight_or_distrib, hdrive, BitVec.or_zero, hhead]

theorem fdSeekTo_spec {d : Fin 4} {head cyl : Word} :
    Triple (Rest (Sofar S) T fun drive => Faithful drive ∧ (cyl = 0 → (drive d).Still 0))
      (fdSeekTo fuel d head cyl) fun rc => Rest (Sofar S) T fun drive =>
        Faithful drive ∧ (rc = NO_ERROR → (drive d).Still (cyl.setWidth 8)) := by
  have hlost : ∀ {rc : Byte}, rc ≠ NO_ERROR → ∀ {h : Host Bda}, Rest (Sofar S) T Faithful h →
      Rest (Sofar S) T (fun drive =>
        Faithful drive ∧ (rc = NO_ERROR → (drive d).Still (cyl.setWidth 8))) h :=
    fun hrc h hh => hh.mono (fun _ hv => hv) fun _ hd => ⟨hd, fun h0 => absurd h0 hrc⟩
  have hnote : ∀ a b, Triple (Rest (Sofar S) T Faithful) (fdNoteSeek a b)
      fun _ => Rest (Sofar S) T Faithful := fun a b => setVars_sofar fun _ => rfl
  refine .ite (fun h0 => .pure fun h hh => ?_) fun _ => ?_
  · subst h0
    exact hh.mono (fun _ hv => hv) fun _ hd => ⟨hd.1, fun _ => hd.2 rfl⟩
  have hsend : Triple (Rest (Sofar S) T Faithful)
      (fdOuts fuel [0x0F, headDrive head d, cyl.setWidth 8]) _ :=
    sendWith_seek (fdWait_waits fuel) (unitOf_headDrive head d)
  refine (hsend.pre fun h hh => hh.mono (fun _ hv => hv) fun _ hd => hd.1).bind fun ok => ?_
  cases ok with
  | false => exact .pure fun h hh => hlost (by decide) hh
  | true =>
      refine fdSeekDone_spec.bind fun r => ?_
      cases r with
      | none => exact (hnote 0 0).bind fun _ => .pure fun h hh => hlost (by decide) hh
      | some a =>
          obtain ⟨st0, pcn⟩ := a
          refine .ite (fun _ => ?_) fun hgood => .pure fun h hh => ?_
          · refine Triple.bind ((hnote st0 pcn).pre fun h hh =>
              hh.mono (fun _ hv => hv) fun _ hd => hd.1) fun _ => ?_
            refine Triple.bind (setVars_sofar (by intro b; rfl)) fun _ => ?_
            exact .pure fun h hh => hlost (by decide) hh
          · refine hh.mono (fun _ hv => hv) fun _ hd => ⟨hd.1, fun _ => hd.2 ?_⟩
            exact ⟨not_not.mp fun h => hgood (.inl h), not_not.mp fun h => hgood (.inr h)⟩

/-- **`fd_seek`.** Asked for cylinder 0 with the recalibrate bit clear, it is right only if
the head is there already; otherwise a good return means the head is where it was sent. -/
theorem fdSeekBody_spec {d : Fin 4} {head cyl : Word} {r : Prop} :
    Triple (Rest (Known S d r) T fun drive =>
        Faithful drive ∧ (cyl = 0 → ¬ r → (drive d).Still 0))
      (fdSeekBody fuel d head cyl) fun rc => Rest (Sofar S) T fun drive =>
        Faithful drive ∧ (rc = NO_ERROR → (drive d).Still (cyl.setWidth 8)) := by
  refine getVars_spec.bind fun b => .and_pre fun hb => .ite (fun hbit => ?_) fun hbit => ?_
  · refine ((fdRecal_spec 2 0 0).pre fun h hh => hh.mono (fun _ hv => hv.1) fun _ hd =>
      ⟨hd.1, fun h2 => by cases h2⟩).bind fun a => ?_
    cases a with
    | none =>
        refine .pure fun h hh => hh.mono (fun _ hv => hv) fun _ hd => ⟨hd, fun h0 => ?_⟩
        exact absurd h0 (by decide)
    | some a =>
        obtain ⟨st0, pcn⟩ := a
        refine .ite (fun _ => ?_) fun hgood => ?_
        · have hnote : Triple (Rest (Sofar S) T fun drive => Faithful drive ∧
              (st0 &&& 0xC0 = 0 ∧ pcn = 0 → (drive d).Still 0)) (fdNoteSeek st0 pcn)
              fun _ => Rest (Sofar S) T _ := setVars_sofar fun _ => rfl
          refine hnote.bind fun _ => .pure fun h hh => hh.mono (fun _ hv => hv) fun _ hd => ?_
          exact ⟨hd.1, fun h0 => absurd h0 (by decide)⟩
        · refine Triple.bind (setVars_sofar (by intro b; rfl)) fun _ => ?_
          refine fdSeekTo_spec.pre fun h hh => hh.mono (fun _ hv => hv) fun _ hd =>
            ⟨hd.1, fun _ => hd.2 ?_⟩
          exact ⟨not_not.mp fun h => hgood (.inl h), not_not.mp fun h => hgood (.inr h)⟩
  · refine fdSeekTo_spec.pre fun h hh => hh.mono (fun _ hv => hv.1) fun _ hd =>
      ⟨hd.1, fun h0 => hd.2 h0 fun hr => ?_⟩
    exact hbit (hb.2.mpr hr)

/-- The good seeks after a seek that returned `rc`. -/
def noted (S : List Sought) (d : Fin 4) (cyl : Word) (rc : Byte) : List Sought :=
  S ++ if rc = NO_ERROR then [⟨d, cyl, cyl.setWidth 8⟩] else []

theorem fdSeek_spec {d : Fin 4} {head cyl : Word} {r : Prop} :
    Triple (Rest (Known S d r) T fun drive =>
        Faithful drive ∧ (cyl = 0 → ¬ r → (drive d).Still 0))
      (fdSeek fuel d head cyl) fun rc => Rest (Sofar (noted S d cyl rc)) T fun drive =>
        Faithful drive ∧ (rc = NO_ERROR → (drive d).Still (cyl.setWidth 8)) := by
  refine fdSeekBody_spec.bind fun rc => ?_
  have hnote : Triple (Rest (Sofar S) T fun drive =>
        Faithful drive ∧ (rc = NO_ERROR → (drive d).Still (cyl.setWidth 8)))
      (noteSought d cyl rc) fun _ => Rest (Sofar (noted S d cyl rc)) T fun drive =>
        Faithful drive ∧ (rc = NO_ERROR → (drive d).Still (cyl.setWidth 8)) := by
    refine .modify fun h hh => ?_
    have hsofar : h.vars.sought = S := hh.vars
    by_cases hrc : rc = NO_ERROR
    · have hhead : (h.card.drive d).head = cyl.setWidth 8 := (hh.drives.2 hrc).1
      rw [if_pos hrc]
      refine ⟨?_, hh.taken, hh.drives, hh.command, hh.result, hh.busy⟩
      show h.vars.sought ++ _ = _
      rw [noted, if_pos hrc, hsofar, hhead]
    · rw [if_neg hrc]
      refine hh.mono (fun _ hv => ?_) fun _ hd => hd
      rw [Sofar, noted, if_neg hrc, List.append_nil]
      exact hv
  exact hnote.bind fun _ => .pure fun h hh => hh

/-! ### One sector, one track -/

theorem fdResult_spec : Triple (Answering (Sofar S) T Faithful 7) (fdResult fuel)
    fun _ => Rest (Sofar S) T Faithful := by
  have hread : Triple (Answering (Sofar S) T Faithful 7)
      (resultWith (fdWait fuel) fdStoreResult (List.finRange 7))
      fun _ => Rest (Sofar S) T Faithful :=
    resultWith_spec lasting_faithful (fdWait_waits fuel) (by intro i b v hv; exact hv)
      (List.finRange 7)
  refine hread.bind fun ok => ?_
  cases ok with
  | false => exact .pure fun h hh => hh
  | true => exact getVars_spec.bind fun b => .and_pre fun _ => .pure fun h hh => hh

/-- TC ends the data phase. -/
theorem fdPulseTc_spec : Triple (Holds (Sofar S) T Faithful [] [] true) fdPulseTc
    fun _ => Answering (Sofar S) T Faithful 7 := by
  have hset : ∀ {busy v}, Triple (fun h => ∃ result, result.length ≤ 7 ∧
        Holds (Sofar S) T Faithful [] result busy h)
      (setVars fun b => { b with motorStatus := v })
      fun _ h => ∃ result, result.length ≤ 7 ∧ Holds (Sofar S) T Faithful [] result busy h := by
    intro busy v
    refine .modify ?_
    rintro h ⟨result, hlen, hh⟩
    exact ⟨result, hlen, { hh with vars := hh.vars }⟩
  have hbits : ∀ {busy clear set}, (busy = false ∨ ∀ v : Byte, ((v &&& ~~~clear) ||| set) &&& 1 ≠ 0) →
      Triple (fun h => ∃ result, result.length ≤ 7 ∧
        Holds (Sofar S) T Faithful [] result busy h) (fdLatchBits clear set)
        fun _ => Answering (Sofar S) T Faithful 7 := by
    intro busy clear set hend
    have hget : Triple (fun h => ∃ result, result.length ≤ 7 ∧
        Holds (Sofar S) T Faithful [] result busy h) getVars
        fun _ h => ∃ result, result.length ≤ 7 ∧ Holds (Sofar S) T Faithful [] result busy h :=
      .exists_pre fun result => .and_pre fun hlen =>
        getVars_spec.post fun _ h hh => ⟨result, hlen, hh.2⟩
    refine hget.bind fun b => hset.bind fun _ => outLatch_answering lasting_faithful _ ?_
    exact hend.imp id fun htc => htc _
  have htc : ∀ v : Byte, ((v &&& ~~~(0 : Byte)) ||| L_TC) &&& 1 ≠ 0 := by decide +kernel
  refine Triple.bind ((hbits (.inr htc)).pre fun h hh => ⟨[], Nat.zero_le _, hh⟩) fun _ => ?_
  exact hbits (.inl rfl)

/-- What a call that seeks drive `d` to `cyl` may have added: its own good seek, and the one
access it makes, there. -/
def Added (S : List Sought) (T : List Access) (d : Fin 4) (cyl : Word) (bytes : List Byte)
    (h : Host Bda) : Prop :=
  ∃ S' T', (S' = [] ∨ S' = [⟨d, cyl, cyl.setWidth 8⟩]) ∧
    (T' = [] ∨ T' = [⟨bytes, cyl.setWidth 8⟩]) ∧ Rest (Sofar (S ++ S')) (T ++ T') Faithful h

section Transfers

variable {d : Fin 4} {cyl head : Word} {bytes : List Byte} {r : Prop}

/-- What the drivers do after the data phase, however it went: the result phase, and the
variables set from it. -/
theorem fdTail_spec {rc : Pio} {rest : Byte → BiosM Byte}
    (hrest : ∀ rc, Triple (Rest (Sofar S) T Faithful) (rest rc) fun _ => Rest (Sofar S) T Faithful) :
    Triple (Holds (Sofar S) T Faithful [] [] true) (do
      fdPulseTc
      if rc = .dead then
        fdLost d
        let _ ← fdResult fuel
        fdFail TIME_OUT
      else do
        let rc ← fdResult fuel
        rest rc) fun _ => Rest (Sofar S) T Faithful := by
  have hlost : Triple (Answering (Sofar S) T Faithful 7) (fdLost d)
      fun _ => Answering (Sofar S) T Faithful 7 := by
    refine .modify ?_
    rintro h ⟨result, hlen, hh⟩
    exact ⟨result, hlen, { hh with vars := hh.vars }⟩
  refine fdPulseTc_spec.bind fun _ => .ite (fun _ => ?_) fun _ => fdResult_spec.bind hrest
  exact hlost.bind fun _ => fdResult_spec.bind fun _ => (fdFail_spec _).post fun _ _ h => h.2

/-- A call that has set the motor going: seek, SPECIFY, the command, and `tail` when it was
taken. -/
theorem fdAccess_spec {tail : BiosM Byte} (hne : bytes ≠ [])
    (hlen : bytes.length = (Op.decode (bytes.getD 0 0)).length)
    (hop : Op.decode (bytes.getD 0 0) = .write ∨ Op.decode (bytes.getD 0 0) = .read ∨
      Op.decode (bytes.getD 0 0) = .format)
    (hunit : unitOf (bytes.getD 1 0) = d)
    (htail : ∀ S T, Triple (Holds (Sofar S) T Faithful [] [] true) tail
      fun _ => Rest (Sofar S) T Faithful) :
    Triple (Rest (Known S d r) T fun drive =>
        Faithful drive ∧ (cyl = 0 → ¬ r → (drive d).Still 0)) (do
      let rc ← fdSeek fuel d head cyl
      if rc ≠ NO_ERROR then fdFail rc
      else if !(← fdSpecify fuel) then fdFail TIME_OUT
      else if !(← fdOuts fuel bytes) then fdFail TIME_OUT
      else tail) fun _ => Added S T d cyl bytes := by
  have hfail : ∀ {S' Y} rc, (S' = [] ∨ S' = [⟨d, cyl, cyl.setWidth 8⟩]) →
      (∀ dr, Y dr → Faithful dr) →
      Triple (Rest (Sofar (S ++ S')) T Y) (fdFail rc) fun _ => Added S T d cyl bytes := by
    refine fun {S' Y} rc hS hY => (fdFail_spec rc).post fun a h hh => ⟨S', [], hS, .inl rfl, ?_⟩
    rw [List.append_nil]
    exact hh.2.mono (fun _ hv => hv) hY
  refine fdSeek_spec.bind fun rc => .ite (fun hrc => ?_) fun hrc => ?_
  · rw [noted, if_neg hrc]
    exact hfail rc (.inl rfl) fun _ hd => hd.1
  obtain rfl : rc = NO_ERROR := not_not.mp hrc
  rw [noted, if_pos rfl]
  have hY : Lasting fun drive => Faithful drive ∧ (drive d).Still (cyl.setWidth 8) :=
    lasting_faithful.and (lasting_still d _)
  refine Triple.pre (P := Rest (Sofar (S ++ [⟨d, cyl, cyl.setWidth 8⟩])) T fun drive =>
    Faithful drive ∧ (drive d).Still (cyl.setWidth 8)) ?_
    fun h hh => hh.mono (fun _ hv => hv) fun _ hd => ⟨hd.1, hd.2 rfl⟩
  refine (specifyWith_spec hY (fdWait_waits fuel)).bind fun ok =>
    .ite (fun _ => hfail _ (.inr rfl) fun _ hd => hd.1) fun _ => ?_
  refine (sendWith_access hY (fdWait_waits fuel) hne hlen hop fun dr hd => hunit ▸ hd.2).bind
    fun ok => ?_
  cases ok with
  | false => exact hfail _ (.inr rfl) fun _ hd => hd.1
  | true =>
      refine Triple.conseq (htail (S ++ [⟨d, cyl, cyl.setWidth 8⟩]) (T ++ [⟨bytes, cyl.setWidth 8⟩]))
        (fun h hh => ?_) fun a h hh => ?_
      · exact Holds.mono hh (fun _ hv => hv) fun _ hd => hd.1
      · exact ⟨_, _, .inr rfl, .inr rfl, hh⟩

/-- The bytes `fd_rw` sends. -/
def rwBytes (write : Bool) (d : Fin 4) (cyl head sec : Word) : List Byte :=
  [if write then 0x45 else 0x46, headDrive head d, cyl.setWidth 8, head.setWidth 8,
    sec.setWidth 8, 0x02, sec.setWidth 8, 0x1B, 0xFF]

/-- The bytes `fd_format` sends. -/
def formatBytes (d : Fin 4) (head nsec gpl fill : Word) : List Byte :=
  [0x4D, headDrive head d, 0x02, nsec.setWidth 8, gpl.setWidth 8, fill.setWidth 8]

theorem rwBytes_op (write : Bool) (sec : Word) :
    Op.decode ((rwBytes write d cyl head sec).getD 0 0) = if write then .write else .read := by
  cases write
  · show Op.decode 0x46 = .read
    decide
  · show Op.decode 0x45 = .write
    decide

theorem formatBytes_op (nsec gpl fill : Word) :
    Op.decode ((formatBytes d head nsec gpl fill).getD 0 0) = .format := by
  show Op.decode 0x4D = .format
  decide

/-- What a call that stops before it seeks adds. -/
theorem added_nothing {h : Host Bda} (hh : Rest (Sofar S) T Faithful h) :
    Added S T d cyl bytes h :=
  ⟨[], [], .inl rfl, .inl rfl, by rwa [List.append_nil, List.append_nil]⟩

theorem fdRwEnd_spec (rc : Byte) :
    Triple (Rest (Sofar S) T Faithful) (fdRwEnd d rc) fun _ => Rest (Sofar S) T Faithful := by
  have hset : ∀ {f : Bda → Bda}, (∀ b, (f b).sought = b.sought) →
      Triple (Rest (Sofar S) T Faithful) (setVars f) fun _ => Rest (Sofar S) T Faithful :=
    fun hf => setVars_sofar hf
  have hend : Triple (Rest (Sofar S) T Faithful) (fdFail rc)
      fun _ => Rest (Sofar S) T Faithful := (fdFail_spec rc).post fun _ _ h => h.2
  have hlost : Triple (Rest (Sofar S) T Faithful) (if rc ≠ NO_ERROR then do
      fdLost d
      fdFail rc
      else fdFail rc) fun _ => Rest (Sofar S) T Faithful :=
    .ite (fun _ => (hset (by intro b; rfl)).bind fun _ => hend) fun _ => hend
  refine getVars_spec.bind fun b => .and_pre fun _ => .ite (fun _ => ?_) fun _ => hlost
  exact (hset (by intro b; rfl)).bind fun _ => hlost

theorem fdRw_spec {write : Bool} {fdtype : FdType} {sec es bx : Word} :
    Triple (Rest (Known S d r) T fun drive =>
        Faithful drive ∧ (fdtype ≠ .FD_NONE → cyl = 0 → ¬ r → (drive d).Still 0))
      (fdRw fuel write d fdtype cyl head sec es bx)
      fun _ => Added S T d cyl (rwBytes write d cyl head sec) := by
  refine .ite (fun _ => ?_) fun hne => ?_
  · exact (fdFail_spec _).conseq (fun h hh => hh.mono (fun _ hv => hv.1) fun _ hd => hd.1)
      fun a h hh => added_nothing hh.2
  refine Triple.pre (P := Rest (Known S d r) T fun drive =>
    Faithful drive ∧ (cyl = 0 → ¬ r → (drive d).Still 0)) ?_
    fun h hh => hh.mono (fun _ hv => hv) fun _ hd => ⟨hd.1, hd.2 hne⟩
  have hY : Lasting fun drive => Faithful drive ∧ (cyl = 0 → ¬ r → (drive d).Still 0) :=
    lasting_faithful.and (lasting_still d 0).imp.imp
  refine (fdMotorOn_spec untouched_known hY d fdtype).bind fun _ => ?_
  have hlen : (rwBytes write d cyl head sec).length =
      (Op.decode ((rwBytes write d cyl head sec).getD 0 0)).length := by
    rw [rwBytes_op]
    cases write <;> rfl
  have hop : Op.decode ((rwBytes write d cyl head sec).getD 0 0) = .write ∨
      Op.decode ((rwBytes write d cyl head sec).getD 0 0) = .read ∨
      Op.decode ((rwBytes write d cyl head sec).getD 0 0) = .format := by
    rw [rwBytes_op]
    cases write
    · exact .inr (.inl rfl)
    · exact .inl rfl
  refine fdAccess_spec (List.cons_ne_nil _ _) hlen hop (unitOf_headDrive head d) fun S T => ?_
  have hdata : Triple (Holds (Sofar S) T Faithful [] [] true) (fdRwData write es bx)
      fun _ => Holds (Sofar S) T Faithful [] [] true :=
    .ite (fun _ => pio_spec lasting_faithful _ _ _) fun _ => pio_spec lasting_faithful _ _ _
  exact hdata.bind fun rc => fdTail_spec fdRwEnd_spec

theorem fdFormat_spec {fdtype : FdType} {nsec gpl fill es bx : Word} :
    Triple (Rest (Known S d r) T fun drive => Faithful drive ∧
        (fdtype ≠ .FD_NONE → ¬ (nsec.toInt < 1 ∨ 36 < nsec.toInt) → cyl = 0 → ¬ r →
          (drive d).Still 0))
      (fdFormat fuel d fdtype cyl head nsec gpl fill es bx)
      fun _ => Added S T d cyl (formatBytes d head nsec gpl fill) := by
  have hstop : ∀ rc, Triple (Rest (Known S d r) T fun drive => Faithful drive ∧
        (fdtype ≠ .FD_NONE → ¬ (nsec.toInt < 1 ∨ 36 < nsec.toInt) → cyl = 0 → ¬ r →
          (drive d).Still 0)) (fdFail rc)
      fun _ => Added S T d cyl (formatBytes d head nsec gpl fill) := fun rc =>
    (fdFail_spec rc).conseq (fun h hh => hh.mono (fun _ hv => hv.1) fun _ hd => hd.1)
      fun a h hh => added_nothing hh.2
  refine .ite (fun _ => hstop _) fun hne => .ite (fun _ => hstop _) fun hsec => ?_
  refine Triple.pre (P := Rest (Known S d r) T fun drive =>
    Faithful drive ∧ (cyl = 0 → ¬ r → (drive d).Still 0)) ?_
    fun h hh => hh.mono (fun _ hv => hv) fun _ hd => ⟨hd.1, hd.2 hne hsec⟩
  have hY : Lasting fun drive => Faithful drive ∧ (cyl = 0 → ¬ r → (drive d).Still 0) :=
    lasting_faithful.and (lasting_still d 0).imp.imp
  refine (setVars_spec fun b hb => known_formatRate hb).bind fun _ => ?_
  refine (fdMotorOn_spec untouched_known hY d fdtype).bind fun _ => ?_
  have hlen : (formatBytes d head nsec gpl fill).length =
      (Op.decode ((formatBytes d head nsec gpl fill).getD 0 0)).length := by
    rw [formatBytes_op]
    rfl
  refine fdAccess_spec (List.cons_ne_nil _ _) hlen (.inr (.inr (formatBytes_op nsec gpl fill)))
    (unitOf_headDrive head d) fun S T => ?_
  refine (pio_spec lasting_faithful _ _ _).bind fun rc => fdTail_spec fun rc => ?_
  have hend : Triple (Rest (Sofar S) T Faithful) (fdFail rc)
      fun _ => Rest (Sofar S) T Faithful := (fdFail_spec rc).post fun _ _ h => h.2
  exact .ite (fun _ => (setVars_sofar (by intro b; rfl)).bind fun _ => hend) fun _ => hend

end Transfers

/-! ### Runs of calls -/

/-- A call of the driver. -/
inductive Call
  | reset
  | seek (drive : Fin 4) (head cyl : Word)
  | rw (write : Bool) (drive : Fin 4) (fdtype : FdType) (cyl head sec es bx : Word)
  | format (drive : Fin 4) (fdtype : FdType) (cyl head nsec gpl fill es bx : Word)

def Call.run (fuel : Nat) : Call → BiosM Byte
  | reset => fdReset fuel
  | seek drive head cyl => fdSeek fuel drive head cyl
  | rw write drive fdtype cyl head sec es bx => fdRw fuel write drive fdtype cyl head sec es bx
  | format drive fdtype cyl head nsec gpl fill es bx =>
      fdFormat fuel drive fdtype cyl head nsec gpl fill es bx

/-- The call `c` returned `rc`. -/
def Step (t : Host Bda) (c : Call × Byte) (u : Host Bda) : Prop :=
  ∃ fuel, Runs (c.1.run fuel) t c.2 u

/-- No command is under way, and every interrupt still to be collected is honest. -/
def AtRest (h : Host Bda) : Prop :=
  h.card.command = [] ∧ h.card.result = [] ∧ h.card.busy = false ∧ Faithful h.card.drive

/-- A cylinder the controller can be sent to, and where it is 0, a drive that is due to be
recalibrated or is there. -/
def Seekable (h : Host Bda) (d : Fin 4) (cyl : Word) : Prop :=
  cyl.toNat < 256 ∧
    (cyl ≠ 0 ∨ h.vars.seekStatus &&& FD_RECAL d ≠ 0 ∨ (h.card.drive d).Still 0)

/-- The condition on a call and the state it is made in. -/
def Call.Safe (h : Host Bda) : Call → Prop
  | reset => True
  | seek d _ cyl => Seekable h d cyl
  | rw _ d fdtype cyl _ _ _ _ => fdtype ≠ .FD_NONE → Seekable h d cyl
  | format d fdtype cyl head nsec _ _ _ _ =>
      fdtype ≠ .FD_NONE → ¬ (nsec.toInt < 1 ∨ 36 < nsec.toInt) →
        Seekable h d cyl ∧ head.toNat < 2

/-- The access is the one the call names; a format, on the side it names. -/
def Call.Names (a : Access) : Call → Prop
  | reset | seek .. => False
  | rw write d _ cyl .. =>
      a.op = (if write then .write else .read) ∧ a.unit = d ∧ a.cyl.toNat = cyl.toNat
  | format d _ cyl head .. =>
      a.op = .format ∧ a.unit = d ∧ a.cyl.toNat = cyl.toNat ∧ a.side.toNat = head.toNat

/-- What a call that returned `rc` should have done: every good seek, its own or one inside
it, had the head on the cylinder asked for, and it touched no track but the one it names. -/
structure Call.Right (c : Call) (rc : Byte) (t u : Host Bda) : Prop where
  sought : ∃ new, u.vars.sought = t.vars.sought ++ new ∧ ∀ e ∈ new, e.head.toNat = e.cyl.toNat
  here : rc = NO_ERROR → ∀ d head cyl, c = .seek d head cyl →
    (u.card.drive d).head.toNat = cyl.toNat
  taken : ∃ new, u.card.taken = t.card.taken ++ new ∧ ∀ a ∈ new, c.Names a

theorem toNat_byte {cyl : Word} (h : cyl.toNat < 256) : (cyl.setWidth 8).toNat = cyl.toNat := by
  rw [BitVec.toNat_setWidth]
  exact Nat.mod_eq_of_lt h

theorem side_toNat {head : Word} (h : head.toNat < 2) (d : Fin 4) :
    ((headDrive head d >>> 2) &&& 1).toNat = head.toNat := by
  rw [side_headDrive, BitVec.toNat_and, toNat_byte (by omega)]
  show head.toNat &&& 1 = head.toNat
  rw [Nat.and_one_is_mod]
  omega

/-- What a call finds. -/
theorem AtRest.known {h : Host Bda} (h₀ : AtRest h) (d : Fin 4) {Z : (Fin 4 → Spindle) → Prop}
    (hZ : Z h.card.drive) :
    Rest (Known h.vars.sought d (h.vars.seekStatus &&& FD_RECAL d ≠ 0)) h.card.taken
      (fun drive => Faithful drive ∧ Z drive) h :=
  ⟨⟨rfl, Iff.rfl⟩, rfl, ⟨h₀.2.2.2, hZ⟩, h₀.1, h₀.2.1, h₀.2.2.1⟩

theorem atRest_of_rest {V : Bda → Prop} {h : Host Bda} (hh : Rest V T Faithful h) : AtRest h :=
  ⟨hh.command, hh.result, hh.busy, hh.drives⟩

/-- What a transfer added is right if its cylinder fits a byte. -/
theorem Added.right {c : Call} {rc : Byte} {t u : Host Bda} {d : Fin 4} {cyl : Word}
    {bytes : List Byte} (h : Added t.vars.sought t.card.taken d cyl bytes u)
    (hcyl : cyl.toNat < 256) (hc : ∀ d head cyl, c ≠ .seek d head cyl)
    (hnames : c.Names ⟨bytes, cyl.setWidth 8⟩) : AtRest u ∧ c.Right rc t u := by
  obtain ⟨S', T', hS, hT, hu⟩ := h
  refine ⟨atRest_of_rest hu, ⟨S', hu.vars, ?_⟩, ?_, T', hu.taken, ?_⟩
  · intro e he
    rcases hS with rfl | rfl
    · cases he
    · obtain rfl := List.mem_singleton.mp he
      exact toNat_byte hcyl
  · exact fun _ d head cyl heq => absurd heq (hc d head cyl)
  · intro a ha
    rcases hT with rfl | rfl
    · cases ha
    · obtain rfl := List.mem_singleton.mp ha
      exact hnames

/-- A call that touches neither the ghost nor the medium is right. -/
theorem right_of_rest {c : Call} {rc : Byte} {t u : Host Bda}
    (hu : Rest (Sofar t.vars.sought) t.card.taken Faithful u)
    (hc : ∀ d head cyl, c ≠ .seek d head cyl) : AtRest u ∧ c.Right rc t u :=
  ⟨atRest_of_rest hu, ⟨[], hu.vars.trans (List.append_nil _).symm, fun _ he => by cases he⟩,
    fun _ d head cyl heq => absurd heq (hc d head cyl),
    [], hu.taken.trans (List.append_nil _).symm, fun _ ha => by cases ha⟩

/-- **One call.** From rest, a call that meets the condition does what it should and leaves
the controller at rest. -/
theorem call_right {c : Call} {rc : Byte} {t u : Host Bda} (h₀ : AtRest t) (hsafe : c.Safe t)
    (hrun : Step t (c, rc) u) : AtRest u ∧ c.Right rc t u := by
  obtain ⟨fuel, hr⟩ := hrun
  have hsofar : Rest (Sofar t.vars.sought) t.card.taken Faithful t :=
    ⟨rfl, rfl, h₀.2.2.2, h₀.1, h₀.2.1, h₀.2.2.1⟩
  cases c with
  | reset => exact right_of_rest (fdReset_spec hsofar hr) fun _ _ _ heq => by cases heq
  | seek d head cyl =>
      obtain ⟨hcyl, hcond⟩ := hsafe
      have hpre := h₀.known d (Z := fun drive =>
        cyl = 0 → ¬ t.vars.seekStatus &&& FD_RECAL d ≠ 0 → (drive d).Still 0) fun h0 hbit =>
          (hcond.resolve_left fun hne => hne h0).resolve_left hbit
      have hu := fdSeek_spec hpre hr
      refine ⟨⟨hu.command, hu.result, hu.busy, hu.drives.1⟩, ⟨_, hu.vars, ?_⟩, ?_,
        [], hu.taken.trans (List.append_nil _).symm, fun _ ha => by cases ha⟩
      · intro e he
        by_cases hrc : rc = NO_ERROR
        · rw [if_pos hrc] at he
          obtain rfl := List.mem_singleton.mp he
          exact toNat_byte hcyl
        · rw [if_neg hrc] at he
          cases he
      · rintro hrc _ _ _ ⟨⟩
        have hhead : (u.card.drive d).head = cyl.setWidth 8 := (hu.drives.2 hrc).1
        rw [hhead, toNat_byte hcyl]
  | rw write d fdtype cyl head sec es bx =>
      by_cases hnone : fdtype = .FD_NONE
      · have hr' : Runs (fdFail TIME_OUT) t rc u := by
          have hr'' : Runs (fdRw fuel write d fdtype cyl head sec es bx) t rc u := hr
          rwa [fdRw, if_pos hnone] at hr''
        exact right_of_rest (fdFail_spec _ hsofar hr').2 fun _ _ _ heq => by cases heq
      obtain ⟨hcyl, hcond⟩ := hsafe hnone
      have hpre := h₀.known d (Z := fun drive => fdtype ≠ .FD_NONE → cyl = 0 →
        ¬ t.vars.seekStatus &&& FD_RECAL d ≠ 0 → (drive d).Still 0) fun _ h0 hbit =>
          (hcond.resolve_left fun hne => hne h0).resolve_left hbit
      refine (fdRw_spec hpre hr).right hcyl (fun _ _ _ heq => by cases heq) ⟨?_, ?_, toNat_byte hcyl⟩
      · exact rwBytes_op write sec
      · exact unitOf_headDrive head d
  | format d fdtype cyl head nsec gpl fill es bx =>
      by_cases hnone : fdtype = .FD_NONE
      · have hr' : Runs (fdFail TIME_OUT) t rc u := by
          have hr'' : Runs (fdFormat fuel d fdtype cyl head nsec gpl fill es bx) t rc u := hr
          rwa [fdFormat, if_pos hnone] at hr''
        exact right_of_rest (fdFail_spec _ hsofar hr').2 fun _ _ _ heq => by cases heq
      by_cases hsec : nsec.toInt < 1 ∨ 36 < nsec.toInt
      · have hr' : Runs (fdFail INVALID_COMMAND) t rc u := by
          have hr'' : Runs (fdFormat fuel d fdtype cyl head nsec gpl fill es bx) t rc u := hr
          rwa [fdFormat, if_neg hnone, if_pos hsec] at hr''
        exact right_of_rest (fdFail_spec _ hsofar hr').2 fun _ _ _ heq => by cases heq
      obtain ⟨⟨hcyl, hcond⟩, hhead⟩ := hsafe hnone hsec
      have hpre := h₀.known d (Z := fun drive => fdtype ≠ .FD_NONE →
        ¬ (nsec.toInt < 1 ∨ 36 < nsec.toInt) → cyl = 0 →
        ¬ t.vars.seekStatus &&& FD_RECAL d ≠ 0 → (drive d).Still 0) fun _ _ h0 hbit =>
          (hcond.resolve_left fun hne => hne h0).resolve_left hbit
      refine (fdFormat_spec hpre hr).right hcyl (fun _ _ _ heq => by cases heq)
        ⟨?_, ?_, toNat_byte hcyl, ?_⟩
      · exact formatBytes_op nsec gpl fill
      · exact unitOf_headDrive head d
      · exact side_toNat hhead d

/-- A call that meets the condition. -/
def SafeStep (t : Host Bda) (c : Call × Byte) (u : Host Bda) : Prop := c.1.Safe t ∧ Step t c u

/-- The controller is ready at once, every head arrives at once and every transfer is good. -/
def promptWorld (c : Card) : Moment where
  msr := if c.busy then 0xA0 else if c.result = [] then 0x80 else 0xC0
  clock := BitVec.ofNat 16 c.now
  data := 0
  motion _ := .arrive
  first := 0
  status _ := 0

/-- Power just on. -/
def bench : Host Bda where
  world := promptWorld
  card :=
    { latch := 0, command := [], result := [], busy := false
      drive := fun _ => ⟨17, 0, none, none⟩, taken := [], now := 0 }
  mem _ := 0
  vars :=
    { motorStatus := 0, motorCount := 0, seekStatus := 0, fdStatus := 0
      fdCtrlStat := fun _ => 0, sought := [] }

theorem bench_atRest : AtRest bench :=
  ⟨rfl, rfl, rfl, fun _ _ hposted => by cases hposted⟩

/-- After a reset, a format of cylinder 40. -/
def formatAfterReset : BiosM (Byte × Byte) := do
  let a ← fdReset 20
  let b ← fdFormat 20 0 .FD_1440 40 0 1 0x6C 0xF6 0 0
  pure (a, b)

/-- After a reset and a good seek to cylinder 40, a format of cylinder 0; and what had been
accessed before it. -/
def formatZeroAfterSeek : BiosM (Byte × Byte × Byte × List Access) := do
  let a ← fdReset 20
  let b ← fdSeek 20 0 0 40
  let h ← get
  let c ← fdFormat 20 0 .FD_1440 0 0 1 0x6C 0xF6 0 0
  pure (a, b, c, h.card.taken)

end Sbc386Ex.Fdc.DiskFdc

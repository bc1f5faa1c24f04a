import Sbc386Ex.Lib.Trace
import Sbc386Ex.Fdc.SbcFd

/-!
# Sbc386Ex.Fdc.SbcFdHeads

Where the heads of COHERENT's floppy driver are. `needrecal` is all it knows of a head, and
`fdseek` takes cylinder 0 for reached whenever that is clear. A request keeps one fact about
its own drive through every retry and reset (`Fit`): where it is for cylinder 0, the drive is
due to be recalibrated or its head is there. With that, READ, WRITE and FORMAT all happen on
the cylinder the request names.
-/

namespace Sbc386Ex.Fdc.SbcFd

open Prog Spindle

variable {V : Statics → Prop} {T : List Access} {Y : (Fin 4 → Spindle) → Prop}
  {cmd res : List Byte} {busy : Bool} {fuel : Nat} {d : Fin 2}

/-! ### The waits -/

section Waiting

variable (hY : Lasting Y)
include hY

theorem timerHalf_spec :
    Triple (Holds V T Y cmd res busy) timerHalf fun _ => Holds V T Y cmd res busy :=
  getVars_spec.bind fun _ => .and_pre fun _ => (readClock_spec hY).bind fun _ => .pure fun _ hh => hh

theorem busyWaitLoop_spec {fn : SbcM Bool} {ticks : Nat}
    (hfn : Triple (Holds V T Y cmd res busy) fn fun _ => Holds V T Y cmd res busy) :
    ∀ (n : Nat) (p0 : Bool) (flips tickCt : Nat), Triple (Holds V T Y cmd res busy)
      (busyWaitLoop fn ticks n p0 flips tickCt) fun _ => Holds V T Y cmd res busy
  | 0, _, _, _ => .throw
  | n + 1, _, _, _ => by
      refine hfn.bind fun _ => .ite (fun _ => .pure fun _ hh => hh) fun _ => ?_
      refine (timerHalf_spec hY).bind fun _ => .ite (fun _ => busyWaitLoop_spec hfn n _ _ _) fun _ => ?_
      refine .ite (fun _ => busyWaitLoop_spec hfn n _ _ _) fun _ => ?_
      exact .ite (fun _ => .pure fun _ hh => hh) fun _ => busyWaitLoop_spec hfn n _ _ _

theorem busyWait_spec {fn : SbcM Bool} {ticks : Nat}
    (hfn : Triple (Holds V T Y cmd res busy) fn fun _ => Holds V T Y cmd res busy) :
    Triple (Holds V T Y cmd res busy) (busyWait fuel fn ticks) fun _ => Holds V T Y cmd res busy :=
  (timerHalf_spec hY).bind fun _ => busyWaitLoop_spec hY hfn fuel _ _ _

omit hY in
theorem never_spec : Triple (Holds V T Y cmd res busy) never fun _ => Holds V T Y cmd res busy :=
  .pure fun _ hh => hh

theorem busyWait2_spec {counts : Nat} : Triple (Holds V T Y cmd res busy)
    (busyWait2 fuel never counts) fun _ => Holds V T Y cmd res busy := by
  have hloop : ∀ (n : Nat) (ct0 : Word) (totCt : Nat), Triple (Holds V T Y cmd res busy)
      (busyWait2Loop never counts n ct0 totCt) fun _ => Holds V T Y cmd res busy := by
    intro n
    induction n with
    | zero => exact fun _ _ => .throw
    | succ n ih =>
        intro ct0 totCt
        refine never_spec.bind fun _ => .ite (fun _ => .pure fun _ hh => hh) fun _ => ?_
        refine getVars_spec.bind fun _ => .and_pre fun _ => (readClock_spec hY).bind fun _ => ?_
        exact .ite (fun _ => .pure fun _ hh => hh) fun _ => ih _ _
  exact (readClock_spec hY).bind fun _ => hloop fuel _ _

theorem fdmsrIs_spec (want : Byte) :
    Triple (Holds V T Y cmd res busy) (fdmsrIs want) fun _ => Holds V T Y cmd res busy :=
  (inMsr_spec hY).bind fun _ => .pure fun _ hh => hh

end Waiting

theorem fdwait_waits (fuel : Nat) : Waits (fdwait fuel) := by
  intro V T Y cmd res busy hY want
  refine getVars_spec.bind fun s => .and_pre fun _ => ?_
  refine (busyWait_spec hY (fdmsrIs_spec hY want)).bind fun ok => ?_
  cases ok with
  | false => exact letGo_spec.bind fun _ => .pure fun _ hh => hh
  | true => exact .pure fun _ hh => hh

theorem driveByte_unit (d : Fin 2) : driveByte d = BitVec.ofFin ((unit d).castLE unit_le) := by
  revert d
  decide

theorem unitOf_driveByte (d : Fin 2) : unitOf (driveByte d) = unit d := by
  revert d
  decide

theorem unitOf_headDrive (head : Nat) (d : Fin 2) : unitOf (headDrive head d) = unit d := by
  have hbyte : ∀ (b : Byte) (d : Fin 2), unitOf (b <<< 2 ||| driveByte d) = unit d := by
    decide +kernel
  exact hbyte _ d

/-- An answer for the drive that was sent to `k`. -/
theorem fdseekdone_spec {k : Byte} :
    Triple (Rest V T fun drive => Faithful drive ∧ (drive (unit d)).Toward k) (fdseekdone fuel d)
      fun r h => match r with
      | none => Rest V T Faithful h
      | some (st0, pcn) => Rest V T (fun drive =>
          Faithful drive ∧ (st0 &&& 0xC0 = 0 ∧ pcn = k → (drive (unit d)).Still k)) h := by
  have hY : Lasting fun drive => Faithful drive ∧ (drive (unit d)).Toward k :=
    lasting_faithful.and (lasting_toward (unit d) k)
  have hloop : ∀ n, Triple (Rest V T fun drive => Faithful drive ∧ (drive (unit d)).Toward k)
      (fdseekdoneLoop fuel d n) fun r h => match r with
      | none => Rest V T Faithful h
      | some (st0, pcn) => Rest V T (fun drive =>
          Faithful drive ∧ (st0 &&& 0xC0 = 0 ∧ pcn = k → (drive (unit d)).Still k)) h := by
    intro n
    induction n with
    | zero => exact .pure fun h hh => hh.mono (fun _ hv => hv) fun _ hd => hd.1
    | succ n ih =>
        refine (senseWith_sent (fdwait_waits fuel)).bind fun r => ?_
        cases r with
        | none => exact .pure fun h hh => hh
        | some a =>
            obtain ⟨st0, pcn⟩ := a
            refine .ite (fun hfor => .pure fun h hh => ?_) fun _ => ?_
            · exact hh.mono (fun _ hv => hv) fun _ hd =>
                ⟨hd.1.1, fun hk => hd.2 ⟨hfor.1, hfor.2.trans (driveByte_unit d), hk.1, hk.2⟩⟩
            · refine Triple.pre ?_ fun h hh => hh.mono (fun _ hv => hv) fun _ hd => hd.1
              exact (busyWait_spec hY never_spec).bind fun _ => ih
  exact hloop 300

/-! ### The fact a request keeps -/

/-- `needrecal` of drive `d` is `r`. -/
def Recal (d : Fin 2) (r : Bool) (s : Statics) : Prop := s.needrecal d = r

/-- Between commands, with drive `d` fit to be sent to cylinder `k`. -/
def Fit (d : Fin 2) (k : Nat) (T : List Access) (h : Host Statics) : Prop :=
  ∃ r, Rest (Recal d r) T (fun drive =>
    Faithful drive ∧ (k = 0 → r = false → (drive (unit d)).Still 0)) h

theorem lasting_fit (d : Fin 2) (k : Nat) (r : Bool) : Lasting fun drive =>
    Faithful drive ∧ (k = 0 → r = false → (drive (unit d)).Still 0) :=
  lasting_faithful.and (lasting_still (unit d) 0).imp.imp

variable {k : Nat}

/-- A routine that keeps `Rest` for every `needrecal` keeps `Fit`. -/
theorem Fit.of_rest {α : Type} {p : SbcM α}
    (hp : ∀ r {Y}, Lasting Y → Triple (Rest (Recal d r) T Y) p fun _ => Rest (Recal d r) T Y) :
    Triple (Fit d k T) p fun _ => Fit d k T :=
  .exists_pre fun r => (hp r (lasting_fit d k r)).post fun _ _ hh => ⟨r, hh⟩

theorem Fit.lost {h : Host Statics} (hh : Rest (Recal d true) T Faithful h) : Fit d k T h :=
  ⟨true, hh.mono (fun _ hv => hv) fun _ hd => ⟨hd, fun _ hr => by cases hr⟩⟩

theorem Fit.there {r : Bool} {b : Byte} {h : Host Statics} (hb : b.toNat = k)
    (hh : Rest (Recal d r) T (fun drive => Faithful drive ∧ (drive (unit d)).Still b) h) :
    Fit d k T h := by
  refine ⟨r, hh.mono (fun _ hv => hv) fun _ hd => ⟨hd.1, fun hk _ => ?_⟩⟩
  have hb0 : b = 0 := BitVec.eq_of_toNat_eq (hb.trans hk)
  exact hb0 ▸ hd.2

theorem Fit.away {r : Bool} {h : Host Statics} (hk : k ≠ 0)
    (hh : Rest (Recal d r) T Faithful h) : Fit d k T h :=
  ⟨r, hh.mono (fun _ hv => hv) fun _ hd => ⟨hd, fun h0 => absurd h0 hk⟩⟩

/-- A driver's variables but `needrecal`. -/
theorem setVars_recal {f : Statics → Statics} {r : Bool} (hf : ∀ s, (f s).needrecal = s.needrecal) :
    Triple (Holds (Recal d r) T Y cmd res busy) (setVars f)
      fun _ => Holds (Recal d r) T Y cmd res busy :=
  setVars_spec fun s hs => (congrFun (hf s) d).trans hs

theorem setRecal_spec {r r' : Bool} :
    Triple (Holds (Recal d r) T Y cmd res busy) (setRecal d r')
      fun _ => Holds (Recal d r') T Y cmd res busy :=
  setVars_spec fun _ _ => Function.update_self ..

/-! ### The latch, the motor and the reset -/

theorem fdlatchBits_spec {r : Bool} (hY : Lasting Y) (clear set : Byte) :
    Triple (Rest (Recal d r) T Y) (fdlatchBits clear set) fun _ => Rest (Recal d r) T Y :=
  getVars_spec.bind fun _ => .and_pre fun _ =>
    Triple.bind (setVars_recal (by intro s; rfl)) fun _ => outLatch_rest hY _

theorem fdmotor_spec {r : Bool} (hY : Lasting Y) (kind : Fin 8) :
    Triple (Rest (Recal d r) T Y) (fdmotor fuel kind) fun _ => Rest (Recal d r) T Y := by
  have hlatch : ∀ want, Triple (Rest (Recal d r) T Y) (fdmotorLatch fuel want)
      fun _ => Rest (Recal d r) T Y := by
    refine fun want => getVars_spec.bind fun s => .and_pre fun _ => ?_
    refine .ite (fun _ => .pure fun _ hh => hh) fun _ =>
      Triple.bind (Q := fun _ => Rest (Recal d r) T Y) ?_ fun _ => ?_
    · exact Triple.bind (setVars_recal (by intro s; rfl)) fun _ => outLatch_rest hY _
    · refine .ite (fun _ => ?_) fun _ => .pure fun _ hh => hh
      exact (busyWait_spec hY never_spec).bind fun _ => .pure fun _ hh => hh
  exact (hlatch _).bind fun _ => setVars_recal (by intro s; rfl)

theorem fdcollect_spec (hY : Lasting Y) (hf : ∀ d, Y d → Faithful d) : ∀ n : Nat,
    Triple (Rest V T Y) (fdcollect fuel n) fun _ => Rest V T Y
  | 0 => .pure fun _ hh => hh
  | n + 1 => by
      have hsense : Triple (Rest V T Y) (fdsense fuel) fun _ => Rest V T Y :=
        senseWith_rest (fdwait_waits fuel) hY hf
      refine hsense.bind fun r => ?_
      cases r with
      | none => exact .pure fun _ hh => hh
      | some a => exact fdcollect_spec hY hf n

/-- A reset that fails leaves `needrecal` as it was, and the head. -/
theorem fdreset_spec : Triple (Fit d k T) (fdreset fuel) fun _ => Fit d k T := by
  refine .exists_pre fun r => ?_
  have hY := lasting_fit d k r
  have hkeep : Triple (Rest (Recal d r) T fun drive =>
      Faithful drive ∧ (k = 0 → r = false → (drive (unit d)).Still 0)) (pure false : SbcM Bool)
      fun _ => Fit d k T := .pure fun _ hh => ⟨r, hh⟩
  refine (fdlatchBits_spec hY _ _).bind fun _ => (busyWait2_spec hY).bind fun _ => ?_
  refine (fdlatchBits_spec hY _ _).bind fun _ => getVars_spec.bind fun s => .and_pre fun _ => ?_
  refine (busyWait_spec hY (fdmsrIs_spec hY _)).bind fun _ => .ite (fun _ => hkeep) fun _ => ?_
  refine (fdcollect_spec hY (fun _ hd => hd.1) 4).bind fun _ => .ite (fun _ => hkeep) fun _ => ?_
  refine (specifyWith_spec hY (fdwait_waits fuel)).bind fun _ => .ite (fun _ => hkeep) fun _ => ?_
  have hset : Triple (Rest (Recal d r) T fun drive =>
      Faithful drive ∧ (k = 0 → r = false → (drive (unit d)).Still 0))
      (setVars fun s => { s with needrecal := fun _ => true })
      fun _ => Rest (Recal d true) T _ := setVars_spec fun _ _ => rfl
  exact hset.bind fun _ => .pure fun h hh => Fit.lost (hh.mono (fun _ hv => hv) fun _ hd => hd.1)

/-! ### The seek -/

theorem fdrecal_spec {r : Bool} : ∀ (n : Nat) (st0 pcn : Byte),
    Triple (Rest (Recal d r) T fun drive =>
        Faithful drive ∧ (n = 0 → st0 &&& 0xC0 = 0 ∧ pcn = 0 → (drive (unit d)).Still 0))
      (fdrecal fuel d st0 pcn n) fun a h => match a with
      | none => Rest (Recal d r) T Faithful h
      | some (st0, pcn) => Rest (Recal d r) T (fun drive =>
          Faithful drive ∧ (st0 &&& 0xC0 = 0 ∧ pcn = 0 → (drive (unit d)).Still 0)) h
  | 0, _, _ => .pure fun h hh => hh.mono (fun _ hv => hv) fun _ hd => ⟨hd.1, hd.2 rfl⟩
  | n + 1, st0, pcn => by
      have hsend : Triple (Rest (Recal d r) T Faithful) (fdouts fuel [0x07, driveByte d]) _ :=
        sendWith_recalibrate (fdwait_waits fuel) (unitOf_driveByte d)
      refine (hsend.pre fun h hh => Holds.mono hh (fun _ hv => hv) fun _ hd => hd.1).bind fun ok => ?_
      cases ok with
      | false => exact .pure fun h hh => hh
      | true =>
          refine fdseekdone_spec.bind fun a => ?_
          cases a with
          | none => exact .pure fun h hh => hh
          | some a =>
              obtain ⟨st0', pcn'⟩ := a
              refine .ite (fun _ => .pure fun h hh => hh) fun hbad => ?_
              refine (fdrecal_spec n st0' pcn').pre fun h hh =>
                hh.mono (fun _ hv => hv) fun _ hd => ⟨hd.1, fun _ hgood => absurd hgood hbad⟩

/-- Between commands, with drive `d` on cylinder `k` and staying there. -/
def At (d : Fin 2) (k : Nat) (T : List Access) (h : Host Statics) : Prop :=
  ∃ (r : Bool) (b : Byte), b.toNat = k ∧
    Rest (Recal d r) T (fun drive => Faithful drive ∧ (drive (unit d)).Still b) h

theorem At.fit {h : Host Statics} (hh : At d k T h) : Fit d k T h := by
  obtain ⟨r, b, hb, hh⟩ := hh
  exact Fit.there hb hh

theorem fdseekTo_spec {r : Bool} {head : Nat} :
    Triple (Rest (Recal d r) T fun drive => Faithful drive ∧ (k = 0 → (drive (unit d)).Still 0))
      (fdseekTo fuel d head k) fun ok h => bif ok then At d k T h else Fit d k T h := by
  refine .ite (fun h0 => .pure fun h hh => ?_) fun h0 => ?_
  · exact ⟨r, 0, h0.symm, hh.mono (fun _ hv => hv) fun _ hd => ⟨hd.1, hd.2 h0⟩⟩
  have hsend : Triple (Rest (Recal d r) T Faithful)
      (fdouts fuel [0x0F, headDrive head d, lowByte k]) _ :=
    sendWith_seek (fdwait_waits fuel) (unitOf_headDrive head d)
  refine (hsend.pre fun h hh => hh.mono (fun _ hv => hv) fun _ hd => hd.1).bind fun ok => ?_
  cases ok with
  | false => exact .pure fun h hh => Fit.away h0 hh
  | true =>
      refine fdseekdone_spec.bind fun a => ?_
      cases a with
      | none => exact .pure fun h hh => Fit.away h0 hh
      | some a =>
          obtain ⟨st0, pcn⟩ := a
          refine .ite (fun _ => ?_) fun hgood => .pure fun h hh => ?_
          · refine setRecal_spec.bind fun _ => .pure fun h hh => Fit.lost ?_
            exact hh.mono (fun _ hv => hv) fun _ hd => hd.1
          · have hic : st0 &&& 0xC0 = 0 := not_not.mp fun h => hgood (.inl h)
            have hpcn : pcn.toNat = k := not_not.mp fun h => hgood (.inr h)
            have hbyte : pcn = lowByte k := by
              rw [lowByte, ← hpcn, BitVec.ofNat_toNat, BitVec.setWidth_eq]
            exact ⟨r, pcn, hpcn, hh.mono (fun _ hv => hv) fun _ hd =>
              ⟨hd.1, hbyte ▸ hd.2 ⟨hic, hbyte⟩⟩⟩

/-- **`fdseek`.** Of a drive that is fit for cylinder `k`, a good return means its head is
there; a bad one leaves it fit. -/
theorem fdseek_spec {head : Nat} : Triple (Fit d k T) (fdseek fuel d head k)
    fun ok h => bif ok then At d k T h else Fit d k T h := by
  refine .exists_pre fun r => getVars_spec.bind fun s => .and_pre fun hs => ?_
  have hr : s.needrecal d = r := hs
  refine .ite (fun hrecal => ?_) fun hclear => ?_
  · obtain rfl : r = true := hr.symm.trans hrecal
    refine ((fdrecal_spec 2 0 0).pre fun h hh => hh.mono (fun _ hv => hv) fun _ hd =>
      ⟨hd.1, fun h2 => by cases h2⟩).bind fun a => ?_
    cases a with
    | none => exact .pure fun h hh => Fit.lost hh
    | some a =>
        obtain ⟨st0, pcn⟩ := a
        refine .ite (fun _ => .pure fun h hh => ?_) fun hgood => ?_
        · exact Fit.lost (hh.mono (fun _ hv => hv) fun _ hd => hd.1)
        · refine setRecal_spec.bind fun _ => (fdseekTo_spec (r := false)).pre fun h hh => ?_
          refine hh.mono (fun _ hv => hv) fun _ hd => ⟨hd.1, fun _ => hd.2 ?_⟩
          exact ⟨not_not.mp fun h => hgood (.inl h), not_not.mp fun h => hgood (.inr h)⟩
  · have hfalse : r = false := hr ▸ Bool.eq_false_iff.mpr hclear
    exact fdseekTo_spec.pre fun h hh => hh.mono (fun _ hv => hv) fun _ hd =>
      ⟨hd.1, fun h0 => hd.2 h0 hfalse⟩

/-! ### One command -/

/-- One access of the command `bytes`, on cylinder `k`; none only where `ok` is not set. -/
def Added (d : Fin 2) (k : Nat) (T : List Access) (bytes : List Byte) (ok : Bool)
    (h : Host Statics) : Prop :=
  ∃ T' : List Access, (T' = [] ∧ ok = false ∨ ∃ b : Byte, b.toNat = k ∧ T' = [⟨bytes, b⟩]) ∧
    Fit d k (T ++ T') h

theorem Added.nothing {bytes : List Byte} {h : Host Statics} (hh : Fit d k T h) :
    Added d k T bytes false h :=
  ⟨[], .inl ⟨rfl, rfl⟩, by rwa [List.append_nil]⟩

/-- TC, the result phase, and what is made of them. -/
theorem fdfinish_spec {r : Bool} {b : Byte} (hb : b.toNat = k) (rc : Pio) :
    Triple (Holds (Recal d r) T (fun drive => Faithful drive ∧ (drive (unit d)).Still b) [] [] true)
      (fdfinish fuel d rc) fun _ => Fit d k T := by
  have hY : Lasting fun drive => Faithful drive ∧ (drive (unit d)).Still b :=
    lasting_faithful.and (lasting_still (unit d) b)
  have hbits : ∀ {busy clear set}, (busy = false ∨ ∀ v : Byte, ((v &&& ~~~clear) ||| set) &&& 1 ≠ 0) →
      Triple (fun h => ∃ result, result.length ≤ 7 ∧ Holds (Recal d r) T (fun drive =>
        Faithful drive ∧ (drive (unit d)).Still b) [] result busy h) (fdlatchBits clear set)
        fun _ => Answering (Recal d r) T (fun drive =>
          Faithful drive ∧ (drive (unit d)).Still b) 7 := by
    intro busy clear set hend
    refine .exists_pre fun result => .and_pre fun hlen => getVars_spec.bind fun s => .and_pre fun _ => ?_
    refine Triple.bind (setVars_recal (by intro s; rfl)) fun _ => ?_
    exact (outLatch_answering hY _ (hend.imp id fun htc => htc _)).pre fun h hh =>
      ⟨result, hlen, hh⟩
  have htc : ∀ v : Byte, ((v &&& ~~~(0 : Byte)) ||| L_TC) &&& 1 ≠ 0 := by decide +kernel
  have hread : Triple (Answering (Recal d r) T (fun drive =>
        Faithful drive ∧ (drive (unit d)).Still b) 7)
      (resultWith (fdwait fuel) fdstoreResult (List.finRange 7))
      fun _ => Rest (Recal d r) T fun drive => Faithful drive ∧ (drive (unit d)).Still b :=
    resultWith_spec hY (fdwait_waits fuel) (by intro i b s hs; exact hs) (List.finRange 7)
  have hresult : Triple (Answering (Recal d r) T (fun drive =>
        Faithful drive ∧ (drive (unit d)).Still b) 7) (fdresult fuel)
      fun _ => Rest (Recal d r) T fun drive => Faithful drive ∧ (drive (unit d)).Still b := by
    refine hread.bind fun ok => ?_
    cases ok with
    | false => exact .pure fun _ hh => hh
    | true => exact getVars_spec.bind fun _ => .and_pre fun _ => .pure fun _ hh => hh
  have hlost : Triple (Rest (Recal d r) T fun drive => Faithful drive ∧ (drive (unit d)).Still b)
      (do
        setRecal d true
        pure false) fun _ => Fit d k T :=
    setRecal_spec.bind fun _ => .pure fun h hh =>
      Fit.lost (hh.mono (fun _ hv => hv) fun _ hd => hd.1)
  refine Triple.bind ((hbits (.inr htc)).pre fun h hh => ⟨[], Nat.zero_le _, hh⟩) fun _ => ?_
  refine (hbits (.inl rfl)).bind fun _ => hresult.bind fun _ => .ite (fun _ => hlost) fun _ => ?_
  exact .ite (fun _ => hlost) fun _ => .pure fun h hh => Fit.there hb hh

/-- The command itself, of a drive that is on its cylinder. -/
theorem fdcommand_spec {bytes : List Byte} {buf n : Nat} {write : Bool} (hne : bytes ≠ [])
    (hlen : bytes.length = (Op.decode (bytes.getD 0 0)).length)
    (hop : Op.decode (bytes.getD 0 0) = .write ∨ Op.decode (bytes.getD 0 0) = .read ∨
      Op.decode (bytes.getD 0 0) = .format)
    (hunit : unitOf (bytes.getD 1 0) = unit d) :
    Triple (At d k T) (do
      if !(← fdouts fuel bytes) then pure false
      else do
        let rc ← fdpio write buf n
        fdfinish fuel d rc) fun ok => Added d k T bytes ok := by
  refine .exists_pre fun r => .exists_pre fun b => .and_pre fun hb => ?_
  have hY : Lasting fun drive => Faithful drive ∧ (drive (unit d)).Still b :=
    lasting_faithful.and (lasting_still (unit d) b)
  refine (sendWith_access hY (fdwait_waits fuel) hne hlen hop fun dr hd => hunit ▸ hd.2).bind
    fun ok => ?_
  cases ok with
  | false => exact .pure fun h hh => Added.nothing (Fit.there hb hh)
  | true =>
      refine (pio_spec hY _ _ _).bind fun rc => (fdfinish_spec hb rc).post fun ok h hh => ?_
      exact ⟨[⟨bytes, b⟩], .inr ⟨b, hb, rfl⟩, hh⟩

theorem fdresClear_spec : Triple (Fit d k T) fdresClear fun _ => Fit d k T :=
  Fit.of_rest fun _ _ _ => setVars_recal (by intro s; rfl)

theorem fdspecify_at : Triple (At d k T) (fdspecify fuel) fun _ => At d k T := by
  refine .exists_pre fun r => .exists_pre fun b => .and_pre fun hb => ?_
  have hY : Lasting fun drive => Faithful drive ∧ (drive (unit d)).Still b :=
    lasting_faithful.and (lasting_still (unit d) b)
  exact (specifyWith_spec hY (fdwait_waits fuel)).post fun _ h hh => ⟨r, b, hb, hh⟩

theorem sectorBytes_op (write : Bool) (kind : Fin 8) (bno : Nat) :
    Op.decode ((sectorBytes write d kind bno).getD 0 0) = if write then .write else .read := by
  cases write
  · show Op.decode 0x46 = .read
    decide
  · show Op.decode 0x45 = .write
    decide

theorem trackBytes_op (kind : Fin 8) (head : Nat) :
    Op.decode ((trackBytes d kind head).getD 0 0) = .format := by
  show Op.decode 0x4D = .format
  decide

/-- **One sector.** -/
theorem fdsector_spec {write : Bool} {kind : Fin 8} {bno buf : Nat} :
    Triple (Fit d (cylOf kind bno) T) (fdsector fuel write d kind bno buf)
      fun ok => Added d (cylOf kind bno) T (sectorBytes write d kind bno) ok := by
  have hlen : (sectorBytes write d kind bno).length =
      (Op.decode ((sectorBytes write d kind bno).getD 0 0)).length := by
    rw [sectorBytes_op]
    cases write <;> rfl
  have hop : Op.decode ((sectorBytes write d kind bno).getD 0 0) = .write ∨
      Op.decode ((sectorBytes write d kind bno).getD 0 0) = .read ∨
      Op.decode ((sectorBytes write d kind bno).getD 0 0) = .format := by
    rw [sectorBytes_op]
    cases write
    · exact .inr (.inl rfl)
    · exact .inl rfl
  refine fdresClear_spec.bind fun _ => (Fit.of_rest fun r Y hY => fdmotor_spec hY kind).bind fun _ => ?_
  refine fdseek_spec.bind fun ok => ?_
  cases ok with
  | false => exact .pure fun h hh => Added.nothing hh
  | true =>
      refine fdspecify_at.bind fun _ => .ite (fun _ => .pure fun h hh => Added.nothing hh.fit) fun _ => ?_
      exact fdcommand_spec (List.cons_ne_nil _ _) hlen hop (unitOf_headDrive _ d)

/-- **One track.** -/
theorem fdfmttrack_spec {kind : Fin 8} {head chrn : Nat} :
    Triple (Fit d k T) (fdfmttrack fuel d kind k head chrn)
      fun ok => Added d k T (trackBytes d kind head) ok := by
  have hlen : (trackBytes d kind head).length =
      (Op.decode ((trackBytes d kind head).getD 0 0)).length := by
    rw [trackBytes_op]
    rfl
  have hsettle : Triple (At d k T) (busyWait fuel never 2) fun _ => At d k T := by
    refine .exists_pre fun r => .exists_pre fun b => .and_pre fun hb => ?_
    have hY : Lasting fun drive => Faithful drive ∧ (drive (unit d)).Still b :=
      lasting_faithful.and (lasting_still (unit d) b)
    exact (busyWait_spec hY never_spec).post fun _ h hh => ⟨r, b, hb, hh⟩
  refine fdresClear_spec.bind fun _ => (Fit.of_rest fun r Y hY => fdmotor_spec hY kind).bind fun _ => ?_
  refine fdseek_spec.bind fun ok => ?_
  cases ok with
  | false => exact .pure fun h hh => Added.nothing hh
  | true =>
      refine fdspecify_at.bind fun _ => .ite (fun _ => .pure fun h hh => Added.nothing hh.fit) fun _ => ?_
      refine hsettle.bind fun _ => ?_
      exact fdcommand_spec (List.cons_ne_nil _ _) hlen (.inr (.inr (trackBytes_op kind head)))
        (unitOf_headDrive _ d)

/-! ### Requests -/

/-- Accesses that are all of the kind `Q`; some, where `some` says so. -/
def Gained (d : Fin 2) (k : Nat) (T : List Access) (Q : Access → Prop) (some : Prop)
    (h : Host Statics) : Prop :=
  ∃ T' : List Access, (∀ a ∈ T', Q a) ∧ (some → T' ≠ []) ∧ Fit d k (T ++ T') h

variable {Q : Access → Prop} {some : Prop}

theorem Gained.of_fit {h : Host Statics} (hs : ¬ some) (hh : Fit d k T h) : Gained d k T Q some h :=
  ⟨[], fun _ ha => (by cases ha), fun h => absurd h hs, by rwa [List.append_nil]⟩

theorem Gained.trans {T' : List Access} {h : Host Statics} (hQ : ∀ a ∈ T', Q a)
    (hh : Gained d k (T ++ T') Q some h) : Gained d k T Q some h := by
  obtain ⟨T'', hQ'', hsome, hh⟩ := hh
  refine ⟨T' ++ T'', fun a ha => ?_, fun h h0 => hsome h (List.append_eq_nil_iff.mp h0).2, ?_⟩
  · rcases List.mem_append.mp ha with ha | ha
    · exact hQ a ha
    · exact hQ'' a ha
  · rwa [← List.append_assoc]

/-- An access of the command `bytes` on cylinder `k`. -/
def Of (bytes : List Byte) (k : Nat) (a : Access) : Prop := a.bytes = bytes ∧ a.cyl.toNat = k

theorem Added.gained {bytes : List Byte} {ok : Bool} {h : Host Statics}
    (hh : Added d k T bytes ok h) : Gained d k T (Of bytes k) (ok = true) h := by
  obtain ⟨T', ⟨rfl, rfl⟩ | ⟨b, hb, rfl⟩, hfit⟩ := hh
  · exact ⟨[], fun _ ha => (by cases ha), fun hf => (by cases hf), hfit⟩
  · refine ⟨_, fun a ha => ?_, fun _ => List.cons_ne_nil _ _, hfit⟩
    obtain rfl := List.mem_singleton.mp ha
    exact ⟨rfl, hb⟩

/-- Reading a static changes nothing. -/
theorem getVars_fit : Triple (Fit d k T) getVars fun _ => Fit d k T :=
  .exists_pre fun r => getVars_spec.post fun _ _ hh => ⟨r, hh.2⟩

theorem fdtry_spec {write : Bool} {kind : Fin 8} {bno addr : Nat} : ∀ (n : Nat) (T : List Access),
    Triple (Fit d (cylOf kind bno) T) (fdtry fuel write d kind bno addr n) fun tried =>
      Gained d (cylOf kind bno) T (Of (sectorBytes write d kind bno) (cylOf kind bno))
        (tried = .done)
  | 0, T => .pure fun h hh => Gained.of_fit (by decide) hh
  | n + 1, T => by
      refine (fdsector_spec.post fun ok h hh => hh.gained).bind fun ok => ?_
      refine .exists_pre fun T' => .and_pre fun hQ => .and_pre fun hsome => ?_
      refine .ite (fun hok => .pure fun h hh => ⟨T', hQ, fun _ => hsome hok, hh⟩) fun _ => ?_
      refine Triple.post ?_ fun _ h hh => Gained.trans hQ hh
      refine getVars_fit.bind fun s =>
        .ite (fun _ => .pure fun h hh => Gained.of_fit (by decide) hh) fun _ => ?_
      refine .ite (fun _ => ?_) fun _ => fdtry_spec n (T ++ T')
      exact fdreset_spec.bind fun _ => fdtry_spec n (T ++ T')

/-- A drive that is fit for a cylinder is fit for any later one. -/
theorem Fit.later {k' : Nat} {h : Host Statics} (hk : k' = 0 → k = 0) (hh : Fit d k T h) :
    Fit d k' T h := by
  obtain ⟨r, hh⟩ := hh
  exact ⟨r, hh.mono (fun _ hv => hv) fun _ hd => ⟨hd.1, fun h0 => hd.2 (hk h0)⟩⟩

theorem cylOf_succ {kind : Fin 8} {bno : Nat} (h : cylOf kind (bno + 1) = 0) : cylOf kind bno = 0 :=
  Nat.le_zero.mp (h ▸ Nat.div_le_div_right (Nat.le_succ bno))

/-- An access of one of `n` blocks from `bno` on. -/
def OfBlock (write : Bool) (d : Fin 2) (kind : Fin 8) (bno n : Nat) (a : Access) : Prop :=
  ∃ i < n, Of (sectorBytes write d kind (bno + i)) (cylOf kind (bno + i)) a

theorem fdsectors_spec {write : Bool} {kind : Fin 8} : ∀ (n bno addr : Nat) (T : List Access),
    Triple (Fit d (cylOf kind bno) T) (fdsectors fuel write d kind n bno addr) fun _ h =>
      ∃ k, Gained d k T (OfBlock write d kind bno n) False h
  | 0, bno, addr, T => .pure fun h hh => ⟨_, Gained.of_fit id hh⟩
  | n + 1, bno, addr, T => by
      refine (fdtry_spec FD_TRIES T).bind fun tried =>
        .exists_pre fun T' => .and_pre fun hQ => .and_pre fun _ => ?_
      have hQ' : ∀ a ∈ T', OfBlock write d kind bno (n + 1) a :=
        fun a ha => ⟨0, Nat.succ_pos n, hQ a ha⟩
      refine Triple.post (Q := fun _ h => ∃ k, Gained d k (T ++ T')
        (OfBlock write d kind bno (n + 1)) False h) ?_ fun _ h ⟨k, hh⟩ => ⟨k, Gained.trans hQ' hh⟩
      cases tried with
      | writeProtected | gaveUp => exact .pure fun h hh => ⟨_, Gained.of_fit id hh⟩
      | done =>
          refine Triple.bind ((fdsectors_spec n (bno + 1) (addr + FD_SECSIZE) (T ++ T')).pre
            fun h hh => Fit.later cylOf_succ hh) fun r => .pure ?_
          rintro h ⟨k, T'', hQ'', hsome, hfit⟩
          refine ⟨k, T'', fun a ha => ?_, hsome, hfit⟩
          obtain ⟨i, hi, hof⟩ := hQ'' a ha
          exact ⟨i + 1, Nat.succ_lt_succ hi, by rwa [Nat.add_assoc, Nat.add_comm 1 i] at hof⟩

theorem fdtracks_spec {kind : Fin 8} {head chrn : Nat} : ∀ (n : Nat) (T : List Access),
    Triple (Fit d k T) (fdtracks fuel d kind k head chrn n) fun e =>
      Gained d k T (Of (trackBytes d kind head) k) (e = none)
  | 0, T => .pure fun h hh => Gained.of_fit (fun he => by cases he) hh
  | n + 1, T => by
      refine (fdfmttrack_spec.post fun ok h hh => hh.gained).bind fun ok => ?_
      refine .exists_pre fun T' => .and_pre fun hQ => .and_pre fun hsome => ?_
      refine .ite (fun hok => .pure fun h hh => ⟨T', hQ, fun _ => hsome hok, hh⟩) fun _ => ?_
      refine Triple.post ?_ fun _ h hh => Gained.trans hQ hh
      refine getVars_fit.bind fun s =>
        .ite (fun _ => .pure fun h hh => Gained.of_fit (fun he => by cases he) hh) fun _ => ?_
      refine .ite (fun _ => ?_) fun _ => fdtracks_spec n (T ++ T')
      exact fdreset_spec.bind fun _ => fdtracks_spec n (T ++ T')

/-! ### Runs of requests -/

/-- What the kernel may call, and a reset by itself. -/
inductive Call
  | load
  | unload
  | reset
  | timeout
  | block (bp : Buf)
  | ioctl (io : Ioctl)

/-- What a call comes back with. -/
inductive Reply
  | done
  | reset (ok : Bool)
  | block (b : Bdone)
  | ioctl (e : Option Errno)

def Call.run (fuel : Nat) : Call → SbcM Reply
  | load => do
      fdload fuel
      pure .done
  | unload => do
      fdunload
      pure .done
  | reset => do
      let ok ← fdreset fuel
      pure (.reset ok)
  | timeout => do
      fdtimeout
      pure .done
  | block bp => do
      let b ← fdblock fuel bp
      pure (.block b)
  | ioctl io => do
      let e ← fdioctl fuel io
      pure (.ioctl e)

/-- The call `c.1` returned `c.2`. -/
def Step (t : Host Statics) (c : Call × Reply) (u : Host Statics) : Prop :=
  ∃ fuel, Runs (c.1.run fuel) t c.2 u

/-- No command is under way, and every interrupt still to be collected is honest. -/
def AtRest (h : Host Statics) : Prop :=
  h.card.command = [] ∧ h.card.result = [] ∧ h.card.busy = false ∧ Faithful h.card.drive

/-- Drive `d` is due to be recalibrated, or its head stands on cylinder 0. -/
def Homed (h : Host Statics) (d : Fin 2) : Prop :=
  h.vars.needrecal d = true ∨ (h.card.drive (unit d)).Still 0

/-- The condition on a call and the state it is made in: a request that goes through for
cylinder 0 finds its drive homed. -/
def Call.Safe (h : Host Statics) : Call → Prop
  | block bp => ¬ (bp.req = .BREAD ∧ bp.bno = (fk (fkind bp.minor)).size) →
      fdrefuses h.vars bp = false → cylOf (fkind bp.minor) bp.bno = 0 → Homed h (fdrive bp.minor)
  | ioctl io => fdioctlRefuses h.vars io = false → io.mapped = true → h.mem io.vec = 0 →
      (h.mem (io.vec + 1)).toNat < (fk (fkind io.minor)).nhds → Homed h (fdrive io.minor)
  | _ => True

/-- The access is one the call names, where it names it. -/
def Call.Names (h : Host Statics) (a : Access) : Call → Prop
  | block bp => a.op = (if bp.req = .BWRITE then .write else .read) ∧
      a.unit = unit (fdrive bp.minor) ∧ a.cyl = a.bytes.getD 2 0 ∧
      ∃ i < bp.count / FD_SECSIZE,
        a.bytes = sectorBytes (bp.req = .BWRITE) (fdrive bp.minor) (fkind bp.minor) (bp.bno + i) ∧
        a.cyl.toNat = cylOf (fkind bp.minor) (bp.bno + i)
  | ioctl io => a.op = .format ∧ a.unit = unit (fdrive io.minor) ∧ a.cyl = h.mem io.vec ∧
      a.side = h.mem (io.vec + 1)
  | _ => False

/-- What a call should have done: every READ, WRITE and FORMAT was on the drive and the
cylinder the call names, and a format reported good was made. -/
def Call.Right (c : Call) (reply : Reply) (t u : Host Statics) : Prop :=
  ∃ new, u.card.taken = t.card.taken ++ new ∧ (∀ a ∈ new, c.Names t a) ∧
    (reply = .ioctl none → new ≠ [])

theorem runs_getVars {t u : Host Statics} {s : Statics} :
    Runs (getVars : SbcM Statics) t s u ↔ s = t.vars ∧ u = t := by
  show Runs (get >>= fun h => pure h.vars) t s u ↔ _
  simp only [runs_bind, runs_get, runs_pure]
  constructor
  · rintro ⟨_, _, ⟨rfl, rfl⟩, rfl, rfl⟩
    exact ⟨rfl, rfl⟩
  · rintro ⟨rfl, rfl⟩
    exact ⟨_, _, ⟨rfl, rfl⟩, rfl, rfl⟩

/-- What a request finds. -/
theorem AtRest.fit {h : Host Statics} (h₀ : AtRest h) (hk : k = 0 → Homed h d) :
    Fit d k h.card.taken h := by
  refine ⟨h.vars.needrecal d, rfl, rfl, ⟨h₀.2.2.2, fun h0 hr => ?_⟩, h₀.1, h₀.2.1, h₀.2.2.1⟩
  rcases hk h0 with hrecal | hstill
  · rw [hrecal] at hr
    cases hr
  · exact hstill

theorem Fit.atRest {h : Host Statics} (hh : Fit d k T h) : AtRest h := by
  obtain ⟨r, hh⟩ := hh
  exact ⟨hh.command, hh.result, hh.busy, hh.drives.1⟩

theorem Fit.taken {h : Host Statics} (hh : Fit d k T h) : h.card.taken = T := by
  obtain ⟨r, hh⟩ := hh
  exact hh.taken

theorem Fit.withMem {h : Host Statics} (hh : Fit d k T h) (m : Mem) : Fit d k T { h with mem := m } := by
  obtain ⟨r, hh⟩ := hh
  exact ⟨r, hh.vars, hh.taken, hh.drives, hh.command, hh.result, hh.busy⟩

/-- A call that makes no access is right. -/
theorem right_of_fit {c : Call} {reply : Reply} {t u : Host Statics}
    (hu : Fit d k t.card.taken u) (hreply : reply ≠ .ioctl none) :
    AtRest u ∧ c.Right reply t u :=
  ⟨hu.atRest, [], hu.taken.trans (List.append_nil _).symm, fun _ ha => (by cases ha),
    fun h => absurd h hreply⟩

theorem setVars_fit {f : Statics → Statics} (hf : ∀ s, (f s).needrecal = s.needrecal) :
    Triple (Fit d k T) (setVars f) fun _ => Fit d k T :=
  Fit.of_rest fun _ _ _ => setVars_recal hf

theorem fdlatch_fit (v : Byte) : Triple (Fit d k T) (fdlatch v) fun _ => Fit d k T :=
  Fit.of_rest fun _ _ hY => Triple.bind (setVars_recal (by intro s; rfl)) fun _ => outLatch_rest hY _

theorem fdload_spec : Triple (Fit d k T) (fdload fuel) fun _ => Fit d k T :=
  Triple.bind (setVars_fit (by intro s; rfl)) fun _ => (fdlatch_fit 0).bind fun _ =>
    fdreset_spec.bind fun _ => setVars_fit (by intro s; rfl)

theorem fdtimeout_spec : Triple (Fit d k T) fdtimeout fun _ => Fit d k T := by
  refine Triple.bind (setVars_fit (by intro s; rfl)) fun _ => getVars_fit.bind fun s => ?_
  refine .ite (fun _ => setVars_fit (by intro s; rfl)) fun _ => ?_
  refine Triple.bind (Fit.of_rest fun r Y hY => fdlatchBits_spec hY _ _) fun _ => ?_
  exact setVars_fit (by intro s; rfl)

/-! ### One call -/

theorem fk_bounds (kind : Fin 8) :
    0 < (fk kind).nspt ∧ 0 < (fk kind).nhds ∧ (fk kind).nhds ≤ 2 ∧ (fk kind).ncyl ≤ 80 ∧
      (fk kind).size = (fk kind).ncyl * ((fk kind).nspt * (fk kind).nhds) := by
  revert kind
  decide

/-- A block of the format lies on one of its cylinders. -/
theorem cylOf_lt {kind : Fin 8} {bno : Nat} (h : bno < (fk kind).size) :
    cylOf kind bno < (fk kind).ncyl := by
  obtain ⟨-, -, -, -, hsize⟩ := fk_bounds kind
  refine Nat.div_lt_of_lt_mul ?_
  rwa [Nat.mul_comm, ← hsize]

theorem lowByte_toNat {v : Nat} (h : v < 256) : (lowByte v).toNat = v := by
  rw [lowByte, BitVec.toNat_ofNat]
  exact Nat.mod_eq_of_lt h

theorem side_headDrive (head : Nat) (d : Fin 2) :
    (headDrive head d >>> 2) &&& 1 = lowByte head &&& 1 := by
  have hbyte : ∀ (b : Byte) (d : Fin 2), ((b <<< 2 ||| driveByte d) >>> 2) &&& 1 = b &&& 1 := by
    decide +kernel
  exact hbyte _ d

theorem block_right {bp : Buf} {b : Bdone} {t u : Host Statics} (h₀ : AtRest t)
    (hsafe : Call.Safe t (.block bp)) (hrun : Runs (fdblock fuel bp) t b u) :
    AtRest u ∧ Call.Right (.block bp) (.block b) t u := by
  have hquiet : Fit (fdrive bp.minor) 1 t.card.taken t := h₀.fit fun h => by cases h
  rw [fdblock] at hrun
  by_cases hend : bp.req = .BREAD ∧ bp.bno = (fk (fkind bp.minor)).size
  · rw [if_pos hend] at hrun
    obtain ⟨-, rfl⟩ := runs_pure.mp hrun
    exact right_of_fit hquiet fun h => by cases h
  rw [if_neg hend] at hrun
  obtain ⟨s, t', hget, hrun⟩ := runs_bind.mp hrun
  obtain ⟨rfl, rfl⟩ := runs_getVars.mp hget
  cases hrefuse : fdrefuses t'.vars bp with
  | true =>
      rw [hrefuse, if_pos rfl] at hrun
      obtain ⟨-, rfl⟩ := runs_pure.mp hrun
      exact right_of_fit hquiet fun h => by cases h
  | false =>
      rw [hrefuse, if_neg Bool.false_ne_true] at hrun
      obtain ⟨r, u', hsectors, hpure⟩ := runs_bind.mp hrun
      obtain ⟨-, rfl⟩ := runs_pure.mp hpure
      have hfit : Fit (fdrive bp.minor) (cylOf (fkind bp.minor) bp.bno) t'.card.taken t' :=
        h₀.fit (hsafe hend hrefuse)
      obtain ⟨k, T', hQ, -, hu⟩ := fdsectors_spec _ _ _ _ hfit hsectors
      have hsize : bp.bno + bp.count / FD_SECSIZE ≤ (fk (fkind bp.minor)).size := by
        by_contra hlt
        have htrue : fdrefuses t'.vars bp = true := by
          rw [fdrefuses, decide_eq_true_iff]
          exact .inr (.inr (.inr (.inl (Nat.lt_of_not_le hlt))))
        rw [hrefuse] at htrue
        cases htrue
      refine ⟨hu.atRest, T', hu.taken, fun a ha => ?_, fun h => by cases h⟩
      obtain ⟨i, hi, hbytes, hcyl⟩ := hQ a ha
      refine ⟨?_, ?_, ?_, i, hi, hbytes, hcyl⟩
      · rw [Access.op, hbytes, sectorBytes_op]
        by_cases hw : bp.req = .BWRITE
        · simp only [hw, decide_true, if_true]
        · simp only [hw, decide_false, if_false, Bool.false_eq_true]
      · rw [Access.unit, hbytes]
        exact unitOf_headDrive _ _
      · have hlt : cylOf (fkind bp.minor) (bp.bno + i) < 256 := by
          have hcyls : cylOf (fkind bp.minor) (bp.bno + i) < (fk (fkind bp.minor)).ncyl :=
            cylOf_lt (by omega)
          have hncyl := (fk_bounds (fkind bp.minor)).2.2.2.1
          omega
        have hnamed : a.bytes.getD 2 0 = lowByte (cylOf (fkind bp.minor) (bp.bno + i)) := by
          rw [hbytes]
          rfl
        rw [hnamed]
        exact BitVec.eq_of_toNat_eq (hcyl.trans (lowByte_toNat hlt).symm)

theorem ioctl_right {io : Ioctl} {e : Option Errno} {t u : Host Statics} (h₀ : AtRest t)
    (hsafe : Call.Safe t (.ioctl io)) (hrun : Runs (fdioctl fuel io) t e u) :
    AtRest u ∧ Call.Right (.ioctl io) (.ioctl e) t u := by
  have hquiet : Fit (fdrive io.minor) 1 t.card.taken t := h₀.fit fun h => by cases h
  rw [fdioctl] at hrun
  obtain ⟨s, t', hget, hrun⟩ := runs_bind.mp hrun
  obtain ⟨rfl, rfl⟩ := runs_getVars.mp hget
  cases hrefuse : fdioctlRefuses t'.vars io with
  | true =>
      rw [hrefuse, if_pos rfl] at hrun
      obtain ⟨rfl, rfl⟩ := runs_pure.mp hrun
      exact right_of_fit hquiet fun h => by cases h
  | false =>
  rw [hrefuse, if_neg Bool.false_ne_true] at hrun
  cases hmapped : io.mapped with
  | false =>
      rw [hmapped] at hrun
      obtain ⟨rfl, rfl⟩ := runs_pure.mp hrun
      exact right_of_fit hquiet fun h => by cases h
  | true =>
  rw [hmapped] at hrun
  obtain ⟨_, t₁, hcopy, hrun⟩ := runs_bind.mp hrun
  obtain rfl := runs_modify.mp hcopy
  obtain ⟨h, t₂, hget, hrun⟩ := runs_bind.mp hrun
  obtain ⟨rfl, rfl⟩ := runs_get.mp hget
  obtain ⟨hspt, hhds, hhds2, hncyl, -⟩ := fk_bounds (fkind io.minor)
  -- the copy's first two bytes are the user's
  have hcyl : (if io.chrn ≤ io.chrn ∧ io.chrn < io.chrn + 4 * (fk (fkind io.minor)).nspt then
      t'.mem (io.vec + (io.chrn - io.chrn)) else t'.mem io.chrn) = t'.mem io.vec := by
    rw [if_pos ⟨Nat.le_refl _, by omega⟩, Nat.sub_self, Nat.add_zero]
  have hhead : (if io.chrn ≤ io.chrn + 1 ∧ io.chrn + 1 < io.chrn + 4 * (fk (fkind io.minor)).nspt then
      t'.mem (io.vec + (io.chrn + 1 - io.chrn)) else t'.mem (io.chrn + 1)) = t'.mem (io.vec + 1) := by
    rw [if_pos ⟨Nat.le_succ _, by omega⟩, Nat.add_sub_cancel_left]
  simp only [hcyl, hhead, fdformat] at hrun
  by_cases hout : (fk (fkind io.minor)).ncyl ≤ (t'.mem io.vec).toNat ∨
      (fk (fkind io.minor)).nhds ≤ (t'.mem (io.vec + 1)).toNat
  · rw [if_pos hout] at hrun
    obtain ⟨rfl, rfl⟩ := runs_pure.mp hrun
    exact right_of_fit (hquiet.withMem _) fun h => by cases h
  · rw [if_neg hout] at hrun
    have hlt : (t'.mem (io.vec + 1)).toNat < (fk (fkind io.minor)).nhds := by omega
    have hfit : Fit (fdrive io.minor) (t'.mem io.vec).toNat t'.card.taken t' :=
      h₀.fit fun h0 => hsafe hrefuse hmapped (BitVec.eq_of_toNat_eq h0) hlt
    obtain ⟨T', hQ, hsome, hu⟩ := fdtracks_spec 3 t'.card.taken (hfit.withMem _) hrun
    refine ⟨hu.atRest, T', hu.taken, fun a ha => ?_, fun h => hsome (by injection h)⟩
    obtain ⟨hbytes, hk⟩ := hQ a ha
    refine ⟨?_, ?_, BitVec.eq_of_toNat_eq hk, ?_⟩
    · rw [Access.op, hbytes, trackBytes_op]
    · rw [Access.unit, hbytes]
      exact unitOf_headDrive _ _
    · rw [Access.side, hbytes]
      show (headDrive _ _ >>> 2) &&& 1 = _
      rw [side_headDrive]
      refine BitVec.eq_of_toNat_eq ?_
      rw [BitVec.toNat_and, lowByte_toNat (by omega)]
      show (t'.mem (io.vec + 1)).toNat &&& 1 = _
      rw [Nat.and_one_is_mod]
      omega

/-- **One call.** From rest, a call that meets the condition does what it should and leaves
the controller at rest. -/
theorem call_right {c : Call} {reply : Reply} {t u : Host Statics} (h₀ : AtRest t)
    (hsafe : c.Safe t) (hrun : Step t (c, reply) u) : AtRest u ∧ c.Right reply t u := by
  obtain ⟨fuel, hr⟩ := hrun
  have hquiet : Fit 0 1 t.card.taken t := h₀.fit fun h => by cases h
  cases c with
  | load =>
      obtain ⟨_, u', hload, hpure⟩ := runs_bind.mp hr
      obtain ⟨rfl, rfl⟩ := runs_pure.mp hpure
      exact right_of_fit (fdload_spec hquiet hload) fun h => by cases h
  | unload =>
      obtain ⟨_, u', hunload, hpure⟩ := runs_bind.mp hr
      obtain ⟨rfl, rfl⟩ := runs_pure.mp hpure
      exact right_of_fit (fdlatch_fit 0 hquiet hunload) fun h => by cases h
  | reset =>
      obtain ⟨_, u', hreset, hpure⟩ := runs_bind.mp hr
      obtain ⟨rfl, rfl⟩ := runs_pure.mp hpure
      exact right_of_fit (fdreset_spec hquiet hreset) fun h => by cases h
  | timeout =>
      obtain ⟨_, u', htimeout, hpure⟩ := runs_bind.mp hr
      obtain ⟨rfl, rfl⟩ := runs_pure.mp hpure
      exact right_of_fit (fdtimeout_spec hquiet htimeout) fun h => by cases h
  | block bp =>
      obtain ⟨_, u', hblock, hpure⟩ := runs_bind.mp hr
      obtain ⟨rfl, rfl⟩ := runs_pure.mp hpure
      exact block_right h₀ hsafe hblock
  | ioctl io =>
      obtain ⟨_, u', hioctl, hpure⟩ := runs_bind.mp hr
      obtain ⟨rfl, rfl⟩ := runs_pure.mp hpure
      exact ioctl_right h₀ hsafe hioctl

/-- A call that meets the condition. -/
def SafeStep (t : Host Statics) (c : Call × Reply) (u : Host Statics) : Prop :=
  c.1.Safe t ∧ Step t c u

/-- The controller is ready at once, every head arrives at once and every transfer is good;
the timer is in its other half at every look. -/
def promptWorld (c : Card) : Moment where
  msr := if c.busy then 0xA0 else if c.result = [] then 0x80 else 0xC0
  clock := if c.now % 2 = 0 then 0 else 9000
  data := 0
  motion _ := .arrive
  first := 0
  status _ := 0

/-- The kernel just started; an identifier table for cylinder 40 at 0, one for cylinder 0
at 4. -/
def bench : Host Statics where
  world := promptWorld
  card :=
    { latch := 0, command := [], result := [], busy := false
      drive := fun _ => ⟨17, 0, none, none⟩, taken := [], now := 0 }
  mem a := if a = 0 then 40 else 0
  vars :=
    { fdpresent := false, latch := 0, needrecal := fun _ => false, motorsecs := 0
      fdres := fun _ => 0, d_time := 0, pitCount := 9216, hz := 1 }

theorem bench_atRest : AtRest bench :=
  ⟨rfl, rfl, rfl, fun _ _ hposted => by cases hposted⟩

/-- The format ioctl of `/dev/fva0`, its table at `vec`. -/
def formatCall (vec : Nat) : Ioctl := ⟨0x0F, true, vec, true, 4096⟩

/-- A load, then a format of cylinder 40; and the memory it finds. -/
def formatAfterLoad : SbcM (Option Errno × Byte) := do
  fdload 50
  let h ← get
  let e ← fdioctl 50 (formatCall 0)
  pure (e, h.mem 0)

/-- A load, a format of cylinder 40, and a format of cylinder 0; with what had been accessed
and what memory holds before the last. -/
def formatBoth : SbcM (Option Errno × Option Errno × List Access × Byte) := do
  fdload 50
  let a ← fdioctl 50 (formatCall 0)
  let h ← get
  let b ← fdioctl 50 (formatCall 4)
  pure (a, b, h.card.taken, h.mem 4)

end Sbc386Ex.Fdc.SbcFd

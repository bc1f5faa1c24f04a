import Mathlib.Tactic.FinCases
import Sbc386Ex.Fdc.DataPhase

/-!
# Sbc386Ex.Fdc.WholeSector

What a good return of `fd_rw` is worth. The result phase is believed whatever the data phase
came to, unless the controller fell silent in it, so a transfer that was cut short passes for
a whole sector when ST0 to ST2 say nothing against it. `fdRw_whole_iff` says exactly when.
-/

namespace Sbc386Ex.Fdc.DiskFdc

open Prog

/-! ### The programmed transfer of the BIOS -/

/-- The data phase the status register shows: E0h for a read, A0h for a write. -/
def dataPhase (write : Bool) : Byte := if write then 0xA0 else 0xE0

theorem dataPhase_ne : ∀ write, dataPhase write ≠ 0xC0 := by decide

/-- `fdc_pio_in`, or `fdc_pio_out`. -/
def fdcPio (write : Bool) (es bx count : Word) : BiosM Pio :=
  if write then fdcPioOut es bx count.toNat else fdcPioIn es bx count.toNat

def fdcPioLog (write : Bool) (es bx count : Word) : BiosM (Pio × List DataEvent) :=
  pioLog (dataPhase write) (bufAddr es bx) count.toNat

theorem fst_fdcPioLog (write : Bool) (es bx count : Word) :
    Prod.fst <$> fdcPioLog write es bx count = fdcPio write es bx count := by
  rw [fdcPioLog, fst_pioLog]
  cases write <;> rfl

theorem fdcPioLog_spec (write : Bool) (es bx count : Word) :
    Triple (fun _ => True) (fdcPioLog write es bx count)
      fun q _ => PioLog (dataPhase write) (bufAddr es bx) count.toNat q.1 q.2 :=
  pioLog_spec _ _ _

/-- What a transfer between the controller and the `count` bytes at `es:bx` must keep to: 0
comes back exactly when all of them moved, each moved when the controller asked for it, and
none lies outside the buffer. -/
structure PioSafe (write : Bool) (es bx count : Word) (r : Pio) (log : List DataEvent) : Prop where
  whole : r = .all ↔ (moves log).length = count.toNat
  due : Due (dataPhase write) false log
  inside : ∀ m ∈ moves log, linear es bx ≤ m.1 ∧ m.1 < linear es bx + count.toNat

theorem bufAddr_of_lt (es : Word) {bx : Word} {i : Nat} (h : bx.toNat + i < 65536) :
    bufAddr es bx i = linear es bx + i := by
  have hoff : (bx + BitVec.ofNat 16 i).toNat = bx.toNat + i := by
    rw [BitVec.toNat_add, BitVec.toNat_ofNat, Nat.add_mod_mod, Nat.mod_eq_of_lt h]
  rw [bufAddr, linear, hoff, linear, Nat.add_assoc]

/-- `DI` and `SI` wrap: past the end of the segment comes its start. -/
theorem bufAddr_wrap (es bx : Word) : bufAddr es bx (65536 - bx.toNat) = 16 * es.toNat := by
  have hoff : (bx + BitVec.ofNat 16 (65536 - bx.toNat)).toNat = 0 := by
    rw [BitVec.toNat_add, BitVec.toNat_ofNat, Nat.add_mod_mod, Nat.add_sub_of_le (by omega)]
  rw [bufAddr, linear, hoff, Nat.add_zero]

/-- The addresses of a transfer are those of the buffer as long as the segment lasts. -/
theorem pioSafe_iff {write : Bool} {es bx count : Word} {r : Pio} {log : List DataEvent}
    (h : PioLog (dataPhase write) (bufAddr es bx) count.toNat r log) :
    PioSafe write es bx count r log ↔ bx.toNat + asked (dataPhase write) log ≤ 65536 := by
  have hfew := h.few
  have haddr : ∀ i < (moves log).length, ∃ m ∈ moves log, m.1 = bufAddr es bx i := by
    intro i hi
    have hmem : bufAddr es bx i ∈ (moves log).map Prod.fst := by
      rw [h.in_order]
      exact List.mem_map_of_mem (List.mem_range.mpr hi)
    exact List.mem_map.mp hmem
  rw [h.asked_eq]
  constructor
  · intro hsafe
    by_contra hover
    -- the first byte past the end of the segment is one of those that moved
    obtain ⟨m, hm, haddr⟩ := haddr (65536 - bx.toNat) (by omega)
    have hin := hsafe.inside m hm
    have hcount := count.isLt
    rw [haddr, bufAddr_wrap, linear] at hin
    omega
  · intro hroom
    refine ⟨h.all_iff, h.due, fun m hm => ?_⟩
    have hmem : m.1 ∈ (List.range (moves log).length).map (bufAddr es bx) := by
      rw [← h.in_order]
      exact List.mem_map_of_mem hm
    obtain ⟨i, hi, hm⟩ := List.mem_map.mp hmem
    have hi := List.mem_range.mp hi
    rw [← hm, bufAddr_of_lt es (by omega)]
    omega

/-! ### The result phase -/

/-- Result bytes, and those that came. -/
def resultWithLog {D : Type} (wait : Byte → FdcM D Bool) (store : Fin 7 → Byte → D → D) :
    List (Fin 7) → FdcM D (Bool × List Byte)
  | [] => pure (true, [])
  | i :: rest => do
      match ← inWith wait with
      | none => do
          setVars (store i 0)
          pure (false, [])
      | some b => do
          setVars (store i b)
          logged [b] <$> resultWithLog wait store rest

def fdResultLog (fuel : Nat) : BiosM (Byte × List Byte) := do
  let q ← resultWithLog (fdWait fuel) fdStoreResult (List.finRange 7)
  if q.1 then
    let b ← getVars
    pure (fdResultCode b.fdCtrlStat, q.2)
  else pure (TIME_OUT, q.2)

theorem fst_resultWithLog {D : Type} (wait : Byte → FdcM D Bool) (store : Fin 7 → Byte → D → D)
    (is : List (Fin 7)) :
    Prod.fst <$> resultWithLog wait store is = resultWith wait store is := by
  induction is with
  | nil => exact map_pure _ _
  | cons i is ih =>
      rw [resultWithLog, resultWith, map_bind]
      congr 1
      funext a
      cases a with
      | none => rw [map_bind]; rfl
      | some b =>
          rw [map_bind, ← ih]
          congr 1
          funext _
          exact fst_logged _ _

theorem fst_fdResultLog (fuel : Nat) : Prod.fst <$> fdResultLog fuel = fdResult fuel := by
  rw [fdResultLog, fdResult, map_bind, ← fst_resultWithLog, bind_map_left]
  congr 1
  funext q
  split_ifs
  · rw [map_bind]; rfl
  · exact map_pure _ _

/-- Seven result bytes that speak for success: a normal end, or only the end of the cylinder
flagged. -/
def GoodEnd (answer : List Byte) : Prop :=
  ∃ s : Fin 7 → Byte, answer = List.ofFn s ∧ (s 0 &&& 0xC0 = 0 ∨ s 1 = 0x80 ∧ s 2 = 0)

theorem fdResultCode_eq_iff (s : Fin 7 → Byte) :
    fdResultCode s = NO_ERROR ↔ s 0 &&& 0xC0 = 0 ∨ s 1 = 0x80 ∧ s 2 = 0 := by
  by_cases h0 : s 0 &&& 0xC0 = 0
  · exact iff_of_true (if_pos h0) (.inl h0)
  by_cases h1 : s 1 = 0x80 ∧ s 2 = 0
  · rw [fdResultCode, if_neg h0]
    exact iff_of_true (if_pos h1) (.inr h1)
  rw [fdResultCode, if_neg h0, if_neg h1]
  refine iff_of_false ?_ (not_or_intro h0 h1)
  split_ifs <;> decide

/-! ### What the result phase leaves in the driver -/

section Vars

variable {P : Bda → Prop}

theorem look_vars : Triple (fun h => P h.vars) (look : BiosM Moment) fun _ h => P h.vars :=
  .modifyGet fun _ hP => hP

theorem readClock_vars : Triple (fun h => P h.vars) (readClock : BiosM Word) fun _ h => P h.vars :=
  look_vars.bind fun _ => .pure fun _ hP => hP

theorem inMsr_vars : Triple (fun h => P h.vars) (inMsr : BiosM Byte) fun _ h => P h.vars :=
  look_vars.bind fun _ => .pure fun _ hP => hP

theorem inData_vars : Triple (fun h => P h.vars) (inData : BiosM Byte) fun _ h => P h.vars :=
  look_vars.bind fun _ => .modifyGet fun _ hP => hP

theorem fdWait_vars (fuel : Nat) (want : Byte) :
    Triple (fun h => P h.vars) (fdWait fuel want) fun _ h => P h.vars := by
  refine readClock_vars.bind fun t0 => .loop ?_ fuel
  refine inMsr_vars.bind fun msr => .ite (fun _ => .pure fun _ hP => hP) fun _ => ?_
  refine readClock_vars.bind fun t => .ite (fun _ => .pure fun _ hP => hP) fun _ => ?_
  have hgo : Triple (fun h => P h.vars) (letGo : BiosM Unit) fun _ h => P h.vars :=
    .modify fun _ hP => hP
  exact hgo.bind fun _ => .pure fun _ hP => hP

theorem inWith_vars (fuel : Nat) :
    Triple (fun h => P h.vars) (inWith (fdWait fuel)) fun _ h => P h.vars := by
  refine (fdWait_vars fuel 0xC0).bind fun ok => .ite (fun _ => ?_) fun _ => .pure fun _ hP => hP
  rw [map_eq_pure_bind]
  exact inData_vars.bind fun _ => .pure fun _ hP => hP

end Vars

/-- What came is in its place, and less came when a byte did not. -/
theorem resultWithLog_spec (fuel : Nat) (is : List (Fin 7)) : ∀ v : Bda,
    Triple (fun h => h.vars = v) (resultWithLog (fdWait fuel) fdStoreResult is) fun q h =>
      bif q.1 then q.2.length = is.length ∧
        h.vars = (is.zip q.2).foldl (fun v p => fdStoreResult p.1 p.2 v) v
      else q.2.length < is.length := by
  induction is with
  | nil => exact fun v => .pure fun h hv => ⟨rfl, hv⟩
  | cons i is ih =>
      intro v
      refine (inWith_vars (P := fun w => w = v) fuel).bind fun a => ?_
      cases a with
      | none => exact Triple.top.bind fun _ => .pure fun _ _ => Nat.succ_pos _
      | some b =>
          have hstore : Triple (fun h : Host Bda => h.vars = v) (setVars (fdStoreResult i b))
              fun _ h => h.vars = fdStoreResult i b v := .modify fun h hv => hv ▸ rfl
          refine hstore.bind fun _ => ?_
          rw [map_eq_pure_bind]
          refine (ih (fdStoreResult i b v)).bind fun q => .pure fun h hq => ?_
          obtain ⟨ok, log⟩ := q
          cases ok with
          | false => exact Nat.succ_lt_succ hq
          | true => exact ⟨congrArg Nat.succ hq.1, hq.2⟩

/-- Seven bytes stored one after another are the seven bytes. -/
theorem foldl_fdStoreResult (s : Fin 7 → Byte) (v : Bda) :
    (((List.finRange 7).zip (List.ofFn s)).foldl (fun v p => fdStoreResult p.1 p.2 v) v).fdCtrlStat =
      s := by
  funext i
  fin_cases i <;> rfl

theorem time_out_ne : TIME_OUT ≠ NO_ERROR := by decide

/-- **`fd_result` says `NO_ERROR` exactly when all seven bytes came and speak for it.** -/
theorem fdResultLog_spec (fuel : Nat) :
    Triple (fun _ => True) (fdResultLog fuel) fun q _ => q.1 = NO_ERROR ↔ GoodEnd q.2 := by
  refine Triple.pre (P := fun h => ∃ v, h.vars = v) (.exists_pre fun v => ?_) fun h _ => ⟨_, rfl⟩
  refine (resultWithLog_spec fuel _ v).bind fun q => ?_
  obtain ⟨ok, answer⟩ := q
  cases ok with
  | false =>
      refine .pure fun h hshort => iff_of_false time_out_ne ?_
      rintro ⟨s, rfl, -⟩
      simp only [cond_false, List.length_ofFn, List.length_finRange, Nat.lt_irrefl] at hshort
  | true =>
      have hvars : Triple (fun h : Host Bda => ∃ s, answer = List.ofFn s ∧ h.vars.fdCtrlStat = s)
          (do
            let b ← getVars
            pure (fdResultCode b.fdCtrlStat, answer)) fun q _ => q.1 = NO_ERROR ↔ GoodEnd q.2 := by
        refine Triple.bind (Q := fun b _ => ∃ s, answer = List.ofFn s ∧ b.fdCtrlStat = s) ?_ ?_
        · exact Triple.bind (.get fun h hs => hs) fun h => .pure fun _ hs => hs
        · intro b
          refine .pure fun h hs => ?_
          obtain ⟨s, rfl, hs⟩ := hs
          rw [hs, fdResultCode_eq_iff]
          refine ⟨fun hgood => ⟨s, rfl, hgood⟩, ?_⟩
          rintro ⟨s', hs', hgood⟩
          rwa [List.ofFn_inj.mp hs']
      refine hvars.pre fun h hall => ?_
      obtain ⟨hlen, hfold⟩ := hall
      obtain ⟨n, s, rfl⟩ := List.exists_iff_exists_tuple.mp ⟨answer, rfl⟩
      obtain rfl : n = 7 := by rwa [List.length_ofFn, List.length_finRange] at hlen
      exact ⟨s, rfl, hfold ▸ foldl_fdStoreResult s v⟩

/-! ### The whole of `fd_rw` -/

/-- What the 765 presents once a command is taken: its data phase, and the result bytes that
came. -/
structure Seen where
  data : List DataEvent
  answer : List Byte
  deriving DecidableEq

/-- A return before the data phase. -/
def unseen (rc : Byte) : Byte × Seen := (rc, ⟨[], []⟩)

/-- `fd_rw`, with the log of its data phase and its result phase. -/
def fdRwLog (fuel : Nat) (write : Bool) (drive : Fin 4) (fdtype : FdType) (cyl head sec : Word)
    (es bx : Word) : BiosM (Byte × Seen) := do
  if fdtype = .FD_NONE then unseen <$> fdFail TIME_OUT
  else do
    fdMotorOn fuel drive fdtype
    let rc ← fdSeek fuel drive head cyl
    if rc ≠ NO_ERROR then unseen <$> fdFail rc
    else if !(← fdSpecify fuel) then unseen <$> fdFail TIME_OUT
    else if !(← fdOuts fuel [if write then 0x45 else 0x46,
        (head <<< 2).setWidth 8 ||| driveByte drive, cyl.setWidth 8, head.setWidth 8,
        sec.setWidth 8, 0x02, sec.setWidth 8, 0x1B, 0xFF]) then unseen <$> fdFail TIME_OUT
    else do
      let data ← fdcPioLog write es bx 512
      fdPulseTc
      if data.1 = .dead then
        fdLost drive
        let answer ← fdResultLog fuel
        (·, ⟨data.2, answer.2⟩) <$> fdFail TIME_OUT
      else do
        let answer ← fdResultLog fuel
        (·, ⟨data.2, answer.2⟩) <$> fdRwEnd drive answer.1

theorem fst_fdRwLog (fuel : Nat) (write : Bool) (drive : Fin 4) (fdtype : FdType)
    (cyl head sec es bx : Word) :
    Prod.fst <$> fdRwLog fuel write drive fdtype cyl head sec es bx =
      fdRw fuel write drive fdtype cyl head sec es bx := by
  have hunseen : ∀ p : BiosM Byte, Prod.fst <$> (unseen <$> p) = p := by
    intro p
    rw [Functor.map_map]
    exact id_map p
  have hseen : ∀ (s : Seen) (p : BiosM Byte), Prod.fst <$> ((·, s) <$> p) = p := by
    intro s p
    rw [Functor.map_map]
    exact id_map p
  have hdata : fdRwData write es bx = Prod.fst <$> fdcPioLog write es bx 512 :=
    (fst_fdcPioLog write es bx 512).symm
  unfold fdRwLog fdRw
  generalize (if write then (0x45 : Byte) else 0x46) = op
  split_ifs with hnone
  · exact hunseen _
  rw [map_bind]
  congr 1
  funext _
  rw [map_bind]
  congr 1
  funext rc
  split_ifs with hrc
  · exact hunseen _
  rw [map_bind]
  congr 1
  funext ok
  split_ifs with hok
  · exact hunseen _
  rw [map_bind]
  congr 1
  funext ok
  split_ifs with hok
  · exact hunseen _
  rw [map_bind, hdata, bind_map_left]
  congr 1
  funext data
  rw [map_bind]
  congr 1
  funext _
  split_ifs with hdead
  · rw [map_bind]
    congr 1
    funext _
    rw [map_bind, ← fst_fdResultLog, bind_map_left]
    exact bind_congr fun answer => hseen _ _
  · rw [map_bind, ← fst_fdResultLog, bind_map_left]
    exact bind_congr fun answer => hseen _ _

/-- A call of `fd_rw`, by what it returns: before the data phase, after one in which the
controller fell silent, or with the word of the result phase. -/
inductive RwLog (write : Bool) (es bx : Word) (rc : Byte) : Seen → Prop
  | refused (hrc : rc ≠ NO_ERROR) : RwLog write es bx rc ⟨[], []⟩
  | silent {data : List DataEvent} {answer : List Byte} (hrc : rc ≠ NO_ERROR)
      (hdata : PioLog (dataPhase write) (bufAddr es bx) 512 .dead data) :
      RwLog write es bx rc ⟨data, answer⟩
  | answered {r : Pio} {data : List DataEvent} {answer : List Byte} (hr : r ≠ .dead)
      (hdata : PioLog (dataPhase write) (bufAddr es bx) 512 r data)
      (hrc : rc = NO_ERROR ↔ GoodEnd answer) : RwLog write es bx rc ⟨data, answer⟩

theorem fdFail_returns (rc : Byte) : Triple (fun _ => True) (fdFail rc) fun a _ => a = rc :=
  Triple.top.bind fun _ => .pure fun _ _ => rfl

theorem fdRwEnd_returns (drive : Fin 4) (rc : Byte) :
    Triple (fun _ => True) (fdRwEnd drive rc) fun a _ => a = rc := by
  have hlost : Triple (fun _ => True) (fdLost drive >>= fun _ => fdFail rc) fun a _ => a = rc :=
    Triple.top.bind fun _ => (fdFail_returns rc).pre fun _ _ => trivial
  have hend : Triple (fun _ => True)
      (if rc ≠ NO_ERROR then fdLost drive >>= fun _ => fdFail rc else fdFail rc)
      fun a _ => a = rc := .ite (fun _ => hlost) fun _ => fdFail_returns rc
  refine Triple.top.bind fun b => .ite (fun _ => Triple.top.bind fun _ => ?_) fun _ => ?_
  · exact hend.pre fun _ _ => trivial
  · exact hend.pre fun _ _ => trivial

theorem fdRwLog_spec (fuel : Nat) (write : Bool) (drive : Fin 4) (fdtype : FdType)
    (cyl head sec es bx : Word) :
    Triple (fun _ => True) (fdRwLog fuel write drive fdtype cyl head sec es bx)
      fun q _ => RwLog write es bx q.1 q.2 := by
  have hunseen : ∀ {rc : Byte}, rc ≠ NO_ERROR →
      Triple (fun _ => True) (unseen <$> fdFail rc) fun q _ => RwLog write es bx q.1 q.2 := by
    intro rc hrc
    rw [map_eq_pure_bind]
    refine (fdFail_returns rc).bind fun a => .pure fun _ ha => ?_
    exact .refused (ha ▸ hrc)
  refine .ite (fun _ => hunseen time_out_ne) fun _ => ?_
  refine Triple.top.bind fun _ => Triple.top.bind fun rc => .ite (fun hrc => hunseen hrc) fun _ => ?_
  refine Triple.top.bind fun ok => .ite (fun _ => hunseen time_out_ne) fun _ => ?_
  refine Triple.top.bind fun ok => .ite (fun _ => hunseen time_out_ne) fun _ => ?_
  refine (fdcPioLog_spec write es bx 512).bind fun data => Triple.assume fun hdata => ?_
  have hanswer := fdResultLog_spec fuel
  refine Triple.top.bind fun _ => .ite (fun hdead => ?silent) fun hr => ?answered
  case silent =>
    refine Triple.top.bind fun _ => Triple.top.bind fun answer => ?_
    rw [map_eq_pure_bind]
    refine ((fdFail_returns TIME_OUT).pre fun _ _ => trivial).bind fun rc => .pure fun _ hrc => ?_
    exact .silent (hrc ▸ time_out_ne) (hdead ▸ hdata)
  case answered =>
    refine (hanswer.pre fun _ _ => trivial).bind fun answer => Triple.assume fun hgood => ?_
    rw [map_eq_pure_bind]
    refine ((fdRwEnd_returns drive answer.1).pre fun _ _ => trivial).bind fun rc =>
      .pure fun _ hrc => ?_
    exact .answered hr hdata (hrc ▸ hgood)

/-- **Success means a whole sector**: what a call of `fd_rw` must keep to. -/
def WholeSector (rc : Byte) (seen : Seen) : Prop :=
  rc = NO_ERROR → (moves seen.data).length = 512

theorem RwLog.whole_iff {write : Bool} {es bx : Word} {rc : Byte} {seen : Seen}
    (h : RwLog write es bx rc seen) :
    WholeSector rc seen ↔ ¬ (Ended seen.data ∧ GoodEnd seen.answer) := by
  have hphase := dataPhase_ne write
  cases h with
  | refused hrc => exact iff_of_true (fun h => absurd h hrc) fun h => not_ended_nil h.1
  | silent hrc hdata =>
      exact iff_of_true (fun h => absurd h hrc) fun h => nomatch (hdata.ended_iff hphase).mp h.1
  | @answered r data answer hr hdata hrc =>
      show (rc = NO_ERROR → (moves data).length = 512) ↔ ¬ (Ended data ∧ GoodEnd answer)
      rw [hdata.ended_iff hphase, ← hrc, ← hdata.all_iff]
      cases r with
      | all => exact iff_of_true (fun _ => rfl) fun h => nomatch h.1
      | short =>
          constructor
          · rintro h ⟨-, hgood⟩
            exact nomatch h hgood
          · intro h hgood
            exact absurd ⟨rfl, hgood⟩ h
      | dead => exact absurd rfl hr

/-- **When `fd_rw` and the programmed transfer keep to it.** A call of `fd_rw` is right about
the sector unless the 765 goes to the result phase during the data phase and then speaks for
success; a transfer is safe unless it is asked for bytes past the end of the segment. -/
theorem fdRw_whole_iff {fuel : Nat} {write : Bool} {drive : Fin 4} {fdtype : FdType}
    {cyl head sec es bx : Word} {h h' : Host Bda} {rc : Byte}
    (hrw : Runs (fdRw fuel write drive fdtype cyl head sec es bx) h rc h')
    {out : Bool} {seg off count : Word} {k k' : Host Bda} {r : Pio}
    (hpio : Runs (fdcPio out seg off count) k r k') :
    (∃ seen, Runs (fdRwLog fuel write drive fdtype cyl head sec es bx) h (rc, seen) h' ∧
      (WholeSector rc seen ↔ ¬ (Ended seen.data ∧ GoodEnd seen.answer))) ∧
    ∃ log, Runs (fdcPioLog out seg off count) k (r, log) k' ∧
      (PioSafe out seg off count r log ↔ off.toNat + asked (dataPhase out) log ≤ 65536) := by
  rw [← fst_fdRwLog] at hrw
  rw [← fst_fdcPioLog] at hpio
  obtain ⟨⟨rc, seen⟩, hrun, rfl⟩ := runs_map.mp hrw
  obtain ⟨⟨r, log⟩, hlog, rfl⟩ := runs_map.mp hpio
  have hseen : RwLog write es bx rc seen := fdRwLog_spec _ _ _ _ _ _ _ _ _ trivial hrun
  have hsafe := fdcPioLog_spec _ _ _ _ trivial hlog
  exact ⟨⟨seen, hrun, hseen.whole_iff⟩, ⟨log, hlog, pioSafe_iff hsafe⟩⟩

/-- A 765 that takes a command, shows the result phase at the first look at it, and flags
nothing but the end of the cylinder. -/
def cutWorld (c : Card) : Moment where
  msr := if c.busy then 0xC0 else if c.result = [] then 0x80 else 0xC0
  clock := BitVec.ofNat 16 c.now
  data := 0
  motion _ := .rest
  first := 0
  status i := [0x40, 0x80, 0, 0, 0, 1, 2].getD i 0

/-- The motor runs and every drive has been recalibrated. -/
def cutBench : Host Bda where
  world := cutWorld
  card :=
    { latch := 0x82, command := [], result := [], busy := false
      drive := fun _ => ⟨0, 0, none, none⟩, taken := [], now := 0 }
  mem _ := 0
  vars :=
    { motorStatus := 0x82, motorCount := FD_MOTOR_TIME, seekStatus := 0, fdStatus := 0
      fdCtrlStat := fun _ => 0, sought := [] }

theorem cutBench_runs : ∃ h', Runs (fdRwLog 4 false 0 .FD_1440 0 0 1 0x1000 0) cutBench
    (NO_ERROR, ⟨[.poll 0xC0], [0x40, 0x80, 0, 0, 0, 1, 2]⟩) h' := by
  have heval : ((fdRwLog 4 false 0 .FD_1440 0 0 1 0x1000 0).run cutBench).map (fun r => r.1) =
      .ok (NO_ERROR, ⟨[.poll 0xC0], [0x40, 0x80, 0, 0, 0, 1, 2]⟩) := by decide +kernel
  obtain ⟨q, h', hrun, rfl⟩ := runs_of_eval heval
  exact ⟨h', hrun⟩

theorem fdRw_of_log {fuel : Nat} {write : Bool} {drive : Fin 4} {fdtype : FdType}
    {cyl head sec es bx : Word} {h h' : Host Bda} {rc : Byte} {seen : Seen}
    (hrun : Runs (fdRwLog fuel write drive fdtype cyl head sec es bx) h (rc, seen) h') :
    Runs (fdRw fuel write drive fdtype cyl head sec es bx) h rc h' := by
  rw [← fst_fdRwLog]
  exact runs_map.mpr ⟨_, hrun, rfl⟩

/-- **A cut transfer reported good.** Not a byte has moved. -/
theorem fdRw_not_whole : ∃ seen h',
    Runs (fdRw 4 false 0 .FD_1440 0 0 1 0x1000 0) cutBench NO_ERROR h' ∧
    Runs (fdRwLog 4 false 0 .FD_1440 0 0 1 0x1000 0) cutBench (NO_ERROR, seen) h' ∧
    moves seen.data = [] ∧ ¬ WholeSector NO_ERROR seen := by
  obtain ⟨h', hrun⟩ := cutBench_runs
  exact ⟨_, h', fdRw_of_log hrun, hrun, rfl, fun hwhole => nomatch hwhole rfl⟩

/-- One that asks for bytes at every look. -/
def askBench : Host Bda :=
  { cutBench with world := fun c => { cutWorld c with msr := 0xA0 } }

theorem fdRw_whole_iff_cut : ∃ h' k',
    (∃ seen, Runs (fdRwLog 4 false 0 .FD_1440 0 0 1 0x1000 0) cutBench (NO_ERROR, seen) h' ∧
      (WholeSector NO_ERROR seen ↔ ¬ (Ended seen.data ∧ GoodEnd seen.answer))) ∧
    ∃ log, Runs (fdcPioLog true 0x1000 0xFFFE 2) askBench (.all, log) k' ∧
      (PioSafe true 0x1000 0xFFFE 2 .all log ↔
        (0xFFFE : Word).toNat + asked (dataPhase true) log ≤ 65536) := by
  have hpio : ((fdcPio true 0x1000 0xFFFE 2).run askBench).map (fun r => r.1) = .ok .all := by
    decide +kernel
  obtain ⟨h', hlog⟩ := cutBench_runs
  obtain ⟨r, k', hout, rfl⟩ := runs_of_eval hpio
  exact ⟨h', k', fdRw_whole_iff (fdRw_of_log hlog) hout⟩

end Sbc386Ex.Fdc.DiskFdc

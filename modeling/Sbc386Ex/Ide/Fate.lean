import Mathlib.Tactic.SplitIfs
import Sbc386Ex.Ide.Transfer
import Sbc386Ex.Lib.Leading

/-!
# Sbc386Ex.Ide.Fate

A command sector by sector: which bytes it moves and how it ends, read off the
fates the plan gives its sectors. `transfer_one` is a command for one sector,
`transfer_many` a command for any number of them.
-/

namespace Sbc386Ex.Ide

/-! ### The fate of one sector -/

/-- The data of the sector moves. -/
def Fate.moves (f : Fate) : Bool :=
  match f.before with
  | .ready => true
  | _ => false

/-- The drive goes on to the next sector of a longer command. -/
def Fate.goesOn (w : Bool) (f : Fate) : Bool :=
  match f.before, w, f.after with
  | .ready, true, .done => true
  | .ready, false, _ => true
  | _, _, _ => false

/-- The driver is satisfied with a command that ends with this sector. -/
def Fate.succeeds (w : Bool) (f : Fate) : Bool :=
  match f.before, w, f.after with
  | .ready, true, .wedge => false
  | .ready, _, _ => true
  | _, _, _ => false

/-- The drive takes the data of the sector and then posts a failure. -/
def Fate.spoils (w : Bool) (f : Fate) : Bool :=
  match f.before, w, f.after with
  | .ready, true, .spoil _ _ => true
  | _, _, _ => false

/-- The phase the drive is left in by a command that ends with this sector. -/
def Fate.leaves (w : Bool) (f : Fate) : Phase :=
  match f.before, w, f.after with
  | .ready, true, .spoil r _ => .rest r
  | .ready, true, .wedge => .wedged
  | .ready, _, _ => .rest .clean
  | .halt r, _, _ => .rest r
  | .wedge, _, _ => .wedged

/-- The bytes it moves. -/
def Fate.log (f : Fate) (seg off : Word) (lba : Lba) : List Exchange :=
  if f.moves then sectorLog seg off lba else []

theorem Fate.moves_of_goesOn {w : Bool} {f : Fate} (h : f.goesOn w = true) : f.moves = true := by
  rcases f with ⟨_ | _ | _, _⟩
  · rfl
  · cases w <;> cases h
  · cases w <;> cases h

theorem Fate.moves_of_succeeds {w : Bool} {f : Fate} (h : f.succeeds w = true) :
    f.moves = true := by
  rcases f with ⟨_ | _ | _, _⟩
  · rfl
  · cases w <;> cases h
  · cases w <;> cases h

theorem Fate.not_hangs_of_succeeds {w : Bool} {f : Fate} (h : f.succeeds w = true) :
    (f.leaves w).hangs = false := by
  rcases f with ⟨_ | _ | _, _ | _ | _⟩ <;> cases w <;> first | rfl | cases h

theorem Fate.succeeds_of_goesOn {w : Bool} {f : Fate} (h : f.goesOn w = true) :
    f.succeeds w = true := by
  rcases f with ⟨_ | _ | _, _ | _ | _⟩ <;> cases w <;> first | rfl | cases h

/-! ### What commands leave behind -/

/-- `v` once the commands `cs` have been accepted, the bytes of `log` moved and the
drive left in `p`. -/
def View.after (v : View) (w u : Bool) (log : List Exchange) (cs : List Cmd) (p : Phase) : View :=
  { v.exchange w u log with cmds := v.cmds ++ cs, phase := p }

theorem View.after_after (v : View) (w u : Bool) (l l' : List Exchange) (cs cs' : List Cmd)
    (p p' : Phase) :
    (v.after w u l cs p).after w u l' cs' p' = v.after w u (l ++ l') (cs ++ cs') p' := by
  simp only [View.after, View.exchange_append, ← List.append_assoc]
  rfl


theorem statusCode_ne_zero (st er : Byte) : statusCode st er ≠ 0 := by
  unfold statusCode decodeError
  split_ifs <;> decide

theorem View.fail_ne_zero (v : View) : v.fail.1 ≠ 0 := by
  have hcode : View.errorCode v.phase ≠ 0 := statusCode_ne_zero _ _
  intro h
  apply hcode
  have hs := congrArg (BitVec.setWidth 8) h
  simpa [View.fail] using hs

/-! ### A command for one sector -/

theorem transfer_one {v : View} (hv : v.phase.hangs = false) (P : Plan) (w u : Bool) (lba : Lba)
    (seg off : Word) :
    let f := P w u lba
    let c : Cmd := ⟨w, u, lba, 1⟩
    let v' := v.after w u (f.log seg off lba) [c] (f.leaves w)
    v.transfer P c seg off = if f.succeeds w then (0, v') else v'.fail := by
  have hone : (1 : Byte).toNat = 1 := rfl
  simp only [View.transfer, hv, hone, View.start, View.sectors, enterPhase, Cmd.first, View.after]
  cases hb : (P w u lba).before with
  | ready =>
      have hmoves : (P w u lba).moves = true := by rw [Fate.moves, hb]
      cases w with
      | false =>
          have hs : (P false u lba).succeeds false = true := by simp [Fate.succeeds, hb]
          have hl : (P false u lba).leaves false = .rest .clean := by simp [Fate.leaves, hb]
          simp [View.conclude, View.finish, finishPhase, nextPhase, hs, hl, Fate.log, hmoves,
            View.move, View.exchange]
      | true =>
          cases ha : (P true u lba).after with
          | done =>
              have hs : (P true u lba).succeeds true = true := by simp [Fate.succeeds, hb, ha]
              have hl : (P true u lba).leaves true = .rest .clean := by simp [Fate.leaves, hb, ha]
              simp [View.conclude, View.finish, finishPhase, nextPhase, hs, hl, ha, Fate.log,
                hmoves, View.move, View.exchange, Phase.hangs]
          | spoil r hr =>
              have hs : (P true u lba).succeeds true = true := by simp [Fate.succeeds, hb, ha]
              have hl : (P true u lba).leaves true = .rest r := by simp [Fate.leaves, hb, ha]
              simp [View.conclude, View.finish, finishPhase, hs, hl, ha, Fate.log, hmoves,
                View.move, View.exchange, Phase.hangs]
          | wedge =>
              have hs : (P true u lba).succeeds true = false := by simp [Fate.succeeds, hb, ha]
              have hl : (P true u lba).leaves true = .wedged := by simp [Fate.leaves, hb, ha]
              simp [View.conclude, View.finish, finishPhase, hs, hl, ha, Fate.log, hmoves,
                View.move, View.exchange, Phase.hangs]
  | halt r => simp [View.conclude, Fate.succeeds, hb, Fate.log, Fate.moves, Fate.leaves,
      View.exchange]
  | wedge => simp [View.conclude, Fate.succeeds, hb, Fate.log, Fate.moves, Fate.leaves,
      View.exchange]

/-! ### A command for several sectors -/

theorem lba_succ (lba : Lba) (k : Nat) :
    lba + 1 + BitVec.ofNat 28 k = lba + BitVec.ofNat 28 (k + 1) := by
  rw [BitVec.add_assoc, BitVec.add_comm 1, BitVec.ofNat_add]
  rfl

/-- The fate of the `k`-th sector of a run. -/
def fateAt (P : Plan) (w u : Bool) (lba : Lba) (k : Nat) : Fate :=
  P w u (lba + BitVec.ofNat 28 k)

theorem fateAt_succ (P : Plan) (w u : Bool) (lba : Lba) (k : Nat) :
    fateAt P w u (lba + 1) k = fateAt P w u lba (k + 1) := by
  rw [fateAt, fateAt, lba_succ]

theorem fateAt_zero (P : Plan) (w u : Bool) (lba : Lba) : fateAt P w u lba 0 = P w u lba := by
  simp [fateAt]

/-- The `k`-th sector of a longer command: the driver's offset just goes on. -/
def blockAt (seg off : Word) (lba : Lba) (k : Nat) : List Exchange :=
  sectorLog seg (off + BitVec.ofNat 16 (512 * k)) (lba + BitVec.ofNat 28 k)

theorem blockAt_succ (seg off : Word) (lba : Lba) (k : Nat) :
    blockAt seg (off + 512) (lba + 1) k = blockAt seg off lba (k + 1) := by
  have hoff : off + 512 + BitVec.ofNat 16 (512 * k) = off + BitVec.ofNat 16 (512 * (k + 1)) := by
    rw [Nat.mul_succ, Nat.add_comm (512 * k), BitVec.ofNat_add, ← BitVec.add_assoc]
    rfl
  rw [blockAt, blockAt, lba_succ, hoff]

/-- The sectors whose data a command moves. -/
def runMoved (P : Plan) (w u : Bool) (lba : Lba) (n : Nat) : Nat :=
  attempted (fun k => (fateAt P w u lba k).goesOn w) (fun k => (fateAt P w u lba k).moves) n

/-- The phase the drive ends in: that of the first sector it does not go on from. -/
def runLeaves (P : Plan) (w u : Bool) (lba : Lba) (n : Nat) : Phase :=
  let k := leading (fun k => (fateAt P w u lba k).goesOn w) n
  if k < n then (fateAt P w u lba k).leaves w else .rest .clean

theorem View.after_nothing (v : View) (w u : Bool) : v.after w u [] [] v.phase = v := by
  cases w <;> simp [View.after, View.exchange]

/-- A sector the drive goes on from, and one it does not. -/
theorem finishPhase_goesOn {P : Plan} {x : Xfer}
    (h : (P x.write x.unit x.lba).goesOn x.write = true) : finishPhase P x = nextPhase P x := by
  unfold finishPhase
  unfold Fate.goesOn at h
  cases hw : x.write with
  | false => rfl
  | true =>
      rw [hw] at h
      cases ha : (P true x.unit x.lba).after with
      | done => simp only [if_true]
      | spoil r hr => rw [ha] at h; cases (P true x.unit x.lba).before <;> simp at h
      | wedge => rw [ha] at h; cases (P true x.unit x.lba).before <;> simp at h

theorem finishPhase_stops {P : Plan} {x : Xfer} (hm : (P x.write x.unit x.lba).moves = true)
    (h : (P x.write x.unit x.lba).goesOn x.write = false) :
    finishPhase P x = (P x.write x.unit x.lba).leaves x.write := by
  have hb : (P x.write x.unit x.lba).before = .ready := by
    unfold Fate.moves at hm
    cases hb : (P x.write x.unit x.lba).before with
    | ready => rfl
    | halt r => simp [hb] at hm
    | wedge => simp [hb] at hm
  unfold Fate.goesOn at h
  unfold finishPhase Fate.leaves
  cases hw : x.write with
  | false => rw [hw] at h hb; simp [hb] at h
  | true =>
      rw [hw] at h hb
      cases ha : (P true x.unit x.lba).after with
      | done => simp [hb, ha] at h
      | spoil r hr => simp [hb]
      | wedge => simp [hb]

/-- A fate that stops a command leaves the drive with nothing to transfer. -/
theorem Fate.leaves_ne_xfer (w : Bool) (f : Fate) (x : Xfer) : f.leaves w ≠ .xfer x := by
  intro h
  rcases f with ⟨_ | _ | _, _ | _ | _⟩ <;> cases w <;> cases h

theorem View.sectors_stopped {P : Plan} {seg off : Word} {n : Nat} {v : View}
    (h : ∀ x, v.phase ≠ .xfer x) : View.sectors P seg n off v = (decide (n = 0), v) := by
  cases n with
  | zero => rfl
  | succ n =>
      rw [View.sectors]
      cases hp : v.phase with
      | xfer x => exact absurd hp (h x)
      | rest r => simp
      | wedged => simp

theorem enterPhase_moves {P : Plan} {x : Xfer} (hm : (P x.write x.unit x.lba).moves = true) :
    enterPhase P x = .xfer x := by
  unfold enterPhase
  unfold Fate.moves at hm
  cases hb : (P x.write x.unit x.lba).before with
  | ready => rfl
  | halt r => simp [hb] at hm
  | wedge => simp [hb] at hm

theorem enterPhase_stays {P : Plan} {x : Xfer} (hm : (P x.write x.unit x.lba).moves = false) :
    enterPhase P x = (P x.write x.unit x.lba).leaves x.write := by
  unfold enterPhase Fate.leaves
  unfold Fate.moves at hm
  cases hb : (P x.write x.unit x.lba).before with
  | ready => simp [hb] at hm
  | halt r => rfl
  | wedge => rfl

/-- The phase at the start of a run of `n` sectors. -/
def runPhase (P : Plan) (w u : Bool) (lba : Lba) (n : Nat) : Phase :=
  if n = 0 then .rest .clean else enterPhase P ⟨w, u, lba, n, 0⟩

theorem nextPhase_eq (P : Plan) (w u : Bool) (lba : Lba) (n : Nat) :
    nextPhase P ⟨w, u, lba, n + 1, 0⟩ = runPhase P w u (lba + 1) n := by
  simp [nextPhase, runPhase, Xfer.succ]

/-- The sector loop of a command: it moves the sectors up to the first the drive does
not go on from, that one too if the drive came ready, and succeeds if that makes all
of them. -/
theorem sectors_run (P : Plan) (w u : Bool) (seg : Word) :
    ∀ (n : Nat) (lba : Lba) (off : Word) (v : View), v.phase = runPhase P w u lba n →
      View.sectors P seg n off v =
        (decide (runMoved P w u lba n = n),
          v.after w u ((List.range (runMoved P w u lba n)).flatMap (blockAt seg off lba)) []
            (runLeaves P w u lba n)) := by
  intro n
  induction n with
  | zero =>
      intro lba off v hv
      have hleaves : runLeaves P w u lba 0 = v.phase := hv.symm
      rw [hleaves]
      simp [View.sectors, runMoved, View.after_nothing]
  | succ n ih =>
      intro lba off v hv
      have hb0 : blockAt seg off lba 0 = sectorLog seg off lba := by simp [blockAt]
      have hf0 := fateAt_zero P w u lba
      have hv' : v.phase = enterPhase P ⟨w, u, lba, n + 1, 0⟩ := hv
      cases hm : (P w u lba).moves with
      | false =>
          have hon : (fateAt P w u lba 0).goesOn w = false := by
            rw [hf0]
            by_contra hon
            rw [Fate.moves_of_goesOn (by simpa using hon)] at hm
            cases hm
          have hmoved : runMoved P w u lba (n + 1) = 0 := by
            rw [runMoved, attempted_succ_of_false hon, hf0, hm]
            rfl
          have hleaves : runLeaves P w u lba (n + 1) = v.phase := by
            rw [hv', enterPhase_stays hm, runLeaves, leading_succ_of_false hon]
            simp [hf0]
          have hstop : ∀ x, v.phase ≠ .xfer x := by
            intro x
            rw [hv', enterPhase_stays hm]
            exact Fate.leaves_ne_xfer _ _ x
          rw [View.sectors_stopped hstop, hmoved, hleaves]
          simp [View.after_nothing]
      | true =>
          have hstep : View.sectors P seg (n + 1) off v = View.sectors P seg n (off + 512)
              (v.after w u (sectorLog seg off lba) [] (finishPhase P ⟨w, u, lba, n + 1, 0⟩)) := by
            rw [View.sectors, hv', enterPhase_moves hm]
            simp [View.after, View.finish, View.move]
            rfl
          rw [hstep]
          cases hon : (P w u lba).goesOn w with
          | false =>
              have hon0 : (fateAt P w u lba 0).goesOn w = false := by rw [hf0, hon]
              have hmoved : runMoved P w u lba (n + 1) = 1 := by
                rw [runMoved, attempted_succ_of_false hon0, hf0, hm, if_pos rfl]
              have hleaves : runLeaves P w u lba (n + 1) = (P w u lba).leaves w := by
                rw [runLeaves, leading_succ_of_false hon0]
                simp [hf0]
              have hfin := finishPhase_stops (x := ⟨w, u, lba, n + 1, 0⟩) hm hon
              rw [hfin, View.sectors_stopped (fun x => Fate.leaves_ne_xfer w _ x), hmoved, hleaves]
              simp [hb0]
          | true =>
              have hon0 : (fateAt P w u lba 0).goesOn w = true := by rw [hf0, hon]
              have hmoved : runMoved P w u lba (n + 1) = runMoved P w u (lba + 1) n + 1 := by
                rw [runMoved, attempted_succ_of_true hon0]
                simp only [runMoved, fateAt_succ]
              have hleaves : runLeaves P w u lba (n + 1) = runLeaves P w u (lba + 1) n := by
                rw [runLeaves, leading_succ_of_true hon0]
                simp only [runLeaves, fateAt_succ, Nat.add_lt_add_iff_right]
              have hfin := finishPhase_goesOn (x := ⟨w, u, lba, n + 1, 0⟩) hon
              have hblocks : blockAt seg (off + 512) (lba + 1) =
                  fun k => blockAt seg off lba k.succ :=
                funext fun k => blockAt_succ seg off lba k
              rw [hfin, nextPhase_eq, ih (lba + 1) (off + 512) _ rfl, View.after_after, hmoved,
                hleaves, List.range_succ_eq_map, List.flatMap_cons, List.flatMap_map, hb0, hblocks]
              simp

/-- **A command for any number of sectors.** -/
theorem transfer_many {v : View} (hv : v.phase.hangs = false) (P : Plan) (c : Cmd)
    (hc : c.count ≠ 0) (seg off : Word) :
    let n := c.count.toNat
    let moved := runMoved P c.write c.unit c.lba n
    let p := runLeaves P c.write c.unit c.lba n
    let v' := v.after c.write c.unit ((List.range moved).flatMap (blockAt seg off c.lba)) [c] p
    v.transfer P c seg off =
      if moved = n ∧ ¬ (c.write ∧ p.hangs) then (0, v') else v'.fail := by
  intro n moved p v'
  have hn : n ≠ 0 := by
    intro h0
    exact hc (BitVec.eq_of_toNat_eq h0)
  have hphase : (v.start P c).phase = runPhase P c.write c.unit c.lba n := by
    rw [runPhase, if_neg hn]
    rfl
  have hstart : (v.start P c).after c.write c.unit
      ((List.range moved).flatMap (blockAt seg off c.lba)) [] p = v' := by
    simp [View.after, View.start, View.exchange, v']
  rw [View.transfer, if_neg hc, hv, if_neg Bool.false_ne_true,
    sectors_run P c.write c.unit seg n c.lba off _ hphase, hstart, View.conclude]
  simp only [decide_eq_true_eq]
  rfl

/-! ### A call of the driver, in numbers -/

/-- The sectors a call for `n` sectors moves, from the phase the drive is in. -/
def callMoved (P : Plan) (w u : Bool) (lba : Lba) (n : Nat) (p : Phase) : Nat :=
  if p.hangs then 0 else runMoved P w u lba n

/-- The sectors it completes: those the drive goes on from. -/
def callDone (P : Plan) (w u : Bool) (lba : Lba) (n : Nat) (p : Phase) : Nat :=
  if p.hangs then 0 else leading (fun k => (fateAt P w u lba k).goesOn w) n

/-- The call ends in a driver error. -/
def CallFails (P : Plan) (w u : Bool) (lba : Lba) (n : Nat) (p : Phase) : Prop :=
  n ≠ 0 ∧ (p.hangs = true ∨
    ¬ (runMoved P w u lba n = n ∧ ¬ (w = true ∧ (runLeaves P w u lba n).hangs = true)))

/-- A call of the driver moves `callMoved` sectors and fails when `CallFails` says. -/
theorem transfer_summary (P : Plan) (c : Cmd) (seg off : Word) (v : View) :
    let moved := callMoved P c.write c.unit c.lba c.count.toNat v.phase
    let log := (List.range moved).flatMap (blockAt seg off c.lba)
    ∃ cs p, let v' := v.after c.write c.unit log cs p
      (CallFails P c.write c.unit c.lba c.count.toNat v.phase → v.transfer P c seg off = v'.fail) ∧
      (¬ CallFails P c.write c.unit c.lba c.count.toNat v.phase →
        v.transfer P c seg off = (0, v')) := by
  intro moved log
  by_cases hc : c.count = 0
  · have hn : c.count.toNat = 0 := by rw [hc]; rfl
    refine ⟨[], v.phase, fun hf => absurd hn hf.1, fun _ => ?_⟩
    have hmoved : moved = 0 := by
      simp only [moved, hn, callMoved, runMoved, attempted_zero, ite_self]
    simp only [log, hmoved, View.transfer, if_pos hc]
    simp [View.after_nothing]
  have hn : c.count.toNat ≠ 0 := fun h0 => hc (BitVec.eq_of_toNat_eq h0)
  cases hh : v.phase.hangs with
  | true =>
      refine ⟨[], v.phase, fun _ => ?_, fun hf => absurd ⟨hn, Or.inl hh⟩ hf⟩
      have hmoved : moved = 0 := by
        simp only [moved, callMoved, hh, if_true]
      simp only [log, hmoved, View.transfer, if_neg hc, hh, if_true]
      simp [View.after_nothing]
  | false =>
      have hmoved : moved = runMoved P c.write c.unit c.lba c.count.toNat := by
        simp only [moved, callMoved, hh, Bool.false_eq_true, if_false]
      have hmany := transfer_many hh P c hc seg off
      refine ⟨[c], runLeaves P c.write c.unit c.lba c.count.toNat, ?_, ?_⟩
      · rintro ⟨-, hhang | hfail⟩
        · rw [hh] at hhang
          cases hhang
        · simp only [log, hmany, hmoved]
          exact if_neg hfail
      · intro hok
        simp only [log, hmany, hmoved]
        refine if_pos ?_
        by_contra hnot
        exact hok ⟨hn, Or.inr hnot⟩

end Sbc386Ex.Ide

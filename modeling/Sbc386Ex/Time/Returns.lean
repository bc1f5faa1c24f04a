import Mathlib.Tactic.IntervalCases
import Sbc386Ex.Time.Int1A

/-!
# Sbc386Ex.Time.Returns

How INT 1Ah returns: what each function leaves of the registers and the stack.
-/

namespace Sbc386Ex.Time

open Cpu

variable {W : Type} [ThreeWire W]

/-! ### The wires, to the registers -/

attribute [local simp] byteRead_eq byteWrite_eq reg pushAxDx dsError dsFullExit dsGoodExit
  dsReadExit getBdaDs dsResetOn dsResetOff dsOutb onChip

/-- What `wr_protect` does to the chip. -/
def protectChip (al : Byte) (w : W) : W :=
  if al &&& 0x7F = 0 then chipWrite 0x8E al w else w

def wrProtectFlags (s : Cpu (Board W)) : Word := (wrProtect s).flags

theorem wrProtect_eq (s : Cpu (Board W)) : wrProtect s =
    { s with
      flags := wrProtectFlags s
      world := { s.world with chip := protectChip s.al s.world.chip } } := by
  unfold wrProtectFlags protectChip
  by_cases h : low s.ax &&& 0x7F = 0
  · simp [wrProtect, show low s.ax &&& 127#8 = 0#8 from h]
  · simp [wrProtect, show ¬ low s.ax &&& 127#8 = 0#8 from h]

/-! ### What a function leaves -/

/-- The byte registers a function is documented to return something in. -/
structure Results where
  ah : Bool
  al : Bool
  ch : Bool
  cl : Bool
  dh : Bool
  dl : Bool

/-- Nothing but the carry. -/
def Results.none : Results := ⟨false, false, false, false, false, false⟩

/-- What stands over each function; over the dispatcher, that an error code is in `AH`. -/
def documented (fn : Byte) : Results :=
  if fn = 0x00 then { Results.none with al := true, ch := true, cl := true, dh := true, dl := true }
  else if fn = 0x01 then .none
  else if fn = 0x02 then { Results.none with ch := true, cl := true, dh := true, dl := true }
  else if fn = 0x03 then .none
  else if fn = 0x04 then
    { Results.none with al := true, ch := true, cl := true, dh := true, dl := true }
  else if fn = 0x05 then .none
  else if fn = 0x20 then { Results.none with al := true }
  else if fn = 0x21 then .none
  else if fn = 0x22 then .none
  else if fn = 0x23 then .none
  else if fn = 0x24 then { Results.none with al := true }
  else { Results.none with ah := true }

/-- The registers but those documented are the same. -/
structure Untouched (d : Results) (s s' : Cpu (Board W)) : Prop where
  ah : d.ah = false → s'.ah = s.ah
  al : d.al = false → s'.al = s.al
  ch : d.ch = false → s'.ch = s.ch
  cl : d.cl = false → s'.cl = s.cl
  dh : d.dh = false → s'.dh = s.dh
  dl : d.dl = false → s'.dl = s.dl
  upper : s'.upper = s.upper

/-- A function of the table comes back with the stack it was called with. -/
def Answers (d : Results) (s s' : Cpu (Board W)) : Prop := Untouched d s s' ∧ s'.stack = s.stack

section Tick

omit [ThreeWire W]

theorem getTickCount_answers (s : Cpu (Board W)) :
    Answers (documented 0x00) s (getTickCount s) := by
  refine ⟨⟨?_, ?_, ?_, ?_, ?_, ?_, ?_⟩, ?_⟩ <;> simp [getTickCount, documented]

theorem setTickCount_answers (s : Cpu (Board W)) :
    Answers (documented 0x01) s (setTickCount s) := by
  refine ⟨⟨?_, ?_, ?_, ?_, ?_, ?_, ?_⟩, ?_⟩ <;> simp [setTickCount]

@[simp] theorem stack_dow (s : Cpu (Board W)) (past : Word → Byte) :
    (dow s past).stack = s.stack := by
  simp only [dow]
  split_ifs <;> rfl

@[simp] theorem upper_dow (s : Cpu (Board W)) (past : Word → Byte) :
    (dow s past).upper = s.upper := by
  simp only [dow]
  split_ifs <;> rfl

@[simp] theorem world_dow (s : Cpu (Board W)) (past : Word → Byte) :
    (dow s past).world = s.world := by
  simp only [dow]
  split_ifs <;> rfl

end Tick

theorem setDate_answers (s : Cpu (Board W)) : Answers (documented 0x05) s (setDate s) := by
  by_cases hc : high s.cx ≠ 0x20 ∧ high s.cx ≠ 0x19
  · have h : setDate s = dsError (pushAxDx s) := by
      unfold setDate
      rw [if_pos (by simpa using hc)]
    rw [h]
    refine ⟨⟨?_, ?_, ?_, ?_, ?_, ?_, ?_⟩, ?_⟩ <;> simp
  · have h : ¬ ((pushAxDx s).ch ≠ 0x20 ∧ (pushAxDx s).ch ≠ 0x19) := by simpa using hc
    unfold setDate
    rw [if_neg h]
    refine ⟨⟨?_, ?_, ?_, ?_, ?_, ?_, ?_⟩, ?_⟩ <;> simp [wrProtect_eq, dayOfWeek, bcd2int]

/-! #### The NVRAM -/

/-- The burst loops leave what is under them alone. -/
theorem dsRead2_keeps (n : Nat) (s : Cpu (Board W)) :
    (dsRead2 n s).stack = s.stack ∧ (dsRead2 n s).upper = s.upper := by
  induction n generalizing s with
  | zero => exact ⟨rfl, rfl⟩
  | succ n ih =>
      rw [dsRead2]
      exact ih _

theorem dsWrite2_keeps (n : Nat) (s : Cpu (Board W)) :
    (dsWrite2 n s).stack = s.stack ∧ (dsWrite2 n s).upper = s.upper := by
  induction n generalizing s with
  | zero => exact ⟨rfl, rfl⟩
  | succ n ih =>
      rw [dsWrite2]
      exact ih _

theorem dsRead_answers (s : Cpu (Board W)) : Answers (documented 0x20) s (dsRead s) := by
  simp only [dsRead]
  split
  · refine ⟨⟨?_, ?_, ?_, ?_, ?_, ?_, ?_⟩, ?_⟩ <;> simp [documented]
  split
  · refine ⟨⟨?_, ?_, ?_, ?_, ?_, ?_, ?_⟩, ?_⟩ <;> simp
  · refine ⟨⟨?_, ?_, ?_, ?_, ?_, ?_, ?_⟩, ?_⟩ <;> simp [documented, dsRead2_keeps]

theorem dsWrite_answers (s : Cpu (Board W)) : Answers (documented 0x21) s (dsWrite s) := by
  simp only [dsWrite]
  split
  · refine ⟨⟨?_, ?_, ?_, ?_, ?_, ?_, ?_⟩, ?_⟩ <;> simp
  split
  · refine ⟨⟨?_, ?_, ?_, ?_, ?_, ?_, ?_⟩, ?_⟩ <;> simp
  · refine ⟨⟨?_, ?_, ?_, ?_, ?_, ?_, ?_⟩, ?_⟩ <;> simp [dsWrite2_keeps]

theorem wrProtect_answers (s : Cpu (Board W)) : Answers (documented 0x22) s (wrProtect s) := by
  rw [wrProtect_eq]
  exact ⟨⟨fun _ => rfl, fun _ => rfl, fun _ => rfl, fun _ => rfl, fun _ => rfl, fun _ => rfl, rfl⟩,
    rfl⟩

theorem dsSetCharge_answers (s : Cpu (Board W)) :
    Answers (documented 0x23) s (dsSetCharge s) := by
  refine ⟨⟨?_, ?_, ?_, ?_, ?_, ?_, ?_⟩, ?_⟩ <;> simp [dsSetCharge]

theorem dsGetCharge_answers (s : Cpu (Board W)) :
    Answers (documented 0x24) s (dsGetCharge s) := by
  refine ⟨⟨?_, ?_, ?_, ?_, ?_, ?_, ?_⟩, ?_⟩ <;> simp [dsGetCharge, documented]

/-! #### The clock -/

/-- `CL` is used for each byte written and not restored. -/
theorem setTime_answers (s : Cpu (Board W)) :
    Answers { Results.none with cl := true } s (setTime s) := by
  refine ⟨⟨?_, ?_, ?_, ?_, ?_, ?_, ?_⟩, ?_⟩ <;> simp [setTime, wrProtect_eq]

theorem setTime_cl (s : Cpu (Board W)) : (setTime s).cl = s.dh &&& 0x7F := by
  simp [setTime, wrProtect_eq]

theorem setTime_chip (s : Cpu (Board W)) : (setTime s).world.chip =
    protectChip 0x80 (chipWrite 0x80 (s.dh &&& 0x7F) (chipWrite 0x82 s.cl
      (chipWrite 0x84 (s.ch &&& 0x7F) (protectChip 0 s.world.chip)))) := by
  simp [setTime, wrProtect_eq]

/-- The machine in which `set_date` calls `day_of_week_`. -/
def dateAsked (s : Cpu (Board W)) : Cpu (Board W) := ((pushAxDx s).push s.cx).push s.dx

theorem setDate_chip (s : Cpu (Board W)) (hch : s.ch = 0x19 ∨ s.ch = 0x20) :
    (setDate s).world.chip = protectChip 0x80
      (chipWrite 0x8A ((dayOfWeek (dateAsked s) fun _ => 0).al + 1) (chipWrite 0x86 s.dl
        (chipWrite 0x88 s.dh (chipWrite 0x8C s.cl (protectChip 0 s.world.chip))))) := by
  have hstack : ∀ (s : Cpu (Board W)) past, (dayOfWeek s past).stack = s.stack := by
    simp [dayOfWeek, bcd2int]
  have hworld : ∀ (s : Cpu (Board W)) past, (dayOfWeek s past).world = s.world := by
    simp [dayOfWeek, bcd2int]
  have hguard : ¬ ((pushAxDx s).ch ≠ 0x20 ∧ (pushAxDx s).ch ≠ 0x19) := by
    rintro ⟨h20, h19⟩
    exact hch.elim h19 h20
  unfold setDate
  rw [if_neg hguard]
  simp [wrProtect_eq, hstack, hworld, dateAsked]

/-- The bytes `get_date` reads, in order: year, month, day, day of the week, seconds. -/
def chipDate (w : W) : (Byte × Byte × Byte × Byte × Byte) × W :=
  let yr := chipRead 0x8D w
  let mo := chipRead 0x89 yr.2
  let da := chipRead 0x87 mo.2
  let dow := chipRead 0x8B da.2
  let sec := chipRead 0x81 dow.2
  ((yr.1, mo.1, da.1, dow.1, sec.1), sec.2)

/-- `AH` is where the clock halt flag was shifted out of. -/
theorem getDate_answers (s : Cpu (Board W)) :
    Answers { documented 0x04 with ah := true } s (getDate s) := by
  refine ⟨⟨?_, ?_, ?_, ?_, ?_, ?_, ?_⟩, ?_⟩ <;> simp [getDate, documented]

theorem getDate_ah (s : Cpu (Board W)) :
    (getDate s).ah = (chipDate s.world.chip).1.2.2.2.2 <<< 1 := by
  simp [getDate, chipDate]

theorem getDate_regs (s : Cpu (Board W)) :
    ((getDate s).cl, (getDate s).dh, (getDate s).dl, (getDate s).al) =
      ((chipDate s.world.chip).1.1, (chipDate s.world.chip).1.2.1,
        (chipDate s.world.chip).1.2.2.1, (chipDate s.world.chip).1.2.2.2.1) := by
  simp [getDate, chipDate]

/-- The bytes a round of `get_time` reads, in order: minutes, hours, seconds. -/
def chipTime (w : W) : (Byte × Byte × Byte) × W :=
  let mi := chipRead 0x83 w
  let hr := chipRead 0x85 mi.2
  let sec := chipRead 0x81 hr.2
  ((mi.1, hr.1, sec.1), sec.2)

/-- From the seconds `sec` on, some round reads the seconds it began with. -/
inductive Settles : Byte → W → Prop
  | same {sec : Byte} {w : W} (h : (chipTime w).1.2.2 = sec) : Settles sec w
  | again {sec : Byte} {w : W} (h : Settles (chipTime w).1.2.2 (chipTime w).2) : Settles sec w

/-- A round of `get_time`, with what is left in `AL`. -/
def timeRound (al : Byte) (s : Cpu (Board W)) : Cpu (Board W) :=
  { s with
    ax := s.dh ++ al
    cx := (chipTime s.world.chip).1.2.1 ++ (chipTime s.world.chip).1.1
    dx := (chipTime s.world.chip).1.2.2 ++ s.dl
    world := { s.world with chip := (chipTime s.world.chip).2 } }

theorem getTimeLoop_succ (s : Cpu (Board W)) : ∃ al, ∀ fuel, getTimeLoop (fuel + 1) s =
    if s.dh = (chipTime s.world.chip).1.2.2 then some (timeRound al s)
    else getTimeLoop fuel (timeRound al s) := by
  simp only [getTimeLoop, timeRound, chipTime]
  simp
  exact ⟨_, fun _ => rfl⟩

theorem getTimeLoop_keeps {fuel : Nat} {s s' : Cpu (Board W)} (h : getTimeLoop fuel s = some s') :
    s'.stack = s.stack ∧ s'.upper = s.upper := by
  induction fuel generalizing s with
  | zero => cases h
  | succ fuel ih =>
      obtain ⟨al, heq⟩ := getTimeLoop_succ s
      rw [heq] at h
      split at h
      · cases h
        exact ⟨rfl, rfl⟩
      · exact ih (s := timeRound al s) h

/-- The loop ends exactly if some round settles. -/
theorem getTimeLoop_ends (s : Cpu (Board W)) :
    (∃ fuel, (getTimeLoop fuel s).isSome) ↔ Settles s.dh s.world.chip := by
  constructor
  · rintro ⟨fuel, h⟩
    induction fuel generalizing s with
    | zero => cases h
    | succ fuel ih =>
        obtain ⟨al, heq⟩ := getTimeLoop_succ s
        rw [heq] at h
        split at h
        · rename_i hsec
          exact .same hsec.symm
        · have hs := ih _ h
          simp [timeRound] at hs
          exact .again hs
  · intro h
    generalize hsec : s.dh = sec at h
    generalize hw : s.world.chip = w at h
    induction h generalizing s with
    | same h =>
        obtain ⟨al, heq⟩ := getTimeLoop_succ s
        refine ⟨1, ?_⟩
        rw [heq, if_pos (by rw [hsec, hw, h])]
        rfl
    | again h ih =>
        obtain ⟨al, heq⟩ := getTimeLoop_succ s
        obtain ⟨fuel, hf⟩ :=
          ih (timeRound al s) (by simp [timeRound, hw]) (by simp [timeRound, hw])
        refine ⟨fuel + 1, ?_⟩
        rw [heq]
        split
        · rfl
        · exact hf

/-- Some round of `get_time` settles. -/
def ClockSettles (w : W) : Prop := Settles (chipRead 0x81 w).1 (chipRead 0x81 w).2

/-- `get_time` where its loop begins. -/
def timeStart (s : Cpu (Board W)) : Cpu (Board W) :=
  let s := reg { s.push s.ax with bx := 0 } 0x81 0
  let s := byteRead (s.setDl s.al)
  s.setDh s.ah

theorem timeStart_reads (s : Cpu (Board W)) :
    (timeStart s).dh = (chipRead 0x81 s.world.chip).1 ∧
      (timeStart s).world.chip = (chipRead 0x81 s.world.chip).2 := by
  constructor <;> simp [timeStart]

/-- and where it has ended. -/
def timeEnd (s : Cpu (Board W)) : Cpu (Board W) :=
  let s := s.setDh (s.dh &&& 0x7F)
  ((s.setAh (s.ah + s.ah)).setCarry s.ah.msb).popAx

theorem getTime_eq (s : Cpu (Board W)) (fuel : Nat) :
    getTime s fuel = (getTimeLoop fuel (timeStart s)).map timeEnd := rfl

theorem getTime_answers {s s' : Cpu (Board W)} {fuel : Nat} (h : getTime s fuel = some s') :
    Answers (documented 0x02) s s' := by
  rw [getTime_eq] at h
  obtain ⟨t, ht, rfl⟩ := Option.map_eq_some_iff.mp h
  obtain ⟨hstack, hupper⟩ := getTimeLoop_keeps ht
  have hs : t.stack = s.ax :: s.stack := by simpa [timeStart] using hstack
  have hu : t.upper = s.upper := by simpa [timeStart] using hupper
  refine ⟨⟨?_, ?_, ?_, ?_, ?_, ?_, ?_⟩, ?_⟩ <;> simp [timeEnd, documented, hs, hu]

theorem getTime_returns (s : Cpu (Board W)) :
    (∃ fuel, (getTime s fuel).isSome) ↔ ClockSettles s.world.chip := by
  have hloop := getTimeLoop_ends (timeStart s)
  rw [(timeStart_reads s).1, (timeStart_reads s).2] at hloop
  simpa [getTime_eq, ClockSettles] using hloop

/-! ### Through the dispatcher -/

/-- The entry for a function number; nothing for a number in neither table. -/
def entryOf (fuel : Nat) (fn : Byte) :
    Option (Cpu (Board W) → Option (Cpu (Board W) × Leaves)) :=
  if fn.toNat < 8 then (dispatch0 fuel)[fn.toNat]?
  else if 0x20 ≤ fn.toNat then dispatch20[fn.toNat - 0x20]? else none

/-- `mov si,ax`, `shr si,8`, `add si,si`. -/
theorem toNat_si (ax : Word) : (ax >>> 8 + ax >>> 8).toNat = 2 * (high ax).toNat := by
  have hhigh : (high ax).toNat = ax.toNat / 256 := by
    simp [high, Nat.shiftRight_eq_div_pow]
    omega
  have hlt : ax.toNat < 65536 := ax.isLt
  rw [hhigh, BitVec.toNat_add, BitVec.toNat_ushiftRight, Nat.shiftRight_eq_div_pow]
  omega

theorem toNat_sub_si (ax : Word) :
    (ax >>> 8 + ax >>> 8 - 0x40).toNat = (2 * (high ax).toNat + 65472) % 65536 := by
  rw [BitVec.toNat_sub, toNat_si]
  show (65536 - 64 + _) % 65536 = _
  omega

theorem lookUp_eq (s : Cpu (Board W)) (ra : Word) : ∃ si, ∀ fuel, lookUp s ra fuel =
    match entryOf fuel s.ah with
    | some entry => callEntry { s with si := si } ra entry
    | none => some (fnNotDefined { s with si := si }) := by
  have hsi : (s.ax >>> 8 + s.ax >>> 8).toNat = 2 * s.ah.toNat := toNat_si s.ax
  have hsub : (s.ax >>> 8 + s.ax >>> 8 - 0x40).toNat = (2 * s.ah.toNat + 65472) % 65536 :=
    toNat_sub_si s.ax
  have hfn : s.ah.toNat < 256 := s.ah.isLt
  generalize hx : s.ax >>> 8 + s.ax >>> 8 = x at hsi hsub
  generalize hy : x - 0x40 = y at hsub
  by_cases h8 : s.ah.toNat < 8
  · have hlt : x < 16 := by
      rw [BitVec.lt_def, hsi]
      show 2 * s.ah.toNat < 16
      omega
    refine ⟨x, fun fuel => ?_⟩
    obtain ⟨entry, hentry⟩ :
        ∃ entry, (dispatch0 fuel : List (Cpu (Board W) → _))[s.ah.toNat]? = some entry :=
      ⟨_, List.getElem?_eq_getElem (by simpa [dispatch0] using h8)⟩
    have hat : x.toNat / 2 = s.ah.toNat := by omega
    simp only [lookUp, entryOf, hx, hat, hentry, h8, hlt, if_true]
  · -- past the first table, and `SI` goes round zero below the second
    have hge : ¬ x < 16 := by
      rw [BitVec.lt_def, hsi]
      show ¬ 2 * s.ah.toNat < 16
      omega
    refine ⟨y, fun fuel => ?_⟩
    by_cases h20 : 0x20 ≤ s.ah.toNat ∧ s.ah.toNat < 0x25
    · have hlt : y < 10 := by
        rw [BitVec.lt_def, hsub]
        show (2 * s.ah.toNat + 65472) % 65536 < 10
        omega
      have hat : y.toNat / 2 = s.ah.toNat - 0x20 := by omega
      obtain ⟨entry, hentry⟩ :
          ∃ entry, (dispatch20 : List (Cpu (Board W) → _))[s.ah.toNat - 0x20]? = some entry :=
        ⟨_, List.getElem?_eq_getElem (by show s.ah.toNat - 0x20 < 5; omega)⟩
      simp only [lookUp, entryOf, hx, hy, hat, hentry, h8, h20.1, hge, hlt, if_true, if_false]
    · have hnlt : ¬ y < 10 := by
        rw [BitVec.lt_def, hsub]
        show ¬ (2 * s.ah.toNat + 65472) % 65536 < 10
        omega
      have hnone : (if 0x20 ≤ s.ah.toNat then
          (dispatch20 : List (Cpu (Board W) → _))[s.ah.toNat - 0x20]? else none) = none := by
        split
        · exact List.getElem?_eq_none (by show 5 ≤ s.ah.toNat - 0x20; omega)
        · rfl
      simp only [lookUp, entryOf, hx, hy, hnone, h8, hge, hnlt, if_false]

/-! ### A clean return -/

/-- INT 1Ah has come back to `cs:ip`, with the stack as it was before the interrupt and no
register changed but the results. -/
structure Clean (d : Results) (s : Cpu (Board W)) (ip cs : Word) (rest : List Word)
    (r : (Word × Word) × Cpu (Board W)) : Prop where
  back : r.1 = (ip, cs)
  stack : r.2.stack = rest
  bx : r.2.bx = s.bx
  si : r.2.si = s.si
  di : r.2.di = s.di
  bp : r.2.bp = s.bp
  ds : r.2.ds = s.ds
  es : r.2.es = s.es
  untouched : Untouched d s r.2

section Exit

omit [ThreeWire W]

variable {s : Cpu (Board W)} {ip cs fl ra si : Word} {rest : List Word}

theorem ah_pushFrame (s : Cpu (Board W)) : (pushFrame s).ah = s.ah := by simp [pushFrame]

/-- The CPU where a function of the table is entered. -/
def atEntry (s : Cpu (Board W)) (ra si : Word) : Cpu (Board W) :=
  { pushFrame s with si := si }.push ra

theorem world_atEntry (s : Cpu (Board W)) (ra si : Word) :
    (atEntry s ra si).world = s.world := by
  simp [atEntry, pushFrame]

/-- What `exit` does, by what is on the stack. -/
theorem exit_eq {t : Cpu (Board W)} {b x d p e f : Word}
    (h : t.stack = b :: x :: d :: p :: e :: f :: ip :: cs :: fl :: rest) :
    exit t = ((ip, cs), { t with
      bx := b, si := x, di := d, bp := p, ds := e, es := f, stack := rest }) := by
  simp [exit, h]

theorem cl_exit (t : Cpu (Board W)) : (exit t.drop).2.cl = t.cl := by simp [exit]

theorem ah_exit (t : Cpu (Board W)) : (exit t.drop).2.ah = t.ah := by simp [exit]

/-- Coming to `exit` with the frame on top of the stack is a clean return. -/
theorem exit_clean {d : Results} (hstack : s.stack = ip :: cs :: fl :: rest)
    {t : Cpu (Board W)} (ht : t.stack = (pushFrame s).stack) (hu : Untouched d s t) :
    Clean d s ip cs rest (exit t) := by
  rw [exit_eq (by rw [ht, ← hstack]; rfl)]
  exact ⟨rfl, rfl, rfl, rfl, rfl, rfl, rfl, rfl,
    ⟨hu.ah, hu.al, hu.ch, hu.cl, hu.dh, hu.dl, hu.upper⟩⟩

/-- A function of the table that answered. -/
theorem callEntry_clean {d : Results} (hstack : s.stack = ip :: cs :: fl :: rest)
    (entry : Cpu (Board W) → Option (Cpu (Board W) × Leaves)) {t : Cpu (Board W)}
    (hentry : entry (atEntry s ra si) = some (t, .ret)) (h : Answers d (atEntry s ra si) t) :
    callEntry { pushFrame s with si := si } ra entry = some (exit t.drop) ∧
      Clean d s ip cs rest (exit t.drop) := by
  obtain ⟨hu, ht⟩ := h
  have hframe : t.stack = ra :: (pushFrame s).stack := ht
  constructor
  · have htop : t.top = ra := by simp [hframe]
    show (entry (atEntry s ra si)).bind _ = _
    simp only [hentry, Option.bind_some, htop, if_true]
  · exact exit_clean hstack (by simp [hframe])
      ⟨by simpa [atEntry, pushFrame] using hu.ah, by simpa [atEntry, pushFrame] using hu.al,
        by simpa [atEntry, pushFrame] using hu.ch, by simpa [atEntry, pushFrame] using hu.cl,
        by simpa [atEntry, pushFrame] using hu.dh, by simpa [atEntry, pushFrame] using hu.dl,
        by simpa [atEntry, pushFrame] using hu.upper⟩

/-- A call that came back went through its function. -/
theorem callEntry_some {entry : Cpu (Board W) → Option (Cpu (Board W) × Leaves)}
    {r : (Word × Word) × Cpu (Board W)}
    (h : callEntry { pushFrame s with si := si } ra entry = some r) :
    (entry (atEntry s ra si)).isSome := by
  obtain ⟨u, hu, -⟩ := Option.bind_eq_some_iff.mp h
  exact Option.isSome_iff_exists.mpr ⟨u, hu⟩

variable (ra si) in
/-- The jump from inside the call: `exit` takes the return address for `BX`, and each
register for the next. -/
theorem setAlarm_returns (hstack : s.stack = ip :: cs :: fl :: rest) :
    ∃ r, callEntry { pushFrame s with si := si } ra (fun s => some (setAlarm s)) = some r ∧
      r.1 = (s.es, ip) ∧ r.2.stack = fl :: rest := by
  refine ⟨_, rfl, ?_⟩
  have hframe : (((atEntry s ra si).setAh 0x86).setCarry true).stack =
      ra :: s.bx :: s.si :: s.di :: s.bp :: s.ds :: s.es :: ip :: cs :: fl :: rest := by
    rw [← hstack]
    rfl
  have hexit := exit_eq hframe
  exact ⟨congrArg Prod.fst hexit, congrArg (fun r => r.2.stack) hexit⟩

end Exit

theorem dispatch0_answers {n fuel : Nat} {entry : Cpu (Board W) → Option (Cpu (Board W) × Leaves)}
    (h : (dispatch0 fuel)[n]? = some entry) (h2 : n ≠ 2) (h3 : n ≠ 3) (h4 : n ≠ 4) (h6 : n ≠ 6)
    (h7 : n ≠ 7) (t : Cpu (Board W)) :
    ∃ t', entry t = some (t', .ret) ∧ Answers (documented (BitVec.ofNat 8 n)) t t' := by
  have hn : n < 8 := (List.getElem?_eq_some_iff.mp h).1
  interval_cases n
  · obtain rfl := Option.some.inj h
    exact ⟨_, rfl, getTickCount_answers t⟩
  · obtain rfl := Option.some.inj h
    exact ⟨_, rfl, setTickCount_answers t⟩
  · exact absurd rfl h2
  · exact absurd rfl h3
  · exact absurd rfl h4
  · obtain rfl := Option.some.inj h
    exact ⟨_, rfl, setDate_answers t⟩
  · exact absurd rfl h6
  · exact absurd rfl h7

theorem dispatch20_answers {n : Nat} {entry : Cpu (Board W) → Option (Cpu (Board W) × Leaves)}
    (h : dispatch20[n]? = some entry) (t : Cpu (Board W)) :
    ∃ t', entry t = some (t', .ret) ∧ Answers (documented (BitVec.ofNat 8 (n + 0x20))) t t' := by
  have hn : n < 5 := (List.getElem?_eq_some_iff.mp h).1
  interval_cases n
  · obtain rfl := Option.some.inj h
    exact ⟨_, rfl, dsRead_answers t⟩
  · obtain rfl := Option.some.inj h
    exact ⟨_, rfl, dsWrite_answers t⟩
  · obtain rfl := Option.some.inj h
    exact ⟨_, rfl, wrProtect_answers t⟩
  · obtain rfl := Option.some.inj h
    exact ⟨_, rfl, dsSetCharge_answers t⟩
  · obtain rfl := Option.some.inj h
    exact ⟨_, rfl, dsGetCharge_answers t⟩

/-- The functions that ask nothing of the registers or the chip. -/
theorem entryOf_answers {fn : Byte} {fuel : Nat}
    {entry : Cpu (Board W) → Option (Cpu (Board W) × Leaves)} (h : entryOf fuel fn = some entry)
    (hno : fn.toNat ∉ [2, 3, 4, 6, 7]) (t : Cpu (Board W)) :
    ∃ t', entry t = some (t', .ret) ∧ Answers (documented fn) t t' := by
  simp only [List.mem_cons, List.not_mem_nil, or_false, not_or] at hno
  obtain ⟨h2, h3, h4, h6, h7⟩ := hno
  unfold entryOf at h
  split at h
  · have hans := dispatch0_answers h h2 h3 h4 h6 h7 t
    rwa [BitVec.ofNat_toNat, BitVec.setWidth_eq] at hans
  split at h
  · have hans := dispatch20_answers h t
    rwa [Nat.sub_add_cancel (by assumption), BitVec.ofNat_toNat, BitVec.setWidth_eq] at hans
  · cases h

/-- A number in neither table is documented to return an error code. -/
theorem documented_of_none {fn : Byte} {fuel : Nat}
    (h : (entryOf fuel fn : Option (Cpu (Board W) → _)) = none) :
    documented fn = { Results.none with ah := true } := by
  have hout : ¬ fn.toNat < 8 ∧ ¬ (0x20 ≤ fn.toNat ∧ fn.toNat < 0x25) := by
    unfold entryOf at h
    split at h
    · have hlen : 8 ≤ fn.toNat := List.getElem?_eq_none_iff.mp h
      omega
    split at h
    · have hlen : 5 ≤ fn.toNat - 0x20 := List.getElem?_eq_none_iff.mp h
      omega
    · omega
  have hne : ∀ n : Byte, n.toNat < 8 ∨ (0x20 ≤ n.toNat ∧ n.toNat < 0x25) → fn ≠ n := by
    rintro n hn rfl
    omega
  unfold documented
  rw [if_neg (hne 0x00 (by decide)), if_neg (hne 0x01 (by decide)), if_neg (hne 0x02 (by decide)),
    if_neg (hne 0x03 (by decide)), if_neg (hne 0x04 (by decide)), if_neg (hne 0x05 (by decide)),
    if_neg (hne 0x20 (by decide)), if_neg (hne 0x21 (by decide)), if_neg (hne 0x22 (by decide)),
    if_neg (hne 0x23 (by decide)), if_neg (hne 0x24 (by decide))]

omit [ThreeWire W] in
theorem fnNotDefined_clean {s : Cpu (Board W)} {ip cs fl si : Word} {rest : List Word}
    (hstack : s.stack = ip :: cs :: fl :: rest)
    (hdoc : documented s.ah = { Results.none with ah := true }) :
    Clean (documented s.ah) s ip cs rest (fnNotDefined { pushFrame s with si := si }) := by
  refine exit_clean hstack rfl ?_
  rw [hdoc]
  refine ⟨?_, ?_, ?_, ?_, ?_, ?_, ?_⟩ <;> simp [pushFrame]

/-! ### Each function number -/

section Numbers

variable {s : Cpu (Board W)} {ip cs fl ra : Word} {rest : List Word}

/-- It comes back clean. -/
def ReturnsClean (s : Cpu (Board W)) (ra ip cs : Word) (rest : List Word) : Prop :=
  ∃ fuel r, int1Ah s ra fuel = some r ∧ Clean (documented s.ah) s ip cs rest r

variable (ra) in
/-- A call that reaches an entry of the tables. -/
theorem int1Ah_entry {fn : Byte} (hfn : s.ah = fn)
    (entry : Nat → Cpu (Board W) → Option (Cpu (Board W) × Leaves))
    (hentry : ∀ fuel, entryOf fuel fn = some (entry fuel)) :
    ∃ si, ∀ fuel, int1Ah s ra fuel = callEntry { pushFrame s with si := si } ra (entry fuel) := by
  obtain ⟨si, hrun⟩ := lookUp_eq (pushFrame s) ra
  rw [ah_pushFrame, hfn] at hrun
  refine ⟨si, fun fuel => ?_⟩
  rw [int1Ah, hrun, hentry]

theorem ordinary_clean (hstack : s.stack = ip :: cs :: fl :: rest)
    (hno : s.ah.toNat ∉ [2, 3, 4, 6, 7]) : ReturnsClean s ra ip cs rest := by
  obtain ⟨si, hrun⟩ := lookUp_eq (pushFrame s) ra
  rw [ah_pushFrame] at hrun
  have hzero := hrun 0
  cases hentry : (entryOf 0 s.ah : Option (Cpu (Board W) → _)) with
  | none =>
      rw [hentry] at hzero
      exact ⟨0, _, hzero, fnNotDefined_clean hstack (documented_of_none hentry)⟩
  | some entry =>
      rw [hentry] at hzero
      obtain ⟨t, ht, hans⟩ := entryOf_answers hentry hno (atEntry s ra si)
      obtain ⟨hcall, hclean⟩ := callEntry_clean hstack entry ht hans
      exact ⟨0, _, hzero.trans hcall, hclean⟩

theorem alarm_not_clean (hstack : s.stack = ip :: cs :: fl :: rest)
    (hfn : s.ah = 0x06 ∨ s.ah = 0x07) : ¬ ReturnsClean s ra ip cs rest := by
  have hrun : ∃ si, ∀ fuel, int1Ah s ra fuel =
      callEntry { pushFrame s with si := si } ra fun s => some (setAlarm s) := by
    rcases hfn with hfn | hfn
    · exact int1Ah_entry ra hfn _ fun _ => rfl
    · exact int1Ah_entry ra hfn _ fun _ => rfl
  obtain ⟨si, hrun⟩ := hrun
  rintro ⟨fuel, r, hr, hclean⟩
  obtain ⟨r', hr', -, hleft⟩ := setAlarm_returns ra si hstack
  rw [hrun, hr'] at hr
  obtain rfl := Option.some.inj hr
  rw [hclean.stack] at hleft
  exact List.cons_ne_self _ _ hleft.symm

theorem setTime_clean_iff (hstack : s.stack = ip :: cs :: fl :: rest) (hfn : s.ah = 0x03) :
    ReturnsClean s ra ip cs rest ↔ s.cl = s.dh &&& 0x7F := by
  obtain ⟨si, hrun⟩ := int1Ah_entry ra hfn
    (fun _ t => some (setTime t, .ret)) fun _ => rfl
  obtain ⟨hcall, hclean⟩ :=
    callEntry_clean hstack (fun t => some (setTime t, .ret)) rfl
      (setTime_answers (atEntry s ra si))
  have hcl : (exit (setTime (atEntry s ra si)).drop).2.cl = s.dh &&& 0x7F := by
    rw [cl_exit, setTime_cl]
    simp [atEntry, pushFrame]
  have hdoc : documented s.ah = Results.none := by
    rw [hfn]
    rfl
  constructor
  · rintro ⟨fuel, r, hr, hkept⟩
    rw [hrun, hcall] at hr
    obtain rfl := Option.some.inj hr
    rw [← hcl]
    exact (hkept.untouched.cl (by rw [hdoc]; rfl)).symm
  · intro heq
    refine ⟨0, _, (hrun 0).trans hcall, ?_⟩
    rw [hdoc]
    have hu := hclean.untouched
    exact { hclean with
      untouched := ⟨hu.ah, hu.al, hu.ch, fun _ => hcl.trans heq.symm, hu.dh, hu.dl, hu.upper⟩ }

theorem getDate_clean_iff (hstack : s.stack = ip :: cs :: fl :: rest) (hfn : s.ah = 0x04) :
    ReturnsClean s ra ip cs rest ↔ (chipDate s.world.chip).1.2.2.2.2 <<< 1 = 0x04 := by
  obtain ⟨si, hrun⟩ := int1Ah_entry ra hfn
    (fun _ t => some (getDate t, .ret)) fun _ => rfl
  obtain ⟨hcall, hclean⟩ :=
    callEntry_clean hstack (fun t => some (getDate t, .ret)) rfl
      (getDate_answers (atEntry s ra si))
  have hah : (exit (getDate (atEntry s ra si)).drop).2.ah =
      (chipDate s.world.chip).1.2.2.2.2 <<< 1 := by
    rw [ah_exit, getDate_ah, world_atEntry]
  constructor
  · rintro ⟨fuel, r, hr, hkept⟩
    rw [hrun, hcall] at hr
    obtain rfl := Option.some.inj hr
    rw [← hah, ← hfn]
    exact hkept.untouched.ah (by rw [hfn]; rfl)
  · intro heq
    refine ⟨0, _, (hrun 0).trans hcall, ?_⟩
    have hu := hclean.untouched
    rw [hfn]
    exact { hclean with
      untouched := ⟨fun _ => (hah.trans heq).trans hfn.symm, hu.al, hu.ch, hu.cl, hu.dh, hu.dl,
        hu.upper⟩ }

theorem getTime_clean_iff (hstack : s.stack = ip :: cs :: fl :: rest) (hfn : s.ah = 0x02) :
    ReturnsClean s ra ip cs rest ↔ ClockSettles s.world.chip := by
  obtain ⟨si, hrun⟩ := int1Ah_entry ra hfn
    (fun fuel t => (getTime t fuel).map fun t => (t, .ret)) fun _ => rfl
  have hends := getTime_returns (atEntry s ra si)
  rw [world_atEntry] at hends
  rw [← hends]
  constructor
  · rintro ⟨fuel, r, hr, -⟩
    rw [hrun] at hr
    refine ⟨fuel, ?_⟩
    simpa using callEntry_some hr
  · rintro ⟨fuel, hsome⟩
    obtain ⟨t, ht⟩ := Option.isSome_iff_exists.mp hsome
    obtain ⟨hcall, hclean⟩ := callEntry_clean hstack
      (fun t => (getTime t fuel).map fun t => (t, .ret)) (by rw [ht]; rfl) (getTime_answers ht)
    refine ⟨fuel, _, (hrun fuel).trans hcall, ?_⟩
    rw [hfn]
    exact hclean

end Numbers

/-- What is asked of the registers, and of the chip, for a clean return. -/
def ReturnsWell (s : Cpu (Board W)) : Prop :=
  s.ah ≠ 0x06 ∧ s.ah ≠ 0x07 ∧ (s.ah = 0x02 → ClockSettles s.world.chip) ∧
    (s.ah = 0x03 → s.cl = s.dh &&& 0x7F) ∧
    (s.ah = 0x04 → (chipDate s.world.chip).1.2.2.2.2 <<< 1 = 0x04)

/-- **INT 1Ah returns.** It comes back clean exactly if the function is none of the two
alarm functions, the clock settles for `get_time`, and `set_time` and `get_date` happen to
leave in `CL` and in `AH` what was there. -/
theorem returns_cleanly_iff {s : Cpu (Board W)} {ip cs fl ra : Word} {rest : List Word}
    (hstack : s.stack = ip :: cs :: fl :: rest) :
    ReturnsClean s ra ip cs rest ↔ ReturnsWell s := by
  by_cases h2 : s.ah = 0x02
  · rw [getTime_clean_iff hstack h2, ReturnsWell, h2]
    exact ⟨fun h => ⟨by decide, by decide, fun _ => h, fun h => absurd h (by decide),
      fun h => absurd h (by decide)⟩, fun h => h.2.2.1 rfl⟩
  by_cases h3 : s.ah = 0x03
  · rw [setTime_clean_iff hstack h3, ReturnsWell, h3]
    exact ⟨fun h => ⟨by decide, by decide, fun h => absurd h (by decide), fun _ => h,
      fun h => absurd h (by decide)⟩, fun h => h.2.2.2.1 rfl⟩
  by_cases h4 : s.ah = 0x04
  · rw [getDate_clean_iff hstack h4, ReturnsWell, h4]
    exact ⟨fun h => ⟨by decide, by decide, fun h => absurd h (by decide),
      fun h => absurd h (by decide), fun _ => h⟩, fun h => h.2.2.2.2 rfl⟩
  by_cases h6 : s.ah = 0x06
  · exact iff_of_false (alarm_not_clean hstack (.inl h6)) fun h => h.1 h6
  by_cases h7 : s.ah = 0x07
  · exact iff_of_false (alarm_not_clean hstack (.inr h7)) fun h => h.2.1 h7
  have hno : s.ah.toNat ∉ [2, 3, 4, 6, 7] := by
    intro hmem
    simp only [List.mem_cons, List.not_mem_nil, or_false] at hmem
    rcases hmem with h | h | h | h | h
    · exact h2 (BitVec.eq_of_toNat_eq h)
    · exact h3 (BitVec.eq_of_toNat_eq h)
    · exact h4 (BitVec.eq_of_toNat_eq h)
    · exact h6 (BitVec.eq_of_toNat_eq h)
    · exact h7 (BitVec.eq_of_toNat_eq h)
  exact iff_of_true (ordinary_clean hstack hno)
    ⟨h6, h7, fun h => absurd h h2, fun h => absurd h h3, fun h => absurd h h4⟩

/-- A chip that answers zero. -/
inductive IdleChip
  | idle

instance : ThreeWire IdleChip where
  latch _ := 0
  pins _ := 0
  resetOn w := w
  resetOff w := w
  shiftOut _ w := w
  shiftIn w := (0, w)

/-- A caller with function `fn`, `CX` and `DX`. -/
def idleCaller (fn : Byte) (cx dx : Word) : Cpu (Board IdleChip) where
  ax := fn ++ (0 : Byte)
  bx := 0x1111
  cx := cx
  dx := dx
  si := 0x2222
  di := 0x3333
  bp := 0x4444
  upper := fun _ => 0
  ds := 0x5555
  es := 0x6666
  flags := 0x0202
  stack := [0x0100, 0x7777, 0x0202]
  world := ⟨⟨0, 0⟩, fun _ => 0, .idle⟩

/-- `set_time` of 12:30:30, where `CL` is left as it came. -/
theorem returns_cleanly_setTime :
    ReturnsClean (idleCaller 0x03 0x1230 0x3000) 0x8000 0x0100 0x7777 [] :=
  (returns_cleanly_iff rfl).mpr ⟨by decide, by decide, fun h => absurd h (by decide),
    fun _ => by decide, fun h => absurd h (by decide)⟩

/-- `set_alarm` does not come back to its caller. -/
theorem set_alarm_lost : ¬ ReturnsClean (idleCaller 0x06 0 0) 0x8000 0x0100 0x7777 [] :=
  alarm_not_clean rfl (.inl (by decide))

end Sbc386Ex.Time

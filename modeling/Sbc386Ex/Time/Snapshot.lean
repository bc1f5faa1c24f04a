import Sbc386Ex.Time.Ds1302

/-!
# Sbc386Ex.Time.Snapshot

What INT 1Ah reads of a clock that goes on: fields the clock held at one instant, or not.
-/

namespace Sbc386Ex.Time

open Cpu Calendar

/-! ### Reading the time -/

namespace Calendar

/-- The time of day, without the halt bit. -/
def time (c : Calendar) : Byte × Byte × Byte := (c.hour, c.min, c.sec &&& 0x7F)

/-- The clock is halted, or it shows a time of day. -/
def Valid (c : Calendar) : Prop := c.sec.msb = true ∨ c.Running

variable {c : Calendar}

theorem Valid.iterate (h : c.Valid) (n : Nat) : (carry^[n] c).Valid := by
  rcases h with hhalt | hrun
  · rw [iterate_halted hhalt]
    exact .inl hhalt
  · exact .inr (iterate_running hrun n).1

theorem day_eq_iff {c c' : Calendar} : c.day = c'.day ↔
    c.year = c'.year ∧ c.month = c'.month ∧ c.date = c'.date ∧ c.dow = c'.dow := by
  simp [day]

theorem Running.bcd_sec (h : c.Running) : bcd c.sec = c.tod % 60 := by
  have hs := (bcd_below_sixty h.sec).1
  unfold tod
  omega

/-- **The seconds read again**, within a minute: no second has gone by, or none counts. -/
theorem Valid.stands (h : c.Valid) {n : Nat} (hn : n < 60) (hsec : (carry^[n] c).sec = c.sec)
    {m : Nat} (hm : m ≤ n) : carry^[m] c = c := by
  rcases h with hhalt | hrun
  · exact iterate_halted hhalt m
  · obtain ⟨hrun', htod⟩ := iterate_running hrun n
    have heq := hrun'.bcd_sec
    rw [hsec, hrun.bcd_sec, htod] at heq
    have hzero : m = 0 := by omega
    rw [hzero]
    rfl

end Calendar

open Ds1302

theorem chipTime_ds1302 (w : Ds1302) : chipTime w =
    (((carry^[w.seconds 1] w.cal).min, (carry^[w.seconds 2] w.cal).hour,
      (carry^[w.seconds 3] w.cal).sec), advance^[3] w) := by
  rw [← cal_advance w 1, ← cal_advance w 2, ← cal_advance w 3]
  rfl

/-- Of the fields the clock shows from here on, some that it shows together. -/
def AtOneInstant {α : Type} (w : Ds1302) (field : Calendar → α) (v : α) : Prop :=
  ∃ n, n ≤ w.passing.sum ∧ v = field (carry^[n] w.cal)

/-- **The loop of `get_time`** ends, and has read the clock at one instant. A round that did
not see the seconds it began with used up a second. -/
theorem getTimeLoop_snapshot {s : Cpu (Board Ds1302)} (hvalid : s.world.chip.cal.Valid)
    (hlt : s.world.chip.passing.sum < 60) (hdh : s.dh = s.world.chip.cal.sec) :
    ∃ fuel t, getTimeLoop fuel s = some t ∧
      AtOneInstant s.world.chip (fun c => (c.hour, c.min, c.sec)) (t.ch, t.cl, t.dh) := by
  generalize hleft : s.world.chip.passing.sum = left
  induction left using Nat.strong_induction_on generalizing s with
  | _ left ih =>
      obtain ⟨al, heq⟩ := getTimeLoop_succ s
      have hround : ((timeRound al s).ch, (timeRound al s).cl, (timeRound al s).dh) =
          ((chipTime s.world.chip).1.2.1, (chipTime s.world.chip).1.1,
            (chipTime s.world.chip).1.2.2) := by simp [timeRound]
      have hchip : (timeRound al s).world.chip = advance^[3] s.world.chip := by
        simp [timeRound, chipTime_ds1302]
      rw [chipTime_ds1302] at hround heq
      have hle := s.world.chip.seconds_le 3
      have h1 := s.world.chip.seconds_mono (show 1 ≤ 3 by decide)
      have h2 := s.world.chip.seconds_mono (show 2 ≤ 3 by decide)
      by_cases hsec : s.dh = (carry^[s.world.chip.seconds 3] s.world.chip.cal).sec
      · -- the clock stood still over the round
        have hsame := hsec.symm.trans hdh
        refine ⟨1, timeRound al s, by rw [heq, if_pos hsec], 0, Nat.zero_le _, ?_⟩
        rw [hround, hvalid.stands (by omega) hsame h1, hvalid.stands (by omega) hsame h2,
          hvalid.stands (by omega) hsame (Nat.le_refl _)]
        rfl
      · have hused : 0 < s.world.chip.seconds 3 := by
          refine Nat.pos_of_ne_zero fun hzero => hsec ?_
          rw [hzero, hdh]
          rfl
        have hsplit := List.sum_take_add_sum_drop s.world.chip.passing 3
        have hseconds : (s.world.chip.passing.take 3).sum = s.world.chip.seconds 3 := rfl
        have hnext : (timeRound al s).world.chip.cal =
            carry^[s.world.chip.seconds 3] s.world.chip.cal := by rw [hchip, cal_advance]
        have hleft' : (timeRound al s).world.chip.passing.sum =
            (s.world.chip.passing.drop 3).sum := by rw [hchip, advance_eq]
        obtain ⟨fuel, t, ht, n, hn, hregs⟩ := ih (timeRound al s).world.chip.passing.sum (by omega)
          (by rw [hnext]; exact hvalid.iterate _) (by omega)
          (by rw [hnext]; exact congrArg (fun r => r.2.2) hround) rfl
        refine ⟨fuel + 1, t, by rw [heq, if_neg hsec, ht], n + s.world.chip.seconds 3, ?_, ?_⟩
        · omega
        · rw [Function.iterate_add_apply, ← hnext]
          exact hregs

theorem getTimeLoop_unique {W : Type} [ThreeWire W] {m n : Nat} {s t t' : Cpu (Board W)}
    (h : getTimeLoop m s = some t) (h' : getTimeLoop n s = some t') : t = t' := by
  induction m generalizing s n with
  | zero => cases h
  | succ m ih =>
      cases n with
      | zero => cases h'
      | succ n =>
          obtain ⟨al, heq⟩ := getTimeLoop_succ s
          rw [heq] at h h'
          split at h
          · rw [if_pos (by assumption)] at h'
            exact Option.some.inj (h.symm.trans h')
          · rw [if_neg (by assumption)] at h'
            exact ih h h'

/-- The registers the time and the date are returned in. -/
def timeRegs (s : Cpu (Board Ds1302)) : Byte × Byte × Byte := (s.ch, s.cl, s.dh)
def dateRegs (s : Cpu (Board Ds1302)) : Byte × Byte × Byte × Byte := (s.cl, s.dh, s.dl, s.al)

theorem timeRegs_timeEnd (s : Cpu (Board Ds1302)) :
    timeRegs (timeEnd s) = (s.ch, s.cl, s.dh &&& 0x7F) := by
  simp [timeRegs, timeEnd]

theorem getTime_snapshot {s : Cpu (Board Ds1302)} (hvalid : s.world.chip.cal.Valid)
    (hlt : s.world.chip.passing.sum < 60) :
    (∃ fuel, (getTime s fuel).isSome) ∧ ∀ fuel t, getTime s fuel = some t →
      AtOneInstant s.world.chip Calendar.time (timeRegs t) := by
  obtain ⟨hdh, hchip⟩ := timeStart_reads s
  rw [chipRead_eq] at hdh hchip
  have hcal : (timeStart s).world.chip.cal = carry^[s.world.chip.seconds 1] s.world.chip.cal := by
    rw [hchip, ← cal_advance]
    rfl
  have hsplit := List.sum_take_add_sum_drop s.world.chip.passing 1
  have hseconds : (s.world.chip.passing.take 1).sum = s.world.chip.seconds 1 := rfl
  have hleft : (timeStart s).world.chip.passing.sum = (s.world.chip.passing.drop 1).sum := by
    rw [hchip, List.drop_one]
    rfl
  obtain ⟨fuel, t, ht, n, hn, hregs⟩ := getTimeLoop_snapshot (s := timeStart s)
    (by rw [hcal]; exact hvalid.iterate _) (by omega)
    (by rw [hdh, hchip]; rfl)
  refine ⟨⟨fuel, by rw [getTime_eq, ht]; rfl⟩, fun fuel' t' ht' => ?_⟩
  rw [getTime_eq] at ht'
  obtain ⟨u, hu, rfl⟩ := Option.map_eq_some_iff.mp ht'
  obtain rfl := getTimeLoop_unique ht hu
  refine ⟨n + s.world.chip.seconds 1, by omega, ?_⟩
  rw [Function.iterate_add_apply, ← hcal, timeRegs_timeEnd]
  simp only [Prod.mk.injEq] at hregs
  obtain ⟨hch, hcl, hdh'⟩ := hregs
  rw [hch, hcl, hdh']
  rfl

/-! ### Through the dispatcher -/

section Call

variable {W : Type} [ThreeWire W] {s : Cpu (Board W)} (ra : Word)

theorem int1Ah_eq {fn : Byte} (f : Nat → Cpu (Board W) → Option (Cpu (Board W)))
    (hentry : ∀ fuel, entryOf fuel fn = some fun t => (f fuel t).map fun t => (t, .ret))
    (hstack : ∀ fuel t t', f fuel t = some t' → t'.stack = t.stack) (hfn : s.ah = fn) :
    ∃ si, ∀ fuel, int1Ah s ra fuel = (f fuel (atEntry s ra si)).map fun t => exit t.drop := by
  obtain ⟨si, hrun⟩ := int1Ah_entry ra hfn _ hentry
  refine ⟨si, fun fuel => ?_⟩
  rw [hrun]
  show ((f fuel (atEntry s ra si)).map _).bind _ = _
  cases hf : f fuel (atEntry s ra si) with
  | none => rfl
  | some t =>
      have htop : t.top = ra := by
        rw [top, hstack fuel _ t hf]
        rfl
      simp only [Option.map_some, Option.bind_some, htop, if_true]

omit [ThreeWire W] in
theorem world_exit (t : Cpu (Board W)) : (exit t.drop).2.world = t.world := by simp [exit]

end Call

theorem timeRegs_exit (t : Cpu (Board Ds1302)) : timeRegs (exit t.drop).2 = timeRegs t := by
  simp [timeRegs, exit]

theorem dateRegs_exit (t : Cpu (Board Ds1302)) : dateRegs (exit t.drop).2 = dateRegs t := by
  simp [dateRegs, exit]

theorem timeRegs_atEntry (s : Cpu (Board Ds1302)) (ra si : Word) :
    timeRegs (atEntry s ra si) = timeRegs s := by
  simp [timeRegs, atEntry, pushFrame]

/-- INT 1Ah comes back, and with `P`. -/
def Returns (s : Cpu (Board Ds1302)) (ra : Word) (P : Cpu (Board Ds1302) → Prop) : Prop :=
  (∃ fuel, (int1Ah s ra fuel).isSome) ∧ ∀ fuel r, int1Ah s ra fuel = some r → P r.2

theorem readTime_snapshot {s : Cpu (Board Ds1302)} {ra : Word} (hfn : s.ah = 0x02)
    (hvalid : s.world.chip.cal.Valid) (hlt : s.world.chip.passing.sum < 60) :
    Returns s ra fun r => AtOneInstant s.world.chip Calendar.time (timeRegs r) := by
  obtain ⟨si, hrun⟩ := int1Ah_eq (s := s) ra (fun fuel t => getTime t fuel)
    (fun _ => rfl) (fun _ _ _ h => (getTime_answers h).2) hfn
  have hworld := world_atEntry s ra si
  obtain ⟨⟨fuel, hsome⟩, hall⟩ := getTime_snapshot (s := atEntry s ra si)
    (by rw [hworld]; exact hvalid) (by rw [hworld]; exact hlt)
  refine ⟨⟨fuel, by rw [hrun, Option.isSome_map]; exact hsome⟩, fun fuel' r hr => ?_⟩
  rw [hrun] at hr
  obtain ⟨t, ht, rfl⟩ := Option.map_eq_some_iff.mp hr
  rw [timeRegs_exit, ← hworld]
  exact hall fuel' t ht

/-- A function that comes back whatever the chip does. -/
theorem returns_iff {s : Cpu (Board Ds1302)} (ra : Word) {fn : Byte}
    (f : Cpu (Board Ds1302) → Cpu (Board Ds1302))
    (hentry : ∀ fuel, entryOf fuel fn = some fun t => some (f t, .ret))
    (hstack : ∀ t, (f t).stack = t.stack) (hfn : s.ah = fn) : ∃ si, ∀ P,
      Returns s ra P ↔ P (exit (f (atEntry s ra si)).drop).2 := by
  obtain ⟨si, hrun⟩ := int1Ah_eq (s := s) ra (fun _ t => some (f t)) hentry
    (by rintro _ t _ ⟨⟩; exact hstack t) hfn
  refine ⟨si, fun P => ⟨fun h => h.2 0 _ (hrun 0), fun h => ⟨⟨0, by rw [hrun]; rfl⟩, ?_⟩⟩⟩
  rintro fuel r hr
  rw [hrun] at hr
  obtain rfl := Option.some.inj hr
  exact h

/-! ### Reading the date -/

theorem chipDate_ds1302 (w : Ds1302) : ((chipDate w).1.1, (chipDate w).1.2.1,
    (chipDate w).1.2.2.1, (chipDate w).1.2.2.2.1) =
      ((carry^[w.seconds 1] w.cal).year, (carry^[w.seconds 2] w.cal).month,
        (carry^[w.seconds 3] w.cal).date, (carry^[w.seconds 4] w.cal).dow) := by
  rw [← cal_advance w 1, ← cal_advance w 2, ← cal_advance w 3, ← cal_advance w 4]
  rfl

/-- Between the `i`-th command from here and the `j`-th, the clock carries into what counts
`unit` seconds. -/
def Carries (w : Ds1302) (unit i j : Nat) : Prop :=
  w.cal.sec.msb = false ∧ (w.cal.tod + w.seconds i) / unit < (w.cal.tod + w.seconds j) / unit

instance (w : Ds1302) (unit i j : Nat) : Decidable (Carries w unit i j) :=
  inferInstanceAs (Decidable (_ ∧ _))

/-- The year, the month, the date and the day of the week are read in this order. -/
def DateUntorn (w : Ds1302) : Prop :=
  (Carries w 86400 1 2 → ¬ w.cal.EndsYear) ∧ (Carries w 86400 2 3 → ¬ w.cal.EndsMonth) ∧
    ¬ Carries w 86400 3 4

instance (w : Ds1302) : Decidable (DateUntorn w) := inferInstanceAs (Decidable (_ ∧ _ ∧ _))

theorem chipDate_snapshot {w : Ds1302} (hvalid : w.cal.Valid) (hlt : w.passing.sum < 60) :
    AtOneInstant w Calendar.day ((carry^[w.seconds 1] w.cal).year,
      (carry^[w.seconds 2] w.cal).month, (carry^[w.seconds 3] w.cal).date,
      (carry^[w.seconds 4] w.cal).dow) ↔ DateUntorn w := by
  rcases hvalid with hhalt | hrun
  · refine iff_of_true ⟨0, Nat.zero_le _, ?_⟩
      ⟨fun h => ?_, fun h => ?_, fun h => ?_⟩
    · rw [iterate_halted hhalt, iterate_halted hhalt, iterate_halted hhalt, iterate_halted hhalt]
      rfl
    · exact absurd h.1 (by rw [hhalt]; decide)
    · exact absurd h.1 (by rw [hhalt]; decide)
    · exact absurd h.1 (by rw [hhalt]; decide)
  have hmsb := hrun.not_halted
  have htod := hrun.tod_lt
  obtain ⟨hdow, hdate, hmonth, hyear⟩ := nextDay_changes w.cal
  have hle := w.seconds_le
  have h12 := w.seconds_mono (show 1 ≤ 2 by decide)
  have h23 := w.seconds_mono (show 2 ≤ 3 by decide)
  have h34 := w.seconds_mono (show 3 ≤ 4 by decide)
  have hold : ∀ n, n ≤ w.passing.sum → w.cal.tod + n < 86400 →
      (carry^[n] w.cal).day = w.cal.day := fun n hn hbefore => by
    rw [day_iterate hrun (by omega), if_pos hbefore]
  have hnew : ∀ n, n ≤ w.passing.sum → ¬ w.cal.tod + n < 86400 →
      (carry^[n] w.cal).day = w.cal.nextDay.day := fun n hn hafter => by
    rw [day_iterate hrun (by omega), if_neg hafter]
  have hcarries : ∀ i j, Carries w 86400 i j ↔
      w.cal.tod + w.seconds i < 86400 ∧ ¬ w.cal.tod + w.seconds j < 86400 := fun i j => by
    have hi := hle i
    have hj := hle j
    rw [Carries, hmsb]
    constructor
    · rintro ⟨_, h⟩
      omega
    · intro h
      exact ⟨rfl, by omega⟩
  simp only [DateUntorn, hcarries]
  by_cases h4 : w.cal.tod + w.seconds 4 < 86400
  · -- no midnight before the last of them is read
    obtain ⟨hy, _, _, _⟩ := day_eq_iff.mp (hold _ (hle 1) (by omega))
    obtain ⟨_, hm, _, _⟩ := day_eq_iff.mp (hold _ (hle 2) (by omega))
    obtain ⟨_, _, hd, _⟩ := day_eq_iff.mp (hold _ (hle 3) (by omega))
    obtain ⟨_, _, _, hw⟩ := day_eq_iff.mp (hold _ (hle 4) h4)
    refine iff_of_true ⟨0, Nat.zero_le _, by rw [hy, hm, hd, hw]; rfl⟩
      ⟨fun h => ?_, fun h => ?_, fun h => h.2 h4⟩
    · omega
    · omega
  obtain ⟨_, _, _, hw⟩ := day_eq_iff.mp (hnew _ (hle 4) h4)
  rw [hw]
  -- the new day of the week is only there with the new date
  have hinstant : ∀ {y m d : Byte}, AtOneInstant w Calendar.day (y, m, d, w.cal.nextDay.dow) →
      (y, m, d, w.cal.nextDay.dow) = w.cal.nextDay.day := by
    rintro y m d ⟨n, hn, hv⟩
    by_cases hbefore : w.cal.tod + n < 86400
    · rw [hold n hn hbefore] at hv
      exact absurd (congrArg (fun v => v.2.2.2) hv) hdow
    · rw [hv, hnew n hn hbefore]
  have hthere : AtOneInstant w Calendar.day w.cal.nextDay.day :=
    ⟨w.seconds 4, hle 4, (hnew _ (hle 4) h4).symm⟩
  by_cases h3 : w.cal.tod + w.seconds 3 < 86400
  · obtain ⟨_, _, hd, _⟩ := day_eq_iff.mp (hold _ (hle 3) h3)
    rw [hd]
    exact iff_of_false (fun h => hdate (congrArg (fun v => v.2.2.1) (hinstant h)).symm)
      fun h => h.2.2 ⟨h3, h4⟩
  obtain ⟨_, _, hd, _⟩ := day_eq_iff.mp (hnew _ (hle 3) h3)
  rw [hd]
  by_cases h2 : w.cal.tod + w.seconds 2 < 86400
  · obtain ⟨hy, _, _, _⟩ := day_eq_iff.mp (hold _ (hle 1) (by omega))
    obtain ⟨_, hm, _, _⟩ := day_eq_iff.mp (hold _ (hle 2) h2)
    rw [hy, hm]
    constructor
    · intro h
      have hsame : w.cal.month = w.cal.nextDay.month := congrArg (fun v => v.2.1) (hinstant h)
      exact ⟨fun h => absurd h2 h.2, fun _ => hmonth.mp hsame.symm, fun h => h3 h.1⟩
    · intro h
      have hin := h.2.1 ⟨h2, h3⟩
      have hyear' := hyear.mpr fun hend => hin hend.1
      rw [← hyear', ← hmonth.mpr hin]
      exact hthere
  obtain ⟨_, hm, _, _⟩ := day_eq_iff.mp (hnew _ (hle 2) h2)
  rw [hm]
  by_cases h1 : w.cal.tod + w.seconds 1 < 86400
  · obtain ⟨hy, _, _, _⟩ := day_eq_iff.mp (hold _ (hle 1) h1)
    rw [hy]
    constructor
    · intro h
      have hsame : w.cal.year = w.cal.nextDay.year := congrArg (fun v => v.1) (hinstant h)
      exact ⟨fun _ => hyear.mp hsame.symm, fun h => absurd h.1 h2, fun h => h3 h.1⟩
    · intro h
      rw [← hyear.mpr (h.1 ⟨h1, h2⟩)]
      exact hthere
  · obtain ⟨hy, _, _, _⟩ := day_eq_iff.mp (hnew _ (hle 1) h1)
    rw [hy]
    exact iff_of_true hthere ⟨fun h => absurd h.1 h1, fun h => absurd h.1 h2, fun h => h3 h.1⟩

/-! ### Setting the time -/

namespace Ds1302

/-- The seconds between the `k`-th command from here and the next. -/
def gap (w : Ds1302) (k : Nat) : Nat := w.passing.getD k 0

theorem seconds_succ (w : Ds1302) (k : Nat) : w.seconds (k + 1) = w.seconds k + w.gap k := by
  obtain ⟨cal, control, lines, command, passing⟩ := w
  unfold seconds gap
  induction passing generalizing k with
  | nil => simp
  | cons n passing ih =>
      cases k with
      | zero => simp
      | succ k => simpa [Nat.add_assoc] using ih k

theorem gap_add_drop (w : Ds1302) (k : Nat) :
    w.gap k + (w.passing.drop (k + 1)).sum = (w.passing.drop k).sum := by
  have hsucc := w.seconds_succ k
  have hnow := List.sum_take_add_sum_drop w.passing k
  have hnext := List.sum_take_add_sum_drop w.passing (k + 1)
  unfold seconds at hsucc
  omega

end Ds1302

/-- The clock at the end of `set_time`, which writes the hours, the minutes and the seconds in
this order. -/
def clockSet (w : Ds1302) (hour min sec : Byte) : Calendar :=
  let c := carry^[w.gap 2] ((carry^[w.seconds 2] w.cal).set 0x84 hour)
  let c := carry^[w.gap 3] (c.set 0x82 min)
  c.set 0x80 sec

theorem setTime_ds1302 (s : Cpu (Board Ds1302)) :
    (setTime s).world.chip.cal = carry^[s.world.chip.gap 4]
      (clockSet s.world.chip (s.ch &&& 0x7F) s.cl (s.dh &&& 0x7F)) ∧
    (setTime s).world.chip.passing = s.world.chip.passing.drop 5 := by
  rw [setTime_chip, clockSet, ← cal_advance]
  generalize s.world.chip = w
  obtain ⟨cal, control, lines, command, passing⟩ := w
  rcases passing with _ | ⟨g0, _ | ⟨g1, _ | ⟨g2, _ | ⟨g3, _ | ⟨g4, passing⟩⟩⟩⟩⟩ <;>
    simp [protectChip, chipWrite_eq, Ds1302.write, Calendar.set, advance, Ds1302.gap]

namespace Calendar

/-- The clock at a time of day. -/
def atTime (c : Calendar) (hour min sec : Byte) : Calendar :=
  { c with hour := hour, min := min, sec := sec }

/-- The clock shows one time of day in one way. -/
theorem Running.time_eq_iff {c c' : Calendar} (h : c.Running) (h' : c'.Running) :
    c.time = c'.time ↔ c.tod = c'.tod := by
  have hmask : ∀ b : Byte, IsBelow 0x60 b → b &&& 0x7F = b := by decide
  simp only [time, Prod.mk.injEq, hmask _ h.sec, hmask _ h'.sec]
  constructor
  · rintro ⟨hhour, hmin, hsec⟩
    simp only [tod, hhour, hmin, hsec]
  · intro heq
    obtain ⟨hsec, hmin, hhour⟩ := h.digits
    obtain ⟨hsec', hmin', hhour'⟩ := h'.digits
    rw [hsec, hmin, hhour, hsec', hmin', hhour', heq]
    exact ⟨rfl, rfl, rfl⟩

variable {c : Calendar} {b : Byte}

theorem Running.set_hour (h : c.Running) (hb : IsBelow 0x24 b) :
    (c.set 0x84 b).Running ∧ (c.set 0x84 b).tod = bcd b * 3600 + c.tod % 3600 := by
  have hs := (bcd_below_sixty h.sec).1
  have hm := (bcd_below_sixty h.min).1
  refine ⟨⟨h.sec, h.min, hb⟩, ?_⟩
  show bcd b * 3600 + bcd c.min * 60 + bcd c.sec = _
  unfold tod
  omega

theorem Running.set_min (h : c.Running) (hb : IsBelow 0x60 b) :
    (c.set 0x82 b).Running ∧
      (c.set 0x82 b).tod = c.tod / 3600 * 3600 + bcd b * 60 + c.tod % 60 := by
  have hs := (bcd_below_sixty h.sec).1
  have hm := (bcd_below_sixty h.min).1
  refine ⟨⟨h.sec, hb, h.hour⟩, ?_⟩
  show bcd c.hour * 3600 + bcd b * 60 + bcd c.sec = _
  unfold tod
  omega

theorem Running.set_sec (h : c.Running) (hb : IsBelow 0x60 b) :
    (c.set 0x80 b).Running ∧ (c.set 0x80 b).tod = c.tod / 60 * 60 + bcd b := by
  have hs := (bcd_below_sixty h.sec).1
  refine ⟨⟨hb, h.min, h.hour⟩, ?_⟩
  show bcd c.hour * 3600 + bcd c.min * 60 + bcd b = _
  unfold tod
  omega

end Calendar

/-- No hour comes between the write of the hours and that of the minutes, no minute between
this and that of the seconds. -/
def SetUntorn (w : Ds1302) : Prop := ¬ Carries w 3600 2 3 ∧ ¬ Carries w 60 3 4

instance (w : Ds1302) : Decidable (SetUntorn w) := inferInstanceAs (Decidable (_ ∧ _))

/-- Hours `h` over minutes and seconds `a`, after less than a minute. -/
theorem hour_step {h a g : Nat} (hh : h < 24) (ha : a < 3600) (hg : g < 60) :
    ∃ h', h' < 24 ∧ (h * 3600 + a + g) % 86400 = h' * 3600 + (a + g) % 3600 ∧
      (a + g < 3600 ∧ h' = h ∨ ¬ a + g < 3600 ∧ h' = (h + 1) % 24) := by
  by_cases hlt : a + g < 3600
  · exact ⟨h, hh, by omega, .inl ⟨hlt, rfl⟩⟩
  · exact ⟨(h + 1) % 24, by omega, by omega, .inr ⟨hlt, rfl⟩⟩

/-- Minutes `m` over seconds `b`. -/
theorem minute_step {m b g : Nat} (hm : m < 1440) (hb : b < 60) (hg : g < 60) :
    ∃ m', m' < 1440 ∧ (m * 60 + b + g) % 86400 / 60 = m' ∧
      (b + g < 60 ∧ m' = m ∨ ¬ b + g < 60 ∧ m' = (m + 1) % 1440) := by
  by_cases hlt : b + g < 60
  · exact ⟨m, hm, by omega, .inl ⟨hlt, rfl⟩⟩
  · exact ⟨(m + 1) % 1440, by omega, by omega, .inr ⟨hlt, rfl⟩⟩

theorem hour_late {h m s : Nat} (hm : m < 60) (hs : s < 60) :
    ((h + 1) % 24 * 60 + m) * 60 + s = (h * 3600 + m * 60 + s + 3600) % 86400 := by
  omega

theorem minute_late {m s : Nat} (hs : s < 60) :
    (m + 1) % 1440 * 60 + s = (m * 60 + s + 60) % 86400 := by
  omega

/-- Counting on by `g` carries into `unit`, if what is left over does. -/
theorem lt_div_iff {unit n g : Nat} (hunit : 0 < unit) :
    n / unit < (n + g) / unit ↔ ¬ n % unit + g < unit := by
  have hsplit : n + g = unit * (n / unit) + (n % unit + g) := by
    have hmod := Nat.div_add_mod n unit
    omega
  rw [hsplit, Nat.mul_add_div hunit, not_lt]
  constructor
  · intro h
    exact (Nat.div_pos_iff.mp (by omega)).2
  · intro h
    have hpos := Nat.div_pos h hunit
    omega

/-- A torn time is an hour or a minute off, or both. -/
theorem clockSet_tod {w : Ds1302} {hour min sec : Byte} (hvalid : w.cal.Valid)
    (hlt : w.gap 2 + w.gap 3 < 60) (hh : IsBelow 0x24 hour) (hm : IsBelow 0x60 min)
    (hs : IsBelow 0x60 sec) : (clockSet w hour min sec).Running ∧
      ((clockSet w hour min sec).tod = bcd hour * 3600 + bcd min * 60 + bcd sec ∧ SetUntorn w ∨
        ¬ SetUntorn w ∧ ∃ off ∈ [60, 3600, 3660], (clockSet w hour min sec).tod =
          (bcd hour * 3600 + bcd min * 60 + bcd sec + off) % 86400) := by
  have hhour := (bcd_below_day hh).1
  have hmin := (bcd_below_sixty hm).1
  have hsec := (bcd_below_sixty hs).1
  rcases hvalid with hhalt | hrun
  · -- only the seconds start the clock
    have h1 : (w.cal.set 0x84 hour).sec.msb = true := hhalt
    have h2 : ((w.cal.set 0x84 hour).set 0x82 min).sec.msb = true := hhalt
    have hno : ∀ unit i j, ¬ Carries w unit i j := fun unit i j h =>
      absurd h.1 (by rw [hhalt]; decide)
    rw [clockSet, iterate_halted hhalt, iterate_halted h1, iterate_halted h2]
    exact ⟨⟨hs, hm, hh⟩, .inl ⟨rfl, hno _ _ _, hno _ _ _⟩⟩
  · obtain ⟨hr1, ht1⟩ := iterate_running hrun (w.seconds 2)
    obtain ⟨hr2, ht2⟩ := hr1.set_hour hh
    obtain ⟨hr3, ht3⟩ := iterate_running hr2 (w.gap 2)
    obtain ⟨hr4, ht4⟩ := hr3.set_min hm
    obtain ⟨hr5, ht5⟩ := iterate_running hr4 (w.gap 3)
    obtain ⟨hr6, ht6⟩ := hr5.set_sec hs
    refine ⟨hr6, ?_⟩
    have htod : (clockSet w hour min sec).tod = _ := ht6
    have h23 : w.seconds 3 = w.seconds 2 + w.gap 2 := w.seconds_succ 2
    have h34 : w.seconds 4 = w.seconds 3 + w.gap 3 := w.seconds_succ 3
    have hcarry : ¬ Carries w 3600 2 3 ↔ (w.cal.tod + w.seconds 2) % 3600 + w.gap 2 < 3600 := by
      rw [Carries, hrun.not_halted, h23, ← Nat.add_assoc, lt_div_iff (by decide)]
      simp
    have hcarry' : ¬ Carries w 60 3 4 ↔
        (w.cal.tod + w.seconds 2 + w.gap 2) % 60 + w.gap 3 < 60 := by
      rw [Carries, hrun.not_halted, h34, ← Nat.add_assoc, h23, ← Nat.add_assoc,
        lt_div_iff (by decide)]
      simp
    rw [SetUntorn, hcarry, hcarry']
    rw [ht1] at ht2
    obtain ⟨h, hlt', hmod, hcases⟩ := hour_step (a := (w.cal.tod + w.seconds 2) % 3600)
      (g := w.gap 2) hhour (by omega) (by omega)
    obtain ⟨m, hm', hdiv, hcases'⟩ := minute_step (m := h * 60 + bcd min)
      (b := (w.cal.tod + w.seconds 2 + w.gap 2) % 60) (g := w.gap 3) (by omega) (by omega)
      (by omega)
    have hhours : bcd hour * 3600 + (w.cal.tod + w.seconds 2) % 86400 % 3600 + w.gap 2 =
        bcd hour * 3600 + (w.cal.tod + w.seconds 2) % 3600 + w.gap 2 := by omega
    rw [ht2, hhours, hmod] at ht3
    rw [ht3] at ht4
    have hminutes : (clockSet w hour min sec).tod = m * 60 + bcd sec := by
      rw [htod, ht5, ht4, ← hdiv]
      omega
    rw [hminutes]
    have htotal : (bcd hour * 60 + bcd min) * 60 + bcd sec =
        bcd hour * 3600 + bcd min * 60 + bcd sec := by omega
    rcases hcases with ⟨hno, rfl⟩ | ⟨hyes, rfl⟩
    · rcases hcases' with ⟨hno', rfl⟩ | ⟨hyes', rfl⟩
      · exact .inl ⟨htotal, hno, hno'⟩
      · refine .inr ⟨fun h => hyes' h.2, 60, by decide, ?_⟩
        rw [minute_late hsec, htotal]
    · rcases hcases' with ⟨hno', rfl⟩ | ⟨hyes', rfl⟩
      · refine .inr ⟨fun h => hyes h.1, 3600, by decide, ?_⟩
        rw [hour_late hmin hsec]
      · refine .inr ⟨fun h => hyes h.1, 3660, by decide, ?_⟩
        rw [minute_late hsec, hour_late hmin hsec, Nat.mod_add_mod]

/-- What the clock shows within a second of being set. -/
theorem clockSet_shows {w : Ds1302} {hour min sec : Byte} (hvalid : w.cal.Valid)
    (hlt : w.gap 2 + w.gap 3 < 60) (hh : IsBelow 0x24 hour) (hm : IsBelow 0x60 min)
    (hs : IsBelow 0x60 sec) {n : Nat} (hn : n ≤ 1) :
    ((carry^[n] (clockSet w hour min sec)).time = (w.cal.atTime hour min sec).time ∨
      (carry^[n] (clockSet w hour min sec)).time = (w.cal.atTime hour min sec).carry.time) ↔
        SetUntorn w := by
  have hrun : (w.cal.atTime hour min sec).Running := ⟨hs, hm, hh⟩
  have htod : (w.cal.atTime hour min sec).tod = bcd hour * 3600 + bcd min * 60 + bcd sec := rfl
  have hlt := hrun.tod_lt
  obtain ⟨hset, hcases⟩ := clockSet_tod hvalid (by assumption) hh hm hs
  rw [← htod] at hcases
  obtain ⟨hrun', htod', _⟩ := carry_running hrun
  obtain ⟨hset', hnow⟩ := iterate_running hset n
  rw [hset'.time_eq_iff hrun, hset'.time_eq_iff hrun', hnow, htod']
  rcases hcases with ⟨heq, huntorn⟩ | ⟨htorn, off, hoff, heq⟩
  · refine iff_of_true ?_ huntorn
    rw [heq]
    interval_cases n
    · rw [Nat.add_zero, Nat.mod_eq_of_lt hlt]
      exact .inl rfl
    · exact .inr rfl
  · refine iff_of_false ?_ htorn
    rw [heq, Nat.mod_add_mod]
    simp only [List.mem_cons, List.not_mem_nil, or_false] at hoff
    omega

/-! ### Calls -/

/-- One call, or a call of `set_time` and then one of `get_time`. -/
inductive Session
  | readTime
  | readDate
  | setThenRead

/-- The call is made on a clock that is halted or shows a time of day, and lasts less than a
minute; the time it sets is one, and no more than a second goes by from there to the end of
the second call. -/
def Session.Begins (s : Cpu (Board Ds1302)) : Session → Prop
  | .readTime => s.ah = 0x02 ∧ s.world.chip.cal.Valid ∧ s.world.chip.passing.sum < 60
  | .readDate => s.ah = 0x04 ∧ s.world.chip.cal.Valid ∧ s.world.chip.passing.sum < 60
  | .setThenRead => s.ah = 0x03 ∧ s.world.chip.cal.Valid ∧
      (s.world.chip.passing.take 5).sum < 60 ∧ (s.world.chip.passing.drop 4).sum ≤ 1 ∧
      IsBelow 0x24 s.ch ∧ IsBelow 0x60 s.cl ∧ IsBelow 0x60 s.dh

/-- What is read was on the clock at one instant; the time that was set is read, or the second
after. -/
def Session.Honest (s : Cpu (Board Ds1302)) (ra : Word) : Session → Prop
  | .readTime => Returns s ra fun r => AtOneInstant s.world.chip Calendar.time (timeRegs r)
  | .readDate => Returns s ra fun r => AtOneInstant s.world.chip Calendar.day (dateRegs r)
  | .setThenRead => Returns s ra fun r => ∀ s', s'.ah = 0x02 → s'.world.chip = r.world.chip →
      Returns s' ra fun r' =>
        timeRegs r' = (s.world.chip.cal.atTime s.ch s.cl s.dh).time ∨
          timeRegs r' = (s.world.chip.cal.atTime s.ch s.cl s.dh).carry.time

/-- No carry between two of its registers that would show. -/
def Session.Untorn (w : Ds1302) : Session → Prop
  | .readTime => True
  | .readDate => DateUntorn w
  | .setThenRead => SetUntorn w

variable {s : Cpu (Board Ds1302)} {ra : Word}

theorem readDate_honest_iff (h : Session.readDate.Begins s) :
    Session.readDate.Honest s ra ↔ DateUntorn s.world.chip := by
  obtain ⟨hfn, hvalid, hlt⟩ := h
  obtain ⟨si, hret⟩ := returns_iff ra getDate (fun _ => rfl)
    (fun t => (getDate_answers t).2) hfn
  have hregs : dateRegs (getDate (atEntry s ra si)) = _ :=
    (getDate_regs (atEntry s ra si)).trans (chipDate_ds1302 _)
  rw [Session.Honest, hret, dateRegs_exit, hregs, world_atEntry]
  exact chipDate_snapshot hvalid hlt

theorem setThenRead_honest_iff (h : Session.setThenRead.Begins s) :
    Session.setThenRead.Honest s ra ↔ SetUntorn s.world.chip := by
  obtain ⟨hfn, hvalid, hlt, hrest, hch, hcl, hdh⟩ := h
  obtain ⟨si, hret⟩ := returns_iff ra setTime (fun _ => rfl)
    (fun t => (setTime_answers t).2) hfn
  rw [Session.Honest, hret, world_exit]
  obtain ⟨hcal, hleft⟩ := setTime_ds1302 (atEntry s ra si)
  have hregs := timeRegs_atEntry s ra si
  simp only [timeRegs, Prod.mk.injEq] at hregs
  have hmask24 : ∀ b : Byte, IsBelow 0x24 b → b &&& 0x7F = b := by decide
  have hmask60 : ∀ b : Byte, IsBelow 0x60 b → b &&& 0x7F = b := by decide
  rw [hregs.1, hregs.2.1, hregs.2.2, world_atEntry, hmask24 _ hch, hmask60 _ hdh] at hcal
  rw [world_atEntry] at hleft
  have hsplit : s.world.chip.gap 4 + (s.world.chip.passing.drop 5).sum =
      (s.world.chip.passing.drop 4).sum := gap_add_drop s.world.chip 4
  have hgaps : s.world.chip.gap 2 + s.world.chip.gap 3 < 60 := by
    have h23 : s.world.chip.seconds 3 = _ := s.world.chip.seconds_succ 2
    have h34 : s.world.chip.seconds 4 = _ := s.world.chip.seconds_succ 3
    have h45 := s.world.chip.seconds_mono (show 4 ≤ 5 by decide)
    have hall : s.world.chip.seconds 5 < 60 := hlt
    omega
  have hshows : ∀ n, n ≤ 1 → _ := fun n hn => clockSet_shows hvalid hgaps hch hcl hdh hn
  have hset := clockSet_tod hvalid hgaps hch hcl hdh
  have hread : ∀ s' : Cpu (Board Ds1302), s'.ah = 0x02 →
      s'.world.chip = (setTime (atEntry s ra si)).world.chip →
      Returns s' ra fun r' => AtOneInstant s'.world.chip Calendar.time (timeRegs r') :=
    fun s' hfn' hchip => by
      refine readTime_snapshot hfn' ?_ ?_
      · rw [hchip, hcal]
        exact .inr (iterate_running hset.1 _).1
      · rw [hchip, hleft]
        omega
  -- the second call reads the clock a second after it was set, or at once
  have hinstant : ∀ {s' r' : Cpu (Board Ds1302)},
      s'.world.chip = (setTime (atEntry s ra si)).world.chip →
      AtOneInstant s'.world.chip Calendar.time (timeRegs r') →
      ∃ n, n ≤ 1 ∧ timeRegs r' =
        (carry^[n] (clockSet s.world.chip s.ch s.cl s.dh)).time := by
    rintro s' r' hchip ⟨n, hn, hregs'⟩
    rw [hchip, hleft] at hn
    rw [hchip, hcal, ← Function.iterate_add_apply] at hregs'
    exact ⟨_, by omega, hregs'⟩
  constructor
  · intro hhonest
    obtain ⟨s', hfn', hworld⟩ : ∃ s' : Cpu (Board Ds1302), s'.ah = 0x02 ∧
        s'.world = (setTime (atEntry s ra si)).world :=
      ⟨{ s with ax := 0x0200, world := (setTime (atEntry s ra si)).world },
        (by decide : high 0x0200 = 0x02), rfl⟩
    have hchip := congrArg Board.chip hworld
    obtain ⟨⟨fuel, hsome⟩, hall⟩ := hread s' hfn' hchip
    obtain ⟨r, hr⟩ := Option.isSome_iff_exists.mp hsome
    obtain ⟨n, hn, hregs'⟩ := hinstant hchip (hall fuel r hr)
    have hafter : timeRegs r.2 = _ ∨ timeRegs r.2 = _ := (hhonest s' hfn' hchip).2 fuel r hr
    rw [hregs'] at hafter
    exact (hshows n hn).mp hafter
  · intro huntorn s' hfn' hchip
    obtain ⟨hends, hall⟩ := hread s' hfn' hchip
    refine ⟨hends, fun fuel r hr => ?_⟩
    obtain ⟨n, hn, hregs'⟩ := hinstant hchip (hall fuel r hr)
    rw [hregs']
    exact (hshows n hn).mpr huntorn

/-- **What INT 1Ah reads of a running clock.** The time is always read at one instant. The date
is, unless midnight of 31 December falls between the year and the month, the midnight that ends
a month between the month and the date, or any between the date and the day of the week. The
time that was set is read back, unless an hour falls between the writes of the hours and the
minutes or a minute between those of the minutes and the seconds. -/
theorem snapshot_iff {session : Session} (h : session.Begins s) :
    session.Honest s ra ↔ session.Untorn s.world.chip := by
  cases session with
  | readTime =>
      obtain ⟨hfn, hvalid, hlt⟩ := h
      exact iff_of_true (readTime_snapshot hfn hvalid hlt) trivial
  | readDate => exact readDate_honest_iff h
  | setThenRead => exact setThenRead_honest_iff h

/-- A caller of `get_date`, a second before midnight of `date` and `month`, where midnight
comes after the first of the registers is read. -/
def midnightCaller (month date : Byte) : Cpu (Board Ds1302) where
  ax := 0x0400
  bx := 0
  cx := 0
  dx := 0
  si := 0
  di := 0
  bp := 0
  upper := fun _ => 0
  ds := 0
  es := 0
  flags := 0x0202
  stack := [0x0100, 0x7777, 0x0202]
  world := ⟨⟨0, 0⟩, fun _ => 0,
    ⟨⟨0x59, 0x59, 0x23, date, month, 1, 0x23⟩, 0x80, 0, none, [0, 1]⟩⟩

theorem midnightCaller_begins (month date : Byte) :
    Session.readDate.Begins (midnightCaller month date) :=
  ⟨(by decide : high 0x0400 = 0x04), .inr ⟨(by decide : IsBelow 0x60 0x59), (by decide : IsBelow 0x60 0x59),
    (by decide : IsBelow 0x24 0x23)⟩, by show [0, 1].sum < 60; decide⟩

/-- At the end of 15 June it makes no difference. -/
theorem snapshot_june :
    Session.readDate.Honest (midnightCaller 0x06 0x15) 0x8000 :=
  (snapshot_iff (midnightCaller_begins 0x06 0x15)).mpr (by decide : DateUntorn _)

/-- At the end of 2023, 1 January 2023 is read. -/
theorem snapshot_new_year : Session.readDate.Begins (midnightCaller 0x12 0x31) ∧
    ¬ Session.readDate.Honest (midnightCaller 0x12 0x31) 0x8000 :=
  ⟨midnightCaller_begins 0x12 0x31, fun h => absurd
    ((readDate_honest_iff (midnightCaller_begins 0x12 0x31)).mp h) (by decide)⟩

end Sbc386Ex.Time

import Sbc386Ex.Time.Delay

/-!
# Sbc386Ex.Time.DelayKept

What a wait of INT 15h function 86h can count on. Each of the two loops is followed once, from
any look on (`doDelayLoop_ran`, `shortDelayLoop_ran`): what is known where it ends, and by which
look it has ended. The first bounds the time from below for every passing of the time; the
second picks, for a request that is not honoured, a passing of the time that shows it (`hurried`).
-/

namespace Sbc386Ex.Time

open Prog

/-! ### The tick count -/

theorem Timer.count_irq0 {t : Timer} (h : t.count + 1 < tick) : t.irq0.count = t.count + 1 := by
  rw [irq0, if_pos h]

/-- The count comes to zero, wherever it is set to. -/
theorem Timer.exists_count_zero (t : Timer) : ∃ j, (Timer.irq0^[j] t).count = 0 := by
  induction hn : tick.toNat - t.count.toNat generalizing t with
  | zero =>
      refine ⟨1, ?_⟩
      by_cases h : t.count + 1 < tick
      · have htick : tick.toNat = 0x1800BA := by decide
        have hlt := BitVec.lt_def.mp h
        rw [BitVec.toNat_add] at hlt
        rw [Function.iterate_one, count_irq0 h]
        refine BitVec.toNat_inj.mp ?_
        rw [BitVec.toNat_add]
        simp at hlt ⊢
        omega
      · rw [Function.iterate_one, irq0, if_neg h]
  | succ n ih =>
      by_cases h : t.count + 1 < tick
      · have htick : tick.toNat = 0x1800BA := by decide
        have hcount : t.irq0.count.toNat = t.count.toNat + 1 := by
          rw [count_irq0 h, BitVec.toNat_add]
          simp
          omega
        obtain ⟨j, hj⟩ := ih t.irq0 (by omega)
        exact ⟨j + 1, hj⟩
      · exact ⟨1, by rw [Function.iterate_one, irq0, if_neg h]⟩

/-- The first ticks of a day. -/
theorem Timer.low_iterate {t : Timer} (h : t.count = 0) {i : Nat} (hi : i < tick.toNat) :
    (Timer.irq0^[i] t).low = .ofNat 16 i := by
  have hcount : (Timer.irq0^[i] t).count = .ofNat 32 i := by
    induction i with
    | zero => exact h
    | succ i ih =>
        have hi' := ih (Nat.lt_of_succ_lt hi)
        have htick : tick.toNat = 0x1800BA := by decide
        have hsucc : BitVec.ofNat 32 i + 1 = BitVec.ofNat 32 (i + 1) := (BitVec.ofNat_add i 1).symm
        have hlt : BitVec.ofNat 32 i + 1 < tick := by
          rw [hsucc, BitVec.lt_def, BitVec.toNat_ofNat, Nat.mod_eq_of_lt (by omega)]
          exact hi
        rw [Function.iterate_succ_apply', count_irq0 (hi' ▸ hlt), hi', hsucc]
  rw [low, hcount]
  exact BitVec.setWidth_ofNat_of_le (by decide) i

namespace Passing

variable (w : Passing)

/-! ### Ticks and looks -/

theorem ticks_zero : w.ticks 0 = 0 := Nat.count_zero _

theorem ticks_succ (n : Nat) : w.ticks (n + 1) = w.ticks n + if w.ticked n then 1 else 0 :=
  Nat.count_succ _ n

theorem ticks_mono : Monotone w.ticks := Nat.count_monotone _

theorem ticks_succ_le (n : Nat) : w.ticks (n + 1) ≤ w.ticks n + 1 := by
  rw [ticks_succ]
  split_ifs <;> omega

theorem timer_clock (n : Nat) : (w.line.clock n).timer = Timer.irq0^[w.ticks n] w.timer := by
  induction n with
  | zero => rw [ticks_zero]; rfl
  | succ n ih =>
      have hclock : w.line.clock (n + 1) = (w.events (n + 1)).foldl Clock.step (w.line.clock n) := rfl
      rw [hclock, ticks_succ, events]
      split_ifs
      · rw [Function.iterate_succ_apply', ← ih]
        rfl
      · exact ih

theorem low_eq (n : Nat) : w.low n = (Timer.irq0^[w.ticks n] w.timer).low := by
  rw [low, Clock.low, timer_clock]

theorem low_zero : w.low 0 = w.timer.low := by
  rw [low_eq, ticks_zero]
  rfl

/-- A short wait that counter 1 does not end is ended by the tick count: it looks at every
second look, in which there are two ticks at most. -/
theorem exists_expired : ∃ i, T1_BAILOUT ≤ w.low (2 * i + 3) - w.low 0 := by
  obtain ⟨j, hj⟩ := w.timer.exists_count_zero
  have htick : tick.toNat = 0x1800BA := by decide
  have hs := w.timer.low.isLt
  -- eight ticks, and nine, past where the low word is back at the snapshot
  have hfar : ∀ r < 2, T1_BAILOUT ≤
      (Timer.irq0^[j + (w.timer.low.toNat + 8 + r)] w.timer).low - w.timer.low := by
    intro r hr
    rw [Nat.add_comm j, Function.iterate_add_apply, Timer.low_iterate hj (by omega)]
    rw [BitVec.le_def, BitVec.toNat_sub, BitVec.toNat_ofNat]
    show 8 ≤ _
    omega
  generalize hJ : j + (w.timer.low.toNat + 8) = J at hfar
  have hexists : ∃ i, J ≤ w.ticks (2 * i + 3) := by
    obtain ⟨n, hn⟩ := w.running J
    exact ⟨n, hn.trans (w.ticks_mono (by omega))⟩
  have hfirst := Nat.find_spec hexists
  have hbefore := fun i => Nat.find_min hexists (m := i)
  generalize Nat.find hexists = i at hfirst hbefore
  have htwo : w.ticks (2 * i + 3) ≤ w.ticks (2 * i + 1) + 2 :=
    (w.ticks_succ_le (2 * i + 2)).trans (Nat.succ_le_succ (w.ticks_succ_le (2 * i + 1)))
  have hreached : w.ticks (2 * i + 3) ≤ J + 1 := by
    cases i with
    | zero =>
        have hone : w.ticks (2 * 0 + 1) ≤ w.ticks 0 + 1 := w.ticks_succ_le 0
        rw [ticks_zero] at hone
        omega
    | succ i =>
        have hnot : ¬ J ≤ w.ticks (2 * (i + 1) + 1) := hbefore i (Nat.lt_succ_self i)
        omega
  refine ⟨i, ?_⟩
  rw [low_zero, low_eq]
  have hr := hfar (w.ticks (2 * i + 3) - J) (by omega)
  have hticks : j + (w.timer.low.toNat + 8 + (w.ticks (2 * i + 3) - J)) = w.ticks (2 * i + 3) := by
    omega
  rwa [hticks] at hr

/-! ### `short_delay` -/

/-- The count has moved eight ticks or more at the look. -/
def Expires (n : Nat) : Prop := T1_BAILOUT ≤ w.low n - w.low 0

/-- Between two samples the counter shows no more than it has counted, and less if it has been
round meanwhile. -/
theorem t1_sub_le {k n : Nat} (h : k ≤ n) :
    ((w.t1 k - w.t1 n).setWidth 32 : DWord).toNat ≤ w.counted n - w.counted k := by
  have hmono := w.counted_mono h
  rw [BitVec.toNat_setWidth, t1, t1]
  simp only [BitVec.toNat_sub, BitVec.toNat_ofNat]
  omega

variable {w}

theorem runs_t1Read {n : Nat} {ax : Word} {d : Delay} :
    Runs t1Read (w.delay n) ax d ↔ ax = w.t1 n ∧ d = w.delay (n + 1) :=
  runs_modifyGet

theorem runs_delayTick {n : Nat} {t : Word} {d : Delay} :
    Runs delayTick (w.delay n) t d ↔ t = w.low n ∧ d = w.delay (n + 1) :=
  runs_modifyGet

theorem shortDelayLoop_ran {fuel : Nat} : ∀ {k n : Nat} {esi : DWord} {ok : Bool} {d : Delay},
    k ≤ n → Runs (shortDelayLoop (w.low 0) fuel (w.t1 k) esi) (w.delay n) ok d →
      ∃ m, d.now = m + 1 ∧ n ≤ m ∧ (ok = true → esi.toNat + w.counted k ≤ w.counted m) ∧
        (ok = false → w.Expires m) ∧ ∀ i, w.Expires (n + 1 + 2 * i) → m ≤ n + 1 + 2 * i := by
  induction fuel with
  | zero => exact fun _ hr => absurd hr runs_throw
  | succ fuel ih =>
      intro k n esi ok d hkn hr
      obtain ⟨ax, d₁, ht1, hr⟩ := runs_bind.mp hr
      obtain ⟨rfl, rfl⟩ := runs_t1Read.mp ht1
      have hsub := w.t1_sub_le hkn
      have hmono := w.counted_mono hkn
      rcases runs_ite.mp hr with ⟨hle, hr⟩ | ⟨hmore, hr⟩
      · obtain ⟨rfl, rfl⟩ := runs_pure.mp hr
        have hwaited := BitVec.le_def.mp hle
        exact ⟨n, rfl, le_rfl, fun _ => by omega, nofun, fun i _ => by omega⟩
      obtain ⟨t, d₂, hclk, hr⟩ := runs_bind.mp hr
      obtain ⟨rfl, rfl⟩ := runs_delayTick.mp hclk
      rcases runs_ite.mp hr with ⟨hnear, hr⟩ | ⟨hfar, hr⟩
      · obtain ⟨m, hm, hnm, hok, hbail, hends⟩ := ih (by omega) hr
        refine ⟨m, hm, by omega, fun h => ?_, hbail, fun i hi => ?_⟩
        · have hlt := BitVec.not_le.mp hmore
          have hleft := BitVec.toNat_sub_of_le (BitVec.le_of_lt hlt)
          have hrest := hok h
          have hwait := BitVec.lt_def.mp hlt
          omega
        · cases i with
          | zero => exact absurd hi (BitVec.not_le.mpr hnear)
          | succ i =>
              have hlook : n + 1 + 2 * (i + 1) = n + 2 + 1 + 2 * i := by omega
              rw [hlook] at hi ⊢
              exact hends i hi
      · obtain ⟨rfl, rfl⟩ := runs_pure.mp hr
        exact ⟨n + 1, rfl, by omega, nofun, fun _ => BitVec.not_lt.mp hfar, fun i _ => by omega⟩

/-- A round goes on only while the count is near. -/
theorem shortDelayLoop_round {fuel n : Nat} {di : Word} {esi : DWord}
    (hrest : ¬ w.Expires (n + 1) → ∀ esi, ∃ ok d,
      Runs (shortDelayLoop (w.low 0) fuel (w.t1 n) esi) (w.delay (n + 2)) ok d) :
    ∃ ok d, Runs (shortDelayLoop (w.low 0) (fuel + 1) di esi) (w.delay n) ok d := by
  have hax : Runs t1Read (w.delay n) (w.t1 n) (w.delay (n + 1)) := runs_t1Read.mpr ⟨rfl, rfl⟩
  have hdx : Runs delayTick (w.delay (n + 1)) (w.low (n + 1)) (w.delay (n + 2)) :=
    runs_delayTick.mpr ⟨rfl, rfl⟩
  by_cases hle : esi ≤ (di - w.t1 n).setWidth 32
  · exact ⟨true, _, hax.bind (runs_ite.mpr (.inl ⟨hle, runs_pure.mpr ⟨rfl, rfl⟩⟩))⟩
  by_cases hnear : w.low (n + 1) - w.low 0 < T1_BAILOUT
  · obtain ⟨ok, d, hr⟩ := hrest (BitVec.not_le.mpr hnear) (esi - (di - w.t1 n).setWidth 32)
    exact ⟨ok, d, hax.bind (runs_ite.mpr (.inr ⟨hle, hdx.bind
      (runs_ite.mpr (.inl ⟨hnear, hr⟩))⟩))⟩
  · exact ⟨false, _, hax.bind (runs_ite.mpr (.inr ⟨hle, hdx.bind
      (runs_ite.mpr (.inr ⟨hnear, runs_pure.mpr ⟨rfl, rfl⟩⟩))⟩))⟩

theorem shortDelayLoop_returns {i : Nat} : ∀ {n : Nat} {di : Word} {esi : DWord},
    w.Expires (n + 1 + 2 * i) →
      ∃ ok d, Runs (shortDelayLoop (w.low 0) (i + 1) di esi) (w.delay n) ok d := by
  induction i with
  | zero => exact fun hi => shortDelayLoop_round fun hnot => absurd hi hnot
  | succ i ih =>
      intro n di esi hi
      have hlook : n + 1 + 2 * (i + 1) = n + 2 + 1 + 2 * i := by omega
      exact shortDelayLoop_round fun _ _ => ih (hlook ▸ hi)

theorem shortDelay_ran {fuel : Nat} {cx dx : Word} {ok : Bool} {d : Delay}
    (hr : Runs (shortDelay fuel cx dx) (w.delay 0) ok d) :
    ∃ m, d.now = m + 1 ∧ (ok = true → micros cx dx ≤ w.counted m) ∧
      (ok = false → w.Expires m) ∧ ∀ i, w.Expires (2 * i + 3) → m ≤ 2 * i + 3 := by
  obtain ⟨t, d₁, hclk, hr⟩ := runs_bind.mp hr
  obtain ⟨rfl, rfl⟩ := runs_delayTick.mp hclk
  obtain ⟨di, d₂, ht1, hr⟩ := runs_bind.mp hr
  obtain ⟨rfl, rfl⟩ := runs_t1Read.mp ht1
  obtain ⟨m, hm, -, hok, hbail, hends⟩ := shortDelayLoop_ran (Nat.le_succ 1) hr
  refine ⟨m, hm, fun h => (Nat.le_add_right _ _).trans (hok h), hbail, fun i hi => ?_⟩
  have hlook : 2 * i + 3 = 1 + 1 + 1 + 2 * i := by omega
  rw [hlook] at hi ⊢
  exact hends i hi

variable (w) in
theorem shortDelay_returns (cx dx : Word) :
    ∃ fuel ok d, Runs (shortDelay fuel cx dx) (w.delay 0) ok d := by
  obtain ⟨i, hi⟩ := w.exists_expired
  have hlook : 2 * i + 3 = 2 + 1 + 2 * i := by omega
  obtain ⟨ok, d, hr⟩ := shortDelayLoop_returns (hlook ▸ hi)
  exact ⟨i + 1, ok, d, (runs_delayTick.mpr ⟨rfl, rfl⟩).bind ((runs_t1Read.mpr ⟨rfl, rfl⟩).bind hr)⟩

/-! ### `do_delay` -/

variable (w) in
def sleeper (n : Nat) (timeouts : Fin 8 → Byte) : Sleeper := ⟨w.delay n, timeouts⟩

theorem countDown_toNat (t : Fin 8 → Byte) (i : Fin 8) :
    (countDown t i).toNat = (t i).toNat - 1 := by
  rw [countDown]
  split_ifs with h
  · rw [h]
    rfl
  · have hpos : (t i).toNat ≠ 0 := fun hz => h (BitVec.toNat_inj.mp hz)
    have hlt := (t i).isLt
    simp only [BitVec.toNat_sub]
    simp
    omega

theorem next_sleeper (n : Nat) (t : Fin 8 → Byte) : (w.sleeper n t).next =
    w.sleeper (n + 1) ((w.events (n + 1)).foldl timeoutsAfter t) := rfl

/-- The byte between two looks. -/
theorem loc_next (w : Passing) (n : Nat) (t : Fin 8 → Byte) :
    ((w.events (n + 1)).foldl timeoutsAfter t LOC).toNat =
      (t LOC).toNat - (w.ticks (n + 1) - w.ticks n) := by
  rw [ticks_succ, Nat.add_sub_cancel_left, events]
  split_ifs
  · exact countDown_toNat t LOC
  · rfl

theorem runs_doDelayRound {s s' : Sleeper} {r : Option Unit} :
    Runs doDelayRound s r s' ↔
      s' = s.next ∧ r = if s.next.timeouts LOC = 0 then some () else none := by
  rw [doDelayRound, runs_bind]
  constructor
  · rintro ⟨_, _, hnext, hr⟩
    obtain rfl := runs_modify.mp hnext
    obtain ⟨_, _, hget, hr⟩ := runs_bind.mp hr
    obtain ⟨rfl, rfl⟩ := runs_get.mp hget
    split_ifs at hr ⊢ <;> exact (runs_pure.mp hr).symm
  · rintro ⟨rfl, rfl⟩
    refine ⟨(), s.next, runs_modify.mpr rfl, runs_bind.mpr ⟨_, _, runs_get.mpr ⟨rfl, rfl⟩, ?_⟩⟩
    split_ifs <;> exact runs_pure.mpr ⟨rfl, rfl⟩

theorem doDelayLoop_ran {fuel : Nat} : ∀ {n : Nat} {t : Fin 8 → Byte} {s : Sleeper},
    Runs (loop .outOfFuel doDelayRound fuel) (w.sleeper n t) () s →
      (t LOC).toNat + w.ticks n ≤ w.ticks s.delay.now ∧
        ∀ i, n < i → (t LOC).toNat + w.ticks n ≤ w.ticks i → s.delay.now ≤ i := by
  induction fuel with
  | zero => exact fun hr => absurd hr runs_throw
  | succ fuel ih =>
      intro n t s hr
      obtain ⟨r, s₁, hround, hr⟩ := runs_bind.mp hr
      obtain ⟨rfl, rfl⟩ := runs_doDelayRound.mp hround
      have hmono : w.ticks n ≤ w.ticks (n + 1) := w.ticks_mono (Nat.le_succ n)
      have hloc := w.loc_next n t
      rw [next_sleeper] at hr
      generalize (w.events (n + 1)).foldl timeoutsAfter t = t' at hr hloc
      by_cases hz : t' LOC = 0
      · rw [sleeper, if_pos hz] at hr
        obtain ⟨-, rfl⟩ := runs_pure.mp hr
        have hdone : (t LOC).toNat - (w.ticks (n + 1) - w.ticks n) = 0 := by
          rw [← hloc, hz]
          rfl
        have hall : (t LOC).toNat + w.ticks n ≤ w.ticks (n + 1) := by omega
        exact ⟨hall, fun i hi _ => hi⟩
      · rw [sleeper, if_neg hz] at hr
        obtain ⟨hall, hends⟩ := ih hr
        have hpos : (t' LOC).toNat ≠ 0 := fun h => hz (BitVec.toNat_inj.mp h)
        have hleft : (t' LOC).toNat + w.ticks (n + 1) = (t LOC).toNat + w.ticks n := by omega
        rw [hleft] at hall hends
        refine ⟨hall, fun i hi hticks => ?_⟩
        obtain rfl | hlater := Nat.eq_or_lt_of_le (Nat.succ_le_of_lt hi)
        · -- the byte is not zero at the next look
          have hnot : (t LOC).toNat + w.ticks n ≤ w.ticks (n + 1) := hticks
          omega
        · exact hends i hlater hticks

theorem doDelayLoop_returns {k : Nat} : ∀ {n : Nat} {t : Fin 8 → Byte},
    (t LOC).toNat + w.ticks n ≤ w.ticks (n + k + 1) →
      ∃ s, Runs (loop .outOfFuel doDelayRound (k + 1)) (w.sleeper n t) () s := by
  induction k with
  | zero =>
      intro n t h
      have hzero : (w.sleeper n t).next.timeouts LOC = 0 := by
        refine BitVec.toNat_inj.mp ((w.loc_next n t).trans ?_)
        exact Nat.sub_eq_zero_of_le (Nat.le_sub_of_add_le h)
      exact ⟨_, Runs.loop_done 0 (runs_doDelayRound.mpr ⟨rfl, (if_pos hzero).symm⟩)⟩
  | succ k ih =>
      intro n t h
      by_cases hzero : (w.sleeper n t).next.timeouts LOC = 0
      · exact ⟨_, Runs.loop_done _ (runs_doDelayRound.mpr ⟨rfl, (if_pos hzero).symm⟩)⟩
      · have hloc := w.loc_next n t
        rw [next_sleeper] at hzero
        have hpos : ((w.events (n + 1)).foldl timeoutsAfter t LOC).toNat ≠ 0 :=
          fun hz => hzero (BitVec.toNat_inj.mp hz)
        have hmono : w.ticks n ≤ w.ticks (n + 1) := w.ticks_mono (Nat.le_succ n)
        have hlook : n + 1 + k + 1 = n + (k + 1) + 1 := by omega
        obtain ⟨s, hr⟩ := @ih (n + 1) ((w.events (n + 1)).foldl timeoutsAfter t)
          (by rw [hlook]; omega)
        exact ⟨s, Runs.loop_again (runs_doDelayRound.mpr ⟨rfl, (if_neg hzero).symm⟩) hr⟩

/-! ### Function 86h -/

theorem now_iterate_next (k : Nat) (s : Sleeper) :
    (Sleeper.next^[k] s).delay.now = s.delay.now + k := by
  induction k generalizing s with
  | zero => rfl
  | succ k ih =>
      rw [Function.iterate_succ_apply, ih]
      show s.delay.now + 1 + k = _
      omega

theorem runs_beside {α : Type} {p : DelayM α} {s s' : Sleeper} {a : α} :
    Runs (beside p) s a s' ↔
      ∃ d, Runs p s.delay a d ∧ s' = Sleeper.next^[d.now - s.delay.now] s := by
  show beside p s = .ok (a, s') ↔ ∃ d, p.run s.delay = .ok (a, d) ∧ _
  rw [beside]
  cases p.run s.delay with
  | error e => cases e; simp
  | ok r =>
      constructor
      · intro h
        obtain ⟨rfl, rfl⟩ := Prod.mk.inj (Except.ok.inj h)
        exact ⟨r.2, rfl, rfl⟩
      · rintro ⟨d, hd, rfl⟩
        obtain rfl := Except.ok.inj hd
        rfl

variable {cx dx : Word} {carry : Bool} {n : Nat}

theorem returns_short (hcx : cx < 4) : w.Returns cx dx carry n ↔
    carry = false ∧ ∃ fuel ok d, Runs (shortDelay fuel cx dx) (w.delay 0) ok d ∧ d.now = n := by
  have hrun : ∀ fuel s, Runs (Time.delay fuel cx dx) (w.sleeper 0 w.timeouts) carry s ↔
      carry = false ∧ ∃ ok d, Runs (shortDelay fuel cx dx) (w.delay 0) ok d ∧
        s = Sleeper.next^[d.now] (w.sleeper 0 w.timeouts) := by
    intro fuel s
    rw [Time.delay, if_pos hcx, runs_bind]
    constructor
    · rintro ⟨ok, s₁, hp, hend⟩
      obtain ⟨rfl, rfl⟩ := runs_pure.mp hend
      obtain ⟨d, hd, hs⟩ := runs_beside.mp hp
      exact ⟨rfl, ok, d, hd, hs⟩
    · rintro ⟨rfl, ok, d, hd, rfl⟩
      exact ⟨ok, _, runs_beside.mpr ⟨d, hd, rfl⟩, runs_pure.mpr ⟨rfl, rfl⟩⟩
  have hnow : ∀ k, (Sleeper.next^[k] (w.sleeper 0 w.timeouts)).delay.now = k := fun k =>
    (now_iterate_next k _).trans (Nat.zero_add k)
  constructor
  · rintro ⟨fuel, s, hr, rfl⟩
    obtain ⟨hcarry, ok, d, hd, rfl⟩ := (hrun fuel s).mp hr
    exact ⟨hcarry, fuel, ok, d, hd, (hnow d.now).symm⟩
  · rintro ⟨hcarry, fuel, ok, d, hd, rfl⟩
    exact ⟨fuel, _, (hrun fuel _).mpr ⟨hcarry, ok, d, hd, rfl⟩, hnow d.now⟩

/-- The ticks of a long wait. -/
def longTicks (cx dx : Word) : Nat := min (hourTicks (micros cx dx)) 255

variable (w dx) in
theorem returns_long (hcx : ¬ cx < 4) : ∃ t : Fin 8 → Byte, (t LOC).toNat = longTicks cx dx ∧
    ∀ carry n, w.Returns cx dx carry n ↔ carry = false ∧ ∃ fuel s,
      Runs (loop .outOfFuel doDelayRound fuel) (w.sleeper 0 t) () s ∧ s.delay.now = n := by
  obtain ⟨bx, ax, hcount, hq⟩ := tickCount_eq cx dx
  have hloc : (Function.update w.timeouts LOC (oneByte bx ax) LOC).toNat = longTicks cx dx := by
    rw [Function.update_self, oneByte_toNat, hq, longTicks]
  have hrun : ∀ fuel carry s, Runs (Time.delay fuel cx dx) (w.sleeper 0 w.timeouts) carry s ↔
      carry = false ∧ Runs (loop .outOfFuel doDelayRound fuel)
        (w.sleeper 0 (Function.update w.timeouts LOC (oneByte bx ax))) () s := by
    intro fuel carry s
    rw [Time.delay, if_neg hcx, hcount]
    dsimp only
    rw [doDelay, runs_bind]
    constructor
    · rintro ⟨_, _, hstore, hr⟩
      obtain rfl := runs_modify.mp hstore
      obtain ⟨_, _, hloop, hend⟩ := runs_bind.mp hr
      obtain ⟨rfl, rfl⟩ := runs_pure.mp hend
      exact ⟨rfl, hloop⟩
    · rintro ⟨rfl, hloop⟩
      exact ⟨(), _, runs_modify.mpr rfl, runs_bind.mpr ⟨(), _, hloop, runs_pure.mpr ⟨rfl, rfl⟩⟩⟩
  refine ⟨_, hloc, fun carry n => ⟨?_, ?_⟩⟩
  · rintro ⟨fuel, s, hr, hnow⟩
    obtain ⟨hcarry, hloop⟩ := (hrun fuel carry s).mp hr
    exact ⟨hcarry, fuel, s, hloop, hnow⟩
  · rintro ⟨hcarry, fuel, s, hloop, hnow⟩
    exact ⟨fuel, s, (hrun fuel carry s).mpr ⟨hcarry, hloop⟩, hnow⟩

variable (w) in
/-- The wait returns, and not with carry. -/
theorem exists_returns (cx dx : Word) : ∃ n, w.Returns cx dx false n := by
  by_cases hcx : cx < 4
  · obtain ⟨fuel, ok, d, hr⟩ := w.shortDelay_returns cx dx
    exact ⟨d.now, (returns_short hcx).mpr ⟨rfl, fuel, ok, d, hr, rfl⟩⟩
  · obtain ⟨t, ht, hreturns⟩ := w.returns_long dx hcx
    obtain ⟨k, hk⟩ := w.running (longTicks cx dx)
    have hticks : (t LOC).toNat + w.ticks 0 ≤ w.ticks (0 + k + 1) := by
      rw [ht, ticks_zero, Nat.add_zero, Nat.zero_add]
      exact hk.trans (w.ticks_mono (Nat.le_succ k))
    obtain ⟨s, hr⟩ := doDelayLoop_returns hticks
    exact ⟨s.delay.now, (hreturns _ _).mpr ⟨rfl, _, s, hr, rfl⟩⟩

variable (w) in
/-- `k` ticks take `k - 1` periods. -/
theorem passed_of_ticks {k : Nat} (h : k ≤ w.ticks n) :
    ((k + 1 : Nat) : ℚ) * PERIOD ≤ w.time n - w.time 0 + 2 * PERIOD := by
  have hlate := w.ticks_late n
  have hmono : (k : ℚ) * PERIOD ≤ (w.ticks n : ℚ) * PERIOD :=
    mul_le_mul_of_nonneg_right (Nat.cast_le.mpr h) period_pos.le
  have hsum : ((k + 1 : Nat) : ℚ) * PERIOD = k * PERIOD + PERIOD := by
    rw [Nat.cast_succ, add_mul, one_mul]
  unfold ticks at hmono
  linarith

theorem micros_lt_of_short (hcx : cx < 4) : micros cx dx < 262144 := by
  have hlt := BitVec.lt_def.mp hcx
  have hfour : (4 : Word).toNat = 4 := rfl
  have hdx := dx.isLt
  rw [micros, toNat_pair]
  omega

/-- **The time a wait takes**, at the least. -/
theorem honoured_of_kept (hkept : Kept cx dx w.timer) (h : w.Returns cx dx carry n) :
    w.Honoured cx dx carry n := by
  refine .inr ?_
  by_cases hcx : cx < 4
  · rw [Kept, if_pos hcx] at hkept
    obtain ⟨-, fuel, ok, d, hr, rfl⟩ := (returns_short hcx).mp h
    obtain ⟨m, hm, hwaited, hbail, -⟩ := shortDelay_ran hr
    have hlater : w.time m ≤ w.time d.now := w.time_mono (by omega)
    cases ok with
    | true =>
        have hcounted : (micros cx dx : ℚ) ≤ w.counted m := Nat.cast_le.mpr (hwaited rfl)
        have hlate := w.counted_late m
        have hone := one_le_period
        linarith
    | false =>
        have hfar := hbail rfl
        rw [Expires, low_zero, low_eq] at hfar
        have hpassed := w.passed_of_ticks (le_refl (w.ticks m))
        by_cases hj : w.ticks m < 4
        · have henough := hkept _ hj hfar
          linarith
        · -- the longest request is over anyway
          have hmicros : (micros cx dx : ℚ) ≤ 262144 := by
            exact_mod_cast (micros_lt_of_short hcx).le
          have hfive := w.passed_of_ticks (Nat.le_of_not_lt hj)
          have hshort := short_lt_period
          push_cast at hfive
          linarith
  · rw [Kept, if_neg hcx] at hkept
    obtain ⟨t, ht, hreturns⟩ := w.returns_long dx hcx
    obtain ⟨-, fuel, s, hr, rfl⟩ := (hreturns _ _).mp h
    obtain ⟨hall, -⟩ := doDelayLoop_ran hr
    rw [ht, ticks_zero, Nat.add_zero] at hall
    exact hkept.trans (w.passed_of_ticks hall)

end Passing

/-! ### Where it is too short -/

theorem count_even_looks (n : Nat) :
    Nat.count (fun i => decide (2 ≤ i ∧ i % 2 = 0) = true) n = (n - 1) / 2 := by
  induction n with
  | zero => rfl
  | succ n ih =>
      rw [Nat.count_succ, ih]
      by_cases h : 2 ≤ n ∧ n % 2 = 0
      · rw [if_pos (decide_eq_true h)]
        omega
      · rw [if_neg (by simpa using h)]
        omega

/-- The first tick comes at once and every further one at its time; the wait looks just before
and just after a tick. Counter 1 counts all the time. -/
def hurried (t : Timer) : Passing where
  timer := t
  timeouts _ := 0
  ticked n := 2 ≤ n ∧ n % 2 = 0
  counter := 0
  counted n := ⌊((n - 3) / 2 : Nat) * PERIOD⌋₊
  time n := ((n - 3) / 2 : Nat) * PERIOD
  time_mono _ _ h :=
    mul_le_mul_of_nonneg_right (Nat.cast_le.mpr (by omega)) period_pos.le
  counted_mono _ _ h :=
    Nat.floor_mono (mul_le_mul_of_nonneg_right (Nat.cast_le.mpr (by omega)) period_pos.le)
  ticks_late n := by
    have hle : (((n - 1) / 2 : Nat) : ℚ) ≤ ((n - 3) / 2 : Nat) + 1 := by
      exact_mod_cast (by omega : (n - 1) / 2 ≤ (n - 3) / 2 + 1)
    have hmul := mul_le_mul_of_nonneg_right hle period_pos.le
    rw [count_even_looks]
    simp only [Nat.zero_sub, Nat.zero_div, Nat.cast_zero, zero_mul, sub_zero]
    linarith
  counted_late n := by
    have hfloor := Nat.floor_le (mul_nonneg (Nat.cast_nonneg ((n - 3) / 2)) period_pos.le)
    simp only [Nat.zero_sub, Nat.zero_div, Nat.cast_zero, zero_mul, sub_zero]
    linarith
  running k := ⟨2 * k + 1, by rw [count_even_looks]; omega⟩

variable {cx dx : Word} {t : Timer} {n : Nat}

/-- A wait that has ended with its `j`-th tick. -/
theorem not_honoured_of_ends {j : Nat} (hj : 1 ≤ j) (hn : n ≤ 2 * j + 2)
    (hlong : ((j + 1 : Nat) : ℚ) * PERIOD < micros cx dx) :
    ¬ (hurried t).Honoured cx dx false n := by
  rintro (hcarry | henough)
  · cases hcarry
  · have hlook : (((n - 3) / 2 + 2 : Nat) : ℚ) ≤ (j + 1 : Nat) := Nat.cast_le.mpr (by omega)
    have hmul := mul_le_mul_of_nonneg_right hlook period_pos.le
    have htime : (hurried t).time n - (hurried t).time 0 = ((n - 3) / 2 : Nat) * PERIOD := by
      simp [hurried]
    rw [htime] at henough
    push_cast at hmul hlong
    linarith

theorem not_honoured_of_not_kept (hkept : ¬ Kept cx dx t)
    (h : (hurried t).Returns cx dx false n) : ¬ (hurried t).Honoured cx dx false n := by
  by_cases hcx : cx < 4
  · rw [Kept, if_pos hcx] at hkept
    obtain ⟨-, fuel, ok, d, hr, rfl⟩ := (Passing.returns_short hcx).mp h
    obtain ⟨m, hm, -, -, hends⟩ := Passing.shortDelay_ran hr
    push Not at hkept
    obtain ⟨j, hj, hfar, hlong⟩ := hkept
    obtain ⟨i, rfl⟩ : ∃ i, j = i + 1 := by
      refine ⟨j - 1, (Nat.sub_add_cancel (Nat.pos_of_ne_zero ?_)).symm⟩
      rintro rfl
      rw [Function.iterate_zero, id_eq, BitVec.sub_self] at hfar
      exact absurd hfar (by decide)
    have hticks : (hurried t).ticks (2 * i + 3) = i + 1 := by
      refine (count_even_looks _).trans ?_
      omega
    have hexpires : (hurried t).Expires (2 * i + 3) := by
      rw [Passing.Expires, Passing.low_zero, Passing.low_eq, hticks]
      exact hfar
    have hended := hends i hexpires
    exact not_honoured_of_ends (Nat.le_add_left 1 i) (by omega) hlong
  · rw [Kept, if_neg hcx] at hkept
    obtain ⟨loc, hloc, hreturns⟩ := (hurried t).returns_long dx hcx
    obtain ⟨-, fuel, s, hr, rfl⟩ := (hreturns _ _).mp h
    obtain ⟨-, hends⟩ := Passing.doDelayLoop_ran hr
    have hpos : 1 ≤ Passing.longTicks cx dx := by
      have hfour : (4 : Word).toNat = 4 := rfl
      have hge := BitVec.le_def.mp (BitVec.not_lt.mp hcx)
      rw [Passing.longTicks, hourTicks, micros, toNat_pair]
      omega
    have hticks : (hurried t).ticks (2 * Passing.longTicks cx dx + 1) = Passing.longTicks cx dx := by
      refine (count_even_looks _).trans ?_
      omega
    have hended := hends (2 * Passing.longTicks cx dx + 1) (Nat.succ_pos _)
      (by rw [hticks, hloc, Passing.ticks_zero, Nat.add_zero])
    exact not_honoured_of_ends hpos (by omega) (not_le.mp hkept)

/-- **INT 15h function 86h.** The wait returns whatever is asked for, without carry; and for the
requests that are kept, and for no others, it has then waited long enough however time passed. -/
theorem delay_kept_iff (cx dx : Word) (t : Timer) :
    (∀ w : Passing, ∃ n, w.Returns cx dx false n) ∧
      ((∀ w : Passing, w.timer = t → ∀ carry n, w.Returns cx dx carry n →
        w.Honoured cx dx carry n) ↔ Kept cx dx t) := by
  refine ⟨fun w => w.exists_returns cx dx, fun h => ?_, ?_⟩
  · by_contra hkept
    obtain ⟨n, hn⟩ := (hurried t).exists_returns cx dx
    exact not_honoured_of_not_kept hkept hn (h _ rfl _ _ hn)
  · rintro hkept w rfl carry n h
    exact Passing.honoured_of_kept hkept h

/-- More than an hour is asked for, and fourteen seconds are waited; and a quarter of a second
is, while the last tick of the day comes at once. -/
theorem delay_cut_short :
    (∃ w n, Passing.Returns w 0xFFFF 0xFFFF false n ∧ ¬ w.Honoured 0xFFFF 0xFFFF false n) ∧
      ∃ w n, Passing.Returns w 3 0xFFFF false n ∧ ¬ w.Honoured 3 0xFFFF false n := by
  constructor
  · have hkept : ¬ Kept 0xFFFF 0xFFFF ⟨0, 0⟩ := by
      have hmicros : micros 0xFFFF 0xFFFF = 4294967295 := by decide
      have hticks : min (hourTicks 4294967295) 255 = 255 := by decide
      rw [Kept, if_neg (by decide), hmicros, hticks]
      norm_num [PERIOD, divide, CLKIN0]
    obtain ⟨n, hn⟩ := (hurried ⟨0, 0⟩).exists_returns 0xFFFF 0xFFFF
    exact ⟨_, n, hn, not_honoured_of_not_kept hkept hn⟩
  · have hkept : ¬ Kept 3 0xFFFF ⟨0x1800B9, 0⟩ := by
      have hmicros : micros 3 0xFFFF = 262143 := by decide
      rw [Kept, if_pos (by decide), hmicros]
      intro hall
      have hone := hall 1 (by decide) (by decide)
      norm_num [PERIOD, divide, CLKIN0] at hone
    obtain ⟨n, hn⟩ := (hurried ⟨0x1800B9, 0⟩).exists_returns 3 0xFFFF
    exact ⟨_, n, hn, not_honoured_of_not_kept hkept hn⟩

end Sbc386Ex.Time

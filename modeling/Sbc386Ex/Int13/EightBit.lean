import Sbc386Ex.Ide.Cable
import Sbc386Ex.Int13.Dispatch
import Sbc386Ex.Lib.Trace

/-!
# Sbc386Ex.Int13.EightBit

Eight-bit transfers and resets. The driver moves single bytes, so every registered
drive has to be in 8-bit mode whenever the last reset, or the enumeration at boot, was
reported a success.

The enumeration keeps to that. Function 00h goes by the number of drives and not by
the drive table, and does not look at what SET FEATURES came to; it keeps to it exactly
when `ResetKeeps` holds.
-/

namespace Sbc386Ex.Int13

open Prog Ide Cable

/-! ### Waits look and do not touch -/

section Waits

variable {W : Type} [IdeBus W] {R : W → W → Prop} [Std.Refl R] [IsTrans W R]

theorem keeps_shortDelay (hR : Watched R) : ∀ n, Keeps (OnBus R) (shortDelay n : IdeM W Unit)
  | 0 => keeps_pure
  | n + 1 => (hR.inPort _).bind fun _ => keeps_shortDelay hR n

theorem keeps_hdWaitNotBusy (hR : Watched R) (ticks : Word) (fuel : Nat) :
    Keeps (OnBus R) (hdWaitNotBusy ticks fuel : IdeM W Bool) := by
  have hround : ∀ start, Keeps (OnBus R) (hdWaitRound ticks start : IdeM W (Option Bool)) :=
    fun start => (hR.inPort _).bind fun _ =>
      keeps_ite keeps_pure (hR.timerCountLow.bind fun _ => keeps_ite keeps_pure keeps_pure)
  exact hR.timerCountLow.bind fun start => Keeps.loop (hround start) fuel

theorem keeps_selectDrive (hR : Framed R) (drive : Bool) :
    Keeps (OnBus R) (selectDrive drive : IdeM W Unit) :=
  (hR.outPort (plain_of_ne (by decide))).bind fun _ => keeps_shortDelay hR.toWatched 4

theorem keeps_readDataBELoop (hR : Framed R) (es : Word) :
    ∀ n di, Keeps (OnBus R) (readDataBELoop es n di : IdeM W Word)
  | 0, _ => keeps_pure
  | n + 1, _ => (hR.toWatched.inPort _).bind fun _ => (hR.toWatched.inPort _).bind fun _ =>
      (Framed.storeByte _ _ _).bind fun _ => (Framed.storeByte _ _ _).bind fun _ =>
        keeps_readDataBELoop hR es n _

/-- IDENTIFY is a transfer like the others. -/
theorem keeps_hdIdentify (hR : Framed R) (fuel : Nat) (geo : Bool → Byte × Byte) (drive : Bool) :
    Keeps (OnBus R) (hdIdentify fuel geo drive : IdeM W (Option DiskTab)) := by
  have hid : ∀ al cx bx, Keeps (OnBus R) (ideReadId fuel al cx bx : IdeM W Word) := by
    intro al cx bx
    refine (hR.toWatched.waitStatus _ fuel).bind fun _ => keeps_ite ?_ hR.ideError
    refine (hR.wrLba _ _ _).bind fun _ => (hR.outPort (by decide)).bind fun _ =>
      (hR.toWatched.waitStatus _ fuel).bind fun _ => keeps_ite ?_ hR.ideError
    exact (keeps_readDataBELoop hR _ _ _).bind fun _ => keeps_pure
  exact (hid _ _ _).bind fun _ => keeps_ite keeps_pure (keeps_get.bind fun _ => keeps_pure)

end Waits

/-! ### One SET FEATURES -/

section Cables

variable {fuel : Nat} {h h' : Host Cable} {u : Bool}

/-- The drive `u`, once selected, is out of BSY within the second, and then carries out the
SET FEATURES it is sent. -/
def Willing (fuel : Nat) (h : Host Cable) (u : Bool) : Prop :=
  (∃ h₁, Runs (do selectDrive u; hdWaitNotBusy SELECT_TICKS fuel) h true h₁) ∧
    h.bus.conduct.present u = true ∧ h.bus.conduct.takes h.bus.sets = true

theorem runs_selectDrive {a : Unit} (hr : Runs (selectDrive u) h a h') :
    Waiting { h.bus with unit := u } h'.bus := by
  obtain ⟨a₁, h₁, hout, hdelay⟩ := runs_bind.mp hr
  have hunit : h₁.bus = { h.bus with unit := u } := by
    obtain rfl := runs_modify.mp hout
    cases u <;> rfl
  rw [← hunit]
  exact keeps_shortDelay watched_waiting 4 hdelay

/-- **What `hd_set_8bit` comes to.** -/
theorem hdSet8bit_spec {ok : Bool} (hr : Runs (hdSet8bit fuel u) h ok h') :
    (∀ v, h'.bus.mode8 v = true ↔ h.bus.mode8 v = true ∨ (v = u ∧ Willing fuel h u)) ∧
      (ok = true → Willing fuel h u) := by
  obtain ⟨a, h₁, hsel, hrest⟩ := runs_bind.mp hr
  obtain ⟨zf, h₂, hwait, hrest⟩ := runs_bind.mp hrest
  have hw : Waiting { h.bus with unit := u } h₂.bus :=
    IsTrans.trans _ _ _ (runs_selectDrive hsel) (keeps_hdWaitNotBusy watched_waiting _ _ hwait)
  have hselwait : Runs (do selectDrive u; hdWaitNotBusy SELECT_TICKS fuel) h zf h₂ := hsel.bind hwait
  cases zf with
  | false =>
      obtain ⟨rfl, rfl⟩ := runs_pure.mp hrest
      have hno : ¬ Willing fuel h u := by
        rintro ⟨⟨h₃, hyes⟩, -⟩
        cases (hyes.det hselwait).1
      obtain ⟨r, t, hbus⟩ := hw
      refine ⟨fun v => ?_, fun hok => by cases hok⟩
      rw [hbus]
      simp [hno]
  | true =>
      have hwill : Willing fuel h u ↔ h.bus.conduct.present u = true ∧
          h.bus.conduct.takes h.bus.sets = true := ⟨fun hw => hw.2, fun hp => ⟨⟨h₂, hselwait⟩, hp⟩⟩
      obtain ⟨_, h₃, herr, hrest⟩ := runs_bind.mp hrest
      obtain ⟨_, h₄, hcmd, hrest⟩ := runs_bind.mp hrest
      obtain ⟨zf, h₅, hwait₂, hrest⟩ := runs_bind.mp hrest
      have hsent : ∃ r t, h₄.bus =
          { (h.bus.asked u).command IDE_CMD_SET_FEATURE with reads := r, ticks := t } := by
        obtain ⟨r, t, hbus⟩ := hw
        obtain rfl := runs_modify.mp herr
        obtain rfl := runs_modify.mp hcmd
        refine ⟨r, t, ?_⟩
        show Cable.command { h₂.bus with feature := 0x01 } IDE_CMD_SET_FEATURE = _
        rw [hbus]
        unfold command asked setMode
        cases h.bus.conduct.present u <;> cases h.bus.conduct.takes h.bus.sets <;> rfl
      have hw₅ : Waiting ((h.bus.asked u).command IDE_CMD_SET_FEATURE) h₅.bus :=
        IsTrans.trans _ _ _ hsent (keeps_hdWaitNotBusy watched_waiting _ _ hwait₂)
      have hlast : Waiting h₅.bus h'.bus ∧ (ok = true → h₅.bus.read IDESTTS &&& 0x01 = 0) := by
        cases zf with
        | false =>
            obtain ⟨rfl, rfl⟩ := runs_pure.mp hrest
            exact ⟨refl_of _ _, fun hok => by cases hok⟩
        | true =>
            obtain ⟨sts, h₆, hin, hpure⟩ := runs_bind.mp hrest
            obtain ⟨rfl, rfl⟩ := runs_modifyGet.mp hin
            obtain ⟨rfl, rfl⟩ := runs_pure.mp hpure
            exact ⟨⟨_, _, rfl⟩, fun hok => of_decide_eq_true hok⟩
      refine ⟨fun v => ?_, fun hok => hwill.mpr (takes_of_status hw₅ (hlast.2 hok))⟩
      obtain ⟨r, t, hbus⟩ := IsTrans.trans _ _ _ hw₅ hlast.1
      rw [hbus, hwill]
      exact mode8_command h.bus u v

/-- After the soft reset every drive is back to 16 bits. -/
theorem hdReset_mode8 {ok : Bool} (hr : Runs (hdReset fuel) h ok h') :
    h'.bus.mode8 = fun _ => false := by
  obtain ⟨_, h₁, hsrst, hrest⟩ := runs_bind.mp hr
  obtain ⟨_, h₂, hd₂, hrest⟩ := runs_bind.mp hrest
  obtain ⟨_, h₃, hclear, hrest⟩ := runs_bind.mp hrest
  have hbus₁ : h₁.bus.mode8 = fun _ => false := by
    obtain rfl := runs_modify.mp hsrst
    rfl
  have hbus₂ : h₂.bus.mode8 = h₁.bus.mode8 :=
    keeps_shortDelay framed_sameMode.toWatched 40 hd₂
  have hbus₃ : h₃.bus.mode8 = h₂.bus.mode8 := by
    obtain rfl := runs_modify.mp hclear
    rfl
  have htail : Keeps (OnBus SameMode) (do
      shortDelay 40
      selectDrive false
      if ← hdWaitNotBusy RESET_TICKS fuel then pure true
      else do
        selectDrive true
        hdWaitNotBusy RESET_TICKS fuel : IdeM Cable Bool) :=
    (keeps_shortDelay framed_sameMode.toWatched _).bind fun _ =>
      (keeps_selectDrive framed_sameMode _).bind fun _ =>
        (keeps_hdWaitNotBusy framed_sameMode.toWatched _ _).bind fun _ => keeps_ite keeps_pure
          ((keeps_selectDrive framed_sameMode _).bind fun _ =>
            keeps_hdWaitNotBusy framed_sameMode.toWatched _ _)
  have hend : h'.bus.mode8 = h₃.bus.mode8 := htail hrest
  rw [hend, hbus₃, hbus₂, hbus₁]

end Cables

/-! ### The registered drives -/

/-- Some drive code is answered by unit `u`. -/
def DiskArea.Registered (a : DiskArea) (u : Bool) : Prop :=
  ∃ dl dt bx, getDiskTable a dl = some (dt, bx) ∧ (unitBit dt).getLsbD 4 = u

/-- Every registered drive is in 8-bit mode. -/
def AllEight (a : DiskArea) (h : Host Cable) : Prop :=
  ∀ u, a.Registered u → h.bus.mode8 u = true

theorem mem_of_getDiskTable {a : DiskArea} {dl : Byte} {q : DiskTab × Nat}
    (h : getDiskTable a dl = some q) :
    (dl &&& 0x7F) < a.hdNumber ∧ q.1 = a.table (dtabVectors.getD (dl &&& 0x7F).toNat 0) := by
  simp only [getDiskTable] at h
  split_ifs at h with h1 h2 h3 h4
  cases h
  exact ⟨h1, rfl⟩

/-- The vectors point at the tables. -/
theorem publish_table_mem (table : Byte → DiskTab) (tabs : Tabs HD_MAX_DRIVES) {i : Nat}
    (hi : i < tabs.val.length) : (publish table tabs).table (dtabVectors.getD i 0) ∈ tabs.val := by
  rcases tabs with ⟨_ | ⟨t₀, _ | ⟨t₁, _ | ⟨t₂, ts⟩⟩⟩, hlen⟩
  · cases hi
  · obtain rfl : i = 0 := Nat.lt_one_iff.mp hi
    exact List.mem_cons_self
  · rcases Nat.lt_or_ge i 1 with h0 | h1
    · obtain rfl : i = 0 := Nat.lt_one_iff.mp h0
      exact List.mem_cons_self
    · obtain rfl : i = 1 := Nat.le_antisymm (Nat.le_of_lt_succ hi) h1
      exact List.mem_cons_of_mem _ List.mem_cons_self
  · simp [HD_MAX_DRIVES] at hlen

/-- A drive the enumeration registers has one of its tables. -/
theorem registered_publish {table : Byte → DiskTab} {tabs : Tabs HD_MAX_DRIVES} {u : Bool}
    (h : (publish table tabs).Registered u) : ∃ t ∈ tabs.val, (unitBit t).getLsbD 4 = u := by
  obtain ⟨dl, dt, bx, hdt, hu⟩ := h
  obtain ⟨hlt, htab⟩ := mem_of_getDiskTable hdt
  have hnum : (dl &&& 0x7F).toNat < tabs.val.length :=
    Nat.lt_of_lt_of_le (BitVec.lt_def.mp hlt) (Nat.mod_le _ _)
  have hmem := publish_table_mem table tabs hnum
  rw [← htab] at hmem
  exact ⟨dt, hmem, hu⟩

/-! ### The enumeration -/

section Boot

variable {fuel : Nat} {geo : Bool → Byte × Byte} {h h' : Host Cable}

/-- The drives of the tables are in 8-bit mode. -/
def Fit (tabs : List DiskTab) (c : Cable) : Prop :=
  ∀ t ∈ tabs, c.mode8 ((unitBit t).getLsbD 4) = true

theorem unitBit_identifyTab (g : Byte × Byte) (mem : Mem) (u : Bool) :
    (unitBit (identifyTab g mem u)).getLsbD 4 = u := by
  have hunit : (identifyTab g mem u).unitNumber = if u then 1 else 0 := rfl
  rw [unitBit, hunit]
  cases u <;> decide

theorem hdIdentify_tab {u : Bool} {t : DiskTab} (hr : Runs (hdIdentify fuel geo u) h (some t) h') :
    (unitBit t).getLsbD 4 = u := by
  obtain ⟨ax, h₁, -, hrest⟩ := runs_bind.mp hr
  rcases runs_ite.mp hrest with ⟨-, hnone⟩ | ⟨-, hget⟩
  · cases (runs_pure.mp hnone).1
  · obtain ⟨m, h₂, -, hpure⟩ := runs_bind.mp hget
    cases (runs_pure.mp hpure).1
    exact unitBit_identifyTab _ _ u

/-- What a unit adds is in 8-bit mode, and what was in it stays there. -/
theorem hdAdd_fit {n : Nat} {u : Bool} {kind : HdKind} {tabs tabs' : Tabs n}
    (hr : Runs (hdAdd fuel geo n u kind tabs) h tabs' h') (hfit : Fit tabs.val h.bus) :
    Fit tabs'.val h'.bus := by
  unfold hdAdd at hr
  split at hr
  swap
  · obtain ⟨rfl, rfl⟩ := runs_pure.mp hr
    exact hfit
  rcases runs_ite.mp hr with ⟨-, hr⟩ | ⟨-, hr⟩
  swap
  · obtain ⟨rfl, rfl⟩ := runs_pure.mp hr
    exact hfit
  obtain ⟨ok, h₁, hset, hrest⟩ := runs_bind.mp hr
  obtain ⟨hmode, hok⟩ := hdSet8bit_spec hset
  have hfit₁ : Fit tabs.val h₁.bus := fun t ht => (hmode _).mpr (Or.inl (hfit t ht))
  rcases runs_ite.mp hrest with ⟨hyes, hr⟩ | ⟨-, hr⟩
  swap
  · obtain ⟨rfl, rfl⟩ := runs_pure.mp hr
    exact hfit₁
  obtain ⟨q, h₂, hid, hrest⟩ := runs_bind.mp hr
  have hsame : h₂.bus.mode8 = h₁.bus.mode8 := keeps_hdIdentify framed_sameMode _ _ _ hid
  have hfit₂ : Fit tabs.val h₂.bus := fun t ht => by rw [hsame]; exact hfit₁ t ht
  cases q with
  | none =>
      obtain ⟨rfl, rfl⟩ := runs_pure.mp hrest
      exact hfit₂
  | some t =>
      obtain ⟨rfl, rfl⟩ := runs_pure.mp hrest
      intro t' ht'
      rcases List.mem_append.mp ht' with hin | hnew
      · exact hfit₂ t' hin
      · rw [List.mem_singleton.mp hnew, hdIdentify_tab hid, hsame, hmode]
        exact Or.inr ⟨rfl, hok hyes⟩

/-- **After the enumeration every registered drive is in 8-bit mode.** -/
theorem hdEnumerate_allEight {table : Byte → DiskTab} {a : DiskArea}
    (hr : Runs (hdEnumerate fuel geo table) h a h') : AllEight a h' := by
  obtain ⟨tabs, hinit, rfl⟩ := runs_map.mp hr
  have hfit : Fit tabs.val h'.bus := by
    obtain ⟨ok, h₁, hreset, hrest⟩ := runs_bind.mp hinit
    rcases runs_ite.mp hrest with ⟨-, hgo⟩ | ⟨-, hstop⟩
    · obtain ⟨k₀, h₂, -, hgo⟩ := runs_bind.mp hgo
      obtain ⟨k₁, h₃, -, hgo⟩ := runs_bind.mp hgo
      obtain ⟨k₀', h₄, -, hgo⟩ := runs_bind.mp hgo
      obtain ⟨k₁', h₅, -, hgo⟩ := runs_bind.mp hgo
      obtain ⟨tabs₀, h₆, hadd₀, hadd₁⟩ := runs_bind.mp hgo
      refine hdAdd_fit hadd₁ (hdAdd_fit hadd₀ ?_)
      intro t ht
      cases ht
    · obtain ⟨rfl, rfl⟩ := runs_pure.mp hstop
      intro t ht
      cases ht
  intro u hu
  obtain ⟨t, ht, rfl⟩ := registered_publish hu
  exact hfit t ht

end Boot

/-! ### Function 00h -/

section Reset

variable {fuel : Nat} {a : DiskArea} {h h' : Host Cable}

/-- The reset function asks every registered drive for 8-bit mode, and each carries it out. -/
def ResetKeeps (fuel : Nat) (a : DiskArea) (h : Host Cable) : Prop :=
  ∀ h₁, Runs (hdReset fuel) h true h₁ →
    (a.Registered false → Willing fuel h₁ false) ∧
    (a.Registered true → 1 < a.hdNumber ∧
      ∀ ok h₂, Runs (hdSet8bit fuel false) h₁ ok h₂ → Willing fuel h₂ true)

/-- The three ways out of function 00h. -/
theorem fn00_cases {r r' : Regs} (hr : Runs (fn00ResetDisk fuel a r) h r' h') :
    (r'.ah = INVALID_COMMAND ∧ r'.cf = true ∧ h'.bus = h.bus) ∨
    (r'.ah = RESET_FAILED ∧ r'.cf = true) ∨
    (r'.cf = false ∧ (AllEight a h' ↔ ResetKeeps fuel a h)) := by
  unfold fn00ResetDisk at hr
  split at hr
  · obtain ⟨rfl, rfl⟩ := (runs_errorReturn r INVALID_COMMAND h).det hr
    exact Or.inl ⟨rfl, rfl, rfl⟩
  obtain ⟨ok, h₁, hreset, hrest⟩ := runs_bind.mp hr
  rcases runs_ite.mp hrest with ⟨rfl, hgo⟩ | ⟨-, hstop⟩
  swap
  · obtain ⟨rfl, rfl⟩ := (runs_errorReturn r RESET_FAILED h₁).det hstop
    exact Or.inr (Or.inl ⟨rfl, rfl⟩)
  refine Or.inr (Or.inr ?_)
  obtain ⟨ok₀, h₂, hset₀, hrest⟩ := runs_bind.mp hgo
  have hwide : h₁.bus.mode8 = fun _ => false := hdReset_mode8 hreset
  have hmode₀ := (hdSet8bit_spec hset₀).1
  rw [hwide] at hmode₀
  simp only [Bool.false_eq_true, false_or] at hmode₀
  -- both runs the condition speaks of are the ones of this call
  have hcond : ResetKeeps fuel a h ↔ (a.Registered false → Willing fuel h₁ false) ∧
      (a.Registered true → 1 < a.hdNumber ∧ Willing fuel h₂ true) := by
    constructor
    · intro hk
      refine ⟨(hk h₁ hreset).1, fun hreg => ?_⟩
      exact ⟨((hk h₁ hreset).2 hreg).1, ((hk h₁ hreset).2 hreg).2 ok₀ h₂ hset₀⟩
    · rintro ⟨hm, hs⟩ h₁' hreset'
      obtain ⟨-, rfl⟩ := hreset.det hreset'
      refine ⟨hm, fun hreg => ⟨(hs hreg).1, fun ok h₂' hset' => ?_⟩⟩
      obtain ⟨-, rfl⟩ := hset₀.det hset'
      exact (hs hreg).2
  rw [hcond]
  rcases runs_ite.mp hrest with ⟨hone, hback⟩ | ⟨hmore, hgo⟩
  · obtain ⟨rfl, rfl⟩ := (runs_goodReturn r h₂).det hback
    refine ⟨rfl, ?_⟩
    have hmaster : ∀ v, h₂.bus.mode8 v = true ↔ v = false ∧ Willing fuel h₁ false := hmode₀
    constructor
    · intro hall
      refine ⟨fun hreg => ((hmaster false).mp (hall false hreg)).2, fun hreg => ?_⟩
      exact absurd ((hmaster true).mp (hall true hreg)).1 (by decide)
    · rintro ⟨hm, hs⟩ u hreg
      cases u with
      | false => exact (hmaster false).mpr ⟨rfl, hm hreg⟩
      | true => exact absurd hone (BitVec.not_le.mpr (hs hreg).1)
  · obtain ⟨ok₁, h₃, hset₁, hback⟩ := runs_bind.mp hgo
    obtain ⟨rfl, rfl⟩ := (runs_goodReturn r h₃).det hback
    have hmode₁ := (hdSet8bit_spec hset₁).1
    refine ⟨rfl, ?_⟩
    have hend : ∀ v, h₃.bus.mode8 v = true ↔
        (v = false ∧ Willing fuel h₁ false) ∨ (v = true ∧ Willing fuel h₂ true) :=
      fun v => (hmode₁ v).trans (by rw [hmode₀ v])
    constructor
    · intro hall
      refine ⟨fun hreg => ?_, fun hreg => ⟨BitVec.not_le.mp hmore, ?_⟩⟩
      · rcases (hend false).mp (hall false hreg) with hm | hs
        · exact hm.2
        · cases hs.1
      · rcases (hend true).mp (hall true hreg) with hm | hs
        · cases hm.1
        · exact hs.2
    · rintro ⟨hm, hs⟩ u hreg
      cases u with
      | false => exact (hend false).mpr (Or.inl ⟨rfl, hm hreg⟩)
      | true => exact (hend true).mpr (Or.inr ⟨rfl, (hs hreg).2⟩)

end Reset

/-! ### A session -/

section Session

variable {fuel : Nat} {geo : Bool → Byte × Byte} {table : Byte → DiskTab} {a : DiskArea}

/-- Whether the last reset of the cable, if there was one, reported success. A call of
function 00h for a drive code that is not registered is no reset. -/
def stillSound (sound : Bool) (c c' : Call) : Bool :=
  if c.regs.ah ≠ 0 then sound
  else if c'.regs.cf = false then true
  else if c'.regs.ah = RESET_FAILED then false
  else sound

/-- A fixed-disk call of INT 13h, with that record kept beside it. -/
def SessionStep (fuel : Nat) (a : DiskArea) (s : Bool × Host Cable) (c : Call)
    (s' : Bool × Host Cable) : Prop :=
  ∃ c', Runs (int13h fuel a c) s.2 c' s'.2 ∧ s'.1 = stillSound s.1 c c'

/-- One whose reset, if it is one, asks every registered drive and is obeyed. -/
def KeptStep (fuel : Nat) (a : DiskArea) (s : Bool × Host Cable) (c : Call)
    (s' : Bool × Host Cable) : Prop :=
  SessionStep fuel a s c s' ∧ (c.regs.ah = 0 → ResetKeeps fuel a s.2)

/-- The reset function as `int_13h` calls it. -/
theorem int13h_reset {c c' : Call} {h h' : Host Cable} (hah : c.regs.ah = 0)
    (hr : Runs (int13h fuel a c) h c' h') :
    ∃ r', Runs (fn00ResetDisk fuel a c.regs) h r' h' ∧ c' = { c with regs := r' } := by
  unfold int13h at hr
  simp only [hah] at hr
  obtain ⟨r', h₁, hrun, hpure⟩ := runs_bind.mp hr
  obtain ⟨rfl, rfl⟩ := runs_pure.mp hpure
  exact ⟨r', hrun, rfl⟩

/-- One call. -/
theorem keptStep_allEight {s s' : Bool × Host Cable} {c : Call}
    (hs : s.1 = true → AllEight a s.2) (hstep : KeptStep fuel a s c s') :
    s'.1 = true → AllEight a s'.2 := by
  obtain ⟨⟨c', hrun, hsound⟩, hkeeps⟩ := hstep
  intro hgood
  rw [hsound, stillSound] at hgood
  by_cases hah : c.regs.ah = 0
  · rw [if_neg (not_not.mpr hah)] at hgood
    obtain ⟨r', hreset, rfl⟩ := int13h_reset hah hrun
    rcases fn00_cases hreset with ⟨hcode, hcf, hbus⟩ | ⟨hcode, hcf⟩ | ⟨hcf, hiff⟩
    · have hne : ¬ r'.ah = RESET_FAILED := by
        rw [hcode]
        decide
      simp only [hcf, Bool.true_eq_false, if_false, hne] at hgood
      intro u hu
      rw [hbus]
      exact hs hgood u hu
    · simp only [hcf, hcode, Bool.true_eq_false, if_false, if_true] at hgood
      cases hgood
    · exact hiff.mpr (hkeeps hah)
  · rw [if_pos hah] at hgood
    have hsame : s'.2.bus.mode8 = s.2.bus.mode8 := int13h_keeps framed_sameMode fuel a c hah hrun
    intro u hu
    rw [hsame]
    exact hs hgood u hu

/-- **From the enumeration on, as long as the last reset reported success every registered
drive is in 8-bit mode**, over any calls whose resets are `ResetKeeps`. -/
theorem eightBit_survives {h₀ h₁ : Host Cable} {calls : List Call} {s : Bool × Host Cable}
    (hboot : Runs (hdEnumerate fuel geo table) h₀ a h₁)
    (hrun : Trace (KeptStep fuel a) (true, h₁) calls s) : s.1 = true → AllEight a s.2 :=
  hrun.inv (fun _ => hdEnumerate_allEight hboot) keptStep_allEight

end Session

/-! ### On the bench -/

/-- Function 00h for the first drive. -/
def resetCall : Call := ⟨⟨0, 0, 0, 0, 0, 0, 0x80, 0, false⟩, ⟨0, 0, 0, 0, 0, 0⟩,
  ⟨0, 0, 0, 0, 0, 0, 0, 0, 0⟩⟩

/-- The enumeration and that call. -/
def bootAndReset : IdeM Cable (DiskArea × Call) := do
  let a ← hdEnumerate 2 (fun _ => (0, 0)) fun _ => ⟨0, 0, 0, 0, 0, 0⟩
  let c ← int13h 2 a resetCall
  return (a, c)

theorem bootAndReset_runs {α : Type} (present : Bool → Bool)
    {f : (DiskArea × Call) × Host Cable → α} {v : α}
    (h : (bootAndReset.run (Host.cabled (.bench present))).map f = .ok v) :
    ∃ a h₁ c' h', Runs (hdEnumerate 2 (fun _ => (0, 0)) fun _ => ⟨0, 0, 0, 0, 0, 0⟩)
        (Host.cabled (.bench present)) a h₁ ∧
      Runs (int13h 2 a resetCall) h₁ c' h' ∧ f ((a, c'), h') = v := by
  obtain ⟨q, h', hrun, hf⟩ := runs_of_eval h
  obtain ⟨a, h₁, hboot, hrest⟩ := runs_bind.mp hrun
  obtain ⟨c', h₂, hcall, hpure⟩ := runs_bind.mp hrest
  obtain ⟨rfl, rfl⟩ := runs_pure.mp hpure
  exact ⟨a, h₁, c', h', hboot, hcall, hf⟩

/-- Two drives: the reset asks both. -/
theorem eightBit_survives_bench :
    ∃ a h₁ s, Runs (hdEnumerate 2 (fun _ => (0, 0)) fun _ => ⟨0, 0, 0, 0, 0, 0⟩)
        (Host.cabled (.bench fun _ => true)) a h₁ ∧
      Trace (KeptStep 2 a) (true, h₁) [resetCall] s ∧ (s.1 = true → AllEight a s.2) := by
  obtain ⟨a, h₁, c', h', hboot, hcall, hv⟩ := bootAndReset_runs (fun _ => true)
    (f := fun q => (q.1.2.regs.cf, q.2.bus.mode8 false, q.2.bus.mode8 true))
    (v := (false, true, true)) (by decide +kernel)
  simp only [Prod.mk.injEq] at hv
  obtain ⟨hcf, h0, h1⟩ := hv
  have hall : AllEight a h' := by
    intro u _
    cases u
    · exact h0
    · exact h1
  have hkeeps : ResetKeeps 2 a h₁ := by
    obtain ⟨r', hreset, rfl⟩ := int13h_reset rfl hcall
    rcases fn00_cases hreset with ⟨-, hset, -⟩ | ⟨-, hset⟩ | ⟨-, hiff⟩
    · rw [hset] at hcf
      cases hcf
    · rw [hset] at hcf
      cases hcf
    · exact hiff.mp hall
  have hrun : Trace (KeptStep 2 a) (true, h₁) [resetCall] (stillSound true resetCall c', h') :=
    Trace.cons ⟨⟨c', hcall, rfl⟩, fun _ => hkeeps⟩ Trace.refl
  exact ⟨a, h₁, _, hboot, hrun, eightBit_survives hboot hrun⟩

/-- A slave alone: the reset asks a master that is not there, and reports success. -/
theorem eightBit_lost :
    ∃ a h₁ s, Runs (hdEnumerate 2 (fun _ => (0, 0)) fun _ => ⟨0, 0, 0, 0, 0, 0⟩)
        (Host.cabled (.bench fun u => u)) a h₁ ∧
      Trace (SessionStep 2 a) (true, h₁) [resetCall] s ∧ s.1 = true ∧ ¬ AllEight a s.2 := by
  obtain ⟨a, h₁, c', h', hboot, hcall, hv⟩ := bootAndReset_runs (fun u => u)
    (f := fun q => (q.1.2.regs.cf, q.2.bus.mode8 true,
      (getDiskTable q.1.1 0x80).map fun p => (unitBit p.1).getLsbD 4))
    (v := (false, false, some true)) (by decide +kernel)
  simp only [Prod.mk.injEq] at hv
  obtain ⟨hcf, hwide, hreg⟩ := hv
  refine ⟨a, h₁, (stillSound true resetCall c', h'), hboot,
    Trace.cons ⟨c', hcall, rfl⟩ Trace.refl, ?_, fun hall => ?_⟩
  · simp only [stillSound, hcf]
    rfl
  · obtain ⟨⟨dt, bx⟩, hdt, hu⟩ := Option.map_eq_some_iff.mp hreg
    have height := hall true ⟨0x80, dt, bx, hdt, hu⟩
    rw [hwide] at height
    cases height

end Sbc386Ex.Int13

import Mathlib.Tactic.SplitIfs
import Sbc386Ex.Fdc.Card

/-!
# Sbc386Ex.Fdc.Heads

What the driver may rely on about a head it cannot see, and what keeps it true: the facts
that survive everything a card does by itself (`Drift`), and what an interrupt that was
collected says about the head.
-/

namespace Sbc386Ex.Fdc

open Prog

namespace Spindle

/-- The head stands on `c` and is not about to leave. -/
def Still (c : Byte) (d : Spindle) : Prop :=
  d.head = c ∧ ∀ t, d.moving = some t → t = c ∧ d.pcn = c

/-- If the head is under way, it is to `c`. -/
def Toward (c : Byte) (d : Spindle) : Prop := ∀ t, d.moving = some t → t = c

/-- An interrupt not collected names its drive, and a normal one means the count is right. -/
def Honest (u : Fin 4) (d : Spindle) : Prop :=
  ∀ st0, d.posted = some st0 →
    st0 ≠ 0x80 ∧ st0 &&& 0x03 = BitVec.ofFin (u.castLE unit_le) ∧
      (st0 &&& 0xC0 = 0 → d.pcn = d.head)

/-- What can happen to a drive that is sent no command to move. -/
inductive Drift (u : Fin 4) (d : Spindle) : Spindle → Prop
  | same : Drift u d d
  | progress (m : Motion) : Drift u d (d.progress u m)
  | collected : Drift u d { d with posted := none }
  | stopped : Drift u d d.stopped
  | ready : Drift u d { d with posted := some (readyChanged u) }

/-! ### ST0 of the three interrupts -/

theorem seekEnd_honest (u : Fin 4) :
    seekEnd u ≠ 0x80 ∧ seekEnd u &&& 0x03 = BitVec.ofFin (u.castLE unit_le) := by
  revert u
  decide

theorem readyChanged_honest (u : Fin 4) :
    readyChanged u ≠ 0x80 ∧ readyChanged u &&& 0x03 = BitVec.ofFin (u.castLE unit_le) ∧
      readyChanged u &&& 0xC0 ≠ 0 := by
  revert u
  decide

theorem abnormal_honest (u : Fin 4) (st0 : Byte) :
    abnormal u st0 ≠ 0x80 ∧ abnormal u st0 &&& 0x03 = BitVec.ofFin (u.castLE unit_le) ∧
      abnormal u st0 &&& 0xC0 ≠ 0 := by
  revert st0 u
  decide +kernel

/-! ### One moment of one drive -/

variable {u : Fin 4} {d d' : Spindle} {c : Byte}

/-- The cases of a moment: nothing, a step, an arrival, a failure. -/
theorem progress_cases (u : Fin 4) (d : Spindle) (m : Motion) :
    d.progress u m = d ∨ ∃ target, d.moving = some target ∧
      (d.progress u m = arrived u target ∨
        ¬ (d.head = target ∧ d.pcn = target) ∧
          ((∃ head pcn, d.progress u m =
              { d with head := head, pcn := if d.pcn = d.head then head else pcn }) ∨
            ∃ head pcn st0, d.progress u m =
              { head := head, pcn := pcn, moving := none, posted := some (abnormal u st0) })) := by
  unfold progress
  cases hm : d.moving with
  | none => exact .inl rfl
  | some target =>
      by_cases hat : d.head = target ∧ d.pcn = target
      · simp only [if_pos hat]
        cases m with
        | rest => exact .inl rfl
        | step | arrive | fail => exact .inr ⟨target, rfl, .inl rfl⟩
      · simp only [if_neg hat]
        cases m with
        | rest => exact .inl rfl
        | step head pcn => exact .inr ⟨target, rfl, .inr ⟨hat, .inl ⟨head, pcn, rfl⟩⟩⟩
        | arrive => exact .inr ⟨target, rfl, .inl rfl⟩
        | fail head pcn st0 =>
            exact .inr ⟨target, rfl, .inr ⟨hat, .inr ⟨head, pcn, st0, rfl⟩⟩⟩

theorem Still.drift (h : d.Still c) (hd : Drift u d d') : d'.Still c := by
  cases hd with
  | same => exact h
  | collected | ready => exact h
  | stopped => exact ⟨h.1, fun t ht => by cases ht⟩
  | progress m =>
      rcases progress_cases u d m with heq | ⟨target, hm, heq | ⟨hat, -⟩⟩
      · rw [heq]; exact h
      · obtain ⟨rfl, -⟩ := h.2 target hm
        rw [heq]
        exact ⟨rfl, fun t ht => by cases ht⟩
      · obtain ⟨rfl, hpcn⟩ := h.2 target hm
        exact absurd ⟨h.1, hpcn⟩ hat

theorem Toward.drift (h : d.Toward c) (hd : Drift u d d') : d'.Toward c := by
  cases hd with
  | same | collected | ready => exact h
  | stopped => intro t ht; cases ht
  | progress m =>
      rcases progress_cases u d m with heq | ⟨target, -, heq | ⟨-, ⟨_, _, heq⟩ | ⟨_, _, _, heq⟩⟩⟩
      · rw [heq]; exact h
      · rw [heq]; intro t ht; cases ht
      · rw [heq]; exact h
      · rw [heq]; intro t ht; cases ht

theorem Honest.drift (h : d.Honest u) (hd : Drift u d d') : d'.Honest u := by
  cases hd with
  | same => exact h
  | collected | stopped => intro st0 hst0; cases hst0
  | ready =>
      rintro st0 ⟨⟩
      obtain ⟨hne, hunit, hic⟩ := readyChanged_honest u
      exact ⟨hne, hunit, fun h0 => absurd h0 hic⟩
  | progress m =>
      rcases progress_cases u d m with heq | ⟨target, -, heq | ⟨-, ⟨_, _, heq⟩ | ⟨_, _, _, heq⟩⟩⟩
      · rw [heq]; exact h
      · rw [heq]
        rintro st0 ⟨⟩
        exact ⟨(seekEnd_honest u).1, (seekEnd_honest u).2, fun _ => rfl⟩
      · rw [heq]
        intro st0 hst0
        obtain ⟨hne, hunit, hright⟩ := h st0 hst0
        exact ⟨hne, hunit, fun h0 => if_pos (hright h0)⟩
      · rw [heq]
        rintro st0 ⟨⟩
        obtain ⟨hne, hunit, hic⟩ := abnormal_honest u ‹_›
        exact ⟨hne, hunit, fun h0 => absurd h0 hic⟩

/-- A drive sent to where a normal interrupt says it is stands there. -/
theorem Toward.still (h : d.Toward c) (hhead : d.head = c) (hpcn : d.pcn = c) : d.Still c :=
  ⟨hhead, fun t ht => ⟨h t ht, hpcn⟩⟩

theorem Honest.sent {t : Byte} (h : d.Honest u) : Honest u { d with moving := some t } := h

end Spindle

open Spindle

/-! ### Facts about the drives that last -/

/-- A fact about the drives that nothing the card does by itself can break. -/
def Lasting (Y : (Fin 4 → Spindle) → Prop) : Prop :=
  ∀ ⦃drive drive' : Fin 4 → Spindle⦄, (∀ u, Drift u (drive u) (drive' u)) → Y drive → Y drive'

/-- Every interrupt is honest. -/
def Faithful (drive : Fin 4 → Spindle) : Prop := ∀ u, (drive u).Honest u

theorem lasting_faithful : Lasting Faithful :=
  fun _ _ hd h u => (h u).drift (hd u)

theorem lasting_still (u : Fin 4) (c : Byte) : Lasting fun drive => (drive u).Still c :=
  fun _ _ hd h => h.drift (hd u)

theorem lasting_toward (u : Fin 4) (c : Byte) : Lasting fun drive => (drive u).Toward c :=
  fun _ _ hd h => h.drift (hd u)

/-- What an answer of SENSE tells about drive `d`, sent to `k`. -/
def Tells (d : Fin 4) (k st0 pcn : Byte) (drive : Fin 4 → Spindle) : Prop :=
  st0 ≠ 0x80 ∧ st0 &&& 0x03 = BitVec.ofFin (d.castLE unit_le) ∧ st0 &&& 0xC0 = 0 ∧ pcn = k →
    (drive d).Still k

variable {Y Z : (Fin 4 → Spindle) → Prop}

theorem Lasting.and (hY : Lasting Y) (hZ : Lasting Z) : Lasting fun drive => Y drive ∧ Z drive :=
  fun _ _ hd h => ⟨hY hd h.1, hZ hd h.2⟩

theorem Lasting.imp {p : Prop} (hY : Lasting Y) : Lasting fun drive => p → Y drive :=
  fun _ _ hd h hp => hY hd (h hp)

theorem lasting_tells (d : Fin 4) (k st0 pcn : Byte) : Lasting (Tells d k st0 pcn) :=
  (lasting_still d k).imp

theorem ofUnit_inj {u d : Fin 4}
    (h : (BitVec.ofFin (u.castLE unit_le) : Byte) = BitVec.ofFin (d.castLE unit_le)) :
    u = d := by
  revert u d
  decide

/-! ### The card by itself -/

namespace Card

variable {c : Card} {m : Moment} {first : Fin 4} {v : Byte}

theorem pass_drift (u : Fin 4) : Drift u (c.drive u) ((c.pass m).drive u) := .progress _

theorem latched_drift (status : Fin 7 → Byte) (u : Fin 4) :
    Drift u (c.drive u) ((c.latched status v).drive u) := by
  unfold latched
  split
  · exact .stopped
  · split
    · exact .ready
    · split <;> exact .same

theorem latched_taken (status : Fin 7 → Byte) (v : Byte) : (c.latched status v).taken = c.taken := by
  unfold latched
  split_ifs <;> rfl

theorem latched_command (status : Fin 7 → Byte) (v : Byte) (h : c.command = []) :
    (c.latched status v).command = [] := by
  unfold latched
  split_ifs <;> first | rfl | exact h

/-- No write of the latch starts a data phase, and TC leaves none. -/
theorem latched_busy (status : Fin 7 → Byte) (v : Byte) (h : c.busy = false ∨ v &&& 0x01 ≠ 0) :
    (c.latched status v).busy = false := by
  unfold latched
  split_ifs with h₁ h₂ h₃
  · rfl
  · rfl
  · rfl
  · show c.busy = false
    rcases h with h | h
    · exact h
    · exact Bool.eq_false_iff.mpr fun hb => h₃ ⟨h, hb⟩

/-- An answer is seven bytes at most, and between data phases none appears. -/
theorem latched_result (status : Fin 7 → Byte) (v : Byte) :
    (c.latched status v).result.length ≤ 7 ∨ (c.latched status v).result = c.result := by
  unfold latched
  split_ifs <;> simp

theorem latched_result_idle (status : Fin 7 → Byte) (v : Byte) (h : c.busy = false) :
    (c.latched status v).result = [] ∨ (c.latched status v).result = c.result := by
  unfold latched
  split_ifs with h₁ h₂ h₃
  · exact .inl rfl
  · exact .inl rfl
  · rw [h] at h₃; cases h₃.2
  · exact .inr rfl

theorem collect_drift (u : Fin 4) : Drift u (c.drive u) ((c.collect first).drive u) := by
  unfold collect
  split
  · exact .same
  · rename_i w st0 hp
    by_cases huw : u = w
    · subst huw
      have hnone : ({ c.setDrive u { c.drive u with posted := none } with
          result := [st0, (c.drive u).pcn] } : Card).drive u = { c.drive u with posted := none } :=
        Function.update_self ..
      rw [hnone]
      exact .collected
    · have hsame : ({ c.setDrive w { c.drive w with posted := none } with
          result := [st0, (c.drive w).pcn] } : Card).drive u = c.drive u :=
        Function.update_of_ne huw ..
      rw [hsame]
      exact .same

/-- SENSE answers with an interrupt that some drive posted. -/
theorem pending_posted {u : Fin 4} {st0 : Byte} (h : c.pending first = some (u, st0)) :
    (c.drive u).posted = some st0 := by
  obtain ⟨w, -, hw⟩ := List.exists_of_findSome?_eq_some h
  cases hp : (c.drive w).posted with
  | none => rw [hp] at hw; cases hw
  | some b =>
      rw [hp] at hw
      obtain ⟨rfl, rfl⟩ : w = u ∧ b = st0 := by simpa using hw
      exact hp

/-- **What SENSE says.** Either 80h alone, or ST0 and the count of the drive ST0 names; for
a drive that was sent to `k`, a normal end at `k` means its head stands there. -/
theorem collect_answer (c : Card) (first : Fin 4) (hf : Faithful c.drive) :
    (c.collect first).result = [0x80] ∨
      ∃ st0 pcn, (c.collect first).result = [st0, pcn] ∧ st0 ≠ 0x80 ∧
        ∀ d k, (c.drive d).Toward k → Tells d k st0 pcn (c.collect first).drive := by
  cases hp : c.pending first with
  | none => left; simp only [collect, hp]
  | some a =>
      obtain ⟨u, st0⟩ := a
      right
      obtain ⟨hne, hunit, hright⟩ := hf u st0 (pending_posted hp)
      refine ⟨st0, (c.drive u).pcn, by simp only [collect, hp], hne, ?_⟩
      rintro d k hto ⟨-, hd, hic, hk⟩
      obtain rfl : u = d := ofUnit_inj (hunit.symm.trans hd)
      have hstill : (c.drive u).Still k := hto.still ((hright hic).symm.trans hk) hk
      exact hstill.drift (collect_drift u)

theorem collect_taken (c : Card) (first : Fin 4) : (c.collect first).taken = c.taken := by
  unfold collect
  split <;> rfl

theorem collect_command (c : Card) (first : Fin 4) : (c.collect first).command = c.command := by
  unfold collect
  split <;> rfl

theorem collect_busy (c : Card) (first : Fin 4) : (c.collect first).busy = c.busy := by
  unfold collect
  split <;> rfl

/-- RECALIBRATE taken. -/
theorem obey_recalibrate (c : Card) (first : Fin 4) (b : Byte) :
    c.obey first [0x07, b] = c.send (unitOf b) 0 := by
  have hop : Op.decode (([0x07, b] : List Byte).getD 0 0) = .recalibrate := by
    show Op.decode 0x07 = .recalibrate
    decide
  simp only [obey, hop]
  rfl

/-- SEEK taken. -/
theorem obey_seek (c : Card) (first : Fin 4) (b ncn : Byte) :
    c.obey first [0x0F, b, ncn] = c.send (unitOf b) ncn := by
  have hop : Op.decode (([0x0F, b, ncn] : List Byte).getD 0 0) = .seek := by
    show Op.decode 0x0F = .seek
    decide
  simp only [obey, hop]
  rfl

theorem send_self (u : Fin 4) (t : Byte) :
    (c.send u t).drive u = { c.drive u with moving := some t } := Function.update_self ..

theorem send_faithful {u : Fin 4} {t : Byte} (h : Faithful c.drive) :
    Faithful (c.send u t).drive := by
  intro w
  by_cases hw : w = u
  · subst hw
    rw [send_self]
    exact (h w).sent
  · have hsame : (c.send u t).drive w = c.drive w := Function.update_of_ne hw ..
    rw [hsame]
    exact h w

theorem send_toward (u : Fin 4) (t : Byte) : ((c.send u t).drive u).Toward t := by
  rw [send_self]
  rintro t' ⟨⟩
  rfl

end Card

end Sbc386Ex.Fdc

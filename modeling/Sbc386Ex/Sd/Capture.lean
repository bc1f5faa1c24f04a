import Sbc386Ex.Sd.Ssio

/-!
# Sbc386Ex.Sd.Capture

What a burst leaves in its driver's buffers: the words of the unit in order, whatever the
buffers held before and wherever the ring begins.
-/

namespace Sbc386Ex.Sd.Ssio

open BitBuffer

section Loops

variable {u : Burst} {base k n : Nat} {err : Byte} {buf buf' : Buffer} {c c' : Capture}

theorem Burst.words_of_some {w : Word} (h : u.word k = some w) : u.words k = w := by
  rw [words, h]
  rfl

/-! ### Windows and commands -/

theorem windowLoop_filled (h : windowLoop u n k buf = some buf') (hf : Filled 0 u.words k buf) :
    Filled 0 u.words (k + n) buf' := by
  induction n generalizing k buf with
  | zero =>
      obtain rfl := Option.some.inj h
      exact hf
  | succ n ih =>
      rw [windowLoop] at h
      cases hw : u.word k with
      | none => rw [hw] at h; cases h
      | some w =>
          rw [hw] at h
          have hput := hf.put
          rw [Burst.words_of_some hw, Nat.zero_add] at hput
          rw [show k + (n + 1) = k + 1 + n by omega]
          exact ih h hput

/-- Whether the unit keeps going does not depend on the buffer. -/
theorem windowLoop_isSome : (windowLoop u n k buf).isSome = (windowLoop u n k buf').isSome := by
  induction n generalizing k buf buf' with
  | zero => rfl
  | succ n ih =>
      rw [windowLoop, windowLoop]
      cases u.word k with
      | none => rfl
      | some w => exact ih

theorem burstLoop_filled {cx : Nat} (h : (burstLoop u n cx k err buf).1 = some buf')
    (hf : Filled 0 u.words k buf) : Filled 0 u.words (k + n) buf' := by
  induction n generalizing k cx err buf with
  | zero =>
      obtain rfl := Option.some.inj h
      exact hf
  | succ n ih =>
      rw [burstLoop] at h
      cases hw : u.word k with
      | none => rw [hw] at h; cases h
      | some w =>
          rw [hw] at h
          have hput := hf.put
          rw [Burst.words_of_some hw, Nat.zero_add] at hput
          rw [show k + (n + 1) = k + 1 + n by omega]
          exact ih h hput

/-- Neither that nor the flags of a command burst do. -/
theorem burstLoop_congr {cx : Nat} :
    (burstLoop u n cx k err buf).1.isSome = (burstLoop u n cx k err buf').1.isSome ∧
      (burstLoop u n cx k err buf).2 = (burstLoop u n cx k err buf').2 := by
  induction n generalizing k cx err buf buf' with
  | zero => exact ⟨rfl, rfl⟩
  | succ n ih =>
      rw [burstLoop, burstLoop]
      cases u.word k with
      | none => exact ⟨rfl, rfl⟩
      | some w => exact ih

theorem filled_zero : Filled 0 u.words 0 buf where
  at_base := by
    intro j hj
    omega

/-! ### The ring -/

/-- The words after the window. -/
def Burst.rest (u : Burst) (k : Nat) : Word := u.words (WINLEN / 2 + k)

/-- The ring at `base` holds the last of the words after the window, and the memory before
it is as it was in `buf`. -/
structure Keeping (u : Burst) (base : Nat) (buf : Buffer) (c : Capture) : Prop where
  rwp : c.rwp = base + 2 * (c.rtot % RINGW)
  ring : Ring base RINGW u.rest c.rtot c.mem
  before : ∀ j < base, c.mem j = buf j

theorem Keeping.empty : Keeping u base buf (.empty base buf) where
  rwp := rfl
  ring := { last := by intro k hk; cases hk }
  before := fun _ _ => rfl

theorem Keeping.put (h : Keeping u base buf c) {w : Word} (hw : u.rest c.rtot = w) :
    Keeping u base buf (c.put base w) where
  rwp := by
    have hrwp := h.rwp
    rw [Capture.put_rwp, Capture.put_rtot]
    by_cases hroom : c.rwp + 2 < base + RINGW * 2
    · rw [if_pos hroom]
      simp only [RINGW] at hrwp hroom ⊢
      omega
    · rw [if_neg hroom]
      simp only [RINGW] at hrwp hroom ⊢
      omega
  ring := by
    have hput := h.ring.put
    rw [hw, ← h.rwp] at hput
    exact hput
  before := by
    intro j hj
    have hrwp := h.rwp
    rw [Capture.put_mem, putWord_of_ne (by omega) (by omega)]
    exact h.before j hj

theorem tailLoop_spec (h : tailLoop u base n c = .ok c') (hk : Keeping u base buf c) :
    Keeping u base buf c' ∧ c'.rtot = c.rtot + n := by
  induction n generalizing c with
  | zero =>
      obtain rfl := Except.ok.inj h
      exact ⟨hk, rfl⟩
  | succ n ih =>
      rw [tailLoop] at h
      cases hw : u.word (WINLEN / 2 + c.rtot) with
      | none => rw [hw] at h; cases h
      | some w =>
          rw [hw] at h
          obtain ⟨hkeep, hrtot⟩ := ih h (hk.put (Burst.words_of_some hw))
          refine ⟨hkeep, hrtot.trans ?_⟩
          rw [Capture.put_rtot]
          omega

/-- The first word after the window that is not FFFF is word `f`. -/
structure FirstAt (u : Burst) (f : Nat) : Prop where
  idle : ∀ k < f, u.rest k = 0xFFFF
  first : u.rest f ≠ 0xFFFF

/-- A data burst that comes to something: the ring is left `XDATA` words after the first
that is not FFFF. -/
theorem waitLoop_spec {cx : Nat} (h : waitLoop u base cx c = .ok c') (hk : Keeping u base buf c)
    (hidle : ∀ k < c.rtot, u.rest k = 0xFFFF) :
    Keeping u base buf c' ∧ ∃ f, FirstAt u f ∧ c'.rtot = f + 1 + XDATA := by
  induction cx generalizing c with
  | zero => cases h
  | succ cx ih =>
      rw [waitLoop] at h
      cases hw : u.word (WINLEN / 2 + c.rtot) with
      | none => rw [hw] at h; cases h
      | some w =>
          rw [hw] at h
          have hrest : u.rest c.rtot = w := Burst.words_of_some hw
          have hput := hk.put hrest
          dsimp only at h
          split at h
          · rename_i hones
            refine ih h hput fun k hlt => ?_
            rcases Nat.lt_or_eq_of_le (Nat.lt_succ_iff.mp hlt) with hlt' | rfl
            · exact hidle k hlt'
            · exact hrest.trans hones
          · rename_i hother
            obtain ⟨hkeep, hrtot⟩ := tailLoop_spec h hput
            exact ⟨hkeep, c.rtot, ⟨hidle, hrest ▸ hother⟩, hrtot⟩

theorem tailLoop_congr {base' : Nat} (hrtot : c.rtot = c'.rtot) :
    (tailLoop u base n c).map Capture.rtot = (tailLoop u base' n c').map Capture.rtot := by
  induction n generalizing c c' with
  | zero => exact congrArg Except.ok hrtot
  | succ n ih =>
      rw [tailLoop, tailLoop, ← hrtot]
      cases u.word (WINLEN / 2 + c.rtot) with
      | none => rfl
      | some w => exact ih (congrArg (· + 1) hrtot)

/-- How many words a data burst keeps does not depend on where it keeps them. -/
theorem waitLoop_congr {cx base' : Nat} (hrtot : c.rtot = c'.rtot) :
    (waitLoop u base cx c).map Capture.rtot = (waitLoop u base' cx c').map Capture.rtot := by
  induction cx generalizing c c' with
  | zero => rfl
  | succ cx ih =>
      rw [waitLoop, waitLoop, ← hrtot]
      cases u.word (WINLEN / 2 + c.rtot) with
      | none => rfl
      | some w =>
          have hput : (c.put base w).rtot = (c'.put base' w).rtot := congrArg (· + 1) hrtot
          by_cases hw : w = 0xFFFF
          · simp only [hw, if_true]
            exact ih (hw ▸ hput)
          · simp only [hw, if_false]
            exact tailLoop_congr hput

/-! ### The stream in order -/

/-- The stream a driver looks through: the window, and the words after it less the first
`d`. -/
def stream (u : Burst) (d : Nat) : Buffer := fun j =>
  if j < WINLEN then bytes u.words j else bytes u.words (j + 2 * d)

/-- The bytes of the stream when `rtot` words came after the window. -/
def streamLen (rtot : Nat) : Nat := WINLEN + 2 * min rtot RINGW

theorem bytes_rest (j : Nat) : bytes u.rest j = bytes u.words (WINLEN + j) := by
  have hhalf : (WINLEN + j) / 2 = WINLEN / 2 + j / 2 := by
    simp only [WINLEN, PRE]
    omega
  have hparity : (WINLEN + j) % 2 = j % 2 := by
    simp only [WINLEN, PRE]
    omega
  rw [bytes, bytes, hhalf, hparity]
  rfl

/-- Where a byte of the stream is in a ring: at `i`, if none of it has been written over; at
`i` after the next to be written over, round the end, if some has. -/
theorem Keeping.byte (h : Keeping u base buf c) {i : Nat} (hi : i < 2 * min c.rtot RINGW) :
    c.mem (base + ((if c.rtot ≤ RINGW then 0 else c.rwp - base) + i) % (2 * RINGW)) =
      stream u (c.rtot - RINGW) (WINLEN + i) := by
  have hlast := h.ring.last (i / 2 + (c.rtot - RINGW)) (by simp only [RINGW] at hi ⊢; omega)
    (by simp only [RINGW] at hi ⊢; omega) (i % 2) (by omega)
  have hplace : 2 * (i / 2 + (c.rtot - RINGW)) + i % 2 = i + 2 * (c.rtot - RINGW) := by omega
  rw [hplace, bytes_rest, ← Nat.add_assoc] at hlast
  have hafter : ¬ WINLEN + i < WINLEN := by omega
  rw [stream, if_neg hafter, ← hlast, h.rwp]
  refine congrArg c.mem ?_
  by_cases hlin : c.rtot ≤ RINGW
  · rw [if_pos hlin]
    simp only [RINGW] at hi hlin ⊢
    omega
  · rw [if_neg hlin]
    simp only [RINGW] at hi hlin ⊢
    omega

end Loops

end Sbc386Ex.Sd.Ssio

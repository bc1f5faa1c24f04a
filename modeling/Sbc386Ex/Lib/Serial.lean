import Mathlib.Data.BitVec

/-!
# Sbc386Ex.Lib.Serial

**A shift register** that takes a word least significant bit first: every bit goes in at the top
and moves the others down, and after as many bits as the register has it holds the word.
-/

namespace Serial

variable {w : Nat}

def shiftIn (v : BitVec (w + 1)) (b : Bool) : BitVec (w + 1) := BitVec.cons b (v.extractLsb' 1 w)

/-- The bits of a word, as they are sent. -/
def bits (v : BitVec w) : List Bool := (List.range w).map v.getLsbD

theorem getLsbD_shiftIn (v : BitVec (w + 1)) (b : Bool) (i : Nat) :
    (shiftIn v b).getLsbD i = if i = w then b else v.getLsbD (i + 1) := by
  rw [shiftIn, BitVec.getLsbD_cons]
  by_cases hi : i = w
  · rw [if_pos hi, if_pos hi]
  · rw [if_neg hi, if_neg hi, BitVec.getLsbD_extractLsb', Nat.add_comm 1 i]
    by_cases hlt : i < w
    · simp [hlt]
    · have hge : w + 1 ≤ i + 1 := by omega
      simp [hlt, BitVec.getLsbD_of_ge v (i + 1) hge]

/-- After some bits the register is what it was, moved down, with these above. -/
theorem getLsbD_foldl_shiftIn (l : List Bool) : ∀ (v : BitVec (w + 1)) {i : Nat}, i < w + 1 →
    l.length ≤ w + 1 → (l.foldl shiftIn v).getLsbD i =
      if i + l.length < w + 1 then v.getLsbD (i + l.length)
      else l.getD (i + l.length - (w + 1)) false := by
  induction l with
  | nil =>
      intro v i hi _
      exact (if_pos hi).symm
  | cons b l ih =>
      intro v i hi hlen
      rw [List.length_cons] at hlen ⊢
      rw [List.foldl_cons, ih (shiftIn v b) hi (by omega), getLsbD_shiftIn]
      by_cases hlt : i + (l.length + 1) < w + 1
      · rw [if_pos (by omega), if_neg (by omega), if_pos hlt, Nat.add_assoc]
      rw [if_neg hlt]
      by_cases heq : i + l.length = w
      · have hzero : i + (l.length + 1) - (w + 1) = 0 := by omega
        rw [if_pos (by omega), if_pos heq, hzero, List.getD_cons_zero]
      · have hsucc : i + (l.length + 1) - (w + 1) = i + l.length - (w + 1) + 1 := by omega
        rw [if_neg (by omega), hsucc, List.getD_cons_succ]

theorem length_bits (b : BitVec w) : (bits b).length = w := by
  rw [bits, List.length_map, List.length_range]

/-- **A word sent is the word received.** -/
theorem foldl_bits (b v : BitVec (w + 1)) : (bits b).foldl shiftIn v = b := by
  refine BitVec.eq_of_getLsbD_eq fun i hi => ?_
  rw [getLsbD_foldl_shiftIn _ v hi (length_bits b).le, length_bits, if_neg (by omega),
    Nat.add_sub_cancel, bits, List.getD_eq_getElem?_getD, List.getElem?_map, List.getElem?_range hi]
  rfl

end Serial

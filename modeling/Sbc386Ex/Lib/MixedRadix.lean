import Mathlib.Data.Prod.Lex
import Mathlib.Tactic.Common

/-!
# Sbc386Ex.Lib.MixedRadix

**Two digits** `x` and `y`, the second one below `n`, as the number `x * n + y`. Of three digits
the first two are one number.
-/

namespace MixedRadix

def pack (n x y : Nat) : Nat := x * n + y

variable {m n x y x' y' : Nat}

theorem pack_lt (hx : x < m) (hy : y < n) : pack n x y < m * n :=
  calc pack n x y < x * n + n := Nat.add_lt_add_left hy _
    _ = (x + 1) * n := (Nat.succ_mul x n).symm
    _ ≤ m * n := Nat.mul_le_mul_right n hx

/-- Numbers are in the order of their digits. -/
theorem pack_lt_pack_iff (hy : y < n) (hy' : y' < n) :
    pack n x y < pack n x' y' ↔ toLex (x, y) < toLex (x', y') := by
  rw [Prod.Lex.toLex_lt_toLex]
  rcases lt_trichotomy x x' with hlt | rfl | hgt
  · have hlow : pack n x y < x' * n := pack_lt hlt hy
    exact iff_of_true (hlow.trans_le (Nat.le_add_right _ _)) (.inl hlt)
  · simp [pack]
  · have hlow : pack n x' y' < x * n := pack_lt hgt hy'
    refine iff_of_false (not_lt.mpr (hlow.le.trans (Nat.le_add_right _ _))) ?_
    rintro (hlt | ⟨heq, -⟩)
    · exact absurd hlt (not_lt.mpr hgt.le)
    · exact absurd heq hgt.ne'

theorem pack_div (hy : y < n) : pack n x y / n = x := by
  rw [pack, Nat.mul_comm, Nat.mul_add_div (Nat.zero_lt_of_lt hy), Nat.div_eq_of_lt hy, Nat.add_zero]

theorem pack_inj (hy : y < n) (hy' : y' < n) (h : pack n x y = pack n x' y') :
    x = x' ∧ y = y' := by
  have hx : x = x' := (pack_div hy).symm.trans ((congrArg (· / n) h).trans (pack_div hy'))
  subst hx
  exact ⟨rfl, Nat.add_left_cancel h⟩

/-- The last number has the last digits. -/
theorem pack_last (hm : 0 < m) (hn : 0 < n) : pack n (m - 1) (n - 1) = m * n - 1 := by
  obtain ⟨m, rfl⟩ := Nat.exists_eq_add_of_le' hm
  have hsucc : (m + 1) * n = m * n + n := Nat.succ_mul m n
  rw [pack, Nat.add_sub_cancel, hsucc]
  omega

theorem exists_pack {k : Nat} (h : k < m * n) : ∃ x y, x < m ∧ y < n ∧ pack n x y = k := by
  have hn : 0 < n := Nat.pos_of_ne_zero fun hzero => by simp [hzero] at h
  refine ⟨k / n, k % n, ?_, Nat.mod_lt _ hn, Nat.div_add_mod' k n⟩
  exact Nat.div_lt_of_lt_mul (by rwa [Nat.mul_comm])

end MixedRadix

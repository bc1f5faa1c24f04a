import Mathlib.Data.Nat.Digits.Defs
import Mathlib.Order.Monotone.Basic
import Mathlib.Tactic.Common

/-!
# Sbc386Ex.Lib.PackedBcd

Numbers in **packed BCD**: the decimal digits, four bits each; and texts of decimal digits.
-/

namespace PackedBcd

/-- A number, its decimal digits read as hexadecimal ones. -/
def pack (n : Nat) : Nat := Nat.ofDigits 16 (Nat.digits 10 n)

variable {n n' d : Nat}

@[simp] theorem pack_zero : pack 0 = 0 := rfl

/-- A digit more. -/
theorem pack_push (hd : d < 10) : pack (10 * n + d) = 16 * pack n + d := by
  by_cases hzero : 10 * n + d = 0
  · obtain ⟨rfl, rfl⟩ : n = 0 ∧ d = 0 := by omega
    rfl
  · have hdigits : Nat.digits 10 (10 * n + d) = d :: Nat.digits 10 n := by
      rw [Nat.digits_def' (by decide) (Nat.pos_of_ne_zero hzero), Nat.mul_add_mod,
        Nat.mod_eq_of_lt hd, Nat.mul_add_div (by decide), Nat.div_eq_of_lt hd, Nat.add_zero]
    rw [pack, hdigits, Nat.ofDigits_cons, pack, Nat.add_comm]

theorem pack_eq (n : Nat) : pack n = 16 * pack (n / 10) + n % 10 := by
  conv => lhs; rw [← Nat.div_add_mod n 10]
  exact pack_push (Nat.mod_lt n (by decide))

theorem pack_strictMono : StrictMono pack := by
  intro a b hab
  induction b using Nat.strong_induction_on generalizing a with
  | _ b ih =>
      have hb : 0 < b := by omega
      rw [pack_eq a, pack_eq b]
      by_cases hsame : a / 10 = b / 10
      · rw [hsame]
        omega
      · have hless := ih (b / 10) (by omega) (show a / 10 < b / 10 by omega)
        omega

theorem pack_lt_iff : pack n < pack n' ↔ n < n' := pack_strictMono.lt_iff_lt

/-- So many digits are so many times four bits. -/
theorem pack_lt {k : Nat} (h : n < 10 ^ k) : pack n < 16 ^ k := by
  induction k generalizing n with
  | zero =>
      obtain rfl : n = 0 := by omega
      decide
  | succ k ih =>
      have hless := ih (Nat.div_lt_of_lt_mul (by rwa [← Nat.pow_succ']))
      rw [pack_eq n]
      omega

/-- The nine's complement. -/
theorem pack_complement {k : Nat} (h : n < 10 ^ k) :
    pack (10 ^ k - 1 - n) + pack n = pack (10 ^ k - 1) := by
  induction k generalizing n with
  | zero =>
      obtain rfl : n = 0 := by omega
      rfl
  | succ k ih =>
      have hpow : 10 ^ (k + 1) = 10 * 10 ^ k := Nat.pow_succ'
      have hpos : 0 < 10 ^ k := Nat.pow_pos (by decide)
      have hrest := ih (show n / 10 < 10 ^ k by omega)
      rw [pack_eq (10 ^ (k + 1) - 1 - n), pack_eq n, pack_eq (10 ^ (k + 1) - 1),
        show (10 ^ (k + 1) - 1 - n) / 10 = 10 ^ k - 1 - n / 10 by omega,
        show (10 ^ (k + 1) - 1) / 10 = 10 ^ k - 1 by omega]
      omega

/-- The low digits. -/
theorem pack_mod (k : Nat) : pack n % 16 ^ k = pack (n % 10 ^ k) := by
  induction k generalizing n with
  | zero => rw [Nat.pow_zero, Nat.pow_zero, Nat.mod_one, Nat.mod_one, pack_zero]
  | succ k ih =>
      have hlow : n % 10 ^ (k + 1) / 10 = n / 10 % 10 ^ k := by
        rw [Nat.pow_succ', Nat.mod_mul_right_div_self]
      have hdigit : n % 10 ^ (k + 1) % 10 = n % 10 :=
        Nat.mod_mod_of_dvd n (Dvd.intro_left (10 ^ k) rfl)
      have hshift : (16 * pack (n / 10) + n % 10) / 16 = pack (n / 10) := by omega
      rw [pack_eq (n % 10 ^ (k + 1)), hlow, hdigit, ← ih, pack_eq n, Nat.pow_succ',
        Nat.mod_mul, Nat.mul_add_mod, hshift]
      omega

end PackedBcd

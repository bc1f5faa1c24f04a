import Mathlib.Tactic.Common

/-!
# Sbc386Ex.Lib.Leading

How many of a sequence of tests succeed before the first that does not: the count
a loop that stops at its first failure ends with.
-/

/-- The length of the leading run of successes among `ok 0, …, ok (n - 1)`. -/
def leading (ok : Nat → Bool) : Nat → Nat
  | 0 => 0
  | n + 1 => if ok 0 then leading (fun k => ok (k + 1)) n + 1 else 0

variable {ok : Nat → Bool} {n : Nat}

@[simp] theorem leading_zero : leading ok 0 = 0 := rfl

theorem leading_succ_of_true (h : ok 0 = true) :
    leading ok (n + 1) = leading (fun k => ok (k + 1)) n + 1 := by
  rw [leading, if_pos h]

theorem leading_succ_of_false (h : ok 0 = false) : leading ok (n + 1) = 0 := by
  rw [leading, h, if_neg Bool.false_ne_true]

theorem leading_le : ∀ {ok : Nat → Bool} {n : Nat}, leading ok n ≤ n
  | _, 0 => Nat.le_refl 0
  | ok, n + 1 => by
      cases h : ok 0 with
      | true => rw [leading_succ_of_true h]; exact Nat.succ_le_succ leading_le
      | false => rw [leading_succ_of_false h]; exact Nat.zero_le _

/-- The run is made of successes. -/
theorem leading_ok : ∀ {ok : Nat → Bool} {n k : Nat}, k < leading ok n → ok k = true
  | _, 0, _ => by intro h; cases h
  | ok, n + 1, k => by
      intro hk
      cases h : ok 0 with
      | false => rw [leading_succ_of_false h] at hk; cases hk
      | true =>
          rw [leading_succ_of_true h] at hk
          cases k with
          | zero => exact h
          | succ k =>
              have hk' : k < leading (fun k => ok (k + 1)) n := by omega
              have hok := leading_ok hk'
              exact hok

/-- It ends at a failure, unless it is the whole sequence. -/
theorem leading_fails : ∀ {ok : Nat → Bool} {n : Nat}, leading ok n < n →
    ok (leading ok n) = false
  | _, 0 => by intro h; cases h
  | ok, n + 1 => by
      intro hlt
      cases h : ok 0 with
      | false => rw [leading_succ_of_false h]; exact h
      | true =>
          rw [leading_succ_of_true h] at hlt ⊢
          have hlt' : leading (fun k => ok (k + 1)) n < n := by omega
          have hfail := leading_fails hlt'
          exact hfail

/-- A weaker test has a longer run. -/
theorem leading_mono : ∀ {ok ok' : Nat → Bool} {n : Nat},
    (∀ k < n, ok k = true → ok' k = true) → leading ok n ≤ leading ok' n
  | _, _, 0, _ => Nat.le_refl 0
  | ok, ok', n + 1, hw => by
      cases h : ok 0 with
      | false => rw [leading_succ_of_false h]; exact Nat.zero_le _
      | true =>
          rw [leading_succ_of_true h, leading_succ_of_true (hw 0 (by omega) h)]
          exact Nat.succ_le_succ (leading_mono fun k hk => hw (k + 1) (by omega))

theorem leading_congr {ok ok' : Nat → Bool} (h : ∀ k < n, ok k = ok' k) :
    leading ok n = leading ok' n :=
  Nat.le_antisymm (leading_mono fun k hk hok => (h k hk).symm.trans hok)
    (leading_mono fun k hk hok => (h k hk).trans hok)

/-- A run of successes is no longer than the leading one. -/
theorem le_leading {k : Nat} (hok : ∀ i < k, ok i = true) (hk : k ≤ n) : k ≤ leading ok n := by
  by_contra hlt
  have hlt' : leading ok n < k := Nat.lt_of_not_le hlt
  have hfail := leading_fails (Nat.lt_of_lt_of_le hlt' hk)
  rw [hok _ hlt'] at hfail
  cases hfail

theorem leading_eq_all (hok : ∀ i < n, ok i = true) : leading ok n = n :=
  Nat.le_antisymm leading_le (le_leading hok (Nat.le_refl n))

/-- The run ends at the first failure. -/
theorem leading_eq_of_fails {k : Nat} (hok : ∀ i < k, ok i = true) (hk : k < n)
    (hfail : ok k = false) : leading ok n = k := by
  refine Nat.le_antisymm (Nat.le_of_not_lt fun hlt => ?_) (le_leading hok (Nat.le_of_lt hk))
  rw [leading_ok hlt] at hfail
  cases hfail

/-! ### The failure that ends the run -/

/-- The leading successes, and the failure that ends them where `part` says it still
did its part. -/
def attempted (ok part : Nat → Bool) : Nat → Nat
  | 0 => 0
  | n + 1 =>
      if ok 0 then attempted (fun k => ok (k + 1)) (fun k => part (k + 1)) n + 1
      else if part 0 then 1 else 0

variable {part : Nat → Bool}

@[simp] theorem attempted_zero : attempted ok part 0 = 0 := rfl

theorem attempted_succ_of_true (h : ok 0 = true) :
    attempted ok part (n + 1) = attempted (fun k => ok (k + 1)) (fun k => part (k + 1)) n + 1 := by
  rw [attempted, if_pos h]

theorem attempted_succ_of_false (h : ok 0 = false) :
    attempted ok part (n + 1) = if part 0 then 1 else 0 := by
  rw [attempted, h, if_neg Bool.false_ne_true]

theorem attempted_eq : ∀ {ok part : Nat → Bool} {n : Nat},
    attempted ok part n =
      leading ok n + if leading ok n < n ∧ part (leading ok n) then 1 else 0
  | _, _, 0 => rfl
  | ok, part, n + 1 => by
      cases h : ok 0 with
      | false => simp [attempted_succ_of_false h, leading_succ_of_false h]
      | true =>
          rw [attempted_succ_of_true h, leading_succ_of_true h, attempted_eq]
          simp only [Nat.add_lt_add_iff_right]
          omega

theorem leading_le_attempted : leading ok n ≤ attempted ok part n := by
  rw [attempted_eq]
  exact Nat.le_add_right _ _

theorem attempted_le : attempted ok part n ≤ n := by
  have hle : leading ok n ≤ n := leading_le
  rw [attempted_eq]
  split <;> omega

/-- Where every failure does its part, the run ends one past the successes. -/
theorem attempted_all : attempted ok (fun _ => true) n = min n (leading ok n + 1) := by
  have hle : leading ok n ≤ n := leading_le
  rw [attempted_eq]
  simp only [and_true]
  split <;> omega

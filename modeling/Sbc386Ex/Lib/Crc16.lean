import Mathlib.Logic.Function.Iterate
import Sbc386Ex.Lib.BitBuffer

/-!
# Sbc386Ex.Lib.Crc16

**Cyclic redundancy checks** of sixteen bits, most significant bit first: a byte at a time
from a table, and what that is a bit at a time. A message followed by its own check leaves
nothing; and where the polynomial has its last term, a change that fits in sixteen
consecutive bits always leaves something.
-/

namespace Crc16

open BitBuffer

variable (poly : BitVec 16)

/-- The remainder times `x`. -/
def shift (c : BitVec 16) : BitVec 16 := if c.msb then c <<< 1 ^^^ poly else c <<< 1

/-- The remainder of a byte that is followed by sixteen zeros. -/
def table (b : BitVec 8) : BitVec 16 := (shift poly)^[8] (b ++ 0#8)

def step (c : BitVec 16) (b : BitVec 8) : BitVec 16 := c <<< 8 ^^^ table poly (b ^^^ high c)

/-- The check of the first `n` bytes of a buffer, from `c` on. -/
def crc (c : BitVec 16) (buf : Buffer) : Nat → BitVec 16
  | 0 => c
  | n + 1 => step poly (crc c buf n) (buf n)

variable {poly} {c c' x y : BitVec 16} {b b' : BitVec 8} {buf buf' : Buffer} {m n : Nat}

/-! ### Linearity -/

theorem shift_xor : shift poly (x ^^^ y) = shift poly x ^^^ shift poly y := by
  rw [shift, shift, shift, BitVec.msb_xor, BitVec.shiftLeft_xor_distrib]
  cases x.msb <;> cases y.msb
  · rfl
  · exact BitVec.xor_assoc _ _ _
  · show x <<< 1 ^^^ y <<< 1 ^^^ poly = x <<< 1 ^^^ poly ^^^ y <<< 1
    rw [BitVec.xor_assoc, BitVec.xor_comm (y <<< 1), BitVec.xor_assoc]
  · show x <<< 1 ^^^ y <<< 1 = x <<< 1 ^^^ poly ^^^ (y <<< 1 ^^^ poly)
    rw [BitVec.xor_comm (y <<< 1) poly, BitVec.xor_assoc (x <<< 1), ← BitVec.xor_assoc poly,
      BitVec.xor_self, BitVec.zero_xor]

theorem shift_zero : shift poly 0 = 0 := rfl

theorem shifts_xor (n : Nat) : (shift poly)^[n] (x ^^^ y) = (shift poly)^[n] x ^^^ (shift poly)^[n] y := by
  induction n generalizing x y with
  | zero => rfl
  | succ n ih => rw [Function.iterate_succ_apply, shift_xor, ih]; rfl

theorem shifts_zero (n : Nat) : (shift poly)^[n] 0 = 0 := Function.iterate_fixed shift_zero n

/-! ### A bit at a time -/

/-- The top bit of a remainder. -/
def topBit (b : Bool) : BitVec 16 := if b then 0x8000 else 0

theorem topBit_xor_msb : (topBit x.msb ^^^ x).msb = false := by
  rw [BitVec.msb_xor, topBit]
  cases x.msb <;> rfl

theorem shift_of_msb (h : x.msb = false) : shift poly x = x <<< 1 := by
  rw [shift, h]
  rfl

/-- The remainder after the first `n` bits of a stream. -/
def rem (poly c : BitVec 16) (bits : Nat → Bool) : Nat → BitVec 16
  | 0 => c
  | n + 1 => shift poly (rem poly c bits n ^^^ topBit (bits n))

variable {bits bits' : Nat → Bool}

theorem rem_add : rem poly c bits (m + n) = rem poly (rem poly c bits m) (fun i => bits (m + i)) n := by
  induction n with
  | zero => rfl
  | succ n ih => rw [← Nat.add_assoc, rem, rem, ih]

/-- Taking in the bits of a word one by one is taking in the word and then as many zeros. -/
theorem rem_word (h : ∀ i < n, bits i = (y <<< i).msb) :
    rem poly c bits n ^^^ y <<< n = (shift poly)^[n] (c ^^^ y) := by
  induction n with
  | zero => rw [rem, BitVec.shiftLeft_zero]; rfl
  | succ n ih =>
      have hrest : y <<< (n + 1) = shift poly (topBit (y <<< n).msb ^^^ y <<< n) := by
        rw [shift_of_msb topBit_xor_msb, BitVec.shiftLeft_xor_distrib, BitVec.shiftLeft_add]
        cases (y <<< n).msb <;> exact (BitVec.zero_xor).symm
      rw [rem, hrest, ← shift_xor, h n (Nat.lt_succ_self n), Function.iterate_succ_apply', ← ih
        fun i hi => h i (Nat.lt_succ_of_lt hi)]
      congr 1
      rw [BitVec.xor_assoc, ← BitVec.xor_assoc (topBit _) (topBit _), BitVec.xor_self,
        BitVec.zero_xor]

/-! ### A byte at a time -/

theorem shifts_of_msb (h : ∀ i < n, (x <<< i).msb = false) : (shift poly)^[n] x = x <<< n := by
  induction n with
  | zero => exact (BitVec.shiftLeft_zero x).symm
  | succ n ih =>
      rw [Function.iterate_succ_apply', ih fun i hi => h i (Nat.lt_succ_of_lt hi),
        shift_of_msb (h n (Nat.lt_succ_self n)), BitVec.shiftLeft_add]

theorem halves (c : BitVec 16) : c = (high c ++ 0#8) ^^^ (0#8 ++ low c) := by
  refine BitVec.eq_of_getMsbD_eq fun i hi => ?_
  rw [BitVec.getMsbD_xor, BitVec.getMsbD_append, BitVec.getMsbD_append]
  by_cases hhigh : i < 8
  · simp [Nat.not_le.mpr hhigh, getMsbD_high hhigh]
  · have hlow : i - 8 + 8 = i := by omega
    simp [Nat.not_lt.mp hhigh, getMsbD_low (show i - 8 < 8 by omega), hlow]

theorem append_xor : (b ^^^ b') ++ 0#8 = (b ++ 0#8) ^^^ (b' ++ 0#8) := by
  rw [BitVec.xor_append, BitVec.xor_self]

theorem step_eq : step poly c b = (shift poly)^[8] (c ^^^ (b ++ 0#8)) := by
  have hlow : ∀ i < 8, ((0#8 ++ low c) <<< i).msb = false := by
    intro i hi
    rw [BitVec.msb, BitVec.getMsbD_shiftLeft, BitVec.getMsbD_append]
    simp [show ¬ 8 ≤ i by omega]
  have hshift : c <<< 8 = (0#8 ++ low c) <<< 8 := by
    conv => lhs; rw [halves c, BitVec.shiftLeft_xor_distrib]
    have hhigh : (high c ++ 0#8) <<< 8 = 0#16 := by
      refine BitVec.eq_of_getMsbD_eq fun i hi => ?_
      rw [BitVec.getMsbD_shiftLeft, BitVec.getMsbD_append]
      simp
    rw [hhigh, BitVec.zero_xor]
  have hmove : (shift poly)^[8] (0#8 ++ low c) = (0#8 ++ low c) <<< 8 := shifts_of_msb hlow
  rw [step, table, append_xor, hshift, ← hmove, ← shifts_xor]
  congr 1
  conv => rhs; rw [halves c]
  rw [BitVec.xor_comm (0#8 ++ low c), BitVec.xor_comm (b ++ 0#8), BitVec.xor_assoc, BitVec.xor_assoc,
    BitVec.xor_comm (b ++ 0#8)]

theorem step_xor : step poly (c ^^^ c') (b ^^^ b') = step poly c b ^^^ step poly c' b' := by
  rw [step_eq, step_eq, step_eq, ← shifts_xor, append_xor]
  congr 1
  rw [BitVec.xor_assoc, ← BitVec.xor_assoc c', BitVec.xor_comm c', BitVec.xor_assoc, BitVec.xor_assoc]

theorem step_eq_rem (h : ∀ i < 8, bits i = b.getMsbD i) : step poly c b = rem poly c bits 8 := by
  have hword : ∀ i < 8, bits i = ((b ++ 0#8) <<< i).msb := by
    intro i hi
    rw [h i hi, BitVec.msb, BitVec.getMsbD_shiftLeft, BitVec.getMsbD_append]
    simp [hi]
  have hnone : (b ++ 0#8) <<< 8 = 0#16 := by
    refine BitVec.eq_of_getMsbD_eq fun i hi => ?_
    rw [BitVec.getMsbD_shiftLeft, BitVec.getMsbD_append]
    simp
  rw [step_eq, ← rem_word hword, hnone, BitVec.xor_zero]

/-! ### Checks of buffers -/

theorem crc_eq_rem : crc poly c buf n = rem poly c (bit buf) (8 * n) := by
  induction n with
  | zero => rfl
  | succ n ih =>
      rw [crc, ih, Nat.mul_succ, rem_add]
      refine step_eq_rem fun i hi => ?_
      rw [bit, show (8 * n + i) / 8 = n by omega, show (8 * n + i) % 8 = i by omega]

theorem crc_congr (h : ∀ k < n, buf k = buf' k) : crc poly c buf n = crc poly c buf' n := by
  induction n with
  | zero => rfl
  | succ n ih => rw [crc, crc, ih fun k hk => h k (Nat.lt_succ_of_lt hk), h n (Nat.lt_succ_self n)]

theorem crc_add :
    crc poly c buf (m + n) = crc poly (crc poly c buf m) (fun k => buf (m + k)) n := by
  induction n with
  | zero => rfl
  | succ n ih => rw [← Nat.add_assoc, crc, crc, ih]

theorem crc_cons :
    crc poly c buf (n + 1) = crc poly (step poly c (buf 0)) (fun k => buf (k + 1)) n := by
  induction n with
  | zero => rfl
  | succ n ih => rw [crc, ih, crc]

theorem crc_xor : crc poly (c ^^^ c') (fun k => buf k ^^^ buf' k) n =
    crc poly c buf n ^^^ crc poly c' buf' n := by
  induction n with
  | zero => rfl
  | succ n ih => rw [crc, ih, step_xor]; rfl

/-- **Residue.** A message and its check leave nothing. -/
theorem crc_residue (hhigh : buf n = high (crc poly c buf n)) (hlow : buf (n + 1) = low (crc poly c buf n)) :
    crc poly c buf (n + 2) = 0 := by
  show step poly (step poly (crc poly c buf n) (buf n)) (buf (n + 1)) = 0
  rw [hlow, hhigh]
  generalize crc poly c buf n = r
  have hfirst : step poly r (high r) = low r ++ 0#8 := by
    rw [step, BitVec.xor_self]
    have htable : table poly 0#8 = 0#16 := shifts_zero 8
    rw [htable, BitVec.xor_zero]
    refine BitVec.eq_of_getMsbD_eq fun i hi => ?_
    rw [BitVec.getMsbD_shiftLeft, BitVec.getMsbD_append]
    by_cases hi' : i < 8
    · simp [Nat.not_le.mpr hi', getMsbD_low hi']
    · simp [Nat.not_lt.mp hi']
  rw [hfirst, step_eq, BitVec.xor_self]
  exact shifts_zero 8

/-! ### Bursts -/

/-- The polynomial has its last term. -/
def Odd (poly : BitVec 16) : Prop := poly.getLsbD 0 = true

theorem shift_ne_zero (hodd : Odd poly) (h : x ≠ 0) : shift poly x ≠ 0 := by
  intro hzero
  cases hmsb : x.msb with
  | true =>
      have hbit : (shift poly x).getLsbD 0 = true := by
        rw [shift, hmsb, if_pos rfl, BitVec.getLsbD_xor, hodd]
        simp
      rw [hzero] at hbit
      cases hbit
  | false =>
      rw [shift_of_msb hmsb] at hzero
      refine h (BitVec.eq_of_getMsbD_eq fun i hi => ?_)
      cases i with
      | zero => exact hmsb
      | succ i =>
          have hbit := congrArg (fun v => BitVec.getMsbD v i) hzero
          simpa [show i < 16 by omega, Nat.add_comm 1] using hbit

theorem shifts_ne_zero (hodd : Odd poly) (h : x ≠ 0) : (shift poly)^[n] x ≠ 0 := by
  induction n generalizing x with
  | zero => exact h
  | succ n ih => exact ih (shift_ne_zero hodd h)

theorem bit_xor {i : Nat} : bit (fun k => buf k ^^^ buf' k) i = (bit buf i ^^ bit buf' i) :=
  BitVec.getMsbD_xor

/-- Zeros only move the remainder on. -/
theorem rem_of_false (h : ∀ i < n, bits i = false) : rem poly c bits n = (shift poly)^[n] c := by
  have hword : rem poly c bits n ^^^ 0#16 <<< n = (shift poly)^[n] (c ^^^ 0#16) := by
    refine rem_word fun i hi => ?_
    rw [h i hi, BitVec.zero_shiftLeft]
    rfl
  rwa [BitVec.zero_shiftLeft, BitVec.xor_zero, BitVec.xor_zero] at hword

theorem exists_bit_ne {k : Nat} (h : buf k ≠ buf' k) :
    ∃ i, 8 * k ≤ i ∧ i < 8 * (k + 1) ∧ bit buf i ≠ bit buf' i := by
  by_contra hall
  refine h (BitVec.eq_of_getMsbD_eq fun i hi => ?_)
  by_contra hne
  refine hall ⟨8 * k + i, by omega, by omega, ?_⟩
  rwa [bit, bit, show (8 * k + i) / 8 = k by omega, show (8 * k + i) % 8 = i by omega]

/-- Sixteen bits of a buffer in a word. -/
theorem bit_eq_msb {q i : Nat} (hi : i < 16) :
    bit buf (q + i) = ((octet buf q ++ octet buf (q + 8)) <<< i).msb := by
  rw [BitVec.msb, BitVec.getMsbD_shiftLeft, BitVec.getMsbD_append]
  by_cases hfirst : i < 8
  · simp [Nat.not_le.mpr hfirst, getMsbD_octet hfirst]
  · rw [show q + i = q + 8 + (i - 8) by omega, ← getMsbD_octet (show i - 8 < 8 by omega)]
    simp [Nat.not_lt.mp hfirst]

/-- **Bursts.** Messages of the same length, of two bytes or more, that differ, but nowhere
outside sixteen consecutive bits, have different checks. -/
theorem crc_ne_of_burst (hodd : Odd poly) (hlen : 2 ≤ n) {p : Nat}
    (hburst : ∀ i < 8 * n, bit buf i ≠ bit buf' i → p ≤ i ∧ i < p + 16)
    (hdiff : ∃ k < n, buf k ≠ buf' k) : crc poly c buf n ≠ crc poly c buf' n := by
  -- the sixteen bits can be moved back so that they are all in the message
  obtain ⟨q, r, hqr, hzero⟩ : ∃ q r, 8 * n = q + 16 + r ∧
      ∀ i < 8 * n, i < q ∨ q + 16 ≤ i → bit (fun k => buf k ^^^ buf' k) i = false := by
    refine ⟨min p (8 * n - 16), 8 * n - 16 - min p (8 * n - 16), by omega, fun i hi hout => ?_⟩
    have heq : bit buf i = bit buf' i := by
      by_contra hne
      have hin := hburst i hi hne
      omega
    rw [bit_xor, heq, Bool.xor_self]
  have hxor : ∀ i, bit (fun k => buf k ^^^ buf' k) i = (bit buf i ^^ bit buf' i) := fun _ => bit_xor
  obtain ⟨k, hk, hne⟩ := hdiff
  obtain ⟨i, hlow, hhigh, hbit⟩ := exists_bit_ne hne
  -- the difference of the checks is the check of the difference
  intro hsame
  have hcheck : crc poly 0 (fun k => buf k ^^^ buf' k) n = 0 := by
    have hsum : crc poly (c ^^^ c) (fun k => buf k ^^^ buf' k) n = crc poly c buf n ^^^ crc poly c buf' n :=
      crc_xor
    rwa [hsame, BitVec.xor_self, BitVec.xor_self] at hsum
  rw [crc_eq_rem, hqr, Nat.add_assoc, rem_add, rem_add,
    rem_of_false fun i hi => hzero i (by omega) (by omega), shifts_zero,
    rem_of_false fun i hi => hzero _ (by omega) (by omega)] at hcheck
  generalize (fun k => buf k ^^^ buf' k) = diff at hcheck hzero hxor
  have hword : rem poly 0#16 (fun i => bit diff (q + i)) 16 ^^^ (octet diff q ++ octet diff (q + 8)) <<< 16 =
      (shift poly)^[16] (0#16 ^^^ (octet diff q ++ octet diff (q + 8))) :=
    rem_word fun i hi => bit_eq_msb hi
  rw [BitVec.shiftLeft_eq_zero (by decide), BitVec.xor_zero, BitVec.zero_xor] at hword
  refine shifts_ne_zero hodd (shifts_ne_zero hodd fun hy => hbit ?_) (hword ▸ hcheck)
  -- the word is not zero, since a bit of it is not
  have hzero' : bit diff i = false := by
    by_cases hin : i < q ∨ q + 16 ≤ i
    · exact hzero i (by omega) hin
    · have hmsb : bit diff (q + (i - q)) = ((octet diff q ++ octet diff (q + 8)) <<< (i - q)).msb :=
        bit_eq_msb (by omega)
      have hnone : octet diff q ++ octet diff (q + 8) = 0#16 := hy
      rw [hnone, show q + (i - q) = i by omega, BitVec.zero_shiftLeft] at hmsb
      exact hmsb
  rw [hxor] at hzero'
  simpa using hzero'

end Crc16

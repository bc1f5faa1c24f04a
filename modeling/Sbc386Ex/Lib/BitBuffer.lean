import Mathlib.Data.BitVec

/-!
# Sbc386Ex.Lib.BitBuffer

Buffers of bytes read as streams of bits, most significant bit first, and buffers that
16-bit words are written into, high byte first: one after the other, or round a ring that
keeps the last ones.
-/

namespace BitBuffer

abbrev Buffer := Nat → BitVec 8

/-! ### The bytes of a word -/

def high (w : BitVec 16) : BitVec 8 := w.extractLsb' 8 8
def low (w : BitVec 16) : BitVec 8 := w.extractLsb' 0 8

theorem getMsbD_high {w : BitVec 16} {i : Nat} (hi : i < 8) : (high w).getMsbD i = w.getMsbD i := by
  have hpos : 16 - (16 - i) = i := by omega
  rw [high, BitVec.getMsbD_extractLsb']
  simp [hi, hpos]

theorem getMsbD_low {w : BitVec 16} {i : Nat} (hi : i < 8) :
    (low w).getMsbD i = w.getMsbD (i + 8) := by
  have hpos : 16 - (8 - i) = i + 8 := by omega
  have hle : 8 ≤ 16 + i := by omega
  rw [low, BitVec.getMsbD_extractLsb']
  simp [hi, hpos, hle]

/-! ### Bits -/

def bit (buf : Buffer) (b : Nat) : Bool := (buf (b / 8)).getMsbD (b % 8)

/-- The byte that starts at bit `b`. -/
def octet (buf : Buffer) (b : Nat) : BitVec 8 := high ((buf (b / 8) ++ buf (b / 8 + 1)) <<< (b % 8))

variable {buf buf' : Buffer} {b b' n : Nat}

theorem getMsbD_octet {i : Nat} (hi : i < 8) : (octet buf b).getMsbD i = bit buf (b + i) := by
  have hshift : i + b % 8 < 16 := by omega
  rw [octet, bit, getMsbD_high hi, BitVec.getMsbD_shiftLeft, BitVec.getMsbD_append]
  -- the bits that the shift carries over come from the byte after
  by_cases hcarry : i + b % 8 < 8
  · have hdiv : (b + i) / 8 = b / 8 := by omega
    have hmod : (b + i) % 8 = i + b % 8 := by omega
    simp [hdiv, hmod, Nat.not_le.mpr hcarry]
  · have hdiv : (b + i) / 8 = b / 8 + 1 := by omega
    have hmod : (b + i) % 8 = i + b % 8 - 8 := by omega
    simp [hdiv, hmod, Nat.not_lt.mp hcarry]

theorem octet_eq_iff {x : BitVec 8} :
    octet buf b = x ↔ ∀ i < 8, bit buf (b + i) = x.getMsbD i := by
  constructor
  · rintro rfl i hi
    exact (getMsbD_octet hi).symm
  · intro h
    refine BitVec.eq_of_getMsbD_eq fun i hi => ?_
    rw [getMsbD_octet hi, h i hi]

theorem octet_eq_ones_iff : octet buf b = 0xFF ↔ ∀ i < 8, bit buf (b + i) = true := by
  have hones : ∀ i < 8, (0xFF : BitVec 8).getMsbD i = true := by decide
  rw [octet_eq_iff]
  exact forall₂_congr fun i hi => by rw [hones i hi]

/-- A byte needs no more than the two it lies in. -/
theorem octet_congr_bytes (h : ∀ j < n, buf j = buf' j) (hb : b + 16 ≤ 8 * n) :
    octet buf b = octet buf' b := by
  rw [octet, octet, h _ (by omega), h _ (by omega)]

theorem bit_congr_bytes (h : ∀ j < n, buf j = buf' j) (hb : b < 8 * n) :
    bit buf b = bit buf' b := by
  rw [bit, bit, h _ (by omega)]

/-! ### Words -/

/-- The bytes of a stream of words. -/
def bytes (w : Nat → BitVec 16) : Buffer := fun j =>
  if j % 2 = 0 then high (w (j / 2)) else low (w (j / 2))

theorem bit_bytes {w : Nat → BitVec 16} : bit (bytes w) b = (w (b / 16)).getMsbD (b % 16) := by
  have hdiv : b / 8 / 2 = b / 16 := by omega
  rw [bit, bytes]
  by_cases hhalf : b / 8 % 2 = 0
  · have hmod : b % 8 = b % 16 := by omega
    have hlt : b % 16 < 8 := by omega
    rw [if_pos hhalf, hmod, getMsbD_high hlt, hdiv]
  · have hmod : b % 16 = b % 8 + 8 := by omega
    have hlt : b % 8 < 8 := by omega
    rw [if_neg hhalf, getMsbD_low hlt, hdiv, hmod]

/-- A word written at byte `i`. -/
def putWord (buf : Buffer) (i : Nat) (w : BitVec 16) : Buffer := fun j =>
  if j = i then high w else if j = i + 1 then low w else buf j

theorem putWord_of_ne {i j : Nat} {w : BitVec 16} (h : j ≠ i) (h' : j ≠ i + 1) :
    putWord buf i w j = buf j := by
  rw [putWord, if_neg h, if_neg h']

/-- The bytes of the words from `k` on, at `base + 2 * k` and up, are in the buffer up to
word `n`. -/
structure Filled (base : Nat) (w : Nat → BitVec 16) (n : Nat) (buf : Buffer) : Prop where
  at_base : ∀ j < 2 * n, buf (base + j) = bytes w j

theorem Filled.put {base : Nat} {w : Nat → BitVec 16} (h : Filled base w n buf) :
    Filled base w (n + 1) (putWord buf (base + 2 * n) (w n)) where
  at_base := by
    intro j hj
    rw [putWord, bytes]
    by_cases hhigh : j = 2 * n
    · have hdiv : j / 2 = n := by omega
      rw [if_pos (by omega), if_pos (by omega), hdiv]
    · by_cases hlow : j = 2 * n + 1
      · have hdiv : j / 2 = n := by omega
        rw [if_neg (by omega), if_pos (by omega), if_neg (by omega), hdiv]
      · rw [if_neg (by omega), if_neg (by omega)]
        exact h.at_base j (by omega)

/-- A ring of `size` words at byte `base` holds the last `size` of `n` words, word `k` at
`k % size`. -/
structure Ring (base size : Nat) (w : Nat → BitVec 16) (n : Nat) (buf : Buffer) : Prop where
  last : ∀ k < n, n ≤ k + size → ∀ j < 2,
    buf (base + 2 * (k % size) + j) = bytes w (2 * k + j)

theorem Ring.put {base size : Nat} {w : Nat → BitVec 16} (h : Ring base size w n buf) :
    Ring base size w (n + 1) (putWord buf (base + 2 * (n % size)) (w n)) where
  last := by
    intro k hk hkept j hj
    rcases Nat.lt_or_eq_of_le (Nat.lt_succ_iff.mp hk) with hlt | rfl
    · -- an earlier word that is still kept is elsewhere in the ring
      have hne : k % size ≠ n % size := by
        intro heq
        have hmod : n ≡ k [MOD size] := heq.symm
        have hle : size ≤ n - k := Nat.le_of_dvd (by omega) ((Nat.modEq_iff_dvd' hlt.le).mp hmod.symm)
        omega
      rw [putWord_of_ne (by omega) (by omega)]
      exact h.last k hlt (by omega) j hj
    · rw [putWord, bytes]
      have hdiv : (2 * k + j) / 2 = k := by omega
      rcases (show j = 0 ∨ j = 1 by omega) with rfl | rfl
      · rw [Nat.add_zero, if_pos rfl, if_pos (by omega), hdiv]
      · rw [if_neg (by omega), if_pos rfl, if_neg (by omega), hdiv]

end BitBuffer

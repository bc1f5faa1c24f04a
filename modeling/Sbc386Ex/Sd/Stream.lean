import Sbc386Ex.Lib.Leading
import Sbc386Ex.Sd.Capture

/-!
# Sbc386Ex.Sd.Stream

Where a block of data is in a stream of bits, said once for both drivers: R1 from its first
0 bit on, and then, at R1's offset, FFs, the token FE and the data. A block that is found in
what a data burst leaves is there whole.
-/

namespace Sbc386Ex.Sd.Ssio

open BitBuffer

/-! ### The block -/

/-- The bits where R1 may start. -/
def r1From : Nat := (PRE + 6) * 8
def r1Bits : Nat := (WINLEN - 6) * 8 - (PRE + 6) * 8

theorem r1From_eq : r1From = 208 := rfl
theorem r1Bits_eq : r1Bits = 96 := rfl

def r1At (buf : Buffer) : Option Nat :=
  let k := leading (fun k => bit buf (r1From + k)) r1Bits
  if k < r1Bits then some (r1From + k) else none

/-- The bytes to look at for a token after an R1 at `z`, `len` bytes having been kept. -/
def tokenBytes (len z : Nat) : Nat := (len * 8 - 16 - (z + 8) + 7) / 8

def tokenAt (buf : Buffer) (len z : Nat) : Option Nat :=
  let k := leading (fun k => octet buf (z + 8 + 8 * k) = 0xFF) (tokenBytes len z)
  if k < tokenBytes len z then some (z + 8 + 8 * k) else none

/-- The first bit of the data. -/
def blockAt (buf : Buffer) (len : Nat) : Option Nat :=
  match r1At buf with
  | none => none
  | some z =>
      if octet buf z ≠ 0 then none
      else
        match tokenAt buf len z with
        | none => none
        | some b => if octet buf b ≠ 0xFE then none else some (b + 8)

section Block

variable {buf buf' : Buffer} {len z b : Nat}

theorem r1At_lt (h : r1At buf = some z) : r1From ≤ z ∧ z < r1From + r1Bits := by
  dsimp only [r1At] at h
  split at h
  · cases h
    omega
  · cases h

theorem tokenAt_lt (h : tokenAt buf len z = some b) : z + 8 ≤ b ∧ b < len * 8 - 16 := by
  dsimp only [tokenAt] at h
  split at h
  · rename_i hk
    cases h
    have hbytes : tokenBytes len z = (len * 8 - 16 - (z + 8) + 7) / 8 := rfl
    omega
  · cases h

theorem r1At_congr (h : ∀ j < len, buf j = buf' j) (hlen : WINLEN ≤ len) : r1At buf = r1At buf' := by
  have hrun : leading (fun k => bit buf (r1From + k)) r1Bits =
      leading (fun k => bit buf' (r1From + k)) r1Bits := by
    refine leading_congr fun k hk => bit_congr_bytes h ?_
    rw [r1Bits_eq] at hk
    rw [winlen_eq] at hlen
    rw [r1From_eq]
    omega
  rw [r1At, r1At, hrun]

theorem tokenAt_congr (h : ∀ j < len, buf j = buf' j) : tokenAt buf len z = tokenAt buf' len z := by
  have hrun : leading (fun k => octet buf (z + 8 + 8 * k) = 0xFF) (tokenBytes len z) =
      leading (fun k => octet buf' (z + 8 + 8 * k) = 0xFF) (tokenBytes len z) := by
    refine leading_congr fun k hk => ?_
    rw [tokenBytes] at hk
    rw [octet_congr_bytes h (by omega)]
  rw [tokenAt, tokenAt, hrun]

/-- Where the block is depends on no more than was kept. -/
theorem blockAt_congr (h : ∀ j < len, buf j = buf' j) (hlen : WINLEN ≤ len) :
    blockAt buf len = blockAt buf' len := by
  rw [blockAt, blockAt, r1At_congr h hlen]
  cases hr1 : r1At buf' with
  | none => rfl
  | some z =>
      have hz := r1At_lt hr1
      have hoctet : octet buf z = octet buf' z := by
        refine octet_congr_bytes h ?_
        rw [r1From_eq, r1Bits_eq] at hz
        rw [winlen_eq] at hlen
        omega
      dsimp only
      rw [hoctet, tokenAt_congr h]
      cases htok : tokenAt buf' len z with
      | none => rfl
      | some b =>
          have hb := tokenAt_lt htok
          dsimp only
          rw [octet_congr_bytes h (by omega)]

/-- A 0 bit after R1 is in the token or after it. -/
theorem tokenAt_le {p : Nat} (hbit : bit buf p = false) (hp : z + 8 ≤ p) (hlen : p < len * 8 - 16) :
    ∃ b, tokenAt buf len z = some b ∧ b ≤ p := by
  have hk : (p - (z + 8)) / 8 < tokenBytes len z := by
    rw [tokenBytes]
    omega
  have hrun : leading (fun k => octet buf (z + 8 + 8 * k) = 0xFF) (tokenBytes len z) ≤
      (p - (z + 8)) / 8 := by
    by_contra hlong
    have hok := leading_ok (Nat.lt_of_not_le hlong)
    have hones := octet_eq_ones_iff.mp (of_decide_eq_true hok) ((p - (z + 8)) % 8) (by omega)
    rw [show z + 8 + 8 * ((p - (z + 8)) / 8) + (p - (z + 8)) % 8 = p by omega, hbit] at hones
    cases hones
  refine ⟨_, if_pos (Nat.lt_of_le_of_lt hrun hk), ?_⟩
  omega

theorem blockAt_some (h : blockAt buf len = some b) :
    ∃ z t, r1At buf = some z ∧ octet buf z = 0 ∧ tokenAt buf len z = some t ∧ octet buf t = 0xFE ∧
      b = t + 8 := by
  rw [blockAt] at h
  cases hr1 : r1At buf with
  | none => rw [hr1] at h; cases h
  | some z =>
      rw [hr1] at h
      dsimp only at h
      split at h
      · cases h
      · rename_i hok
        cases htok : tokenAt buf len z with
        | none => rw [htok] at h; cases h
        | some t =>
            rw [htok] at h
            dsimp only at h
            split at h
            · cases h
            · rename_i hfe
              exact ⟨z, t, rfl, not_not.mp hok, htok, not_not.mp hfe, (Option.some.inj h).symm⟩

end Block

/-! ### What is kept -/

section Kept

variable {u : Burst} {f b d : Nat}

theorem bit_stream_window (hb : b < 8 * WINLEN) : bit (stream u d) b = bit (bytes u.words) b := by
  rw [bit, bit, stream, if_pos (by omega)]

theorem bit_stream_rest : bit (stream u d) (8 * WINLEN + b) = (u.rest (b / 16 + d)).getMsbD (b % 16) := by
  have hafter : ¬ (8 * WINLEN + b) / 8 < WINLEN := by omega
  have hplace : (8 * WINLEN + b) / 8 + 2 * d = WINLEN + (b / 8 + 2 * d) := by omega
  have hbyte : (b + 16 * d) / 8 = b / 8 + 2 * d := by omega
  have hbit : (8 * WINLEN + b) % 8 = (b + 16 * d) % 8 := by omega
  rw [bit, stream, if_neg hafter, hplace, ← bytes_rest, ← hbyte, hbit]
  have hrest := bit_bytes (w := u.rest) (b := b + 16 * d)
  rw [bit] at hrest
  rw [hrest, show (b + 16 * d) / 16 = b / 16 + d by omega, show (b + 16 * d) % 16 = b % 16 by omega]

theorem exists_zero {w : Word} (h : w ≠ 0xFFFF) : ∃ i < 16, w.getMsbD i = false := by
  by_contra hall
  refine h (BitVec.eq_of_getMsbD_eq fun i hi => ?_)
  have hones : ∀ i < 16, (0xFFFF : Word).getMsbD i = true := by decide
  have hbit : w.getMsbD i = true := by
    by_contra hne
    exact hall ⟨i, hi, Bool.eq_false_iff.mpr hne⟩
  rw [hbit, hones i hi]

/-- **Kept whole.** The data of a block, its CRC and a byte more are in what a burst leaves,
so a sector is never read again for having been cut short. -/
theorem block_whole (hf : FirstAt u f)
    (hb : blockAt (stream u (f + 1 + XDATA - RINGW)) (streamLen (f + 1 + XDATA)) = some b) :
    (512 + 2) * 8 + b + 8 ≤ streamLen (f + 1 + XDATA) * 8 := by
  obtain ⟨z, t, hr1, -, htok, -, rfl⟩ := blockAt_some hb
  obtain ⟨i, hi, hzero⟩ := exists_zero hf.first
  have hz := r1At_lt hr1
  have hbit : bit (stream u (f + 1 + XDATA - RINGW))
      (8 * WINLEN + (16 * (f - (f + 1 + XDATA - RINGW)) + i)) = false := by
    rw [bit_stream_rest, ← hzero]
    have hword : (16 * (f - (f + 1 + XDATA - RINGW)) + i) / 16 + (f + 1 + XDATA - RINGW) = f := by
      rw [xdata_eq, ringw_eq]
      omega
    have hplace : (16 * (f - (f + 1 + XDATA - RINGW)) + i) % 16 = i := by omega
    rw [hword, hplace]
  -- that word's first 0 bit is in the token or after it, and `XDATA` words come after it
  have hstart : z + 8 ≤ 8 * WINLEN + (16 * (f - (f + 1 + XDATA - RINGW)) + i) := by
    rw [r1From_eq, r1Bits_eq] at hz
    rw [winlen_eq]
    omega
  have hend : 8 * WINLEN + (16 * (f - (f + 1 + XDATA - RINGW)) + i) <
      streamLen (f + 1 + XDATA) * 8 - 16 := by
    rw [streamLen, winlen_eq, xdata_eq, ringw_eq]
    omega
  obtain ⟨t', ht', hle⟩ := tokenAt_le hbit hstart hend
  obtain rfl : t = t' := Option.some.inj (htok.symm.trans ht')
  rw [streamLen, winlen_eq, xdata_eq, ringw_eq] at *
  omega

end Kept

end Sbc386Ex.Sd.Ssio

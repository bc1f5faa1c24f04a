import Mathlib.Data.List.GetD
import Sbc386Ex.Hex.CrcComputation
import Sbc386Ex.Sd.CoreCrc
import Sbc386Ex.Sd.SbcSd

/-!
# Sbc386Ex.CrcAgree

The four CRC-16s: `crc16` of `crc.asm`, `crc16` of `sdcore.inc` from the table of `crcinit`,
`sdalign` of `sdspi.s` from the table of `sbcsd.c`, and `crc16_big` of `hex2bin.c`. Each is
the division of its bytes a bit at a time.
-/

namespace Sbc386Ex

open BitBuffer

/-- The remainder of a string divided a bit at a time, most significant bit first, from `c`
on. -/
def remainder (c : Word) (str : List Byte) : Word :=
  Crc16.rem CRC16poly c (bit fun k => str.getD k 0) (8 * str.length)

theorem crc_eq_remainder {c : Word} {str : List Byte} {buf : Buffer}
    (h : ∀ k (hk : k < str.length), buf k = str[k]) :
    Crc16.crc CRC16poly c buf str.length = remainder c str := by
  rw [remainder, ← Crc16.crc_eq_rem]
  refine Crc16.crc_congr fun k hk => ?_
  rw [h k hk, List.getD_eq_getElem str 0 hk]

/-! ### `sdcore.inc` -/

namespace Sd.SdCore

theorem crctab_eq (b : Byte) : crctab b = Crc16.table CRC16poly b := rfl

theorem crcByte_eq (dx : Word) (al : Byte) : crcByte dx al = Crc16.step CRC16poly dx al := by
  rw [crcByte, crctab_eq]
  exact congrArg (· ^^^ _) (Time.low_append_zero dx)

/-- What a read of a sector checks is what the registers come to. -/
theorem crc16_eq (si : Buffer) (cx : Nat) : crc16 si cx = Crc16.crc CRC16poly 0 si cx := by
  induction cx with
  | zero => rfl
  | succ cx ih =>
      rw [Crc16.crc, ← ih, crc16, crc16, List.range_succ, List.foldl_append, ← crcByte_eq]
      rfl

end Sd.SdCore

/-! ### `sdalign` -/

namespace Sd.SbcSd

theorem crcBit_setWidth (c : DWord) :
    (crcBit c).setWidth 16 = Crc16.shift CRC16poly (c.setWidth 16) := by
  have hmsb : (c.setWidth 16).msb = c.getLsbD 15 := BitVec.msb_setWidth'' c
  have htop : c &&& 0x8000 ≠ 0 ↔ c.getLsbD 15 = true := by
    rw [show (0x8000 : DWord) = BitVec.twoPow 32 15 by decide, BitVec.and_twoPow]
    cases c.getLsbD 15 <;> decide
  have hshift : (c <<< 1).setWidth 16 = c.setWidth 16 <<< 1 :=
    BitVec.setWidth_shiftLeft_of_le (by decide)
  rw [crcBit, Crc16.shift, hmsb]
  simp only [htop]
  split_ifs
  · rw [BitVec.setWidth_xor, hshift]
    rfl
  · exact hshift

theorem crctab_eq (b : Byte) : crctab b = Crc16.table CRC16poly b := by
  have hiter : ∀ n (c : DWord), (crcBit^[n] c).setWidth 16 =
      (Crc16.shift CRC16poly)^[n] (c.setWidth 16) := by
    intro n c
    exact (Function.Semiconj.iterate_right (f := BitVec.setWidth 16) crcBit_setWidth n).eq c
  have hbyte : ∀ b : Byte, (b.setWidth 32 <<< 8).setWidth 16 = b ++ 0#8 := by decide
  rw [crctab, hiter, hbyte]
  rfl

theorem crcByte_setWidth (edx : DWord) (ah : Byte) :
    (crcByte edx ah).setWidth 16 = Crc16.step CRC16poly (edx.setWidth 16) ah := by
  have hhigh : edx.extractLsb' 8 8 = high (edx.setWidth 16) := by
    refine BitVec.eq_of_getLsbD_eq fun i hi => ?_
    have hi' : 8 + i < 16 := by omega
    simp [high, hi, hi']
  rw [crcByte, crctab_eq, hhigh, BitVec.setWidth_xor,
    BitVec.setWidth_shiftLeft_of_le (by decide), BitVec.setWidth_setWidth_of_le _ (by decide), BitVec.setWidth_eq]
  rfl

/-- On a byte boundary nothing is shifted. -/
theorem copyLoop_eq (src : Buffer) (n esi edi : Nat) (edx : DWord) (dst : Buffer) :
    copyLoop src n esi edi edx dst = alignLoop src 0 n esi edi edx dst := by
  induction n generalizing esi edi edx dst with
  | zero => rfl
  | succ n ih =>
      have hbyte : high ((src esi ++ src (esi + 1)) <<< 0) = src esi := by
        rw [BitVec.shiftLeft_zero]
        exact BitVec.extractLsb'_append_eq_left
      rw [copyLoop, alignLoop, ih, hbyte]

theorem alignLoop_crc (src : Buffer) (cl n esi edi : Nat) (edx : DWord) (dst : Buffer) :
    (alignLoop src cl n esi edi edx dst).2.setWidth 16 =
      Crc16.crc CRC16poly (edx.setWidth 16)
        (fun k => high ((src (esi + k) ++ src (esi + k + 1)) <<< cl)) n := by
  induction n generalizing esi edi edx dst with
  | zero => rfl
  | succ n ih =>
      rw [alignLoop, ih, crcByte_setWidth, Crc16.crc_cons]
      simp only [Nat.add_zero, Nat.add_assoc, Nat.add_comm 1]

theorem alignLoop_bytes (src : Buffer) (cl n esi edi : Nat) (edx : DWord) (dst : Buffer) {k : Nat}
    (hk : k < n) : (alignLoop src cl n esi edi edx dst).1 (edi + k) =
      high ((src (esi + k) ++ src (esi + k + 1)) <<< cl) := by
  -- what is behind the loop is left alone
  have hbehind : ∀ n esi edi edx dst, ∀ i < edi,
      (alignLoop src cl n esi edi edx dst).1 i = dst i := by
    intro n
    induction n with
    | zero => exact fun _ _ _ _ _ _ => rfl
    | succ n ih =>
        intro esi edi edx dst i hi
        rw [alignLoop, ih _ _ _ _ i (by omega), Function.update_of_ne (by omega)]
  induction n generalizing esi edi edx dst k with
  | zero => omega
  | succ n ih =>
      rw [alignLoop]
      cases k with
      | zero =>
          rw [hbehind _ _ _ _ _ _ (by omega)]
          exact Function.update_self ..
      | succ k =>
          rw [← Nat.add_assoc edi, Nat.add_right_comm edi, ih _ _ _ _ (by omega),
            Nat.add_right_comm esi, Nat.add_assoc esi]

/-- The bytes are put together from bit `b` on. -/
theorem sdalign_bytes (src : Buffer) (b : Nat) (dst : Buffer) {n k : Nat} (hk : k < n) :
    (sdalign src b dst n).1 k = octet src (b + 8 * k) := by
  have hall := alignLoop_bytes src (b % 8) n (b / 8) 0 0 dst hk
  rw [Nat.zero_add] at hall
  rw [octet, Nat.add_mul_div_left _ _ (by decide), Nat.add_mul_mod_self_left, ← hall, sdalign]
  split_ifs with hb
  · rw [copyLoop_eq, hb]
  · rfl

/-- **`sdalign`**: the check is that of the bytes. -/
theorem sdalign_crc (src : Buffer) (b : Nat) (dst : Buffer) (n : Nat) :
    (sdalign src b dst n).2 =
      (Crc16.crc CRC16poly 0 (fun k => octet src (b + 8 * k)) n).setWidth 32 := by
  have hmask : ∀ edx : DWord, edx &&& 0xFFFF = (edx.setWidth 16).setWidth 32 := by
    intro edx
    apply BitVec.eq_of_toNat_eq
    rw [BitVec.toNat_and, BitVec.toNat_setWidth_of_le (by decide), BitVec.toNat_setWidth]
    exact Nat.and_two_pow_sub_one_eq_mod _ 16
  have hoctet : ∀ k, octet src (b + 8 * k) =
      high ((src (b / 8 + k) ++ src (b / 8 + k + 1)) <<< (b % 8)) := by
    intro k
    rw [octet, Nat.add_mul_div_left _ _ (by decide), Nat.add_mul_mod_self_left]
  have hzero : (0 : DWord).setWidth 16 = (0 : Word) := rfl
  simp only [hoctet, ← hzero, ← alignLoop_crc src (b % 8) n (b / 8) 0 0 dst, sdalign, hmask]
  split_ifs with hb
  · rw [copyLoop_eq, hb]
  · rfl

end Sd.SbcSd

/-! ### All four -/

/-- `crc.asm` is to take the string into the check. -/
structure Time.Given {W : Type} (s : Cpu (Time.Board W)) (str : List Byte) : Prop where
  count : Time.loopCount s.cx = str.length
  bytes : ∀ k (hk : k < str.length), Time.bytesAt s.world.mem s.es s.bx k = str[k]

/-- `sdcore.inc` is to make the check of the string, and has the table that `crcinit` left. -/
structure Sd.CoreCrc.Given (tab : Word) (init s : Cpu Seg) (str : List Byte) : Prop where
  table : ∀ j < 512, s.world (tab + BitVec.ofNat 16 j) = init.world (tab + BitVec.ofNat 16 j)
  count : Time.loopCount s.cx = str.length
  bytes : ∀ k (hk : k < str.length), bytesFrom s.world s.si k = str[k]

/-- `hex2bin.c` is. -/
structure Hex.Given (rom : Rom) (i : Nat) (str : List Byte) : Prop where
  within : i + str.length ≤ rom.romSize
  bytes : ∀ k (hk : k < str.length), rom.buffer (i + k) = str[k]

/-- **One check.** A string of any length that a routine's counter takes, at any place, from
any value on where the routine is given one, and from any bit on where it takes the bytes so. -/
theorem crcs_agree (str : List Byte) (hne : str ≠ []) (c : Word) :
    (∀ (W : Type) (s : Cpu (Time.Board W)), Time.Given s str → s.ax = c →
      (Time.crc16 s).ax = remainder c str) ∧
    (∀ (tab : Word) (s : Cpu Sd.CoreCrc.Seg), ∃ init, Sd.CoreCrc.crcinit tab s 256 = some init ∧
      ∀ s', Sd.CoreCrc.Given tab init s' str →
        (Sd.CoreCrc.crc16 tab s').ax = remainder 0 str) ∧
    (∀ (src : Buffer) (b : Nat) (dst : Buffer),
      (∀ k (hk : k < str.length), octet src (b + 8 * k) = str[k]) →
      (∀ k (hk : k < str.length), (Sd.SbcSd.sdalign src b dst str.length).1 k = str[k]) ∧
      (Sd.SbcSd.sdalign src b dst str.length).2 = (remainder 0 str).setWidth 32) ∧
    (∀ (rom : Hex.Rom) (i : Nat), str.length ≤ 2 ^ 32 → Hex.Given rom i str →
      Hex.crc16Big rom i (BitVec.ofNat 32 str.length) c = .ok (remainder c str)) := by
  refine ⟨?_, ?_, ?_, ?_⟩
  · intro W s h hc
    rw [Time.crc16_ax, h.count, hc, crc_eq_remainder h.bytes]
  · intro tab s
    obtain ⟨init, hinit, hfill⟩ := Sd.CoreCrc.crcinit_filling tab s
    refine ⟨init, hinit, fun s' h => ?_⟩
    rw [Sd.CoreCrc.crc16_eq (hfill.hasTable h.table), ← crc_eq_remainder h.bytes, ← h.count]
  · intro src b dst h
    refine ⟨fun k hk => ?_, ?_⟩
    · rw [Sd.SbcSd.sdalign_bytes src b dst hk, h k hk]
    · rw [Sd.SbcSd.sdalign_crc, crc_eq_remainder h]
  · intro rom i hlen h
    have hpos : 0 < str.length := List.length_pos_iff.mpr hne
    have hcount : (BitVec.ofNat 32 str.length - 1).toNat + 1 = str.length := by
      rw [BitVec.toNat_sub, BitVec.toNat_ofNat, show (1 : DWord).toNat = 1 from rfl]
      omega
    have hin : i + (BitVec.ofNat 32 str.length - 1).toNat < rom.romSize := by
      have := h.within
      omega
    rw [Hex.crc16Big, Hex.crcLoop_eq, if_pos hin, hcount, crc_eq_remainder h.bytes]

/-- The digits 1 to 9. -/
def nineDigits : List Byte := [0x31, 0x32, 0x33, 0x34, 0x35, 0x36, 0x37, 0x38, 0x39]

/-- A ROM that begins with them. -/
def digitsRom : Hex.Rom :=
  { buffer := fun i => nineDigits.getD i 0xFF, romSize := 256, pad := 0xFF, segmented := false }

example : remainder 0 nineDigits = 0x31C3 := by decide +kernel

theorem crcs_agree_digits :
    Hex.crc16Big digitsRom 0 (BitVec.ofNat 32 nineDigits.length) 0 = .ok (remainder 0 nineDigits) :=
  (crcs_agree nineDigits (by decide) 0).2.2.2 digitsRom 0 (by decide) ⟨by decide, by decide⟩

end Sbc386Ex

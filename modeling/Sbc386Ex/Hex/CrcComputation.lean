import Sbc386Ex.Crc16Tab
import Sbc386Ex.Hex.WriteHex

/-!
# Sbc386Ex.Hex.CrcComputation

`crc_computation` of `hex2bin.c`, which puts a check of the ROM into the ROM: a CRC, or one
of two checksums. An access outside the buffer ends the run, as does running out of `fuel`
in the walk of the checksums, which has no bound of its own.
-/

namespace Sbc386Ex.Hex

open BitBuffer (high low)

/-- `-c1`, `-c2` and `-c16`. -/
inductive Crc
  | CRC1
  | CRC2
  | CRC16
  deriving DecidableEq

inductive Fault
  | outside
  | running
  deriving DecidableEq

/-- `buffer[i]` -/
def Rom.read (rom : Rom) (i : Nat) : Except Fault Byte :=
  if i < rom.romSize then .ok (rom.buffer i) else .error .outside

/-! ### The CRC -/

/-- A byte of `crc16_big`. -/
def crcByte (crc : Word) (b : Byte) : Word :=
  crc <<< 8 ^^^ crc16tab.getD ((crc >>> 8) ^^^ b.setWidth 16).toNat 0

/-- The loop of `crc16_big`, `n` bytes to go after this one. -/
def crcLoop (rom : Rom) : (n i : Nat) → Word → Except Fault Word
  | 0, i, crc => (rom.read i).map (crcByte crc)
  | n + 1, i, crc => (rom.read i).bind fun b => crcLoop rom n (i + 1) (crcByte crc b)

def crc16Big (rom : Rom) (i : Nat) (count : DWord) (crc : Word) : Except Fault Word :=
  crcLoop rom (count - 1).toNat i crc

/-- The CRC of all but the word at `addr`. -/
def crcAround (rom : Rom) (addr : Nat) : Except Fault Word :=
  (if addr + 2 < rom.romSize then
    crc16Big rom (addr + 2) (BitVec.ofNat 32 (rom.romSize - (addr + 2))) 0
  else .ok 0).bind
    (crc16Big rom 0 (BitVec.ofNat 32 addr))

/-! ### The checksums -/

/-- The walk from `index` to `addr`: the sum, and the bytes it has come by (a ghost). -/
def sumLoop (rom : Rom) (mask addr : Nat) :
    (fuel index : Nat) → DWord → List Nat → Except Fault (DWord × List Nat)
  | 0, _, _, _ => .error .running
  | fuel + 1, index, temp, seen =>
      if index ≠ addr then
        (rom.read index).bind fun b =>
          sumLoop rom mask addr fuel ((index + 1) &&& mask) (temp + b.setWidth 32) (seen ++ [index])
      else .ok (temp, seen)

/-- The carries of the upper half put in below, and the complement. -/
def onesWord (temp : DWord) : DWord := ~~~(temp + (temp >>> 16))

/-- `temp` before it is stored, and the bytes the walk came by. -/
def checkWord (fuel : Nat) (crc : Crc) (addr : Nat) (rom : Rom) : Except Fault (DWord × List Nat) :=
  let mask := rom.romSize - 1
  let walk := sumLoop rom mask addr fuel ((addr + 2) &&& mask) 0 []
  match crc with
  | .CRC1 => walk.map fun r => (onesWord r.1, r.2)
  | .CRC2 => walk.map fun r => (-r.1, r.2)
  | .CRC16 => (crcAround rom addr).map fun c => (c.setWidth 32, [])

/-- A word of the ROM, big end first. -/
def Rom.store (rom : Rom) (addr : Nat) (temp : DWord) : Rom :=
  let buffer := Function.update rom.buffer addr ((temp >>> 8).setWidth 8)
  { rom with buffer := Function.update buffer (addr + 1) (temp.setWidth 8) }

/-- `crc_computation`: the ROM, and the bytes the walk came by. No option is no check, and
no address is the end of the ROM. -/
def crcComputation (fuel : Nat) (crc : Option Crc) (crcAddr : DWord) (rom : Rom) :
    Except Fault (Rom × List Nat) :=
  match crc with
  | none => .ok (rom, [])
  | some crc =>
      let addr := if crcAddr = -1 then rom.romSize - 2 else crcAddr.toNat
      (checkWord fuel crc addr rom).bind fun (temp, seen) =>
        let temp := temp &&& 0xFFFF
        if addr + 1 < rom.romSize then .ok (rom.store addr temp, seen) else .error .outside

/-! ### The CRC in place -/

section Crc

variable {rom rom' : Rom} {addr n i : Nat} {crc : Word}

theorem crcByte_eq (crc : Word) (b : Byte) : crcByte crc b = Crc16.step CRC16poly crc b := by
  have hindex : ((crc >>> 8) ^^^ b.setWidth 16).toNat = (b ^^^ high crc).toNat := by
    rw [show (crc >>> 8) ^^^ b.setWidth 16 = (b ^^^ high crc).setWidth 16 by
      refine BitVec.eq_of_getLsbD_eq fun k hk => ?_
      by_cases hlow : k < 8
      · simp [high, hlow, show k < 16 by omega, Bool.xor_comm]
      · simp [high, hlow, BitVec.getLsbD_of_ge b k (by omega),
          BitVec.getLsbD_of_ge crc (8 + k) (by omega)]]
    rw [BitVec.toNat_setWidth]
    have hlt := (b ^^^ high crc).isLt
    omega
  rw [crcByte, hindex, crc16tab_eq, Crc16.step]

/-- The loop is the CRC of the bytes it reads, if there are so many. -/
theorem crcLoop_eq : crcLoop rom n i crc =
    if i + n < rom.romSize then .ok (Crc16.crc CRC16poly crc (fun k => rom.buffer (i + k)) (n + 1))
    else .error .outside := by
  induction n generalizing i crc with
  | zero =>
      rw [crcLoop, Rom.read, Nat.add_zero]
      split
      · exact congrArg Except.ok (crcByte_eq crc _)
      · rfl
  | succ n ih =>
      rw [crcLoop, Rom.read]
      by_cases hin : i < rom.romSize
      · rw [if_pos hin, Except.bind, ih, crcByte_eq, show i + 1 + n = i + (n + 1) by omega]
        have hbytes : (fun k => rom.buffer (i + 1 + k)) = fun k => rom.buffer (i + (k + 1)) :=
          funext fun k => congrArg rom.buffer (by omega)
        have hcons : Crc16.crc CRC16poly crc (fun k => rom.buffer (i + k)) (n + 1 + 1) =
            Crc16.crc CRC16poly (Crc16.step CRC16poly crc (rom.buffer (i + 0)))
              (fun k => rom.buffer (i + (k + 1))) (n + 1) := Crc16.crc_cons
        rw [hcons, hbytes]
        rfl
      · rw [if_neg hin, if_neg (by omega)]
        rfl

/-- The bytes of the ROM cyclically from the one after the word at `addr`. -/
def Rom.after (rom : Rom) (addr k : Nat) : Byte := rom.buffer ((addr + 2 + k) % rom.romSize)

/-- A ROM size the option parser takes. -/
structure Rom.Sized (rom : Rom) : Prop where
  least : 256 ≤ rom.romSize
  most : rom.romSize ≤ MAX_MASK + 1

theorem max_mask_eq : MAX_MASK = 0xFFFFFF := by decide

/-- The count of `crc16_big`, less the one its first round takes for granted. -/
theorem count_sub_one (hn : 0 < n) (hmax : n < 2 ^ 32) : (BitVec.ofNat 32 n - 1).toNat = n - 1 := by
  rw [BitVec.toNat_sub, BitVec.toNat_ofNat, show (1 : DWord).toNat = 1 from rfl]
  omega

theorem crcAround_eq (hsize : rom.Sized) (hpos : 0 < addr) (haddr : addr + 2 ≤ rom.romSize) :
    crcAround rom addr = .ok (Crc16.crc CRC16poly 0 (rom.after addr) (rom.romSize - 2)) := by
  have hmost := hsize.most
  rw [max_mask_eq] at hmost
  -- the second piece, from the start of the ROM
  have hstart : ∀ crc, crc16Big rom 0 (BitVec.ofNat 32 addr) crc =
      .ok (Crc16.crc CRC16poly crc (fun k => rom.after addr (rom.romSize - (addr + 2) + k)) addr) := by
    intro crc
    have hbytes : (fun k => rom.after addr (rom.romSize - (addr + 2) + k)) =
        fun k => rom.buffer (k % rom.romSize) := funext fun k => by
      rw [Rom.after, show addr + 2 + (rom.romSize - (addr + 2) + k) = rom.romSize + k by omega,
        Nat.add_mod_left]
    rw [crc16Big, crcLoop_eq, count_sub_one hpos (by omega), if_pos (by omega), hbytes,
      Nat.sub_add_cancel hpos]
    refine congrArg Except.ok (Crc16.crc_congr fun k hk => ?_)
    rw [Nat.zero_add, Nat.mod_eq_of_lt (by omega)]
  have hsplit : rom.romSize - 2 = rom.romSize - (addr + 2) + addr := by omega
  rw [crcAround, hsplit, Crc16.crc_add]
  by_cases hlast : addr + 2 < rom.romSize
  · rw [if_pos hlast, crc16Big, crcLoop_eq, count_sub_one (by omega) (by omega), if_pos (by omega),
      Nat.sub_add_cancel (by omega)]
    refine (hstart _).trans (congrArg (fun c => Except.ok (Crc16.crc CRC16poly c _ addr)) ?_)
    refine Crc16.crc_congr fun k hk => ?_
    rw [Rom.after, Nat.mod_eq_of_lt (by omega)]
  · rw [if_neg hlast, show rom.romSize - (addr + 2) = 0 by omega]
    refine (hstart 0).trans ?_
    rw [show rom.romSize - (addr + 2) = 0 by omega]
    rfl

/-- At address 0 the second piece is empty, and its loop runs on past the end of the ROM. -/
theorem crcAround_zero (hsize : rom.Sized) : crcAround rom 0 = .error .outside := by
  have hleast := hsize.least
  have hmost := hsize.most
  rw [max_mask_eq] at hmost
  have hempty : (BitVec.ofNat 32 0 - 1 : DWord).toNat = 2 ^ 32 - 1 := by decide
  have hover : ∀ crc, crc16Big rom 0 (BitVec.ofNat 32 0) crc = .error .outside := by
    intro crc
    rw [crc16Big, crcLoop_eq, hempty, if_neg (by omega)]
  rw [crcAround, if_pos (by omega), crc16Big, crcLoop_eq, count_sub_one (by omega) (by omega),
    if_pos (by omega)]
  exact hover _

/-! ### Words stored -/

theorem high_stored (temp : DWord) : ((temp &&& 0xFFFF) >>> 8).setWidth 8 = high (temp.setWidth 16) := by
  have hmask : ∀ k < 16, (0xFFFF : DWord).getLsbD k = true := by decide
  refine BitVec.eq_of_getLsbD_eq fun k hk => ?_
  rw [high, BitVec.getLsbD_setWidth, BitVec.getLsbD_ushiftRight, BitVec.getLsbD_and,
    hmask _ (by omega), Bool.and_true, BitVec.getLsbD_extractLsb', BitVec.getLsbD_setWidth]
  simp [hk, show 8 + k < 16 by omega]

theorem low_stored (temp : DWord) : (temp &&& 0xFFFF).setWidth 8 = low (temp.setWidth 16) := by
  have hmask : ∀ k < 16, (0xFFFF : DWord).getLsbD k = true := by decide
  refine BitVec.eq_of_getLsbD_eq fun k hk => ?_
  rw [low, BitVec.getLsbD_setWidth, BitVec.getLsbD_and, hmask _ (by omega), Bool.and_true,
    BitVec.getLsbD_extractLsb', BitVec.getLsbD_setWidth]
  simp [hk, show k < 16 by omega]

variable {temp : DWord}

theorem store_first : (rom.store addr (temp &&& 0xFFFF)).buffer addr = high (temp.setWidth 16) :=
  (Function.update_of_ne (by omega) _ _).trans ((Function.update_self _ _ _).trans (high_stored temp))

theorem store_second : (rom.store addr (temp &&& 0xFFFF)).buffer (addr + 1) = low (temp.setWidth 16) :=
  (Function.update_self _ _ _).trans (low_stored temp)

theorem store_other (h : i ≠ addr) (h' : i ≠ addr + 1) : (rom.store addr temp).buffer i = rom.buffer i :=
  (Function.update_of_ne h' _ _).trans (Function.update_of_ne h _ _)

/-! ### The CRC of the whole -/

/-- The CRC of the whole ROM, cyclically from the byte after the word at `addr`, is zero. -/
def CrcPlaced (rom : Rom) (addr : Nat) : Prop :=
  Crc16.crc CRC16poly 0 (rom.after addr) rom.romSize = 0

/-- It is when that word is the CRC of the rest. -/
theorem crcPlaced_store (haddr : addr + 2 ≤ rom.romSize)
    (hcrc : Crc16.crc CRC16poly 0 (rom.after addr) (rom.romSize - 2) = temp.setWidth 16) :
    CrcPlaced (rom.store addr (temp &&& 0xFFFF)) addr := by
  have hrest : Crc16.crc CRC16poly 0 ((rom.store addr (temp &&& 0xFFFF)).after addr) (rom.romSize - 2) =
      temp.setWidth 16 := by
    rw [← hcrc]
    refine Crc16.crc_congr fun k hk => ?_
    have hne : (addr + 2 + k) % rom.romSize ≠ addr ∧ (addr + 2 + k) % rom.romSize ≠ addr + 1 := by
      by_cases hwrap : addr + 2 + k < rom.romSize
      · rw [Nat.mod_eq_of_lt hwrap]
        omega
      · rw [Nat.mod_eq_sub_mod (by omega), Nat.mod_eq_of_lt (by omega)]
        omega
    exact store_other hne.1 hne.2
  have hplace : ∀ j < rom.romSize, (rom.store addr (temp &&& 0xFFFF)).after addr (rom.romSize - 2 + j) =
      (rom.store addr (temp &&& 0xFFFF)).buffer ((addr + j) % rom.romSize) := by
    intro j hj
    rw [Rom.after, show addr + 2 + (rom.romSize - 2 + j) = rom.romSize + (addr + j) by omega]
    exact congrArg _ (Nat.add_mod_left _ _)
  have hfirst := hplace 0 (by omega)
  rw [Nat.add_zero, Nat.add_zero, Nat.mod_eq_of_lt (by omega), store_first, ← hrest] at hfirst
  have hsecond := hplace 1 (by omega)
  rw [Nat.mod_eq_of_lt (by omega), store_second, ← hrest] at hsecond
  have hsize : rom.romSize = rom.romSize - 2 + 2 := by omega
  rw [CrcPlaced, show (rom.store addr (temp &&& 0xFFFF)).romSize = rom.romSize from rfl, hsize]
  exact Crc16.crc_residue hfirst hsecond

end Crc

/-! ### When it is -/

/-- `-c16` ends without an access outside the buffer and leaves a ROM whose CRC is zero. -/
def PlacesCrc (fuel : Nat) (crcAddr : DWord) (rom : Rom) : Prop :=
  ∃ rom' seen, crcComputation fuel (some .CRC16) crcAddr rom = .ok (rom', seen) ∧
    CrcPlaced rom' crcAddr.toNat

theorem crcComputation_crc16 {fuel : Nat} {crcAddr : DWord} {rom : Rom}
    (haddr : crcAddr.toNat + 2 ≤ rom.romSize) (hsize : rom.Sized) :
    crcComputation fuel (some .CRC16) crcAddr rom =
      (crcAround rom crcAddr.toNat).map fun c =>
        (rom.store crcAddr.toNat (c.setWidth 32 &&& 0xFFFF), []) := by
  have hmost := hsize.most
  rw [max_mask_eq] at hmost
  have hflag : crcAddr ≠ -1 := by
    rintro rfl
    have hval : (-1 : DWord).toNat = 2 ^ 32 - 1 := by decide
    omega
  rw [crcComputation, if_neg hflag, checkWord]
  cases crcAround rom crcAddr.toNat with
  | error e => rfl
  | ok c => exact if_pos (by omega)

theorem not_placesCrc_zero {fuel : Nat} {rom : Rom} (hsize : rom.Sized) : ¬ PlacesCrc fuel 0 rom := by
  rintro ⟨rom', seen, hrun, -⟩
  have hleast := hsize.least
  rw [crcComputation_crc16 (show (0 : DWord).toNat + 2 ≤ rom.romSize by
    rw [show (0 : DWord).toNat = 0 from rfl]; omega) hsize] at hrun
  rw [show (0 : DWord).toNat = 0 from rfl, crcAround_zero hsize] at hrun
  cases hrun

/-- **`-c16`** puts the CRC in place wherever there is something before it. -/
theorem placesCrc_iff (fuel : Nat) (crcAddr : DWord) (rom : Rom) (hsize : rom.Sized)
    (haddr : crcAddr.toNat + 2 ≤ rom.romSize) : PlacesCrc fuel crcAddr rom ↔ crcAddr ≠ 0 := by
  constructor
  · rintro h rfl
    exact not_placesCrc_zero hsize h
  · intro hne
    have hpos : 0 < crcAddr.toNat := Nat.pos_of_ne_zero fun h => hne (BitVec.eq_of_toNat_eq h)
    obtain ⟨c, hc⟩ : ∃ c, Crc16.crc CRC16poly 0 (rom.after crcAddr.toNat) (rom.romSize - 2) = c := ⟨_, rfl⟩
    have hback : (c.setWidth 32).setWidth 16 = c := by simp
    refine ⟨rom.store crcAddr.toNat (c.setWidth 32 &&& 0xFFFF), [], ?_,
      crcPlaced_store haddr (hc.trans hback.symm)⟩
    rw [crcComputation_crc16 haddr hsize, crcAround_eq hsize hpos haddr, hc]
    rfl

/-- A ROM of 256 bytes, all FF. -/
def blank : Rom := ⟨fun _ => 0xFF, 256, 0xFF, false⟩

theorem blank_sized : blank.Sized := ⟨by decide, by decide⟩

theorem placesCrc_blank : PlacesCrc 0 0xEE blank ↔ (0xEE : DWord) ≠ 0 :=
  placesCrc_iff 0 0xEE blank blank_sized (by decide)

theorem not_placesCrc_blank : ¬ PlacesCrc 0 0 blank := not_placesCrc_zero blank_sized

end Sbc386Ex.Hex

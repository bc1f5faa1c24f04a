import Mathlib.Algebra.Order.BigOperators.Group.List
import Mathlib.Algebra.Order.Group.Nat
import Sbc386Ex.Hex.CrcComputation

/-!
# Sbc386Ex.Hex.Checksum

The checksums of `crc_computation`, `-c1` and `-c2`. The walk steps its index by the mask
`rom_size-1`, which is a modulus only where the size is a power of two; and the carries of
the one's complement sum are put in once, which may carry again.
-/

namespace Sbc386Ex.Hex

open BitBuffer (high low)

/-! ### What a checksum is -/

/-- The sum of two words with the carry put in at the other end. -/
def onesAdd (a b : Nat) : Nat := if a + b < 0x10000 then a + b else a + b - 0xFFFF

def onesSum (l : List Nat) : Nat := l.foldl onesAdd 0

/-- The bytes outside the word at `addr`. -/
def Rom.others (rom : Rom) (addr : Nat) : List Nat :=
  ((List.range rom.romSize).filter fun i => i ≠ addr ∧ i ≠ addr + 1).map fun i => (rom.buffer i).toNat

/-- The word at `addr`, big end first. -/
def Rom.word (rom : Rom) (addr : Nat) : Nat :=
  (rom.buffer addr).toNat * 0x100 + (rom.buffer (addr + 1)).toNat

/-- The word at `addr` is the check of the other bytes. -/
def Checks (crc : Crc) (rom : Rom) (addr : Nat) : Prop :=
  match crc with
  | .CRC1 => onesAdd (onesSum (rom.others addr)) (rom.word addr) = 0xFFFF
  | .CRC2 => ((rom.others addr).sum + rom.word addr) % 0x10000 = 0
  | .CRC16 => CrcPlaced rom addr

/-- What a checksum option is to do: end, having come by every byte outside the word once,
with that word the check of the others, which are as they were. -/
structure Checked (crc : Crc) (addr : Nat) (rom rom' : Rom) (seen : List Nat) : Prop where
  once : seen.Nodup ∧ ∀ i, i ∈ seen ↔ i < rom.romSize ∧ i ≠ addr ∧ i ≠ addr + 1
  kept : ∀ i, i ≠ addr → i ≠ addr + 1 → rom'.buffer i = rom.buffer i
  size : rom'.romSize = rom.romSize
  word : Checks crc rom' addr

def PlacesSum (crc : Crc) (crcAddr : DWord) (rom : Rom) : Prop :=
  ∃ fuel rom' seen, crcComputation fuel (some crc) crcAddr rom = .ok (rom', seen) ∧
    Checked crc crcAddr.toNat rom rom' seen

/-- The carries of the sum of the other bytes, put in, do not carry again. -/
def FoldsOnce (rom : Rom) (addr : Nat) : Prop :=
  (rom.others addr).sum % 0x10000 + (rom.others addr).sum / 0x10000 < 0x10000

/-! ### The end-around carry -/

theorem onesSum_eq (l : List Nat) (h : ∀ x ∈ l, x < 0x100) :
    onesSum l = if l.sum = 0 then 0 else (l.sum - 1) % 0xFFFF + 1 := by
  induction l using List.reverseRecOn with
  | nil => rfl
  | append_singleton l x ih =>
      have hx : x < 0x100 := h x (by simp)
      have hl := ih fun y hy => h y (by simp [hy])
      rw [onesSum, List.foldl_append, ← onesSum, hl, List.sum_append, List.sum_singleton]
      show onesAdd _ x = _
      rw [onesAdd]
      split_ifs <;> omega

/-- One fold of a sum is its end-around-carry sum, unless the fold carries. -/
theorem onesAdd_eq_iff {n : Nat} (h : n < 2 ^ 32) :
    onesAdd (if n = 0 then 0 else (n - 1) % 0xFFFF + 1) (0xFFFF - (n + n / 0x10000) % 0x10000) = 0xFFFF ↔
      n % 0x10000 + n / 0x10000 < 0x10000 := by
  have hfold : (n + n / 0x10000) % 0x10000 = (n % 0x10000 + n / 0x10000) % 0x10000 :=
    (Nat.mod_add_mod _ _ _).symm
  obtain ⟨high, low, hn, hlow, hhigh⟩ : ∃ high low, n = 0x10000 * high + low ∧ low < 0x10000 ∧
      high < 0x10000 := ⟨n / 0x10000, n % 0x10000, by omega, by omega, by omega⟩
  have hquot : n / 0x10000 = high := by omega
  have hrem : n % 0x10000 = low := by omega
  rw [hfold, hquot, hrem]
  by_cases hzero : n = 0
  · obtain ⟨rfl, rfl⟩ : high = 0 ∧ low = 0 := by omega
    rw [if_pos hzero]
    decide
  · have hsum : n - 1 = high + low - 1 + 0xFFFF * high := by omega
    rw [if_neg hzero, hsum, Nat.add_mul_mod_self_left]
    by_cases hcarry : high + low < 0x10000
    · have hone : high + low - 1 + 1 = low + high := by omega
      have hle : low + high ≤ 0xFFFF := by omega
      rw [Nat.mod_eq_of_lt (show high + low - 1 < 0xFFFF by omega),
        Nat.mod_eq_of_lt (show low + high < 0x10000 by omega), hone, onesAdd, Nat.add_sub_of_le hle]
      refine iff_of_true (by decide) ?_
      omega
    · have hle : 0x10000 ≤ low + high := by omega
      obtain ⟨excess, hexcess⟩ := Nat.exists_eq_add_of_le' hle
      have hless : high + low - 1 = excess + 0xFFFF := by omega
      rw [hless, hexcess, Nat.add_mod_right, Nat.add_mod_right, Nat.mod_eq_of_lt (by omega),
        Nat.mod_eq_of_lt (by omega)]
      have hsum : excess + 1 + (0xFFFF - excess) = 0x10000 := by omega
      rw [onesAdd, hsum]
      refine iff_of_false (by decide) ?_
      omega

/-! ### The walk -/

section Walk

variable {rom : Rom} {addr index fuel n : Nat} {temp : DWord} {seen : List Nat}

/-- Where the size is a power of two the mask is a modulus. -/
theorem and_mask {k size : Nat} (hsize : size = 2 ^ k) (x : Nat) : x &&& (size - 1) = x % size := by
  rw [hsize, Nat.and_two_pow_sub_one_eq_mod]

/-- The `n` bytes from `start` on, cyclically. -/
def cycle (size start n : Nat) : List Nat := (List.range n).map fun j => (start + j) % size

theorem cycle_succ (size start n : Nat) :
    cycle size start (n + 1) = start % size :: cycle size (start + 1) n := by
  rw [cycle, List.range_succ_eq_map, List.map_cons, List.map_map, cycle, Nat.add_zero]
  refine congrArg _ (List.map_congr_left fun j _ => ?_)
  show (start + (j + 1)) % size = (start + 1 + j) % size
  rw [Nat.add_assoc, Nat.add_comm 1 j]

/-- The bytes at some indices, summed up in a double word. -/
def sumOf (rom : Rom) (l : List Nat) : DWord :=
  BitVec.ofNat 32 (l.map fun i => (rom.buffer i).toNat).sum

theorem sumOf_cons (rom : Rom) (i : Nat) (l : List Nat) :
    sumOf rom (i :: l) = (rom.buffer i).setWidth 32 + sumOf rom l := by
  rw [sumOf, sumOf, List.map_cons, List.sum_cons, BitVec.ofNat_add, BitVec.ofNat_toNat]

theorem sumLoop_eq {k : Nat} (hpow : rom.romSize = 2 ^ k) (hfuel : n < fuel)
    (hend : (index + n) % rom.romSize = addr) (hnot : ∀ j < n, (index + j) % rom.romSize ≠ addr) :
    sumLoop rom (rom.romSize - 1) addr fuel (index % rom.romSize) temp seen =
      .ok (temp + sumOf rom (cycle rom.romSize index n), seen ++ cycle rom.romSize index n) := by
  have hpos : 0 < rom.romSize := hpow ▸ Nat.two_pow_pos k
  induction n generalizing fuel index temp seen with
  | zero =>
      obtain ⟨fuel, rfl⟩ : ∃ m, fuel = m + 1 := ⟨fuel - 1, by omega⟩
      rw [Nat.add_zero] at hend
      rw [sumLoop, if_neg (not_not.mpr hend)]
      simp [cycle, sumOf]
  | succ n ih =>
      obtain ⟨fuel, rfl⟩ : ∃ m, fuel = m + 1 := ⟨fuel - 1, by omega⟩
      have hgo : index % rom.romSize ≠ addr := hnot 0 (by omega)
      have hstep : ((index % rom.romSize) + 1) &&& (rom.romSize - 1) = (index + 1) % rom.romSize := by
        rw [and_mask hpow, Nat.mod_add_mod]
      have hend' : (index + 1 + n) % rom.romSize = addr := by
        rw [← hend]
        congr 1
        omega
      have hnot' : ∀ j < n, (index + 1 + j) % rom.romSize ≠ addr := by
        intro j hj
        have hj' := hnot (j + 1) (by omega)
        rwa [show index + (j + 1) = index + 1 + j by omega] at hj'
      rw [sumLoop, if_pos hgo, Rom.read, if_pos (Nat.mod_lt _ hpos), Except.bind, hstep,
        ih (by omega) hend' hnot', cycle_succ, sumOf_cons, BitVec.add_assoc, List.append_assoc,
        List.singleton_append]

/-- More fuel changes no result. -/
theorem sumLoop_mono {mask m : Nat} {r : DWord × List Nat}
    (h : sumLoop rom mask addr fuel index temp seen = .ok r) :
    sumLoop rom mask addr (fuel + m) index temp seen = .ok r := by
  induction fuel generalizing index temp seen with
  | zero => cases h
  | succ fuel ih =>
      rw [Nat.add_right_comm]
      rw [sumLoop] at h ⊢
      by_cases hgo : index ≠ addr
      · rw [if_pos hgo] at h ⊢
        cases hread : rom.read index with
        | error e => rw [hread] at h; cases h
        | ok b =>
            rw [hread] at h
            exact ih h
      · rw [if_neg hgo] at h ⊢
        exact h

/-- The walk never comes by an index that the mask changes. -/
theorem sumLoop_masked {mask : Nat} {r : DWord × List Nat}
    (h : sumLoop rom mask addr fuel index temp seen = .ok r) (hindex : index &&& mask = index)
    (hseen : ∀ i ∈ seen, i &&& mask = i) : ∀ i ∈ r.2, i &&& mask = i := by
  induction fuel generalizing index temp seen with
  | zero => cases h
  | succ fuel ih =>
      rw [sumLoop] at h
      by_cases hgo : index ≠ addr
      · rw [if_pos hgo] at h
        cases hread : rom.read index with
        | error e => rw [hread] at h; cases h
        | ok b =>
            rw [hread] at h
            refine ih h (by rw [Nat.and_assoc, Nat.and_self]) fun i hi => ?_
            rcases List.mem_append.mp hi with hi | hi
            · exact hseen i hi
            · rwa [List.mem_singleton.mp hi]
      · rw [if_neg hgo] at h
        obtain rfl := Except.ok.inj h
        exact hseen

/-- Where the size is no power of two there is such an index, outside any word. -/
theorem exists_changed {size : Nat} (hleast : 256 ≤ size) (hpow : ¬ ∃ k, size = 2 ^ k) (addr : Nat) :
    ∃ i < size, i ≠ addr ∧ i ≠ addr + 1 ∧ i &&& (size - 1) ≠ i := by
  -- a bit below the top one that the mask has not got
  obtain ⟨k, hk, hbit⟩ : ∃ k, 2 ^ (k + 1) ≤ size - 1 ∧ (size - 1).testBit k = false := by
    by_contra hall
    have htop : 2 ^ (size - 1).log2 ≤ size - 1 := Nat.log2_self_le (by omega)
    have hlt : size - 1 < 2 ^ ((size - 1).log2 + 1) := Nat.lt_log2_self
    refine hpow ⟨(size - 1).log2 + 1, ?_⟩
    have hones : size - 1 = 2 ^ ((size - 1).log2 + 1) - 1 := by
      refine Nat.eq_of_testBit_eq fun j => ?_
      rw [Nat.testBit_two_pow_sub_one]
      rcases Nat.lt_trichotomy j (size - 1).log2 with hj | rfl | hj
      · rw [decide_eq_true (by omega)]
        by_contra hfalse
        refine hall ⟨j, Nat.le_trans (Nat.pow_le_pow_right (by decide) hj) htop, ?_⟩
        exact Bool.eq_false_iff.mpr hfalse
      · rw [decide_eq_true (by omega), Nat.testBit_eq_decide_div_mod_eq,
          Nat.div_eq_of_lt_le (k := 1) (by omega) (by rw [Nat.pow_succ] at hlt; omega)]
        rfl
      · rw [decide_eq_false (by omega)]
        exact Nat.testBit_lt_two_pow (Nat.lt_of_lt_of_le hlt (Nat.pow_le_pow_right (by decide) hj))
    omega
  have hchanged : ∀ i, i / 2 ^ k % 2 = 1 → i &&& (size - 1) ≠ i := by
    intro i hi heq
    have htest := congrArg (fun x => Nat.testBit x k) heq
    rw [Nat.testBit_and, hbit, Bool.and_false, Nat.testBit_eq_decide_div_mod_eq, hi] at htest
    cases htest
  -- `2 ^ k` has that bit, and so has another number that is no more than a few above it
  by_cases hfree : 2 ^ k ≠ addr ∧ 2 ^ k ≠ addr + 1
  · refine ⟨2 ^ k, by rw [Nat.pow_succ] at hk; omega, hfree.1, hfree.2, hchanged _ ?_⟩
    rw [Nat.div_self (Nat.two_pow_pos k)]
  · match k, hk, hchanged, hfree with
    | 0, _, hchanged, hfree => exact ⟨5, by omega, by omega, by omega, hchanged 5 rfl⟩
    | 1, _, hchanged, hfree => exact ⟨6, by omega, by omega, by omega, hchanged 6 rfl⟩
    | k + 2, hk, hchanged, hfree =>
        have hpos := Nat.two_pow_pos k
        rw [Nat.pow_succ 2 (k + 2)] at hk
        have hfour : 2 ^ (k + 2) = 2 ^ k * 2 * 2 := by rw [Nat.pow_succ, Nat.pow_succ]
        refine ⟨2 ^ (k + 2) + 2, by omega, by omega, by omega, hchanged _ ?_⟩
        have hsmall : 2 / 2 ^ (k + 2) = 0 := Nat.div_eq_of_lt (by omega)
        rw [Nat.add_div_left _ (Nat.two_pow_pos _), hsmall]

end Walk

/-! ### The other bytes -/

section Others

variable {rom rom' : Rom} {addr : Nat} {temp : DWord}

theorem mem_cycle (haddr : addr + 2 ≤ rom.romSize) {i : Nat} :
    i ∈ cycle rom.romSize (addr + 2) (rom.romSize - 2) ↔ i < rom.romSize ∧ i ≠ addr ∧ i ≠ addr + 1 := by
  rw [cycle, List.mem_map]
  constructor
  · rintro ⟨j, hj, rfl⟩
    have hj' := List.mem_range.mp hj
    refine ⟨Nat.mod_lt _ (by omega), ?_⟩
    by_cases hwrap : addr + 2 + j < rom.romSize
    · rw [Nat.mod_eq_of_lt hwrap]
      omega
    · rw [Nat.mod_eq_sub_mod (by omega), Nat.mod_eq_of_lt (by omega)]
      omega
  · rintro ⟨hlt, hne, hne'⟩
    by_cases hafter : addr + 2 ≤ i
    · refine ⟨i - (addr + 2), List.mem_range.mpr (by omega), ?_⟩
      rw [Nat.add_sub_cancel' hafter, Nat.mod_eq_of_lt hlt]
    · refine ⟨i + rom.romSize - (addr + 2), List.mem_range.mpr (by omega), ?_⟩
      rw [Nat.add_sub_cancel' (by omega), Nat.add_mod_right, Nat.mod_eq_of_lt hlt]

theorem nodup_cycle (haddr : addr + 2 ≤ rom.romSize) :
    (cycle rom.romSize (addr + 2) (rom.romSize - 2)).Nodup := by
  refine List.Nodup.map_on (fun i hi j hj heq => ?_) List.nodup_range
  have hi' := List.mem_range.mp hi
  have hj' := List.mem_range.mp hj
  by_cases hwrap : addr + 2 + i < rom.romSize <;> by_cases hwrap' : addr + 2 + j < rom.romSize
  · rw [Nat.mod_eq_of_lt hwrap, Nat.mod_eq_of_lt hwrap'] at heq
    omega
  · rw [Nat.mod_eq_of_lt hwrap, Nat.mod_eq_sub_mod (by omega), Nat.mod_eq_of_lt (by omega)] at heq
    omega
  · rw [Nat.mod_eq_of_lt hwrap', Nat.mod_eq_sub_mod (by omega), Nat.mod_eq_of_lt (by omega)] at heq
    omega
  · rw [Nat.mod_eq_sub_mod (by omega), Nat.mod_eq_of_lt (by omega),
      Nat.mod_eq_sub_mod (b := rom.romSize) (by omega),
      Nat.mod_eq_of_lt (show addr + 2 + j - rom.romSize < rom.romSize by omega)] at heq
    omega

/-- The walk sums up the other bytes. -/
theorem sumOf_cycle (haddr : addr + 2 ≤ rom.romSize) :
    sumOf rom (cycle rom.romSize (addr + 2) (rom.romSize - 2)) =
      BitVec.ofNat 32 (rom.others addr).sum := by
  have hperm : (cycle rom.romSize (addr + 2) (rom.romSize - 2)).Perm
      ((List.range rom.romSize).filter fun i => i ≠ addr ∧ i ≠ addr + 1) := by
    refine (List.perm_ext_iff_of_nodup (nodup_cycle haddr) (List.nodup_range.filter _)).mpr fun i => ?_
    rw [mem_cycle haddr, List.mem_filter, List.mem_range, decide_eq_true_iff]
  rw [sumOf, Rom.others, (hperm.map _).sum_eq]

theorem others_congr (hsize : rom'.romSize = rom.romSize)
    (hkept : ∀ i, i ≠ addr → i ≠ addr + 1 → rom'.buffer i = rom.buffer i) :
    rom'.others addr = rom.others addr := by
  rw [Rom.others, Rom.others, hsize]
  refine List.map_congr_left fun i hi => ?_
  have hne := of_decide_eq_true (List.mem_filter.mp hi).2
  rw [hkept i hne.1 hne.2]

theorem word_store : (rom.store addr (temp &&& 0xFFFF)).word addr = (temp.setWidth 16).toNat := by
  rw [Rom.word, store_first, store_second]
  have hbytes := BitVec.toNat_append (high (temp.setWidth 16)) (low (temp.setWidth 16))
  have hlow := (low (temp.setWidth 16)).isLt
  have hwhole : high (temp.setWidth 16) ++ low (temp.setWidth 16) = temp.setWidth 16 :=
    BitVec.extractLsb'_append_extractLsb'
  rw [hwhole, ← Nat.shiftLeft_add_eq_or_of_lt hlow, Nat.shiftLeft_eq] at hbytes
  exact hbytes.symm

theorem others_lt {x : Nat} (h : x ∈ rom.others addr) : x < 0x100 := by
  obtain ⟨i, -, rfl⟩ := List.mem_map.mp h
  exact (rom.buffer i).isLt

theorem sum_others_lt (hsize : rom.Sized) : (rom.others addr).sum < 2 ^ 32 := by
  have hmost := hsize.most
  rw [max_mask_eq] at hmost
  have hlen : (rom.others addr).length ≤ rom.romSize := by
    rw [Rom.others, List.length_map]
    exact (List.length_filter_le _ _).trans_eq (List.length_range)
  have hsum : (rom.others addr).sum ≤ (rom.others addr).length * 0xFF :=
    List.sum_le_card_nsmul _ _ fun x hx => Nat.lt_succ_iff.mp (others_lt hx)
  omega

end Others

/-! ### When the checksum is right -/

section Placed

variable {crc : Crc} {crcAddr : DWord} {rom : Rom} {fuel : Nat}

/-- The word of a checksum option, its walk given. -/
def sumWord (crc : Crc) (temp : DWord) : DWord := if crc = .CRC1 then onesWord temp else -temp

theorem checkWord_sum (hcrc : crc ≠ .CRC16) (addr : Nat) :
    checkWord fuel crc addr rom =
      (sumLoop rom (rom.romSize - 1) addr fuel ((addr + 2) &&& (rom.romSize - 1)) 0 []).map
        fun r => (sumWord crc r.1, r.2) := by
  cases crc with
  | CRC1 => rfl
  | CRC2 => rfl
  | CRC16 => exact absurd rfl hcrc

/-- A run of a checksum option, its walk given. -/
theorem crcComputation_sum (hcrc : crc ≠ .CRC16) (hsize : rom.Sized)
    (haddr : crcAddr.toNat + 2 ≤ rom.romSize) :
    crcComputation fuel (some crc) crcAddr rom =
      (sumLoop rom (rom.romSize - 1) crcAddr.toNat fuel ((crcAddr.toNat + 2) &&& (rom.romSize - 1)) 0 []).map
        fun r => (rom.store crcAddr.toNat (sumWord crc r.1 &&& 0xFFFF), r.2) := by
  have hmost := hsize.most
  rw [max_mask_eq] at hmost
  have hflag : crcAddr ≠ -1 := by
    rintro rfl
    have hval : (-1 : DWord).toNat = 2 ^ 32 - 1 := by decide
    omega
  rw [crcComputation, if_neg hflag, checkWord_sum hcrc]
  cases sumLoop rom (rom.romSize - 1) crcAddr.toNat fuel
      ((crcAddr.toNat + 2) &&& (rom.romSize - 1)) 0 [] with
  | error e => rfl
  | ok r => exact if_pos (by omega)

/-- The word stored is the check just when the carries put in do not carry again. -/
theorem checks_store (hcrc : crc ≠ .CRC16) (hsize : rom.Sized) (addr : Nat) :
    Checks crc (rom.store addr (sumWord crc (BitVec.ofNat 32 (rom.others addr).sum) &&& 0xFFFF)) addr ↔
      (crc = .CRC1 → FoldsOnce rom addr) := by
  have hothers : ∀ temp, (rom.store addr temp).others addr = rom.others addr := fun temp =>
    others_congr rfl fun i hne hne' => store_other hne hne'
  have hlt : (rom.others addr).sum < 2 ^ 32 := sum_others_lt hsize
  cases crc with
  | CRC16 => exact absurd rfl hcrc
  | CRC2 =>
      have hword : ((sumWord .CRC2 (BitVec.ofNat 32 (rom.others addr).sum)).setWidth 16).toNat =
          (2 ^ 32 - (rom.others addr).sum) % 2 ^ 32 % 2 ^ 16 := by
        rw [sumWord, if_neg (by decide), BitVec.toNat_setWidth, BitVec.toNat_neg, BitVec.toNat_ofNat,
          Nat.mod_eq_of_lt hlt]
      rw [Checks, hothers, word_store, hword]
      refine iff_of_true ?_ fun h => by cases h
      omega
  | CRC1 =>
      have hword : ((sumWord .CRC1 (BitVec.ofNat 32 (rom.others addr).sum)).setWidth 16).toNat =
          0xFFFF - ((rom.others addr).sum + (rom.others addr).sum / 0x10000) % 0x10000 := by
        rw [sumWord, if_pos rfl, onesWord, BitVec.toNat_setWidth, BitVec.toNat_not, BitVec.toNat_add,
          BitVec.toNat_ushiftRight, BitVec.toNat_ofNat, Nat.mod_eq_of_lt hlt, Nat.shiftRight_eq_div_pow]
        omega
      rw [Checks, hothers, word_store, hword, onesSum_eq _ fun x hx => others_lt hx, FoldsOnce]
      refine Iff.trans ?_ (forall_prop_of_true rfl).symm
      exact onesAdd_eq_iff hlt

theorem walk_eq {k m : Nat} (hpow : rom.romSize = 2 ^ k) (haddr : crcAddr.toNat + 2 ≤ rom.romSize) :
    sumLoop rom (rom.romSize - 1) crcAddr.toNat (rom.romSize - 2 + 1 + m)
        ((crcAddr.toNat + 2) &&& (rom.romSize - 1)) 0 [] =
      .ok (BitVec.ofNat 32 (rom.others crcAddr.toNat).sum,
        cycle rom.romSize (crcAddr.toNat + 2) (rom.romSize - 2)) := by
  have hend : (crcAddr.toNat + 2 + (rom.romSize - 2)) % rom.romSize = crcAddr.toNat := by
    rw [show crcAddr.toNat + 2 + (rom.romSize - 2) = rom.romSize + crcAddr.toNat by omega,
      Nat.add_mod_left, Nat.mod_eq_of_lt (by omega)]
  have hnot : ∀ j < rom.romSize - 2, (crcAddr.toNat + 2 + j) % rom.romSize ≠ crcAddr.toNat := by
    intro j hj
    have hmem := (mem_cycle haddr).mp (List.mem_map.mpr ⟨j, List.mem_range.mpr hj, rfl⟩)
    exact hmem.2.1
  rw [and_mask hpow, sumLoop_eq hpow (by omega) hend hnot, sumOf_cycle haddr, List.nil_append]
  exact congrArg (fun temp => Except.ok (temp, _)) (BitVec.zero_add _)

/-- What a run of a checksum option has done. -/
theorem PlacesSum.walk (hcrc : crc ≠ .CRC16) (hsize : rom.Sized) (haddr : crcAddr.toNat + 2 ≤ rom.romSize)
    (h : PlacesSum crc crcAddr rom) : ∃ fuel r,
      sumLoop rom (rom.romSize - 1) crcAddr.toNat fuel ((crcAddr.toNat + 2) &&& (rom.romSize - 1)) 0 [] =
        .ok r ∧
      Checked crc crcAddr.toNat rom (rom.store crcAddr.toNat (sumWord crc r.1 &&& 0xFFFF)) r.2 := by
  obtain ⟨fuel, rom', seen, hrun, hchecked⟩ := h
  rw [crcComputation_sum hcrc hsize haddr] at hrun
  cases hwalk : sumLoop rom (rom.romSize - 1) crcAddr.toNat fuel
      ((crcAddr.toNat + 2) &&& (rom.romSize - 1)) 0 [] with
  | error e => rw [hwalk] at hrun; cases hrun
  | ok r =>
      rw [hwalk] at hrun
      cases hrun
      exact ⟨fuel, r, hwalk, hchecked⟩

theorem PlacesSum.power (hcrc : crc ≠ .CRC16) (hsize : rom.Sized)
    (haddr : crcAddr.toNat + 2 ≤ rom.romSize) (h : PlacesSum crc crcAddr rom) :
    ∃ k, rom.romSize = 2 ^ k := by
  obtain ⟨fuel, r, hwalk, hchecked⟩ := h.walk hcrc hsize haddr
  by_contra hpow
  obtain ⟨i, hi, hne, hne', hchanged⟩ := exists_changed hsize.least hpow crcAddr.toNat
  have hstart : ((crcAddr.toNat + 2) &&& (rom.romSize - 1)) &&& (rom.romSize - 1) =
      (crcAddr.toNat + 2) &&& (rom.romSize - 1) := by rw [Nat.and_assoc, Nat.and_self]
  exact hchanged (sumLoop_masked hwalk hstart (fun j hj => absurd hj List.not_mem_nil) i
    ((hchecked.once.2 i).mpr ⟨hi, hne, hne'⟩))

theorem PlacesSum.folds (hcrc : crc ≠ .CRC16) (hsize : rom.Sized)
    (haddr : crcAddr.toNat + 2 ≤ rom.romSize) (h : PlacesSum crc crcAddr rom) :
    crc = .CRC1 → FoldsOnce rom crcAddr.toNat := by
  obtain ⟨k, hpow⟩ := h.power hcrc hsize haddr
  obtain ⟨fuel, r, hwalk, hchecked⟩ := h.walk hcrc hsize haddr
  -- with more fuel it is the run that is known
  have hmore := sumLoop_mono (m := rom.romSize - 2 + 1) hwalk
  rw [Nat.add_comm fuel, walk_eq hpow haddr] at hmore
  cases hmore
  exact (checks_store hcrc hsize _).mp hchecked.word

/-- **`-c1` and `-c2`** place their checksum just where the size is a power of two and, for
the one's complement, the carries put in do not carry again. -/
theorem placesSum_iff (crc : Crc) (crcAddr : DWord) (rom : Rom) (hcrc : crc ≠ .CRC16)
    (hsize : rom.Sized) (haddr : crcAddr.toNat + 2 ≤ rom.romSize) :
    PlacesSum crc crcAddr rom ↔
      (∃ k, rom.romSize = 2 ^ k) ∧ (crc = .CRC1 → FoldsOnce rom crcAddr.toNat) := by
  constructor
  · intro h
    exact ⟨h.power hcrc hsize haddr, h.folds hcrc hsize haddr⟩
  · rintro ⟨⟨k, hpow⟩, hfold⟩
    have hrun : crcComputation (rom.romSize - 2 + 1 + 0) (some crc) crcAddr rom =
        .ok (rom.store crcAddr.toNat
            (sumWord crc (BitVec.ofNat 32 (rom.others crcAddr.toNat).sum) &&& 0xFFFF),
          cycle rom.romSize (crcAddr.toNat + 2) (rom.romSize - 2)) := by
      rw [crcComputation_sum hcrc hsize haddr, walk_eq hpow haddr]
      rfl
    exact ⟨_, _, _, hrun, {
        once := ⟨nodup_cycle haddr, fun i => mem_cycle haddr⟩
        kept := fun i hne hne' => store_other hne hne'
        size := rfl
        word := (checks_store hcrc hsize _).mpr hfold }⟩

end Placed

theorem placesSum_blank : PlacesSum .CRC2 0xEE blank :=
  (placesSum_iff .CRC2 0xEE blank (by decide) blank_sized (by decide)).mpr
    ⟨⟨8, rfl⟩, fun h => by cases h⟩

/-- 768 bytes. -/
def odd768 : Rom := ⟨fun _ => 0xFF, 768, 0xFF, false⟩

/-- 1024 bytes, the sum of which is `1FFFFh`. -/
def full : Rom := ⟨fun i => if i < 514 then 0xFF else if i = 514 then 1 else 0, 1024, 0, false⟩

theorem not_placesSum : ¬ PlacesSum .CRC2 0xEE odd768 ∧ ¬ PlacesSum .CRC1 0x3FE full := by
  constructor
  · intro h
    obtain ⟨k, hpow⟩ := h.power (by decide) ⟨by decide, by decide⟩ (by decide)
    have hlt : k < 10 := by
      by_contra hge
      have hle : 2 ^ 10 ≤ 2 ^ k := Nat.pow_le_pow_right (by decide) (Nat.le_of_not_lt hge)
      rw [← hpow] at hle
      exact absurd hle (by decide)
    revert hpow
    revert hlt
    revert k
    decide
  · intro h
    have hfolds := h.folds (by decide) ⟨by decide, by decide⟩ (by decide) rfl
    revert hfolds
    unfold FoldsOnce
    decide +kernel

end Sbc386Ex.Hex

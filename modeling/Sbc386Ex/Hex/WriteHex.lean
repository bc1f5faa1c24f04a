import Sbc386Ex.Lib.IntelHex
import Sbc386Ex.Machine

/-!
# Sbc386Ex.Hex.WriteHex

`write_hex_file` of `hex2bin.c`: sixteen bytes of the ROM at a time, stripped of pad bytes at
both ends, with a base record before the first data of each 64 KB. What it prints are
lines of records, and loading them puts the ROM's bytes where they were.
-/

namespace Sbc386Ex.Hex

open IntelHex

def SEG_MASK : Nat := 0x00FFFF
def LBA_MASK : Nat := 0x00FF0000
def MAX_MASK : Nat := LBA_MASK ||| SEG_MASK
def ONE_MEG : Nat := 0x100000
def NREC : Nat := 16

/-- What the writer reads: the ROM, its size, the pad byte, and whether bases are to be
segments. -/
structure Rom where
  buffer : Nat → Byte
  romSize : Nat
  pad : Byte
  segmented : Bool

/-- What it keeps: the base it has announced, the checksum of a record, and the file. -/
structure Out where
  upperLba : Nat
  checksum : Byte
  text : List Char

def Out.put (o : Out) (s : List Char) : Out := { o with text := o.text ++ s }

/-! ### Records -/

/-- `%02X` -/
def houtByte (data : Byte) (o : Out) : Out :=
  { o with checksum := o.checksum - data }.put (hex2 data)

def houtWord (data : Nat) (o : Out) : Out :=
  houtByte (BitVec.ofNat 8 data) (houtByte (BitVec.ofNat 8 (data >>> 8)) o)

def beginRecord (length : Byte) (o : Out) : Out :=
  houtByte length ({ o with checksum := 0 }.put [':'])

def endRecord (o : Out) : Out := (houtByte o.checksum o).put ['\n']

def writeLba (rom : Rom) (address : Nat) (o : Out) : Out :=
  if address &&& LBA_MASK ≠ o.upperLba then
    let upperLba := address &&& LBA_MASK
    let o := houtWord 0 (beginRecord 2 { o with upperLba := upperLba })
    endRecord
      (if rom.romSize > ONE_MEG ∨ rom.segmented = false then houtWord (upperLba >>> 16) (houtByte 4 o)
      else houtWord (upperLba >>> 4) (houtByte 2 o))
  else o

/-- `while (nbytes && buf[nbytes-1]==pad) --nbytes;` -/
def trimHigh (rom : Rom) (buf : Nat) : Nat → Nat
  | 0 => 0
  | nbytes + 1 => if rom.buffer (buf + nbytes) = rom.pad then trimHigh rom buf nbytes else nbytes + 1

/-- `while (nbytes && *buf==pad) { ++buf; ++address; --nbytes; }` -/
def trimLow (rom : Rom) : Nat → Nat → Nat → Nat × Nat × Nat
  | 0, buf, address => (0, buf, address)
  | nbytes + 1, buf, address =>
      if rom.buffer buf = rom.pad then trimLow rom nbytes (buf + 1) (address + 1)
      else (nbytes + 1, buf, address)

/-- `while(nbytes--) hout_byte(*buf++);` -/
def houtBytes (rom : Rom) : Nat → Nat → Out → Out
  | 0, _, o => o
  | nbytes + 1, buf, o => houtBytes rom nbytes (buf + 1) (houtByte (rom.buffer buf) o)

def writeData (rom : Rom) (nbytes buf address : Nat) (o : Out) : Out :=
  let r := trimLow rom (trimHigh rom buf nbytes) buf address
  if r.1 ≠ 0 then
    let o := beginRecord (BitVec.ofNat 8 r.1) (writeLba rom r.2.2 o)
    endRecord (houtBytes rom r.1 r.2.1 (houtByte 0 (houtWord (r.2.2 &&& 0xFFFF) o)))
  else o

/-- The loop of `write_hex_file`, with `nbytes` to go. -/
def writeLoop (rom : Rom) (nbytes buf vaddr : Nat) (o : Out) : Out :=
  let n := min nbytes NREC
  let o := writeData rom n buf vaddr o
  if min (nbytes - n) NREC = 0 then o else writeLoop rom (nbytes - n) (buf + n) (vaddr + n) o
termination_by nbytes
decreasing_by
  have hrest : min (nbytes - min nbytes NREC) NREC ≠ 0 := by assumption
  simp only [NREC] at hrest ⊢
  omega

def writeHexFile (rom : Rom) : List Char :=
  (writeLoop rom rom.romSize 0 0 ⟨0, 0, []⟩).text ++ [':', '0', '0', '0', '0', '0', '0', '0', '1', 'F', 'F', '\n']

/-! ### What is printed -/

section Printed

variable {o : Out}

/-- Bytes printed, and taken from the checksum. -/
def Out.emit (bs : List Byte) (o : Out) : Out :=
  { o with checksum := o.checksum - bs.sum, text := o.text ++ hex bs }

theorem emit_emit (bs cs : List Byte) : (o.emit bs).emit cs = o.emit (bs ++ cs) := by
  rw [Out.emit, Out.emit, Out.emit, hex_append, List.sum_append]
  simp only [List.append_assoc, sub_sub]

theorem houtByte_eq (b : Byte) : houtByte b o = o.emit [b] := by
  rw [houtByte, Out.put, Out.emit, List.sum_singleton]
  exact congrArg (Out.mk _ _) (congrArg (o.text ++ ·) (List.append_nil _).symm)

theorem word2_ofNat (data : Nat) :
    word2 (BitVec.ofNat 16 data) = [BitVec.ofNat 8 (data >>> 8), BitVec.ofNat 8 data] := by
  have hhigh : (BitVec.ofNat 16 data >>> 8).setWidth 8 = BitVec.ofNat 8 (data >>> 8) := by
    apply BitVec.eq_of_toNat_eq
    simp only [BitVec.toNat_setWidth, BitVec.toNat_ushiftRight, BitVec.toNat_ofNat,
      Nat.shiftRight_eq_div_pow]
    omega
  have hlow : (BitVec.ofNat 16 data).setWidth 8 = BitVec.ofNat 8 data := by
    apply BitVec.eq_of_toNat_eq
    simp only [BitVec.toNat_setWidth, BitVec.toNat_ofNat]
    omega
  rw [word2, hhigh, hlow]

theorem houtWord_eq (data : Nat) : houtWord data o = o.emit (word2 (BitVec.ofNat 16 data)) := by
  rw [houtWord, houtByte_eq, houtByte_eq, emit_emit, word2_ofNat]
  rfl

theorem houtBytes_eq (rom : Rom) (n buf : Nat) :
    houtBytes rom n buf o = o.emit ((List.range' buf n).map rom.buffer) := by
  induction n generalizing buf o with
  | zero =>
      rw [houtBytes, Out.emit]
      simp [hex]
  | succ n ih =>
      rw [houtBytes, ih, houtByte_eq, emit_emit, List.range'_succ]
      rfl

/-- A record printed byte by byte is its line. -/
theorem endRecord_emit (length : Byte) (bs : List Byte) :
    endRecord ((beginRecord length o).emit bs) =
      { o with checksum := 0, text := o.text ++ line (length :: bs ++ [-(length :: bs).sum]) } := by
  rw [beginRecord, houtByte_eq, emit_emit, List.singleton_append]
  have hsum : (0 : Byte) - (length :: bs).sum = -(length :: bs).sum := zero_sub _
  have hprinted : (Out.put { o with checksum := 0 } [':']).emit (length :: bs) =
      ⟨o.upperLba, -(length :: bs).sum, o.text ++ [':'] ++ hex (length :: bs)⟩ :=
    congrArg (Out.mk _ · _) hsum
  rw [hprinted, endRecord, houtByte_eq, Out.emit, Out.put]
  dsimp only
  rw [List.sum_singleton, sub_self, line, hex_append]
  simp only [List.append_assoc, List.nil_append, List.cons_append]

theorem endRecord_record {length : Byte} {bs : List Byte} {r : Record} (h : r.fields = length :: bs) :
    endRecord ((beginRecord length o).emit bs) = { o with checksum := 0, text := o.text ++ r.text } := by
  rw [endRecord_emit, Record.text, Record.bytes, h]

end Printed

/-! ### Bases -/

section Bases

variable {rom : Rom} {o : Out} {mem : Nat → Byte}

theorem testBit_lba_mask (i : Nat) : LBA_MASK.testBit i = (decide (16 ≤ i) && decide (i < 24)) := by
  by_cases hi : i < 24
  · revert i
    decide
  · have hlt : LBA_MASK < 2 ^ i :=
      Nat.lt_of_lt_of_le (by decide : LBA_MASK < 2 ^ 24)
        (Nat.pow_le_pow_right (by decide) (Nat.le_of_not_lt hi))
    rw [Nat.testBit_lt_two_pow hlt, decide_eq_false hi, Bool.and_false]

theorem and_lba_mask {address : Nat} (h : address < 2 ^ 24) :
    address &&& LBA_MASK = 65536 * (address / 65536) := by
  have hshift : 65536 * (address / 65536) = (address >>> 16) <<< 16 := by
    rw [Nat.shiftLeft_eq, Nat.shiftRight_eq_div_pow, Nat.mul_comm]
  apply Nat.eq_of_testBit_eq
  intro i
  rw [Nat.testBit_and, testBit_lba_mask, hshift, Nat.testBit_shiftLeft, Nat.testBit_shiftRight]
  by_cases hlow : 16 ≤ i
  · rw [Nat.add_sub_cancel' hlow, Bool.and_comm (decide _), ← Bool.and_assoc]
    by_cases hhigh : i < 24
    · simp [hlow, hhigh]
    · have hlt : address < 2 ^ i :=
        Nat.lt_of_lt_of_le h (Nat.pow_le_pow_right (by decide) (Nat.le_of_not_lt hhigh))
      rw [Nat.testBit_lt_two_pow hlt, Bool.false_and, Bool.false_and, Bool.and_false]
  · simp [hlow]

/-- The record that announces a base. -/
def baseRecord (rom : Rom) (upperLba : Nat) : Record :=
  if rom.romSize > ONE_MEG ∨ rom.segmented = false then .linear (BitVec.ofNat 16 (upperLba >>> 16))
  else .segment (BitVec.ofNat 16 (upperLba >>> 4))

theorem writeLba_eq (rom : Rom) {address : Nat} (hother : address &&& LBA_MASK ≠ o.upperLba) :
    writeLba rom address o = ⟨address &&& LBA_MASK, 0,
      o.text ++ (baseRecord rom (address &&& LBA_MASK)).text⟩ := by
  rw [writeLba, if_pos hother, baseRecord]
  dsimp only
  split
  · rw [houtWord_eq, houtByte_eq, houtWord_eq, emit_emit, emit_emit]
    exact endRecord_record rfl
  · rw [houtWord_eq, houtByte_eq, houtWord_eq, emit_emit, emit_emit]
    exact endRecord_record rfl

/-- The base is announced if it is another, and it is the one the address is above. -/
theorem writeLba_spec {address : Nat} (hin : address < rom.romSize) (hsize : rom.romSize ≤ 2 ^ 24) :
    ∃ rs, (writeLba rom address o).text = o.text ++ rs.flatMap Record.text ∧
      (writeLba rom address o).upperLba = 65536 * (address / 65536) ∧
      Loads rom.pad rom.romSize ⟨o.upperLba, mem⟩ rs ⟨65536 * (address / 65536), mem⟩ := by
  have hmask : address &&& LBA_MASK = 65536 * (address / 65536) := and_lba_mask (by omega)
  by_cases hsame : address &&& LBA_MASK = o.upperLba
  · rw [writeLba, if_neg (not_not.mpr hsame), ← hmask, hsame]
    exact ⟨[], (List.append_nil _).symm, rfl, .nil⟩
  rw [writeLba_eq rom hsame, hmask]
  refine ⟨[baseRecord rom (65536 * (address / 65536))], ?_, rfl, ?_⟩
  · rw [List.flatMap_singleton]
  rw [baseRecord]
  split
  · have hload : Record.load ⟨o.upperLba, mem⟩
        (.linear (BitVec.ofNat 16 ((65536 * (address / 65536)) >>> 16))) =
          ⟨65536 * (address / 65536), mem⟩ := by
      rw [Record.load, BitVec.toNat_ofNat, Nat.shiftRight_eq_div_pow]
      congr 1
      omega
    exact .cons trivial (hload ▸ .nil)
  · rename_i hsmall
    have hmeg : rom.romSize ≤ 2 ^ 20 := Nat.le_of_not_lt fun h => hsmall (.inl h)
    have hload : Record.load ⟨o.upperLba, mem⟩
        (.segment (BitVec.ofNat 16 ((65536 * (address / 65536)) >>> 4))) =
          ⟨65536 * (address / 65536), mem⟩ := by
      rw [Record.load, BitVec.toNat_ofNat, Nat.shiftRight_eq_div_pow]
      congr 1
      omega
    exact .cons trivial (hload ▸ .nil)

end Bases

/-! ### Data -/

section Data

variable {rom : Rom} {o : Out} {mem : Nat → Byte}

theorem trimHigh_spec (rom : Rom) (buf n : Nat) : trimHigh rom buf n ≤ n ∧
    ∀ i, trimHigh rom buf n ≤ i → i < n → rom.buffer (buf + i) = rom.pad := by
  induction n with
  | zero => exact ⟨Nat.le_refl _, fun i _ hi => absurd hi (Nat.not_lt_zero i)⟩
  | succ n ih =>
      rw [trimHigh]
      by_cases hpad : rom.buffer (buf + n) = rom.pad
      · rw [if_pos hpad]
        refine ⟨Nat.le_succ_of_le ih.1, ?_⟩
        intro i hle hlt
        rcases Nat.lt_succ_iff_lt_or_eq.mp hlt with hi | rfl
        · exact ih.2 i hle hi
        · exact hpad
      · rw [if_neg hpad]
        exact ⟨Nat.le_refl _, fun i hle hlt => absurd hlt (Nat.not_lt_of_le hle)⟩

theorem trimLow_spec (rom : Rom) (n buf address : Nat) : ∃ k ≤ n,
    trimLow rom n buf address = (n - k, buf + k, address + k) ∧ ∀ i < k, rom.buffer (buf + i) = rom.pad := by
  induction n generalizing buf address with
  | zero => exact ⟨0, Nat.le_refl _, rfl, fun i hi => absurd hi (Nat.not_lt_zero i)⟩
  | succ n ih =>
      rw [trimLow]
      by_cases hpad : rom.buffer buf = rom.pad
      · rw [if_pos hpad]
        obtain ⟨k, hk, heq, hall⟩ := ih (buf + 1) (address + 1)
        refine ⟨k + 1, Nat.succ_le_succ hk, ?_, ?_⟩
        · rw [heq]
          simp only [Prod.mk.injEq]
          omega
        · intro i hi
          cases i with
          | zero => exact hpad
          | succ i =>
              have hrest := hall i (Nat.lt_of_succ_lt_succ hi)
              rwa [Nat.add_right_comm, Nat.add_assoc] at hrest
      · rw [if_neg hpad]
        exact ⟨0, Nat.zero_le _, rfl, fun i hi => absurd hi (Nat.not_lt_zero i)⟩

/-- A row of the ROM, `n` bytes from `a` on, in memory. -/
def withRow (rom : Rom) (a n : Nat) (mem : Nat → Byte) : Nat → Byte :=
  fun x => if a ≤ x ∧ x < a + n then rom.buffer x else mem x

theorem store_row (a n : Nat) (mem : Nat → Byte) :
    store mem a ((List.range' a n).map rom.buffer) = withRow rom a n mem := by
  funext x
  rw [store_apply, withRow, List.length_map, List.length_range']
  by_cases hin : a ≤ x ∧ x < a + n
  · have hlt : x - a < n := by omega
    rw [if_pos hin, if_pos hin, List.getD_eq_getElem?_getD, List.getElem?_map, List.getElem?_range' hlt,
      Nat.one_mul, Nat.add_sub_cancel' hin.1]
    rfl
  · rw [if_neg hin, if_neg hin]

/-- The bytes of a row that are left out are pad bytes. -/
theorem withRow_trim {a n k m : Nat} (hk : k ≤ m) (hm : m ≤ n) (hlow : ∀ i < k, rom.buffer (a + i) = rom.pad)
    (hhigh : ∀ i, m ≤ i → i < n → rom.buffer (a + i) = rom.pad) (hmem : ∀ x, a ≤ x → mem x = rom.pad) :
    withRow rom (a + k) (m - k) mem = withRow rom a n mem := by
  funext x
  rw [withRow, withRow]
  by_cases hin : a ≤ x ∧ x < a + n
  · rw [if_pos hin]
    by_cases hkept : a + k ≤ x ∧ x < a + k + (m - k)
    · rw [if_pos hkept]
    · have hx : a + (x - a) = x := Nat.add_sub_cancel' hin.1
      have hpad : rom.buffer (a + (x - a)) = rom.pad := by
        by_cases hbelow : x - a < k
        · exact hlow _ hbelow
        · exact hhigh _ (by omega) (by omega)
      rw [if_neg hkept, hmem x hin.1, ← hpad, hx]
  · rw [if_neg hin, if_neg (by omega)]

/-- The data record of what is left. -/
def dataRecord (rom : Rom) (a n : Nat) : Record :=
  .data (BitVec.ofNat 16 (a &&& 0xFFFF)) ((List.range' a n).map rom.buffer)

theorem data_printed (rom : Rom) (a n : Nat) :
    endRecord (houtBytes rom n a (houtByte 0 (houtWord (a &&& 0xFFFF)
      (beginRecord (BitVec.ofNat 8 n) o)))) =
      { o with checksum := 0, text := o.text ++ (dataRecord rom a n).text } := by
  rw [houtBytes_eq, houtByte_eq, houtWord_eq, emit_emit, emit_emit]
  refine endRecord_record ?_
  have hlength : ((List.range' a n).map rom.buffer).length = n := by
    rw [List.length_map, List.length_range']
  rw [dataRecord, Record.fields, Record.payload, hlength]
  rfl

/-- It goes where the row is. -/
theorem dataRecord_loads {a n : Nat} (hn : n < 256) (hinside : a % 65536 + n ≤ 65536)
    (hin : a + n ≤ rom.romSize) (hmem : ∀ x, a ≤ x → mem x = rom.pad) :
    Loads rom.pad rom.romSize ⟨65536 * (a / 65536), mem⟩ [dataRecord rom a n]
      ⟨65536 * (a / 65536), withRow rom a n mem⟩ := by
  have haddr : (BitVec.ofNat 16 (a &&& 0xFFFF)).toNat = a % 65536 := by
    have hmod : a &&& 0xFFFF = a % 65536 := Nat.and_two_pow_sub_one_eq_mod a 16
    rw [hmod, BitVec.toNat_ofNat, Nat.mod_mod]
  have hplace : 65536 * (a / 65536) + a % 65536 = a := Nat.div_add_mod a 65536
  have hload : Record.load ⟨65536 * (a / 65536), mem⟩ (dataRecord rom a n) =
      ⟨65536 * (a / 65536), withRow rom a n mem⟩ := by
    rw [dataRecord, Record.load, haddr]
    dsimp only
    rw [hplace, store_row]
  refine .cons ?_ (hload ▸ .nil)
  rw [dataRecord, Record.Clean, List.length_map, List.length_range', haddr]
  dsimp only
  rw [hplace]
  exact ⟨hn, hinside, hin, fun x hx _ => hmem x hx⟩

/-- **One row.** It is stripped of pad bytes, and loading what is left of it puts it where it
was. -/
theorem writeData_spec {n address : Nat} (hn : n ≤ NREC) (halign : 16 ∣ address)
    (hin : address + n ≤ rom.romSize) (hsize : rom.romSize ≤ 2 ^ 24)
    (hmem : ∀ x, address ≤ x → mem x = rom.pad) :
    ∃ rs, (writeData rom n address address o).text = o.text ++ rs.flatMap Record.text ∧
      Loads rom.pad rom.romSize ⟨o.upperLba, mem⟩ rs
        ⟨(writeData rom n address address o).upperLba, withRow rom address n mem⟩ := by
  obtain ⟨hhigh, hpad⟩ := trimHigh_spec rom address n
  obtain ⟨k, hk, hlow, hpad'⟩ := trimLow_spec rom (trimHigh rom address n) address address
  have hrow := withRow_trim hk hhigh hpad' hpad hmem
  rw [writeData, hlow]
  dsimp only
  rw [NREC] at hn
  by_cases hsome : trimHigh rom address n - k ≠ 0
  · rw [if_pos hsome, data_printed, ← hrow]
    obtain ⟨rs, htext, hbase, hloads⟩ :=
      writeLba_spec (by omega : address + k < rom.romSize) hsize
    have hdata : Loads rom.pad rom.romSize ⟨65536 * ((address + k) / 65536), mem⟩
        [dataRecord rom (address + k) (trimHigh rom address n - k)]
        ⟨65536 * ((address + k) / 65536), withRow rom (address + k) (trimHigh rom address n - k) mem⟩ :=
      dataRecord_loads (by omega) (by omega) (by omega) fun x hx => hmem x (by omega)
    refine ⟨rs ++ [dataRecord rom (address + k) (trimHigh rom address n - k)], ?_, ?_⟩
    · rw [htext, List.flatMap_append, List.flatMap_singleton, List.append_assoc]
    · dsimp only
      rw [hbase]
      exact hloads.append hdata
  · rw [if_neg hsome]
    have hzero : trimHigh rom address n - k = 0 := not_not.mp hsome
    have hnone : withRow rom (address + k) 0 mem = mem := by
      funext x
      rw [withRow, if_neg (by omega)]
    rw [← hrow, hzero, hnone]
    exact ⟨[], (List.append_nil _).symm, .nil⟩

theorem withRow_withRow (a n m : Nat) :
    withRow rom (a + n) m (withRow rom a n mem) = withRow rom a (n + m) mem := by
  funext x
  rw [withRow, withRow, withRow]
  by_cases hfirst : a ≤ x ∧ x < a + n
  · rw [if_neg (by omega), if_pos hfirst, if_pos (by omega)]
  · by_cases hsecond : a + n ≤ x ∧ x < a + n + m
    · rw [if_pos hsecond, if_pos (by omega)]
    · rw [if_neg hsecond, if_neg hfirst, if_neg (by omega)]

/-- **The loop**, by induction on the bytes to go: loading what it prints puts them where they
were. -/
theorem writeLoop_spec (hsize : rom.romSize ≤ 2 ^ 24) (nbytes : Nat) :
    ∀ {vaddr : Nat} {o : Out} {mem : Nat → Byte}, 16 ∣ vaddr → vaddr + nbytes = rom.romSize →
      (∀ x, vaddr ≤ x → mem x = rom.pad) →
      ∃ rs, (writeLoop rom nbytes vaddr vaddr o).text = o.text ++ rs.flatMap Record.text ∧
        Loads rom.pad rom.romSize ⟨o.upperLba, mem⟩ rs
          ⟨(writeLoop rom nbytes vaddr vaddr o).upperLba, withRow rom vaddr nbytes mem⟩ := by
  induction nbytes using Nat.strong_induction_on with
  | _ nbytes ih =>
      intro vaddr o mem halign hend hmem
      obtain ⟨rs, htext, hloads⟩ := writeData_spec (o := o) (Nat.min_le_right nbytes NREC) halign
        (by omega) hsize hmem
      rw [writeLoop]
      by_cases hdone : min (nbytes - min nbytes NREC) NREC = 0
      · rw [if_pos hdone]
        have hall : min nbytes NREC = nbytes := by rw [NREC] at hdone ⊢; omega
        rw [hall] at htext hloads ⊢
        exact ⟨rs, htext, hloads⟩
      · rw [if_neg hdone]
        have hrow : min nbytes NREC = 16 := by rw [NREC] at hdone ⊢; omega
        rw [hrow] at htext hloads ⊢
        have hge : 16 ≤ nbytes := by rw [← hrow]; exact Nat.min_le_left _ _
        have hpad : ∀ x, vaddr + 16 ≤ x → withRow rom vaddr 16 mem x = rom.pad := by
          intro x hx
          rw [withRow, if_neg (by omega)]
          exact hmem x (by omega)
        obtain ⟨rs', htext', hloads'⟩ := ih (nbytes - 16) (by omega)
          (o := writeData rom 16 vaddr vaddr o) (Nat.dvd_add halign (Nat.dvd_refl 16)) (by omega) hpad
        rw [withRow_withRow, Nat.add_sub_cancel' hge] at hloads'
        refine ⟨rs ++ rs', ?_, hloads.append hloads'⟩
        rw [htext', htext, List.flatMap_append, List.append_assoc]

/-- **The file**: records that load the ROM, and the record of its end. -/
theorem writeHexFile_spec (hsize : rom.romSize ≤ 2 ^ 24) :
    ∃ rs im, writeHexFile rom = (rs ++ [Record.eof]).flatMap Record.text ∧
      Loads rom.pad rom.romSize ⟨0, fun _ => rom.pad⟩ rs im ∧ ∀ x < rom.romSize, im.mem x = rom.buffer x := by
  obtain ⟨rs, htext, hloads⟩ := writeLoop_spec (o := ⟨0, 0, []⟩) hsize rom.romSize (Nat.dvd_zero 16)
    (Nat.zero_add _) fun _ _ => rfl
  refine ⟨rs, _, ?_, hloads, ?_⟩
  · rw [writeHexFile, htext, List.flatMap_append, List.flatMap_singleton, List.nil_append]
    rfl
  · intro x hx
    exact if_pos ⟨Nat.zero_le x, by omega⟩

end Data

end Sbc386Ex.Hex

import Sbc386Ex.Time.Ds1302
import Sbc386Ex.Time.Nvram

/-!
# Sbc386Ex.Time.NvramKept

The DS1302 with its RAM, and what the check of the configuration is good for: what SETUP
stores the next POST takes back, and no burst of errors of up to sixteen bits passes.
-/

namespace Sbc386Ex.Time

open Cpu

/-! ### Bytes in a row -/

/-- A store with `bytes` in it from `start` on. -/
def placed (f : Nat → Byte) (start : Nat) (bytes : List Byte) : Nat → Byte := fun j =>
  if start ≤ j ∧ j < start + bytes.length then bytes.getD (j - start) 0 else f j

variable {f : Nat → Byte} {start : Nat} {bytes : List Byte}

theorem placed_nil : placed f start [] = f :=
  funext fun _ => if_neg fun h => absurd h.2 (Nat.not_lt.mpr h.1)

theorem placed_cons (b : Byte) :
    placed (Function.update f start b) (start + 1) bytes = placed f start (b :: bytes) := by
  funext j
  rw [placed, placed, List.length_cons]
  by_cases hfirst : j = start
  · subst hfirst
    simp
  · by_cases hrest : start + 1 ≤ j ∧ j < start + 1 + bytes.length
    · obtain ⟨k, rfl⟩ : ∃ k, j = start + 1 + k := ⟨j - (start + 1), by omega⟩
      rw [if_pos hrest, if_pos (by omega), Nat.add_sub_cancel_left,
        show start + 1 + k - start = k + 1 by omega, List.getD_cons_succ]
    · rw [if_neg hrest, if_neg (by omega), Function.update_of_ne hfirst]

theorem placed_in {i : Nat} (h : i < bytes.length) :
    placed f start bytes (start + i) = bytes.getD i 0 := by
  rw [placed, if_pos (by omega), Nat.add_sub_cancel_left]

theorem placed_out {j : Nat} (h : j < start ∨ start + bytes.length ≤ j) :
    placed f start bytes j = f j := if_neg (by omega)

/-- `rep movsb` that stays in its segment. -/
theorem repMovsb_eq (es : Word) (bytes : List Byte) : ∀ (di : Word) (mem : Mem),
    di.toNat + bytes.length ≤ 65536 →
      repMovsb es bytes di mem = placed mem (linear es di) bytes := by
  induction bytes with
  | nil => exact fun di mem _ => placed_nil.symm
  | cons b bytes ih =>
      intro di mem h
      rw [List.length_cons] at h
      cases bytes with
      | nil => rw [← placed_cons, placed_nil]; rfl
      | cons b' bytes =>
          rw [List.length_cons] at h
          have hnext : (di + 1).toNat = di.toNat + 1 := by
            rw [BitVec.toNat_add]
            exact Nat.mod_eq_of_lt (by show di.toNat + 1 < 65536; omega)
          have hroom : (di + 1).toNat + (b' :: bytes).length ≤ 65536 := by
            rw [hnext, List.length_cons]
            omega
          have haddr : linear es (di + 1) = linear es di + 1 := by
            rw [linear, hnext, linear, Nat.add_assoc]
          rw [repMovsb, ih _ _ hroom, haddr, placed_cons]

/-! ### The RAM -/

/-- The chip with its RAM. `sent` is the bytes that have crossed since the command. -/
structure NvramChip where
  clock : Ds1302
  ram : Nat → Byte
  sent : Nat

namespace NvramChip

variable (w : NvramChip)

/-- A command for the RAM, and the byte it is for now: that of its address, or the next one of
a burst. -/
def IsRam (c : Byte) : Prop := c &&& 0xC0 = 0xC0

instance (c : Byte) : Decidable (IsRam c) := inferInstanceAs (Decidable (_ = _))

def place (c : Byte) : Nat := if (c >>> 1) &&& 0x1F = 0x1F then w.sent else ((c >>> 1) &&& 0x1F).toNat

/-- Under write protection the RAM stays as it is. -/
def writeRam (c b : Byte) : NvramChip :=
  { w with
    ram := if w.clock.control.msb then w.ram else Function.update w.ram (w.place c) b
    sent := w.sent + 1 }

instance : ThreeWire NvramChip where
  latch w := ThreeWire.latch w.clock
  pins w := ThreeWire.pins w.clock
  resetOn w := { w with clock := ThreeWire.resetOn w.clock }
  resetOff w := { w with clock := ThreeWire.resetOff w.clock, sent := 0 }
  shiftOut b w :=
    match w.clock.command with
    | none => { w with clock := ThreeWire.shiftOut b w.clock }
    | some c => if IsRam c then w.writeRam c b else { w with clock := ThreeWire.shiftOut b w.clock }
  shiftIn w :=
    match w.clock.command with
    | none => (0, w)
    | some c =>
        if IsRam c then (w.ram (w.place c), { w with sent := w.sent + 1 })
        else ((ThreeWire.shiftIn w.clock).1, { w with clock := (ThreeWire.shiftIn w.clock).2 })

/-- A command of a burst under way. -/
theorem shiftOut_burst {w : NvramChip} (hcommand : w.clock.command = some 0xFE)
    (hopen : w.clock.control.msb = false) (b : Byte) : ThreeWire.shiftOut b w =
      { w with ram := Function.update w.ram w.sent b, sent := w.sent + 1 } := by
  show (match w.clock.command with
    | none => _
    | some c => if IsRam c then w.writeRam c b else _) = _
  rw [hcommand]
  show (if IsRam 0xFE then w.writeRam 0xFE b else _) = _
  rw [if_pos (by decide), writeRam, hopen]
  rfl

theorem shiftIn_burst {w : NvramChip} (hcommand : w.clock.command = some 0xFF) :
    ThreeWire.shiftIn w = (w.ram w.sent, { w with sent := w.sent + 1 }) := by
  show (match w.clock.command with
    | none => _
    | some c => if IsRam c then _ else _) = _
  rw [hcommand]
  exact if_pos (by decide)

/-- The bytes of a burst lie one after the other, and the rest of the RAM is as it was. -/
theorem shiftsOut_burst (bytes : List Byte) {w : NvramChip} (hcommand : w.clock.command = some 0xFE)
    (hopen : w.clock.control.msb = false) : shiftsOut bytes w =
      { w with ram := placed w.ram w.sent bytes, sent := w.sent + bytes.length } := by
  induction bytes generalizing w with
  | nil => rw [placed_nil]; rfl
  | cons b bytes ih =>
      have hrest := ih (w := { w with ram := Function.update w.ram w.sent b, sent := w.sent + 1 })
        hcommand hopen
      show shiftsOut bytes (ThreeWire.shiftOut b w) = _
      rw [shiftOut_burst hcommand hopen, hrest, ← placed_cons, List.length_cons,
        Nat.add_comm bytes.length, ← Nat.add_assoc]

theorem shiftsIn_burst (n : Nat) {w : NvramChip} (hcommand : w.clock.command = some 0xFF) :
    (shiftsIn n w).1 = (List.range n).map fun i => w.ram (w.sent + i) := by
  induction n generalizing w with
  | zero => rfl
  | succ n ih =>
      have hrest := ih (w := { w with sent := w.sent + 1 }) hcommand
      rw [List.range_succ_eq_map, List.map_cons, List.map_map, shiftsIn, shiftIn_burst hcommand]
      refine congrArg (List.cons _) (hrest.trans (List.map_congr_left fun i _ => ?_))
      show w.ram (w.sent + 1 + i) = w.ram (w.sent + (i + 1))
      rw [Nat.add_assoc, Nat.add_comm 1]

/-- A command begun. -/
theorem begin_eq (c : Byte) (w : NvramChip) :
    ThreeWire.shiftOut c (ThreeWire.resetOff (ThreeWire.resetOn w)) =
      { w with clock := { w.clock.advance with command := some c }, sent := 0 } := rfl

/-- The control register is no part of the RAM. -/
theorem protectChip_eq {v : Byte} (hv : v &&& 0x7F = 0) (w : NvramChip) :
    (protectChip v w).clock.control = v ∧ (protectChip v w).ram = w.ram := by
  rw [protectChip, if_pos hv, chipWrite]
  simp only [begin_eq]
  have hcontrol : ¬ IsRam 0x8E := by decide
  have hwrite : ThreeWire.shiftOut v
      { w with clock := { w.clock.advance with command := some 0x8E }, sent := 0 } =
        ({ w with clock := ({ w.clock.advance with command := some 0x8E } : Ds1302).write 0x8E v
                  sent := 0 } : NvramChip) := if_neg hcontrol
  rw [hwrite]
  exact ⟨rfl, rfl⟩

theorem burstWrite_ram (bytes : List Byte) {w : NvramChip} (hopen : w.clock.control.msb = false) :
    (burstWrite bytes w).ram = placed w.ram 0 bytes := by
  have hsent := shiftsOut_burst bytes
    (w := { w with clock := { w.clock.advance with command := some 0xFE }, sent := 0 }) rfl hopen
  rw [burstWrite]
  simp only [begin_eq]
  rw [hsent]
  rfl

theorem burstRead_bytes (n : Nat) (w : NvramChip) : (burstRead n w).1 = (List.range n).map w.ram := by
  rw [burstRead]
  simp only [begin_eq]
  rw [shiftsIn_burst n rfl]
  simp only [Nat.zero_add]

end NvramChip

/-- **`put_nvram_info_` puts the 31 bytes in the RAM.** -/
theorem putNvramInfo_ram (s : Cpu (Board NvramChip)) (sites : Sites) :
    ∃ r, putNvramInfo s sites = some r ∧
      ∀ i < 31, r.world.chip.ram i = bytesAt s.world.mem 0x0040 nvramInfo i := by
  obtain ⟨r, hr, hworld⟩ := putNvramInfo_eq s sites
  obtain ⟨bytes, hbytes⟩ : ∃ bytes, bytes = loadBytes s.world.mem 0x0040 nvramInfo 31 := ⟨_, rfl⟩
  obtain ⟨hopen, -⟩ := NvramChip.protectChip_eq (v := 0) (by decide) s.world.chip
  generalize protectChip 0 s.world.chip = w at hopen hworld
  have hwrite := NvramChip.burstWrite_ram bytes (w := w) (by rw [hopen]; rfl)
  rw [← hbytes] at hworld
  generalize burstWrite bytes w = w' at hwrite hworld
  obtain ⟨-, hclosed⟩ := NvramChip.protectChip_eq (v := 0x80) (by decide) w'
  generalize protectChip 0x80 w' = w'' at hclosed hworld
  refine ⟨r, hr, fun i hi => ?_⟩
  have hlen : bytes.length = 31 := by
    rw [hbytes, loadBytes, List.length_map, List.length_range]
  have hin : placed w.ram 0 bytes (0 + i) = bytes.getD i 0 := placed_in (hlen ▸ hi)
  rw [Nat.zero_add] at hin
  rw [hworld, hclosed, hwrite, hin, hbytes, loadBytes, List.getD_eq_getElem?_getD,
    List.getElem?_map, List.getElem?_range hi]
  rfl

/-! ### Where the bytes are -/

theorem linear_rom {k : Nat} (h : k < 16) : linear 0xF000 (0xFFF0 + BitVec.ofNat 16 k) = 0xFFFF0 + k := by
  rw [linear, BitVec.toNat_add, BitVec.toNat_ofNat]
  show 16 * 61440 + (65520 + k % 65536) % 65536 = _
  omega

theorem linear_nvram {i : Nat} (h : i < 31) :
    linear 0x0040 (nvramInfo + BitVec.ofNat 16 i) = 0x4E1 + i := by
  rw [linear, BitVec.toNat_add, BitVec.toNat_ofNat]
  show 16 * 64 + (225 + i % 65536) % 65536 = _
  omega

theorem guarded_rom (mem : Mem) {k : Nat} (h : k < 16) : guarded mem k = mem (0xFFFF0 + k) := by
  rw [guarded, if_pos h, bytesAt, linear_rom h]

theorem guarded_nvram (mem : Mem) {i : Nat} (h : i < 31) : guarded mem (16 + i) = mem (0x4E1 + i) := by
  rw [guarded, if_neg (by omega), bytesAt, Nat.add_sub_cancel_left, linear_nvram h]

/-- The bytes with the configuration from elsewhere. -/
def withNvram (mem : Mem) (nvram : Nat → Byte) : BitBuffer.Buffer := fun k =>
  if k < 16 then guarded mem k else nvram (k - 16)

/-- 31 bytes moved to `nvram_info`. -/
theorem repMovsb_nvram {bytes : List Byte} (hlen : bytes.length = 31) (mem : Mem) :
    (∀ i < 31, repMovsb 0x0040 bytes nvramInfo mem (0x4E1 + i) = bytes.getD i 0) ∧
      ∀ k < 47, guarded (repMovsb 0x0040 bytes nvramInfo mem) k =
        withNvram mem (fun i => bytes.getD i 0) k := by
  have hmove : repMovsb 0x0040 bytes nvramInfo mem = placed mem 0x4E1 bytes :=
    repMovsb_eq _ _ _ _ (by rw [hlen]; decide)
  have hin : ∀ i < 31, placed mem 0x4E1 bytes (0x4E1 + i) = bytes.getD i 0 := fun i hi =>
    placed_in (hlen ▸ hi)
  rw [hmove]
  refine ⟨hin, fun k hk => ?_⟩
  by_cases hrom : k < 16
  · rw [withNvram, if_pos hrom, guarded_rom _ hrom, guarded_rom _ hrom,
      placed_out (.inr (by rw [hlen]; omega))]
  · obtain ⟨i, rfl⟩ : ∃ i, k = 16 + i := ⟨k - 16, by omega⟩
    rw [withNvram, if_neg hrom, guarded_nvram _ (by omega), hin i (by omega), Nat.add_sub_cancel_left]

/-! ### The check stored -/

theorem storeChecksum_mem (s : Cpu (Board NvramChip)) {c : Word}
    (hc : c = Crc16.crc CRC16poly 0 (guarded s.world.mem) 45) : (storeChecksum s).world.mem =
      Function.update (Function.update s.world.mem 0x4FE (high c)) 0x4FF (low c) := by
  have hcrc := getNvramCrc_eq { s with ax := 29 } (show (29 : Word) ≠ 0 by decide)
  have hcount : 16 + (29 : Word).toNat = 45 := rfl
  rw [storeChecksum, hcrc]
  simp only [hcount, ← hc, al, ah, low_append, high_append]
  rfl

theorem storeChecksum_rom (s : Cpu (Board NvramChip)) {k : Nat} (h : k < 16) :
    (storeChecksum s).world.mem (0xFFFF0 + k) = s.world.mem (0xFFFF0 + k) := by
  obtain ⟨c, hc⟩ : ∃ c, c = Crc16.crc CRC16poly 0 (guarded s.world.mem) 45 := ⟨_, rfl⟩
  rw [storeChecksum_mem s hc, Function.update_of_ne (by omega), Function.update_of_ne (by omega)]

/-- **What `set_top` stores checks.** -/
theorem storeChecksum_residue (s : Cpu (Board NvramChip)) :
    Crc16.crc CRC16poly 0 (guarded (storeChecksum s).world.mem) 47 = 0 := by
  obtain ⟨c, hc⟩ : ∃ c, c = Crc16.crc CRC16poly 0 (guarded s.world.mem) 45 := ⟨_, rfl⟩
  have hmem := storeChecksum_mem s hc
  have hsame : ∀ k < 45, guarded (storeChecksum s).world.mem k = guarded s.world.mem k := by
    intro k hk
    by_cases hrom : k < 16
    · rw [guarded_rom _ hrom, guarded_rom _ hrom, storeChecksum_rom s hrom]
    · obtain ⟨i, rfl⟩ : ∃ i, k = 16 + i := ⟨k - 16, by omega⟩
      rw [guarded_nvram _ (by omega), guarded_nvram _ (by omega), hmem,
        Function.update_of_ne (by omega), Function.update_of_ne (by omega)]
  have hcrc : Crc16.crc CRC16poly 0 (guarded (storeChecksum s).world.mem) 45 = c :=
    (Crc16.crc_congr hsame).trans hc.symm
  refine Crc16.crc_residue (n := 45) ?_ ?_
  · have hhigh := guarded_nvram (storeChecksum s).world.mem (show 29 < 31 by decide)
    rw [hcrc, hhigh, hmem, Function.update_of_ne (by decide)]
    exact Function.update_self _ _ _
  · have hlow := guarded_nvram (storeChecksum s).world.mem (show 30 < 31 by decide)
    rw [hcrc, hlow, hmem]
    exact Function.update_self _ _ _

/-! ### The POST after it -/

/-- The 47 bytes are not the same, and all that differs of them is in sixteen consecutive bits,
the most significant bit of a byte first. -/
def OneBurst (buf buf' : BitBuffer.Buffer) : Prop :=
  (∃ k < 47, buf k ≠ buf' k) ∧
    ∃ p, ∀ i < 8 * 47, BitBuffer.bit buf i ≠ BitBuffer.bit buf' i → p ≤ i ∧ i < p + 16

theorem OneBurst.crc_ne {buf buf' : BitBuffer.Buffer} (h : OneBurst buf buf')
    (hzero : Crc16.crc CRC16poly 0 buf 47 = 0) : Crc16.crc CRC16poly 0 buf' 47 ≠ 0 := by
  obtain ⟨hdiff, p, hburst⟩ := h
  have hne := Crc16.crc_ne_of_burst (c := 0) crc16poly_odd (by decide) hburst hdiff
  rw [hzero] at hne
  exact hne.symm

/-- What the POST finds the 31 bytes to be, by the chip's RAM. -/
theorem postNvram_nvram (t : Cpu (Board NvramChip)) (sites : Sites) (dgroup table : Word) :
    ∃ r, postNvram t sites dgroup table = some r ∧
      (Crc16.crc CRC16poly 0 (withNvram t.world.mem t.world.chip.ram) 47 = 0 →
        r.top = 0 ∧ ∀ i < 31, r.world.mem (0x4E1 + i) = t.world.chip.ram i) ∧
      (Crc16.crc CRC16poly 0 (withNvram t.world.mem t.world.chip.ram) 47 ≠ 0 →
        r.top = 1 ∧ ∀ i < 31, r.world.mem (0x4E1 + i) = NVRAM00.getD i 0) := by
  obtain ⟨bytes, hbytes⟩ : ∃ bytes, bytes = (List.range 31).map t.world.chip.ram := ⟨_, rfl⟩
  have hlen : bytes.length = 31 := by rw [hbytes, List.length_map, List.length_range]
  have hget : ∀ i < 31, bytes.getD i 0 = t.world.chip.ram i := by
    intro i hi
    rw [hbytes, List.getD_eq_getElem?_getD, List.getElem?_map, List.getElem?_range hi]
    rfl
  have hburst : (burstRead 31 (ThreeWire.resetOn t.world.chip)).1 = bytes := by
    rw [NvramChip.burstRead_bytes, hbytes]
    rfl
  obtain ⟨hin, hguarded⟩ := repMovsb_nvram hlen t.world.mem
  have hcrc : Crc16.crc CRC16poly 0 (guarded (repMovsb 0x0040 bytes nvramInfo t.world.mem)) 47 =
      Crc16.crc CRC16poly 0 (withNvram t.world.mem t.world.chip.ram) 47 := by
    refine Crc16.crc_congr fun k hk => (hguarded k hk).trans ?_
    by_cases hrom : k < 16
    · rw [withNvram, withNvram, if_pos hrom, if_pos hrom]
    · rw [withNvram, withNvram, if_neg hrom, if_neg hrom, hget _ (by omega)]
  obtain ⟨r, hr, hgood, hbad⟩ := postNvram_eq t sites dgroup table
    (congrArg (fun l => repMovsb 0x0040 l nvramInfo t.world.mem) hburst.symm)
  rw [hcrc] at hgood hbad
  refine ⟨r, hr, fun hzero => ?_, fun hne => ?_⟩
  · obtain ⟨htop, hmem⟩ := hgood hzero
    exact ⟨htop, fun i hi => by rw [hmem, hin i hi, hget i hi]⟩
  · obtain ⟨htop, hmem⟩ := hbad hne
    obtain ⟨hdefault, -⟩ := repMovsb_nvram (show NVRAM00.length = 31 by decide)
      (repMovsb 0x0040 bytes nvramInfo t.world.mem)
    exact ⟨htop, fun i hi => by rw [hmem, hdefault i hi]⟩

/-- **The configuration is protected.** Whatever the ROM's 16 bytes and the 29 of the
configuration are: the check that is stored makes the check zero; what `put_nvram_info_`
wrote, the POST reads back and takes; and a burst of errors anywhere in the ROM's bytes, the
configuration or the check makes the check nonzero, at the POST too, which then has the
defaults. -/
theorem nvram_protected (s : Cpu (Board NvramChip)) (sites : Sites) :
    (getNvramCrc { storeChecksum s with ax := 31 }).ax = 0 ∧
    (∀ t : Cpu (Board NvramChip), OneBurst (guarded (storeChecksum s).world.mem) (guarded t.world.mem) →
      (getNvramCrc { t with ax := 31 }).ax ≠ 0) ∧
    ∃ u, putNvramInfo (storeChecksum s) sites = some u ∧
      ∀ (t : Cpu (Board NvramChip)) (post : Sites) (dgroup table : Word),
        ((∀ k < 16, t.world.mem (0xFFFF0 + k) = s.world.mem (0xFFFF0 + k)) →
          (∀ i < 31, t.world.chip.ram i = u.world.chip.ram i) →
          ∃ v, postNvram t post dgroup table = some v ∧ v.top = 0 ∧
            ∀ i < 31, v.world.mem (0x4E1 + i) = (storeChecksum s).world.mem (0x4E1 + i)) ∧
        (OneBurst (guarded (storeChecksum s).world.mem) (withNvram t.world.mem t.world.chip.ram) →
          ∃ v, postNvram t post dgroup table = some v ∧ v.top = 1 ∧
            ∀ i < 31, v.world.mem (0x4E1 + i) = NVRAM00.getD i 0) := by
  have hresidue := storeChecksum_residue s
  have hzero_iff : ∀ t : Cpu (Board NvramChip), (getNvramCrc { t with ax := 31 }).ax = 0 ↔
      Crc16.crc CRC16poly 0 (guarded t.world.mem) 47 = 0 := by
    intro t
    rw [getNvramCrc_eq _ (show (31 : Word) ≠ 0 by decide)]
    exact swap_eq_zero_iff _
  obtain ⟨u, hu, hram⟩ := putNvramInfo_ram (storeChecksum s) sites
  refine ⟨(hzero_iff _).mpr hresidue, fun t ht => mt (hzero_iff t).mp (ht.crc_ne hresidue),
    u, hu, fun t post dgroup table => ?_⟩
  obtain ⟨v, hv, hgood, hbad⟩ := postNvram_nvram t post dgroup table
  have hstored : ∀ i < 31, bytesAt (storeChecksum s).world.mem 0x0040 nvramInfo i =
      (storeChecksum s).world.mem (0x4E1 + i) := fun i hi => by rw [bytesAt, linear_nvram hi]
  constructor
  · intro hrom hsame
    have hcheck : Crc16.crc CRC16poly 0 (withNvram t.world.mem t.world.chip.ram) 47 = 0 := by
      refine (Crc16.crc_congr fun k hk => ?_).trans hresidue
      by_cases hk' : k < 16
      · rw [withNvram, if_pos hk', guarded_rom _ hk', guarded_rom _ hk', hrom k hk',
          storeChecksum_rom s hk']
      · obtain ⟨i, rfl⟩ : ∃ i, k = 16 + i := ⟨k - 16, by omega⟩
        rw [withNvram, if_neg hk', Nat.add_sub_cancel_left, hsame i (by omega), hram i (by omega),
          hstored i (by omega), guarded_nvram _ (by omega)]
    obtain ⟨htop, hmem⟩ := hgood hcheck
    exact ⟨v, hv, htop, fun i hi => by rw [hmem i hi, hsame i hi, hram i hi, hstored i hi]⟩
  · intro hburst
    obtain ⟨htop, hmem⟩ := hbad (hburst.crc_ne hresidue)
    exact ⟨v, hv, htop, hmem⟩

end Sbc386Ex.Time

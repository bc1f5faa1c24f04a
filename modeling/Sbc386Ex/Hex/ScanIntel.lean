import Sbc386Ex.Lib.Prog
import Sbc386Ex.Hex.WriteHex

/-!
# Sbc386Ex.Hex.ScanIntel

`scan_Intel_file` of `hex2bin.c`: the lines of a file one by one through a buffer with a
pointer into it, digit by digit. A line that is a record the ROM has room for is loaded
without a complaint.
-/

namespace Sbc386Ex.Hex

open Prog IntelHex

/-- What ends a scan early: `exit`, or the fuel of the model. -/
inductive Stop
  | exit (status : Nat)
  | fuel
  deriving DecidableEq

/-- What the reader works on. `line` and `lp` are a C buffer and a pointer into it; `errors` is
what `error` has said, with its level. -/
structure Scan where
  file : List Char
  line : Nat → Char
  lp : Option Nat
  lineno : Nat
  checksum : Byte
  upperLba : DWord
  addressMask : DWord
  sourceAddress : DWord
  sourceLimit : DWord
  destAddress : DWord
  destLimit : DWord
  romSize : DWord
  pad : Byte
  buffer : Nat → Byte
  overwrite : Nat
  errors : List (Nat × String)

abbrev ScanM := Prog Stop Scan

def error (level : Nat) (msg : String) : ScanM Unit := do
  modify fun s => { s with errors := s.errors ++ [(level, msg)] }
  if level > 1 then throw (.exit level)

/-! ### Digits -/

def getnibble : ScanM Int := do
  let s ← get
  match s.lp with
  | none => do
      error 0 "Line is too short"
      pure (-1)
  | some p => do
      set { s with lp := some (p + 1) }
      let ch := s.line p
      if '0' ≤ ch ∧ ch ≤ '9' then pure (ch.toNat - 0x30)
      else if 'A' ≤ ch ∧ ch ≤ 'F' then pure (ch.toNat - 0x37)
      else if 'a' ≤ ch ∧ ch ≤ 'f' then pure (ch.toNat - 0x57)
      else do
        error 0 "Illegal hex digit"
        pure (-1)

def getbyte : ScanM Int := do
  let hi ← getnibble
  let lo ← getnibble
  let b := 16 * hi + lo
  modify fun s => { s with checksum := s.checksum + BitVec.ofInt 8 b }
  pure b

def getword : ScanM Int := do
  let hi ← getbyte
  let lo ← getbyte
  pure (256 * hi + lo)

def getdword : ScanM DWord := do
  let hi ← getword
  let lo ← getword
  pure (BitVec.ofInt 32 hi <<< 16 + BitVec.ofInt 32 lo)

/-! ### Records -/

def putbyte (address : DWord) (data : Byte) : ScanM Unit := do
  let s ← get
  if address < s.sourceAddress ∨ s.sourceLimit < address then pure ()
  else
    let address := address - s.sourceAddress + s.destAddress
    if s.destLimit < address then pure ()
    else do
      if s.romSize ≤ address then error 2 "Data beyond end of ROM"
      modify fun s =>
        { s with
          overwrite := if s.buffer address.toNat ≠ s.pad then s.overwrite + 1 else s.overwrite
          buffer := Function.update s.buffer address.toNat data }

/-- `while (ldata--)` of a data record, from `index` on. -/
def dataLoop (laddr : DWord) : Nat → DWord → ScanM Unit
  | 0, _ => pure ()
  | ldata + 1, index => do
      let data ← getbyte
      let s ← get
      putbyte (s.upperLba + ((laddr + index) &&& s.addressMask)) (BitVec.ofInt 8 data)
      dataLoop laddr ldata (index + 1)

/-- The `switch` on the record type; `EndOfFile`. -/
def record (rectype ldata : Byte) (laddr : DWord) : ScanM Bool := do
  if rectype = 0 then
    dataLoop laddr ldata.toNat 0
    pure false
  else if rectype = 1 then pure true
  else if rectype = 2 then
    modify fun s => { s with addressMask := BitVec.ofNat 32 SEG_MASK }
    let value ← getword
    modify fun s => { s with upperLba := BitVec.ofInt 32 value <<< 4 }
    pure false
  else if rectype = 4 then
    modify fun s => { s with addressMask := BitVec.ofNat 32 MAX_MASK }
    let value ← getword
    modify fun s => { s with upperLba := BitVec.ofInt 32 value <<< 16 }
    pure false
  else if rectype = 3 ∨ rectype = 5 then
    let _ ← getdword
    pure false
  else
    error 0 "Unknown record type:"
    pure false

/-! ### Lines -/

/-- At most `n` characters, up to the end of the line, and the rest. -/
def takeLine : Nat → List Char → List Char × List Char
  | 0, cs => ([], cs)
  | _ + 1, [] => ([], [])
  | n + 1, c :: cs => if c = '\n' then ([c], cs) else (c :: (takeLine n cs).1, (takeLine n cs).2)

/-- A C string stored at the start of a buffer. -/
def storeString (line : Nat → Char) (cs : List Char) : Nat → Char :=
  fun i => if i < cs.length then cs.getD i '\x00' else if i = cs.length then '\x00' else line i

/-- `lp = fgets(line, nelem(line)-1, infile)` -/
def fgets : ScanM Unit :=
  modify fun s =>
    if s.file = [] then { s with lp := none }
    else
      { s with
        file := (takeLine 1022 s.file).2
        line := storeString s.line (takeLine 1022 s.file).1
        lp := some 0 }

/-- One line; `some` ends the scan. -/
def scanLine : ScanM (Option Unit) := do
  modify fun s => { s with lineno := s.lineno + 1 }
  fgets
  let s ← get
  match s.lp with
  | none => pure (some ())
  | some p => do
      set { s with lp := some (p + 1) }
      if s.line p ≠ ':' then pure none
      else do
        modify fun s => { s with checksum := 0 }
        let ldata ← getbyte
        let laddr ← getword
        let rectype ← getbyte
        let eof ← record (BitVec.ofInt 8 rectype) (BitVec.ofInt 8 ldata) (BitVec.ofInt 32 laddr)
        let _ ← getbyte
        let s ← get
        if s.checksum ≠ 0 then error 0 "Checksum failure"
        pure (if eof then some () else none)

/-- A scan takes a line, and one to see the end. -/
def scanIntelFile : ScanM Unit := do
  modify fun s => { s with upperLba := 0, lineno := 0 }
  let s ← get
  loop .fuel scanLine (s.file.length + 1)

/-- `hex2bin` about to scan a file into a ROM. -/
def start (romSize : Nat) (pad : Byte) (file : List Char) : Scan where
  file := file
  line := fun _ => '\x00'
  lp := none
  lineno := 0
  checksum := 0
  upperLba := 0
  addressMask := BitVec.ofNat 32 SEG_MASK
  sourceAddress := 0
  sourceLimit := BitVec.ofNat 32 MAX_MASK
  destAddress := 0
  destLimit := BitVec.ofNat 32 MAX_MASK
  romSize := BitVec.ofNat 32 romSize
  pad := pad
  buffer := fun _ => pad
  overwrite := 0
  errors := []

/-! ### Reading digits -/

section Digits

variable {s : Scan}

/-- The characters still to be read begin with `cs`. -/
def Ahead (s : Scan) (cs : List Char) : Prop :=
  ∃ p, s.lp = some p ∧ ∀ i (h : i < cs.length), s.line (p + i) = cs[i]

/-- After `n` characters. -/
def Scan.skip (s : Scan) (n : Nat) : Scan := { s with lp := s.lp.map (· + n) }

theorem Ahead.skip (cs : List Char) {ds : List Char} (h : Ahead s (cs ++ ds)) : Ahead (s.skip cs.length) ds := by
  obtain ⟨p, hp, hline⟩ := h
  refine ⟨p + cs.length, by rw [Scan.skip, hp]; rfl, ?_⟩
  intro i hi
  have hchar := hline (cs.length + i) (by rw [List.length_append]; omega)
  rw [List.getElem_append_right (Nat.le_add_right _ _)] at hchar
  simp only [Nat.add_sub_cancel_left] at hchar
  rw [← hchar, Nat.add_assoc]
  rfl

/-- Every digit is read as what it was printed for. -/
theorem digit_ranges : ∀ n < 16,
    '0' ≤ digit n ∧ digit n ≤ '9' ∧ (digit n).toNat = n + 0x30 ∨
      ¬ ('0' ≤ digit n ∧ digit n ≤ '9') ∧ 'A' ≤ digit n ∧ digit n ≤ 'F' ∧ (digit n).toNat = n + 0x37 := by
  decide

theorem getnibble_runs {n : Nat} {cs : List Char} (hn : n < 16) (h : Ahead s (digit n :: cs)) :
    Runs getnibble s n (s.skip 1) := by
  obtain ⟨p, hp, hline⟩ := h
  have hchar : s.line p = digit n := hline 0 (Nat.zero_lt_succ _)
  have hskip : s.skip 1 = { s with lp := some (p + 1) } := by rw [Scan.skip, hp]; rfl
  rw [getnibble]
  refine Runs.bind (runs_get.mpr ⟨rfl, rfl⟩) ?_
  rw [hp]
  refine Runs.bind (a := ()) (runs_set.mpr hskip) ?_
  dsimp only
  rw [hchar]
  rcases digit_ranges n hn with ⟨hge, hle, hval⟩ | ⟨hnot, hge, hle, hval⟩
  · rw [if_pos ⟨hge, hle⟩]
    refine runs_pure.mpr ⟨?_, rfl⟩
    omega
  · rw [if_neg hnot, if_pos ⟨hge, hle⟩]
    refine runs_pure.mpr ⟨?_, rfl⟩
    omega

/-- After bytes have been read. -/
def Scan.read (s : Scan) (bs : List Byte) : Scan :=
  { s.skip (hex bs).length with checksum := s.checksum + bs.sum }

theorem skip_skip (m n : Nat) : (s.skip m).skip n = s.skip (m + n) := by
  rw [Scan.skip, Scan.skip, Scan.skip]
  simp only [Option.map_map]
  congr 1
  cases s.lp with
  | none => rfl
  | some p => exact congrArg some (Nat.add_assoc p m n)

theorem read_read (bs cs : List Byte) : (s.read bs).read cs = s.read (bs ++ cs) := by
  have hlp := congrArg Scan.lp (skip_skip (s := s) (hex bs).length (hex cs).length)
  rw [← List.length_append, ← hex_append] at hlp
  have hsum : s.checksum + bs.sum + cs.sum = s.checksum + (bs ++ cs).sum := by
    rw [List.sum_append, BitVec.add_assoc]
  rw [Scan.read, Scan.read, Scan.read, ← hsum]
  exact congrArg (fun lp => { s with lp := lp, checksum := s.checksum + bs.sum + cs.sum }) hlp

theorem Ahead.read (bs : List Byte) {cs : List Byte} (h : Ahead s (hex (bs ++ cs))) : Ahead (s.read bs) (hex cs) := by
  rw [hex_append] at h
  exact h.skip (hex bs)

theorem getbyte_runs {b : Byte} {bs : List Byte} (h : Ahead s (hex (b :: bs))) :
    Runs getbyte s b.toNat (s.read [b]) := by
  have hlt := b.isLt
  have hlo : Ahead (s.skip 1) (digit (b.toNat % 16) :: hex bs) := h.skip [digit (b.toNat / 16)]
  have hval : (16 : Int) * ((b.toNat / 16 : Nat) : Int) + ((b.toNat % 16 : Nat) : Int) = b.toNat := by omega
  have hread : s.read [b] = { (s.skip 1).skip 1 with
      checksum := s.checksum + BitVec.ofInt 8 b.toNat } := by
    rw [skip_skip, Scan.read, List.sum_singleton, BitVec.ofInt_natCast, BitVec.ofNat_toNat,
      BitVec.setWidth_eq]
    rfl
  rw [getbyte]
  refine (getnibble_runs (by omega) h).bind ((getnibble_runs (Nat.mod_lt _ (by decide)) hlo).bind ?_)
  rw [hval]
  exact Runs.bind (a := ()) (runs_modify.mpr hread) (runs_pure.mpr ⟨rfl, rfl⟩)

theorem getword_runs {v : BitVec 16} {bs : List Byte} (h : Ahead s (hex (word2 v ++ bs))) :
    Runs getword s v.toNat (s.read (word2 v)) := by
  have hlo : Ahead (s.read [(v >>> 8).setWidth 8]) (hex (v.setWidth 8 :: bs)) :=
    h.read [(v >>> 8).setWidth 8]
  have hval : (256 : Int) * (((v >>> 8).setWidth 8).toNat : Int) + ((v.setWidth 8).toNat : Int) = v.toNat := by
    have hlt := v.isLt
    simp only [BitVec.toNat_setWidth, BitVec.toNat_ushiftRight, Nat.shiftRight_eq_div_pow]
    omega
  rw [getword]
  refine (getbyte_runs h).bind ((getbyte_runs hlo).bind ?_)
  rw [hval, read_read]
  exact runs_pure.mpr ⟨rfl, rfl⟩

end Digits

/-! ### Loading a record -/

section Loading

variable {pad : Byte} {limit : Nat} {im : Image} {s s' : Scan}

/-- The reader has `im`, room for `limit` bytes, and nothing to complain of. -/
structure Holds (pad : Byte) (limit : Nat) (im : Image) (s : Scan) : Prop where
  base : s.upperLba.toNat = im.base
  mem : s.buffer = im.mem
  mask : s.addressMask = BitVec.ofNat 32 SEG_MASK ∨ s.addressMask = BitVec.ofNat 32 MAX_MASK
  sourceAddress : s.sourceAddress = 0
  sourceLimit : s.sourceLimit = BitVec.ofNat 32 MAX_MASK
  destAddress : s.destAddress = 0
  destLimit : s.destLimit = BitVec.ofNat 32 MAX_MASK
  romSize : s.romSize.toNat = limit
  small : limit ≤ 2 ^ 24
  pad : s.pad = pad
  overwrite : s.overwrite = 0
  errors : s.errors = []

/-- Bytes have been read. -/
structure Consumed (bs : List Byte) (s s' : Scan) : Prop where
  file : s'.file = s.file
  line : s'.line = s.line
  lp : s'.lp = (s.read bs).lp
  checksum : s'.checksum = (s.read bs).checksum

theorem Consumed.trans {bs cs : List Byte} {t : Scan} (h : Consumed bs s t) (h' : Consumed cs t s') :
    Consumed (bs ++ cs) s s' := by
  refine ⟨h'.file.trans h.file, h'.line.trans h.line, ?_, ?_⟩
  · rw [h'.lp, ← read_read, Scan.read, Scan.read]
    exact congrArg (Option.map _) h.lp
  · rw [h'.checksum, ← read_read, Scan.read, Scan.read]
    exact congrArg (· + cs.sum) h.checksum

theorem Ahead.consumed {bs cs : List Byte} (h : Ahead s (hex (bs ++ cs))) (hc : Consumed bs s s') :
    Ahead s' (hex cs) := by
  obtain ⟨p, hp, hline⟩ := h.read bs
  refine ⟨p, hc.lp.trans hp, ?_⟩
  rw [hc.line]
  exact hline

theorem consumed_read (bs : List Byte) (s : Scan) : Consumed bs s (s.read bs) := ⟨rfl, rfl, rfl, rfl⟩

theorem consumed_nil (s : Scan) : Consumed [] s s := by
  refine ⟨rfl, rfl, ?_, (BitVec.add_zero _).symm⟩
  rw [Scan.read, Scan.skip]
  cases s.lp <;> rfl

theorem Holds.read (h : Holds pad limit im s) (bs : List Byte) : Holds pad limit im (s.read bs) := by
  cases h
  constructor <;> assumption

theorem Holds.stored (h : Holds pad limit im s) (a : Nat) (b : Byte) :
    Holds pad limit ⟨im.base, Function.update im.mem a b⟩
      { s.read [b] with buffer := Function.update s.buffer a b } := by
  have hmem := congrArg (fun m => Function.update m a b) h.mem
  cases h
  constructor <;> assumption

/-- A byte for a place that is still a pad byte. -/
theorem putbyte_runs {address : DWord} {b : Byte} (h : Holds pad limit im s)
    (hin : address.toNat < limit) (hpad : im.mem address.toNat = pad) :
    Runs (putbyte address b) s () { s with buffer := Function.update s.buffer address.toNat b } := by
  have hmax : (BitVec.ofNat 32 MAX_MASK).toNat = 2 ^ 24 - 1 := rfl
  have hsmall := h.small
  have hsource : ¬ (address < s.sourceAddress ∨ s.sourceLimit < address) := by
    rw [h.sourceAddress, h.sourceLimit, BitVec.lt_def, BitVec.lt_def, hmax]
    rintro (hlt | hlt)
    · exact absurd hlt (Nat.not_lt_zero _)
    · omega
  have haddress : address - s.sourceAddress + s.destAddress = address := by
    rw [h.sourceAddress, h.destAddress]
    exact (BitVec.add_zero _).trans (BitVec.sub_zero _)
  have hdest : ¬ s.destLimit < address := by
    rw [h.destLimit, BitVec.lt_def, hmax]
    omega
  have hrom : ¬ s.romSize ≤ address := by
    rw [BitVec.le_def, h.romSize]
    omega
  have hsame : ¬ s.buffer address.toNat ≠ s.pad := by
    rw [h.mem, h.pad, not_not]
    exact hpad
  rw [putbyte]
  refine Runs.bind (runs_get.mpr ⟨rfl, rfl⟩) ?_
  rw [if_neg hsource]
  dsimp only
  rw [haddress, if_neg hdest, if_neg hrom]
  refine runs_modify.mpr ?_
  rw [if_neg hsame]

/-- Neither mask cuts an offset inside 64 KB. -/
theorem Holds.address (h : Holds pad limit im s) {offset : DWord} (hoff : offset.toNat < 65536)
    (hin : im.base + offset.toNat < limit) :
    (s.upperLba + (offset &&& s.addressMask)).toNat = im.base + offset.toNat := by
  have hmask : (offset &&& s.addressMask).toNat = offset.toNat := by
    have hseg : (BitVec.ofNat 32 SEG_MASK).toNat = 2 ^ 16 - 1 := rfl
    have hmax : (BitVec.ofNat 32 MAX_MASK).toNat = 2 ^ 24 - 1 := rfl
    rcases h.mask with hm | hm
    · rw [hm, BitVec.toNat_and, hseg, Nat.and_two_pow_sub_one_eq_mod]
      exact Nat.mod_eq_of_lt hoff
    · rw [hm, BitVec.toNat_and, hmax, Nat.and_two_pow_sub_one_eq_mod]
      exact Nat.mod_eq_of_lt (by omega)
  have hsmall := h.small
  rw [BitVec.toNat_add, hmask, h.base]
  exact Nat.mod_eq_of_lt (by omega)

/-- **The data of a record**, by induction on the bytes to go. -/
theorem dataLoop_runs {laddr : DWord} {bs : List Byte} : ∀ {im : Image} {s : Scan} {index : DWord} {cs : List Byte},
    Holds pad limit im s → Ahead s (hex (bs ++ cs)) →
    laddr.toNat + index.toNat + bs.length ≤ 65536 →
    im.base + (laddr.toNat + index.toNat) + bs.length ≤ limit →
    (∀ x, im.base + (laddr.toNat + index.toNat) ≤ x →
      x < im.base + (laddr.toNat + index.toNat) + bs.length → im.mem x = pad) →
    ∃ s', Runs (dataLoop laddr bs.length index) s () s' ∧ Consumed bs s s' ∧
      Holds pad limit ⟨im.base, store im.mem (im.base + (laddr.toNat + index.toNat)) bs⟩ s' := by
  induction bs with
  | nil =>
      intro im s index cs h _ _ _ _
      exact ⟨s, runs_pure.mpr ⟨rfl, rfl⟩, consumed_nil s, h⟩
  | cons b bs ih =>
      intro im s index cs h hahead hoff hin hpad
      rw [List.length_cons] at hoff hin hpad
      have hsum : (laddr + index).toNat = laddr.toNat + index.toNat := by
        rw [BitVec.toNat_add]
        exact Nat.mod_eq_of_lt (by omega)
      have haddress := (h.read [b]).address (by omega : (laddr + index).toNat < 65536) (by omega)
      rw [hsum] at haddress
      have hstored : Runs (putbyte ((s.read [b]).upperLba +
            ((laddr + index) &&& (s.read [b]).addressMask)) b) (s.read [b]) ()
          { s.read [b] with
            buffer := Function.update s.buffer (im.base + (laddr.toNat + index.toNat)) b } := by
        rw [← haddress]
        refine putbyte_runs (h.read [b]) (by omega) ?_
        rw [haddress]
        exact hpad _ (Nat.le_refl _) (by omega)
      have hindex : (index + 1).toNat = index.toNat + 1 := by
        have hone : (1 : DWord).toNat = 1 := rfl
        rw [BitVec.toNat_add, hone]
        exact Nat.mod_eq_of_lt (by omega)
      have hplace : im.base + (laddr.toNat + (index + 1).toNat) =
          im.base + (laddr.toNat + index.toNat) + 1 := by
        rw [hindex]
        rfl
      have hread := consumed_read [b] s
      have hfirst : Consumed [b] s { s.read [b] with
          buffer := Function.update s.buffer (im.base + (laddr.toNat + index.toNat)) b } :=
        ⟨hread.file, hread.line, hread.lp, hread.checksum⟩
      have hoff' : laddr.toNat + (index + 1).toNat + bs.length ≤ 65536 := by omega
      have hin' : im.base + (laddr.toNat + (index + 1).toNat) + bs.length ≤ limit := by omega
      have hpad' : ∀ x, im.base + (laddr.toNat + (index + 1).toNat) ≤ x →
          x < im.base + (laddr.toNat + (index + 1).toNat) + bs.length →
            Function.update im.mem (im.base + (laddr.toNat + index.toNat)) b x = pad := by
        intro x hx hlt
        rw [hplace] at hx hlt
        rw [Function.update_of_ne (Nat.ne_of_gt hx)]
        exact hpad x (by omega) (by omega)
      have hahead' : Ahead s (hex ([b] ++ (bs ++ cs))) := hahead
      obtain ⟨s', hrest, hconsumed, hholds⟩ :=
        ih (h.stored _ b) (hahead'.consumed hfirst) hoff' hin' hpad'
      rw [hplace] at hholds
      refine ⟨s', ?_, hfirst.trans hconsumed, hholds⟩
      refine (getbyte_runs hahead).bind (Runs.bind (runs_get.mpr ⟨rfl, rfl⟩) ?_)
      rw [BitVec.ofInt_natCast, BitVec.ofNat_toNat, BitVec.setWidth_eq]
      exact hstored.bind hrest

/-- A base set in the middle of a record. -/
theorem Holds.based (h : Holds pad limit im s) {value : DWord} {base : Nat} {mask : Nat}
    (hmask : mask = SEG_MASK ∨ mask = MAX_MASK) (hvalue : value.toNat = base) (bs : List Byte) :
    Holds pad limit ⟨base, im.mem⟩
      { ({ s with addressMask := BitVec.ofNat 32 mask } : Scan).read bs with upperLba := value } where
  base := hvalue
  mem := h.mem
  mask := hmask.imp (congrArg (BitVec.ofNat 32)) (congrArg (BitVec.ofNat 32))
  sourceAddress := h.sourceAddress
  sourceLimit := h.sourceLimit
  destAddress := h.destAddress
  destLimit := h.destLimit
  romSize := h.romSize
  small := h.small
  pad := h.pad
  overwrite := h.overwrite
  errors := h.errors

/-- A base record: its word, shifted. -/
theorem base_runs {v : BitVec 16} {cs : List Byte} {mask k : Nat} (h : Holds pad limit im s)
    (hahead : Ahead s (hex (word2 v ++ cs))) (hmask : mask = SEG_MASK ∨ mask = MAX_MASK) (hk : k ≤ 16) :
    ∃ s', Runs (do
        modify fun s => { s with addressMask := BitVec.ofNat 32 mask }
        let value ← getword
        modify fun s => { s with upperLba := BitVec.ofInt 32 value <<< k }
        pure false : ScanM Bool) s false s' ∧
      Consumed (word2 v) s s' ∧ Holds pad limit ⟨2 ^ k * v.toNat, im.mem⟩ s' := by
  have hvalue : (BitVec.ofInt 32 v.toNat <<< k).toNat = 2 ^ k * v.toNat := by
    have hv := v.isLt
    have hpow : 2 ^ k ≤ 2 ^ 16 := Nat.pow_le_pow_right (by decide) hk
    have hlt : 2 ^ k * v.toNat < 2 ^ 32 :=
      Nat.lt_of_le_of_lt (Nat.mul_le_mul hpow (Nat.le_of_lt_succ hv)) (by decide)
    rw [BitVec.ofInt_natCast, BitVec.toNat_shiftLeft, BitVec.toNat_ofNat, Nat.shiftLeft_eq,
      Nat.mod_eq_of_lt (by omega : v.toNat < 2 ^ 32), Nat.mul_comm, Nat.mod_eq_of_lt hlt]
  refine ⟨_, ?_, ?_, h.based hmask hvalue (word2 v)⟩
  · refine Runs.bind (a := ()) (runs_modify.mpr rfl) ?_
    refine (getword_runs (s := { s with addressMask := BitVec.ofNat 32 mask }) hahead).bind ?_
    exact Runs.bind (a := ()) (runs_modify.mpr rfl) (runs_pure.mpr ⟨rfl, rfl⟩)
  · exact ⟨rfl, rfl, rfl, rfl⟩

/-- **The record**: what it loads is loaded. -/
theorem record_runs {r : Record} {cs : List Byte} (h : Holds pad limit im s)
    (hclean : r.Clean pad limit im) (hahead : Ahead s (hex (r.payload ++ cs))) :
    ∃ s', Runs (record r.type (BitVec.ofNat 8 r.payload.length) (BitVec.ofNat 32 r.addr.toNat)) s false s' ∧
      Consumed r.payload s s' ∧ Holds pad limit (r.load im) s' := by
  cases r with
  | data addr bytes =>
      obtain ⟨hlen, hoff, hin, hpad⟩ := hclean
      have haddr : (BitVec.ofNat 32 addr.toNat).toNat = addr.toNat := by
        have hlt := addr.isLt
        rw [BitVec.toNat_ofNat]
        exact Nat.mod_eq_of_lt (by omega)
      have hcount : (BitVec.ofNat 8 bytes.length).toNat = bytes.length := by
        rw [BitVec.toNat_ofNat]
        exact Nat.mod_eq_of_lt hlen
      have hplace : (BitVec.ofNat 32 addr.toNat).toNat + (0 : DWord).toNat = addr.toNat := haddr
      obtain ⟨s', hrun, hconsumed, hholds⟩ :
          ∃ s', Runs (dataLoop (BitVec.ofNat 32 addr.toNat) bytes.length 0) s () s' ∧
            Consumed bytes s s' ∧ Holds pad limit ⟨im.base, store im.mem
              (im.base + ((BitVec.ofNat 32 addr.toNat).toNat + (0 : DWord).toNat)) bytes⟩ s' := by
        refine dataLoop_runs h hahead ?_ ?_ ?_ <;> rw [hplace]
        · exact hoff
        · exact hin
        · exact hpad
      rw [hplace] at hholds
      refine ⟨s', Runs.bind (a := ()) ?_ (runs_pure.mpr ⟨rfl, rfl⟩), hconsumed, hholds⟩
      rw [Record.payload, hcount]
      exact hrun
  | eof => exact hclean.elim
  | segment value => exact base_runs h hahead (.inl rfl) (by decide)
  | linear value => exact base_runs h hahead (.inr rfl) (by decide)

end Loading

/-! ### Lines -/

section Lines

variable {pad : Byte} {limit : Nat} {im : Image} {s : Scan}

theorem takeLine_line {l rest : List Char} (hl : '\n' ∉ l) : ∀ {n : Nat}, l.length < n →
    takeLine n (l ++ '\n' :: rest) = (l ++ ['\n'], rest) := by
  induction l with
  | nil =>
      intro n hn
      obtain ⟨m, rfl⟩ := Nat.exists_eq_succ_of_ne_zero (Nat.ne_of_gt hn)
      exact if_pos rfl
  | cons c l ih =>
      intro n hn
      obtain ⟨m, rfl⟩ := Nat.exists_eq_succ_of_ne_zero (Nat.ne_of_gt (Nat.lt_of_le_of_lt (Nat.zero_le _) hn))
      rw [List.mem_cons, not_or] at hl
      have hrest := ih hl.2 (Nat.lt_of_succ_lt_succ hn)
      rw [List.cons_append, takeLine, if_neg (Ne.symm hl.1), hrest]
      rfl

/-- A line in the buffer. -/
theorem fgets_runs {bs : List Byte} {rest : List Char} (hfile : s.file = line bs ++ rest)
    (hlen : bs.length ≤ 500) :
    ∃ l, Runs fgets s () { s with file := rest, line := l, lp := some 0 } ∧
      ∀ i (h : i < (line bs).length), l i = (line bs)[i] := by
  have hsplit : line bs ++ rest = (':' :: hex bs) ++ '\n' :: rest := by
    rw [line, List.append_assoc]
    rfl
  have hcolon : '\n' ∉ ':' :: hex bs := by
    rw [List.mem_cons, not_or]
    exact ⟨by decide, newline_notMem_hex bs⟩
  have htake : takeLine 1022 s.file = (line bs, rest) := by
    rw [hfile, hsplit, takeLine_line hcolon]
    · rfl
    · rw [List.length_cons, length_hex]
      omega
  have hsome : s.file ≠ [] := by
    rw [hfile, hsplit]
    exact List.cons_ne_nil _ _
  refine ⟨storeString s.line (line bs), runs_modify.mpr ?_, ?_⟩
  · rw [if_neg hsome, htake]
  · intro i hi
    rw [storeString, if_pos hi, List.getD_eq_getElem?_getD, List.getElem?_eq_getElem hi]
    rfl

theorem Holds.fetched (h : Holds pad limit im s) (file : List Char) (l : Nat → Char) (p : Option Nat)
    (n : Nat) : Holds pad limit im { s with file := file, line := l, lp := p, lineno := n, checksum := 0 } := by
  cases h
  constructor <;> assumption

theorem bytes_eq (r : Record) : r.bytes = [BitVec.ofNat 8 r.payload.length] ++ (word2 r.addr ++
    ([r.type] ++ (r.payload ++ [-r.fields.sum]))) := by
  have hfields : r.fields = [BitVec.ofNat 8 r.payload.length] ++ (word2 r.addr ++ ([r.type] ++ r.payload)) :=
    rfl
  rw [Record.bytes]
  nth_rewrite 1 [hfields]
  simp only [List.append_assoc]

/-- **A line that is a record**: what its `switch` does, and no complaint. -/
theorem scanLine_runs {r : Record} {rest : List Char} {eof : Bool} {im' : Image}
    (h : Holds pad limit im s) (hfile : s.file = r.text ++ rest) (hlen : r.payload.length < 256)
    (hrecord : ∀ {t : Scan} {cs : List Byte}, Holds pad limit im t → Ahead t (hex (r.payload ++ cs)) →
      ∃ t', Runs (record r.type (BitVec.ofNat 8 r.payload.length) (BitVec.ofNat 32 r.addr.toNat)) t eof t' ∧
        Consumed r.payload t t' ∧ Holds pad limit im' t') :
    ∃ s', Runs scanLine s (if eof then some () else none) s' ∧ Holds pad limit im' s' ∧ s'.file = rest := by
  have hbytes : r.bytes.length ≤ 500 := by
    rw [bytes_eq]
    simp [word2]
    omega
  obtain ⟨l, hfgets, hline⟩ := fgets_runs (s := { s with lineno := s.lineno + 1 }) hfile hbytes
  have hcolon : l 0 = ':' := hline 0 (Nat.zero_lt_succ _)
  -- the buffer, with the pointer behind the colon
  have hstart := h.fetched rest l (some 1) (s.lineno + 1)
  generalize hs₁ : ({ s with file := rest, line := l, lp := some 1, lineno := s.lineno + 1, checksum := 0 } : Scan)
    = s₁ at hstart
  have hahead : Ahead s₁ (hex r.bytes) := by
    subst hs₁
    refine ⟨1, rfl, ?_⟩
    intro i hi
    have hlt : i + 1 < (line r.bytes).length := by simp [line]; omega
    have hlt' : i < (hex r.bytes ++ ['\n']).length := Nat.lt_of_succ_lt_succ hlt
    have hchar : (line r.bytes)[i + 1] = (hex r.bytes ++ ['\n'])[i] := rfl
    have hplace : l (1 + i) = l (i + 1) := congrArg l (Nat.add_comm 1 i)
    exact hplace.trans ((hline (i + 1) hlt).trans (hchar.trans (List.getElem_append_left hi)))
  have hfile₁ : s₁.file = rest := by rw [← hs₁]
  have hzero : s₁.checksum = 0 := by rw [← hs₁]
  rw [bytes_eq] at hahead
  -- length, address, type, data and checksum
  have hlength := getbyte_runs hahead
  have hahead₂ := hahead.consumed (consumed_read _ _)
  have haddr := getword_runs hahead₂
  have hahead₃ := hahead₂.consumed (consumed_read _ _)
  have htype := getbyte_runs hahead₃
  have hahead₄ := hahead₃.consumed (consumed_read _ _)
  obtain ⟨s₅, hrec, hconsumed, hholds⟩ := hrecord (((hstart.read _).read _).read _) hahead₄
  have hahead₅ := hahead₄.consumed hconsumed
  have hcheck := getbyte_runs hahead₅
  have hall := ((((consumed_read _ _).trans (consumed_read _ _)).trans (consumed_read _ _)).trans
    hconsumed).trans (consumed_read [-r.fields.sum] s₅)
  have hsum : (s₅.read [-r.fields.sum]).checksum = 0 := by
    have hwhole : [BitVec.ofNat 8 r.payload.length] ++ word2 r.addr ++ [r.type] ++ r.payload ++
        [-r.fields.sum] = r.bytes := by
      rw [bytes_eq]
      simp only [List.append_assoc]
    rw [hall.checksum, hwhole, Scan.read]
    dsimp only
    rw [hzero, r.sum_bytes]
    rfl
  refine ⟨s₅.read [-r.fields.sum], ?_, hholds.read _, hall.file.trans hfile₁⟩
  rw [scanLine]
  refine Runs.bind (a := ()) (runs_modify.mpr rfl) (hfgets.bind ?_)
  refine Runs.bind (runs_get.mpr ⟨rfl, rfl⟩) ?_
  refine Runs.bind (a := ()) (runs_set.mpr rfl) ?_
  rw [if_neg (not_not.mpr hcolon)]
  refine Runs.bind (a := ()) (runs_modify.mpr hs₁.symm) ?_
  refine hlength.bind (haddr.bind (htype.bind ?_))
  have hbyte : ∀ b : Byte, BitVec.ofInt 8 (b.toNat : Int) = b := by
    intro b
    rw [BitVec.ofInt_natCast, BitVec.ofNat_toNat, BitVec.setWidth_eq]
  rw [hbyte, hbyte, BitVec.ofInt_natCast]
  refine hrec.bind (hcheck.bind (Runs.bind (runs_get.mpr ⟨rfl, rfl⟩) ?_))
  rw [if_neg (not_not.mpr hsum)]
  exact runs_pure.mpr ⟨rfl, rfl⟩

/-- The record of the end ends the scan. -/
theorem eof_runs (h : Holds pad limit im s) (hfile : s.file = Record.eof.text) :
    ∃ s', Runs scanLine s (some ()) s' ∧ Holds pad limit im s' := by
  have hrecord : ∀ {t : Scan} {cs : List Byte}, Holds pad limit im t →
      Ahead t (hex (Record.eof.payload ++ cs)) →
        ∃ t', Runs (record Record.eof.type (BitVec.ofNat 8 Record.eof.payload.length)
          (BitVec.ofNat 32 Record.eof.addr.toNat)) t true t' ∧ Consumed Record.eof.payload t t' ∧
          Holds pad limit im t' :=
    fun {t _} ht _ => ⟨t, runs_pure.mpr ⟨rfl, rfl⟩, consumed_nil t, ht⟩
  obtain ⟨s', hrun, hs', -⟩ := scanLine_runs h (hfile.trans (List.append_nil _).symm) (by decide) hrecord
  exact ⟨s', hrun, hs'⟩

/-- **A file of records the ROM has room for, and the record of its end**, by induction on the
records. -/
theorem loop_runs {rs : List Record} {im' : Image} (hloads : Loads pad limit im rs im') :
    ∀ {s : Scan}, Holds pad limit im s → s.file = rs.flatMap Record.text ++ Record.eof.text →
      ∃ s', Runs (loop .fuel scanLine (rs.length + 1)) s () s' ∧ Holds pad limit im' s' := by
  induction hloads with
  | nil =>
      intro s h hfile
      obtain ⟨s', hrun, hs'⟩ := eof_runs h hfile
      exact ⟨s', hrun.loop_done _, hs'⟩
  | @cons im im' r rs clean rest ih =>
      intro s h hfile
      rw [List.flatMap_cons, List.append_assoc] at hfile
      have hlen : r.payload.length < 256 := by
        cases r with
        | data addr bytes => exact clean.1
        | eof => exact clean.elim
        | segment value => exact (by decide : 2 < 256)
        | linear value => exact (by decide : 2 < 256)
      obtain ⟨t, hone, ht, htail⟩ :=
        scanLine_runs h hfile hlen fun hh hahead => record_runs hh clean hahead
      obtain ⟨s', hrest, hs'⟩ := ih ht htail
      exact ⟨s', Runs.loop_again hone hrest, hs'⟩

end Lines

/-! ### The file -/

theorem length_le_flatMap (rs : List Record) : rs.length ≤ (rs.flatMap Record.text).length := by
  induction rs with
  | nil => exact Nat.le_refl _
  | cons r rs ih =>
      have hone : 1 ≤ r.text.length := Nat.succ_le_of_lt (Nat.zero_lt_succ _)
      rw [List.flatMap_cons, List.length_append, List.length_cons]
      omega

theorem start_holds {romSize : Nat} (pad : Byte) (file : List Char) (hsize : romSize ≤ 2 ^ 24) :
    Holds pad romSize ⟨0, fun _ => pad⟩ (start romSize pad file) where
  base := rfl
  mem := rfl
  mask := .inl rfl
  sourceAddress := rfl
  sourceLimit := rfl
  destAddress := rfl
  destLimit := rfl
  romSize := Nat.mod_eq_of_lt (Nat.lt_of_le_of_lt hsize (by decide))
  small := hsize
  pad := rfl
  overwrite := rfl
  errors := rfl

/-- **What `write_hex_file` writes, `scan_Intel_file` reads back**: for every ROM of up to 16 MB,
every pad byte and either way to announce a base, the file is made of lines whose bytes sum
to zero, and the scan of it ends with the ROM's bytes, nothing overwritten and no
complaint. -/
theorem hex_round_trip (rom : Rom) (hmax : rom.romSize ≤ 2 ^ 24) :
    (∃ lines : List (List Byte), writeHexFile rom = lines.flatMap line ∧ ∀ bs ∈ lines, bs.sum = 0) ∧
      ∃ s, Runs scanIntelFile (start rom.romSize rom.pad (writeHexFile rom)) () s ∧
        (∀ x < rom.romSize, s.buffer x = rom.buffer x) ∧ s.overwrite = 0 ∧ s.errors = [] := by
  obtain ⟨rs, im, htext, hloads, hmem⟩ := writeHexFile_spec hmax
  constructor
  · refine ⟨(rs ++ [Record.eof]).map Record.bytes, ?_, ?_⟩
    · rw [htext, List.flatMap_map]
      rfl
    · intro bs hbs
      obtain ⟨r, -, rfl⟩ := List.mem_map.mp hbs
      exact r.sum_bytes
  · have hfile : writeHexFile rom = rs.flatMap Record.text ++ Record.eof.text := by
      rw [htext, List.flatMap_append, List.flatMap_singleton]
    obtain ⟨s, hrun, hs⟩ := loop_runs hloads (start_holds rom.pad (writeHexFile rom) hmax) hfile
    have hfuel : rs.length + 1 ≤ (writeHexFile rom).length + 1 := by
      have hle := length_le_flatMap rs
      rw [hfile, List.length_append]
      omega
    refine ⟨s, ?_, ?_, hs.overwrite, hs.errors⟩
    · refine Runs.bind (a := ()) (runs_modify.mpr rfl) (Runs.bind (runs_get.mpr ⟨rfl, rfl⟩) ?_)
      exact hrun.loop_mono hfuel
    · intro x hx
      rw [hs.mem]
      exact hmem x hx

/-- 256 bytes that count up, with segments. -/
def countingRom : Rom := ⟨BitVec.ofNat 8, 256, 0xFF, true⟩

theorem hex_round_trip_counting :
    (∃ lines : List (List Byte), writeHexFile countingRom = lines.flatMap line ∧ ∀ bs ∈ lines, bs.sum = 0) ∧
      ∃ s, Runs scanIntelFile (start 256 0xFF (writeHexFile countingRom)) () s ∧
        (∀ x < 256, s.buffer x = BitVec.ofNat 8 x) ∧ s.overwrite = 0 ∧ s.errors = [] :=
  hex_round_trip countingRom (by decide)

end Sbc386Ex.Hex

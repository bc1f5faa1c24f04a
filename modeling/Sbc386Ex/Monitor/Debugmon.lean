import Sbc386Ex.Monitor.Strtoint

/-!
# Sbc386Ex.Monitor.Debugmon

The commands of `debugmon.c` on a range of memory, from the operands on the line to every
access: `DUMP`, which reads through `pm_read` a line of 16 bytes at a time, and `FILL`, which
stores through a far pointer.
-/

namespace Sbc386Ex.Monitor

open Setup (Holds text holds_text)

/-! ### Operands -/

/-- `parse_addr`: what it puts in `*out`, if anything, and the pointer after it. -/
def parseAddr (m : Mem) (fuel pp : Nat) : Option (Option DWord × Nat) :=
  (strtoint m fuel pp).bind fun v =>
    if v.endptr = pp then some (none, pp)
    else if m v.endptr = 0x3A then
      (strtoint m fuel (v.endptr + 1)).map fun off => (some (v.value <<< 4 + off.value), off.endptr)
    else some (some v.value, v.endptr)

def parseVal (m : Mem) (fuel pp : Nat) : Option (Option DWord × Nat) :=
  (strtoint m fuel pp).map fun v => if v.endptr = pp then (none, pp) else (some v.value, v.endptr)

structure DumpArgs where
  start : DWord
  stop : Option DWord
  deriving DecidableEq

/-- After `DUMP`; nothing where there is no address. -/
def dumpArgs (m : Mem) (fuel cp : Nat) : Option (Option DumpArgs) :=
  (parseAddr m fuel cp).bind fun (start, cp) =>
    match start with
    | none => some none
    | some start => (parseAddr m fuel cp).map fun (stop, _) => some { start, stop }

structure FillArgs where
  a : DWord
  n : DWord
  v : DWord
  inc : DWord
  deriving DecidableEq

/-- After `FILL`; nothing where an operand is missing or the count is out of range. -/
def fillArgs (m : Mem) (fuel cp : Nat) : Option (Option FillArgs) :=
  (parseAddr m fuel cp).bind fun (a, cp) =>
    match a with
    | none => some none
    | some a =>
      (parseVal m fuel cp).bind fun (n, cp) =>
        match n with
        | none => some none
        | some n =>
          (parseVal m fuel cp).bind fun (v, cp) =>
            match v with
            | none => some none
            | some v =>
              if n = 0 ∨ n > 0xFFF0 then some none
              else (parseVal m fuel cp).map fun (inc, _) => some { a, n, v, inc := inc.getD 0 }

/-! ### `DumpMemory` -/

def BYTES_PER_LINE : DWord := 16
def DEFAULT_LEN : DWord := 0x80

/-- A line of the display: its base and the columns that are in the range. -/
structure DumpLine where
  base : DWord
  first : Nat
  last : Nat
  deriving DecidableEq

/-- `pm_read` of the line, a byte at a time. -/
def DumpLine.reads (l : DumpLine) : List DWord :=
  (List.range (l.last - l.first + 1)).map fun i =>
    l.base + BitVec.ofNat 32 l.first + BitVec.ofNat 32 i

def dumpLine (start stop lineBase : DWord) : DumpLine where
  base := lineBase
  first := if lineBase < start then (start - lineBase).toNat else 0
  last :=
    if stop - lineBase < BYTES_PER_LINE then (stop - lineBase).toNat
    else (BYTES_PER_LINE - 1).toNat

/-- The lines from `lineBase` on, of which this is the `k`-th. `abort` are the answers of
`abort_requested`. -/
def dumpLoop (start stop : DWord) (abort : Nat → Bool) : (fuel k : Nat) → DWord →
    Option (List DumpLine)
  | 0, _, _ => none
  | fuel + 1, k, lineBase =>
      let l := dumpLine start stop lineBase
      if stop - lineBase < BYTES_PER_LINE then some [l]
      else if abort k then some [l]
      else
        (dumpLoop start stop abort fuel (k + 1) (lineBase + BYTES_PER_LINE)).map fun ls => l :: ls

def dumpMemory (abort : Nat → Bool) (fuel : Nat) (start stop : DWord) : Option (List DumpLine) :=
  if stop < start then some [] else dumpLoop start stop abort fuel 0 (start &&& ~~~(0x0F : DWord))

/-- `DUMP`, with operands. -/
def dump (abort : Nat → Bool) (fuel : Nat) (args : DumpArgs) : Option (List DumpLine) :=
  dumpMemory abort fuel args.start (args.stop.getD (args.start + (DEFAULT_LEN - 1)))

/-- A `DUMP` line. Without an address it reads nothing. -/
def dumpCommand (abort : Nat → Bool) (lines : Nat) (m : Mem) (fuel cp : Nat) :
    Option (List DumpLine) :=
  (dumpArgs m fuel cp).bind fun
    | none => some []
    | some args => dump abort lines args

/-! ### `FILL` -/

/-- `for( i = 0; i < (word)n; i++, v += inc ) m.p[i] = (byte)v;`, `k` bytes to go. -/
def fillLoop (seg off : Word) (inc : DWord) : Nat → Word → DWord → List (Nat × Byte)
  | 0, _, _ => []
  | k + 1, i, v => (linear seg (off + i), v.setWidth 8) :: fillLoop seg off inc k (i + 1) (v + inc)

/-- `FILL`, with operands: its stores. -/
def fill (args : FillArgs) : List (Nat × Byte) :=
  fillLoop ((args.a >>> 4).setWidth 16) ((args.a &&& 0x0F).setWidth 16) args.inc
    ((args.n.setWidth 16 : Word).toNat) 0 args.v

/-- A `FILL` line: its stores, or nothing where it is refused. -/
def fillCommand (m : Mem) (fuel cp : Nat) : Option (Option (List (Nat × Byte))) :=
  (fillArgs m fuel cp).map fun args => args.map fill

/-! ### What is expected of them -/

namespace DumpArgs

/-- The last address: without an end address 80h bytes, but none after the top of memory. -/
def last (args : DumpArgs) : Nat :=
  match args.stop with
  | some stop => stop.toNat
  | none => min (args.start.toNat + 0x7F) (2 ^ 32 - 1)

def range (args : DumpArgs) : List Nat :=
  List.range' args.start.toNat (args.last + 1 - args.start.toNat)

end DumpArgs

/-- Every byte of the range is read, once and in order, up to where the user stops it. -/
def Dumps (args : DumpArgs) (abort : Nat → Bool) (r : Option (List DumpLine)) : Prop :=
  ∃ lines, r = some lines ∧
    let reads := (lines.flatMap DumpLine.reads).map BitVec.toNat
    reads <+: args.range ∧ ((∀ k, abort k = false) → reads = args.range)

/-- The stores a `FILL` names. -/
def FillArgs.stores (args : FillArgs) : List (Nat × Byte) :=
  (List.range args.n.toNat).map fun i =>
    (args.a.toNat + i, BitVec.ofNat 8 (args.v.toNat + i * args.inc.toNat))

/-- Real Mode reaches the first megabyte (`parse_far`). -/
def Fills (args : FillArgs) (r : Option (Option (List (Nat × Byte)))) : Prop :=
  r = some (if args.a < 0x100000 then some args.stores else none)

/-! ### The lines of a dump -/

variable {start stop lineBase : DWord} {abort : Nat → Bool}

/-- The line at `lineBase` is one of the range. -/
structure OnRange (start stop lineBase : DWord) : Prop where
  aligned : lineBase.toNat % 16 = 0
  reaches : start.toNat ≤ lineBase.toNat + 15
  le : lineBase.toNat ≤ stop.toNat
  range : start.toNat ≤ stop.toNat

/-- Where the bytes of a line begin, and where they end. -/
def lineStart (start lineBase : DWord) : Nat := max start.toNat lineBase.toNat
def lineEnd (stop lineBase : DWord) : Nat := min stop.toNat (lineBase.toNat + 15)

theorem lastLine_iff (h : OnRange start stop lineBase) :
    stop - lineBase < BYTES_PER_LINE ↔ stop.toNat < lineBase.toNat + 16 := by
  have hle := h.le
  rw [BitVec.lt_def, BitVec.toNat_sub_of_le (BitVec.le_def.mpr hle)]
  have hsixteen : BYTES_PER_LINE.toNat = 16 := rfl
  omega

theorem dumpLine_reads (h : OnRange start stop lineBase) :
    ((dumpLine start stop lineBase).reads).map BitVec.toNat =
      List.range' (lineStart start lineBase) (lineEnd stop lineBase + 1 - lineStart start lineBase) := by
  obtain ⟨haligned, hreaches, hle, hrange⟩ := h
  have hlast := lastLine_iff ⟨haligned, hreaches, hle, hrange⟩
  have hstop := stop.isLt
  have hfirst : lineBase.toNat + (dumpLine start stop lineBase).first = lineStart start lineBase := by
    simp only [dumpLine, lineStart]
    split_ifs with hbefore
    · have hbefore : lineBase.toNat < start.toNat := hbefore
      rw [BitVec.toNat_sub_of_le (BitVec.le_def.mpr hbefore.le)]
      omega
    · have hafter : ¬ lineBase.toNat < start.toNat := hbefore
      omega
  have hend : lineBase.toNat + (dumpLine start stop lineBase).last = lineEnd stop lineBase := by
    simp only [dumpLine, lineEnd, hlast]
    split_ifs with hshort
    · rw [BitVec.toNat_sub_of_le (BitVec.le_def.mpr hle)]
      omega
    · have hfifteen : (BYTES_PER_LINE - 1).toNat = 15 := rfl
      omega
  have hbetween : lineStart start lineBase ≤ lineEnd stop lineBase := by
    unfold lineStart lineEnd
    omega
  have htop : lineEnd stop lineBase < 2 ^ 32 := by
    unfold lineEnd
    omega
  have hcount : (dumpLine start stop lineBase).last - (dumpLine start stop lineBase).first + 1 =
      lineEnd stop lineBase + 1 - lineStart start lineBase := by omega
  rw [DumpLine.reads, hcount, List.map_map, List.range'_eq_map_range]
  apply List.map_congr_left
  intro i hi
  rw [List.mem_range] at hi
  have hbase : (dumpLine start stop lineBase).base = lineBase := rfl
  simp only [Function.comp_apply, hbase, BitVec.toNat_add, BitVec.toNat_ofNat]
  omega

/-- The next line, if there is one, begins where this one ends. -/
theorem OnRange.next (h : OnRange start stop lineBase) (hmore : ¬ stop.toNat < lineBase.toNat + 16) :
    OnRange start stop (lineBase + BYTES_PER_LINE) ∧
      (lineBase + BYTES_PER_LINE).toNat = lineBase.toNat + 16 := by
  obtain ⟨haligned, hreaches, hle, hrange⟩ := h
  have hstop := stop.isLt
  have hnext : (lineBase + BYTES_PER_LINE).toNat = lineBase.toNat + 16 := by
    have hsixteen : BYTES_PER_LINE.toNat = 16 := rfl
    rw [BitVec.toNat_add]
    omega
  exact ⟨⟨by omega, by omega, by omega, hrange⟩, hnext⟩

/-- The bytes from a line on. -/
def remaining (start stop lineBase : DWord) : List Nat :=
  List.range' (lineStart start lineBase) (stop.toNat + 1 - lineStart start lineBase)

theorem remaining_last (hlast : stop.toNat < lineBase.toNat + 16) :
    remaining start stop lineBase =
      List.range' (lineStart start lineBase) (lineEnd stop lineBase + 1 - lineStart start lineBase) := by
  have hend : lineEnd stop lineBase = stop.toNat := by
    unfold lineEnd
    omega
  rw [remaining, hend]

theorem remaining_more (h : OnRange start stop lineBase) (hmore : ¬ stop.toNat < lineBase.toNat + 16) :
    remaining start stop lineBase =
      List.range' (lineStart start lineBase) (lineEnd stop lineBase + 1 - lineStart start lineBase) ++
        remaining start stop (lineBase + BYTES_PER_LINE) := by
  have hreaches := h.reaches
  obtain ⟨-, hnext⟩ := h.next hmore
  have hstart : lineStart start (lineBase + BYTES_PER_LINE) =
      lineStart start lineBase + (lineEnd stop lineBase + 1 - lineStart start lineBase) := by
    unfold lineStart lineEnd
    omega
  rw [remaining, remaining, hstart, List.range'_append_1]
  congr 1
  unfold lineStart lineEnd at *
  omega

/-- The lines from one on are enough fuel apart from the last. -/
theorem dumpLoop_reads {fuel : Nat} (k : Nat) (h : OnRange start stop lineBase)
    (hfuel : (stop.toNat - lineBase.toNat) / 16 < fuel) :
    ∃ lines, dumpLoop start stop abort fuel k lineBase = some lines ∧
      (lines.flatMap DumpLine.reads).map BitVec.toNat <+: remaining start stop lineBase ∧
      ((∀ k, abort k = false) →
        (lines.flatMap DumpLine.reads).map BitVec.toNat = remaining start stop lineBase) := by
  induction fuel generalizing k lineBase with
  | zero => exact absurd hfuel (Nat.not_lt_zero _)
  | succ fuel ih =>
      have hreads := dumpLine_reads h
      have hone : ∀ l : DumpLine, [l].flatMap DumpLine.reads = l.reads := fun l => by simp
      have hlast := lastLine_iff h
      rw [dumpLoop]
      by_cases hshort : stop.toNat < lineBase.toNat + 16
      · rw [if_pos (hlast.mpr hshort)]
        refine ⟨_, rfl, ?_⟩
        rw [hone, hreads, remaining_last hshort]
        exact ⟨List.prefix_refl _, fun _ => rfl⟩
      · obtain ⟨hnext, hbase⟩ := h.next hshort
        rw [if_neg (hlast.not.mpr hshort), remaining_more h hshort]
        by_cases habort : abort k = true
        · -- stopped after this line
          rw [if_pos habort]
          refine ⟨_, rfl, ?_⟩
          rw [hone, hreads]
          exact ⟨List.prefix_append _ _, fun hnone => Bool.noConfusion (habort.symm.trans (hnone k))⟩
        · obtain ⟨lines, hloop, hprefix, hall⟩ := ih (k + 1) hnext (by omega)
          rw [if_neg habort, hloop]
          refine ⟨_, rfl, ?_⟩
          rw [List.flatMap_cons, List.map_append, hreads]
          refine ⟨(List.prefix_append_right_inj _).mpr hprefix, fun hnone => ?_⟩
          rw [hall hnone]

/-- **A dump** of a range that is not empty. -/
theorem dumpMemory_reads {fuel : Nat} (hrange : start.toNat ≤ stop.toNat) (hfuel : 2 ^ 28 ≤ fuel) :
    ∃ lines, dumpMemory abort fuel start stop = some lines ∧
      let reads := (lines.flatMap DumpLine.reads).map BitVec.toNat
      let range := List.range' start.toNat (stop.toNat + 1 - start.toNat)
      reads <+: range ∧ ((∀ k, abort k = false) → reads = range) := by
  have hstart : (start &&& ~~~(0x0F : DWord)).toNat = start.toNat / 16 * 16 := by
    have hclear : start &&& ~~~(0x0F : DWord) = start >>> 4 <<< 4 := by
      have hmask : ∀ i (h : i < 32), (~~~(0x0F : DWord))[i] = decide (4 ≤ i) := by decide
      apply BitVec.eq_of_getElem_eq
      intro i hi
      rw [BitVec.getElem_and, hmask i hi, BitVec.getElem_shiftLeft]
      grind
    rw [hclear, BitVec.toNat_shiftLeft, BitVec.toNat_ushiftRight, Nat.shiftLeft_eq,
      Nat.shiftRight_eq_div_pow]
    omega
  have hstop := stop.isLt
  have honRange : OnRange start stop (start &&& ~~~(0x0F : DWord)) := ⟨by omega, by omega, by omega, hrange⟩
  have hfirst : remaining start stop (start &&& ~~~(0x0F : DWord)) =
      List.range' start.toNat (stop.toNat + 1 - start.toNat) := by
    have hmax : lineStart start (start &&& ~~~(0x0F : DWord)) = start.toNat := by
      unfold lineStart
      omega
    rw [remaining, hmax]
  have hnot : ¬ stop < start := fun h => absurd (show stop.toNat < start.toNat from h) (by omega)
  rw [dumpMemory, if_neg hnot, ← hfirst]
  exact dumpLoop_reads 0 honRange (by omega)

theorem dumpCommand_iff (m : Mem) (fuel cp : Nat) {args : DumpArgs}
    (hargs : dumpArgs m fuel cp = some (some args)) :
    (∀ abort lines, 2 ^ 28 ≤ lines → Dumps args abort (dumpCommand abort lines m fuel cp)) ↔
      (args.stop = none → args.start ≤ 0xFFFFFF80) := by
  have hdump : ∀ abort lines, dumpCommand abort lines m fuel cp = dump abort lines args := by
    intro abort lines
    rw [dumpCommand, hargs]
    rfl
  simp only [hdump]
  obtain ⟨start, stop⟩ := args
  have hstart := start.isLt
  have hlength : (DEFAULT_LEN - 1).toNat = 0x7F := rfl
  have hlimit : start ≤ 0xFFFFFF80 ↔ start.toNat ≤ 0xFFFFFF80 := BitVec.le_def
  cases stop with
  | some stop =>
      refine iff_of_true (fun abort lines hlines => ?_) nofun
      rcases Nat.lt_or_ge stop.toNat start.toNat with hless | hrange
      · -- an empty range
        have hempty : DumpArgs.range ⟨start, some stop⟩ = [] := by
          have hnone : stop.toNat + 1 - start.toNat = 0 := by omega
          simp only [DumpArgs.range, DumpArgs.last, hnone]
          rfl
        refine ⟨[], if_pos hless, ?_⟩
        rw [hempty]
        exact ⟨List.prefix_refl _, fun _ => rfl⟩
      · exact dumpMemory_reads hrange hlines
  | none =>
      rw [hlimit]
      constructor
      · intro hall _
        by_contra hhigh
        have hwraps : start + (DEFAULT_LEN - 1) < start := by
          rw [BitVec.lt_def, BitVec.toNat_add]
          omega
        obtain ⟨lines, hlines, -, hreads⟩ := hall (fun _ => false) (2 ^ 28) le_rfl
        obtain rfl : [] = lines := Option.some.inj ((if_pos hwraps).symm.trans hlines)
        have hsome : DumpArgs.range ⟨start, none⟩ ≠ [] := by
          simp only [DumpArgs.range, DumpArgs.last, ne_eq, List.range'_eq_nil_iff]
          omega
        exact hsome (hreads fun _ => rfl).symm
      · intro hlow abort lines hlines
        have hlow := hlow rfl
        have hsum : (start + (DEFAULT_LEN - 1)).toNat = start.toNat + 0x7F := by
          rw [BitVec.toNat_add]
          omega
        have hlast : DumpArgs.last ⟨start, none⟩ = (start + (DEFAULT_LEN - 1)).toNat := by
          simp only [DumpArgs.last, hsum]
          omega
        have hreads := @dumpMemory_reads start (start + (DEFAULT_LEN - 1)) abort lines (by omega) hlines
        rw [← hlast] at hreads
        exact hreads

/-! ### The stores of a fill -/

theorem fillLoop_eq (seg off : Word) (inc : DWord) (k : Nat) (i : Word) (v : DWord) :
    fillLoop seg off inc k i v = (List.range k).map fun j =>
      (linear seg (off + (i + BitVec.ofNat 16 j)), (v + BitVec.ofNat 32 j * inc).setWidth 8) := by
  induction k generalizing i v with
  | zero => rfl
  | succ k ih =>
      rw [fillLoop, ih, List.range_succ_eq_map, List.map_cons, List.map_map]
      congr 1
      · simp
      · apply List.map_congr_left
        intro j _
        have hword : i + 1 + BitVec.ofNat 16 j = i + BitVec.ofNat 16 (j + 1) := by
          rw [BitVec.ofNat_add, BitVec.add_assoc, BitVec.add_comm 1]
          rfl
        have hvalue : v + inc + BitVec.ofNat 32 j * inc = v + BitVec.ofNat 32 (j + 1) * inc := by
          rw [BitVec.ofNat_add, BitVec.add_mul, BitVec.add_assoc, BitVec.add_comm inc]
          simp
        simp only [Function.comp_apply, hword, hvalue]

theorem fill_eq {args : FillArgs} (ha : args.a < 0x100000) (hn : ¬ args.n > 0xFFF0) :
    fill args = args.stores := by
  have ha : args.a.toNat < 0x100000 := ha
  have hn : ¬ 0xFFF0 < args.n.toNat := hn
  have hcount : (args.n.setWidth 16 : Word).toNat = args.n.toNat := by
    rw [BitVec.toNat_setWidth]
    omega
  rw [fill, fillLoop_eq, hcount, FillArgs.stores]
  apply List.map_congr_left
  intro j hj
  rw [List.mem_range] at hj
  have hmask : (args.a &&& 0x0F).toNat = args.a.toNat % 16 :=
    Nat.and_two_pow_sub_one_eq_mod args.a.toNat 4
  have hzero : (0 : Word).toNat = 0 := rfl
  refine Prod.ext ?_ (BitVec.eq_of_toNat_eq ?_)
  · -- the segment has all the bits, and the offset stays below its end
    simp only [linear, BitVec.toNat_add, BitVec.toNat_setWidth, BitVec.toNat_ushiftRight,
      Nat.shiftRight_eq_div_pow, hmask, hzero, BitVec.toNat_ofNat]
    omega
  · simp only [BitVec.toNat_setWidth, BitVec.toNat_add, BitVec.toNat_mul, BitVec.toNat_ofNat,
      Nat.mod_mul_mod]
    rw [Nat.mod_mod_of_dvd _ (show 2 ^ 8 ∣ 2 ^ 32 by decide), Nat.add_mod,
      Nat.mod_mod_of_dvd _ (show 2 ^ 8 ∣ 2 ^ 32 by decide), ← Nat.add_mod]

/-- The count is in range. -/
theorem count_of_fillArgs {m : Mem} {fuel cp : Nat} {args : FillArgs}
    (h : fillArgs m fuel cp = some (some args)) : ¬ args.n > 0xFFF0 := by
  obtain ⟨⟨a, cp⟩, -, h⟩ := Option.bind_eq_some_iff.mp h
  cases a with
  | none => cases h
  | some a =>
  obtain ⟨⟨n, cp⟩, -, h⟩ := Option.bind_eq_some_iff.mp h
  cases n with
  | none => cases h
  | some n =>
  obtain ⟨⟨v, cp⟩, -, h⟩ := Option.bind_eq_some_iff.mp h
  cases v with
  | none => cases h
  | some v =>
  dsimp only at h
  split_ifs at h with hrange
  · cases h
  · obtain ⟨⟨inc, cp⟩, -, h⟩ := Option.map_eq_some_iff.mp h
    obtain rfl := Option.some.inj h
    exact (not_or.mp hrange).2

/-- A fill is not refused for its address, and its segment is the address without the bits
from 20 on. -/
theorem fillCommand_iff (m : Mem) (fuel cp : Nat) {args : FillArgs}
    (hargs : fillArgs m fuel cp = some (some args)) :
    Fills args (fillCommand m fuel cp) ↔ args.a < 0x100000 := by
  have hfill : fillCommand m fuel cp = some (some (fill args)) := by
    rw [fillCommand, hargs]
    rfl
  rw [Fills, hfill]
  by_cases ha : args.a < 0x100000
  · rw [if_pos ha, fill_eq ha (count_of_fillArgs hargs)]
    exact iff_of_true rfl ha
  · rw [if_neg ha]
    exact iff_of_false (fun h => by cases Option.some.inj h) ha

/-- **The range commands, exactly.** A dump reads its range, except where 80h bytes from its
address would go over the top of memory; a fill stores to its range, or is refused, except where
it begins above the first megabyte. -/
theorem ranges_iff (m : Mem) (fuel cp : Nat) :
    (∀ args, dumpArgs m fuel cp = some (some args) →
      ((∀ abort lines, 2 ^ 28 ≤ lines → Dumps args abort (dumpCommand abort lines m fuel cp)) ↔
        (args.stop = none → args.start ≤ 0xFFFFFF80))) ∧
    ∀ args, fillArgs m fuel cp = some (some args) →
      (Fills args (fillCommand m fuel cp) ↔ args.a < 0x100000) :=
  ⟨fun _ => dumpCommand_iff m fuel cp, fun _ => fillCommand_iff m fuel cp⟩

/-- `B8000 10 41`, which `DUMP` and `FILL` both take. -/
def screenLine : Mem :=
  text [0x42, 0x38, 0x30, 0x30, 0x30, 0x20, 0x31, 0x30, 0x20, 0x34, 0x31]

theorem ranges_iff_screenLine :
    ((∀ abort lines, 2 ^ 28 ≤ lines →
      Dumps ⟨0xB8000, some 0x10⟩ abort (dumpCommand abort lines screenLine 16 0)) ↔
        (some (0x10 : DWord) = none → (0xB8000 : DWord) ≤ 0xFFFFFF80)) ∧
      (Fills ⟨0xB8000, 0x10, 0x41, 0⟩ (fillCommand screenLine 16 0) ↔
        (0xB8000 : DWord) < 0x100000) :=
  ⟨(ranges_iff screenLine 16 0).1 _ (by decide), (ranges_iff screenLine 16 0).2 _ (by decide)⟩

/-- `FFFFFFF0`, the last 16 bytes of memory: nothing is read. -/
def topLine : Mem := text (List.replicate 7 0x46 ++ [0x30])

/-- `100000 1 0`: the byte at 0, of an interrupt vector, is stored to. -/
def highLine : Mem := text [0x31, 0x30, 0x30, 0x30, 0x30, 0x30, 0x20, 0x31, 0x20, 0x30]

theorem ranges_missed :
    (dumpArgs topLine 16 0 = some (some ⟨0xFFFFFFF0, none⟩) ∧
      ¬ ∀ abort lines, 2 ^ 28 ≤ lines →
        Dumps ⟨0xFFFFFFF0, none⟩ abort (dumpCommand abort lines topLine 16 0)) ∧
    fillArgs highLine 16 0 = some (some ⟨0x100000, 1, 0, 0⟩) ∧
      fillCommand highLine 16 0 = some (some [(0, 0)]) ∧
      ¬ Fills ⟨0x100000, 1, 0, 0⟩ (fillCommand highLine 16 0) := by
  have htop : dumpArgs topLine 16 0 = some (some ⟨0xFFFFFFF0, none⟩) := by decide
  have hhigh : fillArgs highLine 16 0 = some (some ⟨0x100000, 1, 0, 0⟩) := by decide
  refine ⟨⟨htop, fun hall => ?_⟩, hhigh, by decide, fun hfills => ?_⟩
  · exact absurd ((dumpCommand_iff topLine 16 0 htop).mp hall rfl) (by decide)
  · exact absurd ((fillCommand_iff highLine 16 0 hhigh).mp hfills) (by decide)

end Sbc386Ex.Monitor

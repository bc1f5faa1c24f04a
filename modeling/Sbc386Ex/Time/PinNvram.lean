import Sbc386Ex.Time.PinCalls

/-!
# Sbc386Ex.Time.PinNvram

The NVRAM through its three wires. Each call does to the chip's store what `Call.puts` says, a
byte at a time or in a burst; so what was written is read back, whatever was called in between
that did not write it.
-/

namespace Sbc386Ex.Time.Pins

open Cpu

/-! ### A buffer -/

theorem linear_injective (seg : Word) : Function.Injective (linear seg) := by
  intro x y h
  unfold linear at h
  exact BitVec.eq_of_toNat_eq (by omega)

/-- `rep movsb` leaves what it does not come to. -/
theorem repMovsb_of_ne (es : Word) {a : Nat} (bytes : List Byte) : ∀ {di : Word} {mem : Mem},
    (∀ i < bytes.length, linear es (di + BitVec.ofNat 16 i) ≠ a) →
      repMovsb es bytes di mem a = mem a := by
  induction bytes with
  | nil => exact fun _ => rfl
  | cons b bytes ih =>
      intro di mem h
      have hfirst : linear es di ≠ a := by
        have hzero := h 0 (Nat.succ_pos _)
        rwa [BitVec.add_zero] at hzero
      rw [repMovsb, ih, Function.update_of_ne hfirst.symm]
      intro i hi
      rw [add_ofNat_succ]
      exact h (i + 1) (Nat.succ_lt_succ hi)

/-- A buffer of no more than a segment has what was moved to it, also round the segment's end. -/
theorem bytesAt_repMovsb (es : Word) (bytes : List Byte) : ∀ {di : Word} {mem : Mem} {i : Nat},
    i < bytes.length → bytes.length ≤ 65536 →
      bytesAt (repMovsb es bytes di mem) es di i = bytes.getD i 0 := by
  induction bytes with
  | nil => exact fun h => absurd h (Nat.not_lt_zero _)
  | cons b bytes ih =>
      intro di mem i hi hlen
      rw [List.length_cons] at hi hlen
      cases i with
      | zero =>
          rw [bytesAt, BitVec.add_zero, repMovsb, repMovsb_of_ne, Function.update_self]
          · rfl
          intro i hi heq
          rw [add_ofNat_succ] at heq
          have hzero : BitVec.ofNat 16 (i + 1) = 0 := add_eq_left.mp (linear_injective es heq)
          have hnat := congrArg BitVec.toNat hzero
          rw [BitVec.toNat_ofNat, Nat.mod_eq_of_lt (by omega)] at hnat
          exact Nat.succ_ne_zero i hnat
      | succ i =>
          rw [bytesAt, repMovsb, ← add_ofNat_succ, List.getD_cons_succ]
          exact ih (Nat.lt_of_succ_lt_succ hi) (Nat.le_of_succ_le hlen)

/-! ### The calls -/

inductive Call
  | read
  | write
  | protect
  deriving DecidableEq

namespace Call

variable (s : Cpu (Board Port)) (c : Call)

def run : Cpu (Board Port) :=
  match c with
  | .read => dsRead s
  | .write => dsWrite s
  | .protect => wrProtect s

def Refused : Prop :=
  match c with
  | .protect => s.al &&& 0x7F ≠ 0
  | _ => 31 < s.al

/-- The byte a call has for a location of the RAM. -/
def puts (j : Nat) : Option Byte :=
  if c ≠ .write ∨ s.world.chip.chip.store.guarded = true ∨ 31 ≤ j then none
  else if s.al = 31 then some (bytesAt s.world.mem s.es s.bx j)
  else if s.al.toNat = j then some s.cl
  else none

/-- The chip's store after a call. -/
def store : Store where
  ram j := (c.puts s j).getD (s.world.chip.chip.store.ram j)
  regs :=
    if c = .protect ∧ s.al &&& 0x7F = 0 then Function.update s.world.chip.chip.store.regs CONTROL s.al
    else s.world.chip.chip.store.regs

variable {s : Cpu (Board Port)} {c : Call} {m : Store}

/-- A call it refuses does nothing. -/
theorem refused_run (h : c.Refused s) : c.run s = s.setCarry true := by
  have hlt : 31 < s.al → ¬ s.al < 31 ∧ s.al ≠ 31 := fun hgt => by
    have hnat : 31 < s.al.toNat := BitVec.lt_def.mp hgt
    exact ⟨fun hlt => absurd (BitVec.lt_def.mp hlt) (Nat.not_lt.mpr (Nat.le_of_lt hnat)),
      fun heq => by rw [heq] at hnat; exact Nat.lt_irrefl _ hnat⟩
  cases c with
  | read =>
      obtain ⟨hbyte, hburst⟩ := hlt h
      exact ((if_neg hbyte).trans (if_pos hburst)).trans (dsError_eq s)
  | write =>
      obtain ⟨hbyte, hburst⟩ := hlt h
      exact ((if_neg hbyte).trans (if_pos hburst)).trans (dsError_eq s)
  | protect => exact (if_pos h).trans (dsError_eq s)

theorem carry_setCarry (s : Cpu (Board Port)) : (s.setCarry false).carry = false := by
  simp [carry]

/-- A byte of the NVRAM, or all of it. -/
theorem byte_or_burst (h : ¬ 31 < s.al) : s.al < 31 ∨ s.al = 31 := by
  obtain hlt | heq | hgt := Nat.lt_trichotomy s.al.toNat 31
  · exact .inl (BitVec.lt_def.mpr hlt)
  · exact .inr (BitVec.eq_of_toNat_eq heq)
  · exact absurd (BitVec.lt_def.mpr (show (31 : Byte).toNat < s.al.toNat from hgt)) h

theorem puts_of_ne (h : c ≠ .write) (j : Nat) : c.puts s j = none := if_pos (.inl h)

theorem puts_write {j : Nat} (hopen : s.world.chip.chip.store.guarded = false) (hj : j < 31) :
    write.puts s j =
      if s.al = 31 then some (bytesAt s.world.mem s.es s.bx j)
      else if s.al.toNat = j then some s.cl else none := by
  have hputs : ¬ (write ≠ .write ∨ s.world.chip.chip.store.guarded = true ∨ 31 ≤ j) := by
    rintro (hne | hguarded | hge)
    · exact hne rfl
    · rw [hopen] at hguarded
      cases hguarded
    · exact absurd hj (Nat.not_lt.mpr hge)
  exact if_neg hputs

/-- Under write protection, and past the RAM's end. -/
theorem puts_write_none {j : Nat} (h : s.world.chip.chip.store.guarded = true ∨ 31 ≤ j) :
    write.puts s j = none := if_pos (.inr h)

theorem store_write_byte (h : s.al < 31) (hm : m = s.world.chip.chip.store) :
    (if m.guarded then m else { m with ram := Function.update m.ram s.al.toNat s.cl }) =
      store s .write := by
  have hlt : s.al.toNat < 31 := BitVec.lt_def.mp h
  have hbyte : ¬ s.al = 31 := fun heq => by
    rw [heq] at hlt
    exact Nat.lt_irrefl _ hlt
  rw [hm]
  by_cases hguarded : s.world.chip.chip.store.guarded = true
  · rw [if_pos hguarded]
    refine Store.ext (funext fun j => ?_) rfl
    show _ = (write.puts s j).getD _
    rw [puts_write_none (.inl hguarded)]
    rfl
  rw [if_neg hguarded]
  refine Store.ext (funext fun j => ?_) rfl
  show (Function.update _ _ _ : Nat → Byte) j = (write.puts s j).getD _
  by_cases hj : j < 31
  · rw [puts_write (Bool.eq_false_iff.mpr hguarded) hj, if_neg hbyte]
    by_cases heq : s.al.toNat = j
    · rw [if_pos heq, heq, Function.update_self]
      rfl
    · rw [if_neg heq, Function.update_of_ne (Ne.symm heq)]
      rfl
  · rw [puts_write_none (.inr (Nat.not_lt.mp hj)), Function.update_of_ne (by omega)]
    rfl

theorem store_write_burst (h : s.al = 31) (hm : m = s.world.chip.chip.store) :
    (if m.guarded then m
      else { m with ram := placed m.ram 0 (loadBytes s.world.mem s.es s.bx 31) }) = store s .write := by
  have hlen : (loadBytes s.world.mem s.es s.bx 31).length = 31 := by
    rw [loadBytes, List.length_map, List.length_range]
  rw [hm]
  by_cases hguarded : s.world.chip.chip.store.guarded = true
  · rw [if_pos hguarded]
    refine Store.ext (funext fun j => ?_) rfl
    show _ = (write.puts s j).getD _
    rw [puts_write_none (.inl hguarded)]
    rfl
  rw [if_neg hguarded]
  refine Store.ext (funext fun j => ?_) rfl
  show placed _ _ _ j = (write.puts s j).getD _
  by_cases hj : j < 31
  · have hin : placed s.world.chip.chip.store.ram 0 (loadBytes s.world.mem s.es s.bx 31) (0 + j) = _ :=
      placed_in (hj.trans_eq hlen.symm)
    rw [Nat.zero_add, loadBytes, List.getD_eq_getElem?_getD, List.getElem?_map,
      List.getElem?_range hj] at hin
    rw [puts_write (Bool.eq_false_iff.mpr hguarded) hj, if_pos h]
    exact hin
  · rw [puts_write_none (.inr (Nat.not_lt.mp hj)), placed_out (.inr (by omega))]
    rfl

/-- **A call it takes** ends with the wires at rest and the store as it should be. -/
theorem taken_run (h : ¬ c.Refused s) : (c.run s).carry = false ∧
    Rests s.world.chip (c.run s).world.chip ∧ (c.run s).world.chip.chip.store = c.store s := by
  obtain ⟨m, hm⟩ : ∃ m, m = s.world.chip.chip.store := ⟨_, rfl⟩
  cases c with
  | read =>
      have hstore : store s .read = m := by rw [hm]; rfl
      obtain hbyte | hburst := byte_or_burst h
      · obtain ⟨p, hrun, hrests, hkept⟩ := dsRead_byte hbyte hm
        rw [run, hrun, hstore]
        exact ⟨carry_setCarry s, hrests, hkept⟩
      · obtain ⟨v, p, hrun, hrests, hkept⟩ := dsRead_burst hburst hm
        rw [run, hrun, hstore]
        exact ⟨carry_setCarry s, hrests, hkept⟩
  | write =>
      obtain hbyte | hburst := byte_or_burst h
      · obtain ⟨p, hrun, hrests, hkept⟩ := dsWrite_byte hbyte hm
        rw [run, hrun]
        exact ⟨carry_setCarry s, hrests, hkept.trans (store_write_byte hbyte hm)⟩
      · obtain ⟨p, hrun, hrests, hkept⟩ := dsWrite_burst hburst hm
        rw [run, hrun]
        exact ⟨carry_setCarry s, hrests, hkept.trans (store_write_burst hburst hm)⟩
  | protect =>
      obtain ⟨p, hrun, hrests, hkept⟩ := wrProtect_wired (not_not.mp h) hm
      rw [run, hrun]
      refine ⟨carry_setCarry s, hrests, hkept.trans ?_⟩
      rw [hm]
      refine Store.ext (funext fun j => ?_) (if_pos ⟨rfl, not_not.mp h⟩).symm
      show _ = (protect.puts s j).getD _
      rw [puts_of_ne (by decide)]
      rfl

theorem refused_store (h : c.Refused s) : c.store s = s.world.chip.chip.store := by
  refine Store.ext (funext fun j => ?_) ?_
  · show (c.puts s j).getD _ = _
    have hnone : c.puts s j = none := by
      cases c with
      | read => exact puts_of_ne (by decide) j
      | protect => exact puts_of_ne (by decide) j
      | write =>
          have hgt : 31 < s.al.toNat := BitVec.lt_def.mp h
          have hburst : ¬ s.al = 31 := fun heq => by
            rw [heq] at hgt
            exact Nat.lt_irrefl _ hgt
          unfold puts
          split_ifs <;> first | rfl | omega
    rw [hnone]
    rfl
  · refine if_neg fun hprotect => ?_
    obtain ⟨rfl, hzero⟩ := hprotect
    exact h hzero

/-- Taken or refused, a call does to the store what it should. -/
theorem run_store : (c.run s).world.chip.chip.store = c.store s := by
  by_cases h : c.Refused s
  · rw [refused_run h, refused_store h]
    rfl
  · exact (taken_run h).2.2

end Call

/-- What is in location `n` when `ds_write` is called, and what a `ds_read` has for it. -/
def sent (s : Cpu (Board Port)) (n : Nat) : Byte :=
  if s.al = 31 then bytesAt s.world.mem s.es s.bx n else s.cl

def received (s : Cpu (Board Port)) (n : Nat) : Byte :=
  if s.al = 31 then bytesAt (dsRead s).world.mem s.es s.bx n else (dsRead s).al

/-- **What is read is what the chip keeps**, of a byte and of all of it. -/
theorem received_eq {n : Nat} (hn : n < 31) (hal : s.al.toNat = n ∨ s.al = 31) :
    received s n = s.world.chip.chip.store.ram n := by
  by_cases hburst : s.al = 31
  · obtain ⟨v, p, hrun, -⟩ := dsRead_burst hburst rfl
    rw [received, if_pos hburst, hrun]
    show bytesAt (repMovsb _ _ _ _) _ _ n = _
    have hlen : ((List.range 31).map s.world.chip.chip.store.ram).length = 31 := by
      rw [List.length_map, List.length_range]
    rw [bytesAt_repMovsb _ _ (by rw [hlen]; exact hn) (by rw [hlen]; omega),
      List.getD_eq_getElem?_getD, List.getElem?_map, List.getElem?_range hn]
    rfl
  · have hbyte : s.al.toNat = n := hal.resolve_right hburst
    have hlt : s.al < 31 := BitVec.lt_def.mpr (hbyte.trans_lt hn)
    obtain ⟨p, hrun, -⟩ := dsRead_byte hlt rfl
    rw [received, if_neg hburst, hrun, ← hbyte]
    exact low_append _ _

/-! ### Runs -/

/-- A run that does not put to location `n`: calls that do not, by whoever makes them, and
changes of the lights with RESET# low. -/
inductive Meanwhile (n : Nat) : Port → Port → Prop
  | done (p : Port) : Meanwhile n p p
  | call {p : Port} (c : Call) (s : Cpu (Board Port)) :
      Meanwhile n p s.world.chip → c.puts s n = none → Meanwhile n p (c.run s).world.chip
  | lights {p p' : Port} (v : Byte) :
      Meanwhile n p p' → v.getLsbD 3 = false → Meanwhile n p (p'.out v)

theorem Meanwhile.ram {n : Nat} {p p' : Port} (h : Meanwhile n p p') :
    p'.chip.store.ram n = p.chip.store.ram n := by
  induction h with
  | done => rfl
  | call c s _ hputs ih =>
      rw [Call.run_store, ← ih]
      show (c.puts s n).getD _ = _
      rw [hputs]
      rfl
  | lights v _ hreset ih =>
      rw [Port.out, hreset]
      exact ih

/-- **The round trip on the wires**, from every latch, with the chip in any state. -/
theorem ds_roundTrip :
    (∀ (s t : Cpu (Board Port)) (n : Nat), n < 31 → s.world.chip.chip.store.guarded = false →
      (s.al.toNat = n ∨ s.al = 31) → (t.al.toNat = n ∨ t.al = 31) →
      Meanwhile n (dsWrite s).world.chip t.world.chip → received t n = sent s n) ∧
    (∀ (t : Cpu (Board Port)) (n : Nat), n < 31 → (t.al.toNat = n ∨ t.al = 31) →
      received t n = t.world.chip.chip.store.ram n) ∧
    (∀ (c : Call) (s : Cpu (Board Port)) (j : Nat),
      (c.puts s j = none →
        (c.run s).world.chip.chip.store.ram j = s.world.chip.chip.store.ram j) ∧
      (c ≠ .protect ∨ j ≠ CONTROL →
        (c.run s).world.chip.chip.store.regs j = s.world.chip.chip.store.regs j)) ∧
    ∀ (c : Call) (s : Cpu (Board Port)),
      (¬ c.Refused s → (c.run s).carry = false ∧ Rests s.world.chip (c.run s).world.chip) ∧
      (c.Refused s → c.run s = s.setCarry true) := by
  refine ⟨?_, fun t n hn hal => received_eq hn hal, fun c s j => ⟨?_, ?_⟩, fun c s => ⟨?_, ?_⟩⟩
  · intro s t n hn hopen hs ht hrun
    rw [received_eq hn ht, hrun.ram]
    have hstore : (dsWrite s).world.chip.chip.store = Call.write.store s :=
      Call.run_store (s := s) (c := .write)
    rw [hstore]
    show (Call.write.puts s n).getD _ = _
    rw [Call.puts_write hopen hn, sent]
    by_cases hburst : s.al = 31
    · rw [if_pos hburst, if_pos hburst]
      rfl
    · rw [if_neg hburst, if_neg hburst, if_pos (hs.resolve_right hburst)]
      rfl
  · intro hputs
    rw [Call.run_store]
    show (c.puts s j).getD _ = _
    rw [hputs]
    rfl
  · intro hother
    rw [Call.run_store]
    show (if _ then _ else _ : Nat → Byte) j = _
    split_ifs with hprotect
    · exact Function.update_of_ne (hother.resolve_left (not_not_intro hprotect.1)) _ _
    · rfl
  · exact fun h => ⟨(Call.taken_run h).1, (Call.taken_run h).2.1⟩
  · exact fun h => Call.refused_run h

/-- The port as `start.asm` sets it up, before a chip that has forgotten everything. -/
def started : Cpu (Board Port) where
  ax := 0
  bx := 0
  cx := 0
  dx := 0
  si := 0
  di := 0
  bp := 0
  upper _ := 0
  ds := 0x0040
  es := 0x0040
  flags := 0
  stack := []
  world :=
    { timer := { count := 0, overflow := 0 }
      mem := fun _ => 0
      chip :=
        { latch := 0x63
          rts := fun _ => false
          looks := 0
          chip :=
            { ce := false
              sclk := false
              count := 0
              command := 0
              data := 0
              fell := 0
              drive := none
              store := ⟨fun _ => 0, fun _ => 0⟩ } } }

/-- A byte written, and read with all the others. -/
theorem ds_roundTrip_started :
    received { started with ax := 31, world := (dsWrite { started with ax := 5, cx := 0xA5 }).world } 5 =
      0xA5 := by
  have hread := ds_roundTrip.1 { started with ax := 5, cx := 0xA5 }
    { started with ax := 31, world := (dsWrite { started with ax := 5, cx := 0xA5 }).world } 5 (by decide)
    rfl (.inl rfl) (.inr rfl) (.done _)
  have hsent : sent { started with ax := 5, cx := 0xA5 } 5 = 0xA5 := by decide
  exact hread.trans hsent

end Sbc386Ex.Time.Pins

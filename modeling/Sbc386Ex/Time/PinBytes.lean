import Sbc386Ex.Time.Pins

/-!
# Sbc386Ex.Time.PinBytes

Bytes on the three wires. A transfer keeps `AL` and the latch alike in the bits that matter
(`InTransfer`); under that, eight rounds of `ds_outb` are a byte taken by the chip, as a command
or as data, and eight of `ds_inb` one it gives.
-/

namespace Sbc386Ex.Time.Pins

open Cpu Serial

/-! ### The chip, edge by edge -/

namespace Chip

variable {c : Chip}

/-- A bit clocked in. -/
def clockIn (c : Chip) (b : Bool) : Chip := { c.rise b with sclk := true }

theorem rise_sclk (c : Chip) (x b : Bool) :
    ({ c with sclk := x } : Chip).rise b = { c.rise b with sclk := x } := by
  unfold rise
  dsimp only
  split_ifs <;> rfl

/-- Not giving a byte. -/
def Listening (c : Chip) : Prop := c.ce = true ∧ ¬ (c.count = 8 ∧ reads c.command = true)

theorem see_low (h : c.Listening) (d : Bool) : c.see true false d = { c with sclk := false } := by
  obtain ⟨hce, hidle⟩ := h
  unfold see fall
  rw [if_neg (by decide), hce, if_neg (by decide), if_neg (by simp), if_neg hidle]
  cases hs : c.sclk with
  | false => rw [if_neg (by simp)]; cases c; simp_all
  | true => rw [if_pos (by simp)]; simp [hce]

/-- The clock low and high again. -/
theorem see_clock (h : c.Listening) (b : Bool) :
    ({ c with sclk := false } : Chip).see true true b = c.clockIn b := by
  rw [see, if_neg (by decide), if_neg (by simp [h.1]), if_pos ⟨rfl, rfl⟩, rise_sclk]
  rfl

/-- Giving a byte. -/
def Giving (c : Chip) : Prop := c.ce = true ∧ c.count = 8 ∧ reads c.command = true

/-- The bit that is next. -/
def next (c : Chip) : Bool := (c.store.fetch c.command (c.fell / 8)).getLsbD (c.fell % 8)

/-- A bit clocked out. -/
def clockOut (c : Chip) : Chip := { c with sclk := false, drive := some c.next, fell := c.fell + 1 }

theorem see_high (h : c.Giving) (d : Bool) : c.see true true d = { c with sclk := true } := by
  obtain ⟨hce, hcount, hreads⟩ := h
  have hrise : c.rise d = c := by rw [rise, if_neg (by omega), if_pos hreads]
  rw [see, if_neg (by decide), hce, if_neg (by decide), hrise]
  cases hs : c.sclk with
  | false => rw [if_pos (by simp)]; simp [hce]
  | true => rw [if_neg (by simp), if_neg (by simp)]; cases c; simp_all

/-- The clock high and low again. -/
theorem see_clockOut (h : c.Giving) (b : Bool) :
    ({ c with sclk := true } : Chip).see true false b = c.clockOut := by
  rw [see, if_neg (by decide), if_neg (by simp [h.1]), if_neg (by simp), if_pos ⟨rfl, rfl⟩, fall,
    if_pos h.2]
  rfl

theorem foldl_command (l : List Bool) : ∀ (c : Chip), c.count + l.length ≤ 8 →
    ∃ x, l.foldl clockIn c =
      { c with sclk := x, command := l.foldl shiftIn c.command, count := c.count + l.length } := by
  induction l with
  | nil => exact fun c _ => ⟨c.sclk, rfl⟩
  | cons b l ih =>
      intro c hlen
      rw [List.length_cons] at hlen
      have hrise : c.clockIn b =
          { c with sclk := true, command := shiftIn c.command b, count := c.count + 1 } := by
        rw [clockIn, rise, if_pos (by omega)]
      obtain ⟨x, hx⟩ := ih (c.clockIn b) (by rw [hrise]; show c.count + 1 + l.length ≤ 8; omega)
      refine ⟨x, ?_⟩
      rw [List.foldl_cons, hx, hrise, List.length_cons, List.foldl_cons, Nat.add_assoc, Nat.add_comm 1]

/-- A transfer begun. -/
def begun (m : Store) : Chip where
  ce := true
  sclk := false
  count := 0
  command := 0
  data := 0
  fell := 0
  drive := none
  store := m

/-- Taking bytes: `k` of them since the command. -/
structure Took (m : Store) (command : Byte) (k : Nat) (c : Chip) : Prop where
  ce : c.ce = true
  drive : c.drive = none
  command : c.command = command
  count : c.count = 8 * (k + 1)
  fell : c.fell = 0
  store : c.store = m

/-- Giving bytes: `k` of them so far. -/
structure Gave (m : Store) (command : Byte) (k : Nat) (c : Chip) : Prop where
  giving : c.Giving
  command : c.command = command
  fell : c.fell = 8 * k
  store : c.store = m

theorem Took.gave {m : Store} {command : Byte} (h : c.Took m command 0)
    (hreads : reads command = true) : c.Gave m command 0 := ⟨⟨h.ce, h.count, h.command ▸ hreads⟩, h.command, h.fell, h.store⟩

/-- Only a rising edge stores. -/
theorem store_see_low (c : Chip) (b d : Bool) : (c.see b false d).store = c.store := by
  unfold see fall
  split_ifs <;> first | rfl | simp_all

/-- With room for `n` bits more, of the command or of data. -/
def Taking (n : Nat) (c : Chip) : Prop :=
  c.ce = true ∧ c.drive = none ∧ (c.count + n ≤ 8 ∨ 8 ≤ c.count ∧ reads c.command = false)

theorem Taking.listening {n : Nat} (h : c.Taking (n + 1)) : c.Listening := by
  refine ⟨h.1, fun hgiving => ?_⟩
  obtain hroom | ⟨-, hwrite⟩ := h.2.2
  · omega
  · rw [hwrite] at hgiving
    cases hgiving.2

theorem Taking.clockIn {n : Nat} (h : c.Taking (n + 1)) (b : Bool) : (c.clockIn b).Taking n := by
  obtain ⟨hce, hdrive, hroom⟩ := h
  unfold Chip.clockIn rise
  by_cases hcommand : c.count < 8
  · rw [if_pos hcommand]
    exact ⟨hce, hdrive, .inl (by dsimp only; omega)⟩
  · have hwrite : reads c.command = false := by
      obtain hle | h := hroom
      · omega
      · exact h.2
    rw [if_neg hcommand, hwrite, if_neg (by decide)]
    dsimp only
    split_ifs
    · exact ⟨hce, hdrive, .inr ⟨by dsimp only; omega, hwrite⟩⟩
    · exact ⟨hce, hdrive, .inr ⟨by dsimp only; omega, hwrite⟩⟩

theorem Giving.clockOut (h : c.Giving) : c.clockOut.Giving := h

theorem iterate_clockOut (n : Nat) :
    ∃ x d, clockOut^[n] c = { c with sclk := x, drive := d, fell := c.fell + n } := by
  induction n with
  | zero => exact ⟨c.sclk, c.drive, rfl⟩
  | succ n ih =>
      obtain ⟨x, d, hn⟩ := ih
      exact ⟨false, _, by rw [Function.iterate_succ_apply', hn]; rfl⟩

/-- The bits given one after the other are those of the byte. -/
theorem bits_clockOut {k : Nat} (hfell : c.fell = 8 * k) :
    (List.range 8).map (fun i => (clockOut^[i] c).next) = bits (c.store.fetch c.command k) := by
  refine List.map_congr_left fun i hi => ?_
  have hlt : i < 8 := List.mem_range.mp hi
  obtain ⟨x, d, hi⟩ := iterate_clockOut (c := c) i
  have hbyte : (c.fell + i) / 8 = k := by omega
  have hbit : (c.fell + i) % 8 = i := by omega
  rw [hi, next]
  dsimp only
  rw [hbyte, hbit]

/-- The bits of a data byte: the last of them stores it. -/
theorem foldl_data (l : List Bool) : ∀ (c : Chip), 8 ≤ c.count → reads c.command = false →
    0 < l.length → c.count % 8 + l.length = 8 →
      ∃ x, l.foldl clockIn c =
        { c with
          sclk := x
          data := l.foldl shiftIn c.data
          count := c.count + l.length
          store :=
            c.store.write c.command ((c.count + l.length) / 8 - 2) (l.foldl shiftIn c.data) } := by
  induction l with
  | nil => exact fun c _ _ h => absurd h (Nat.lt_irrefl 0)
  | cons b l ih =>
      intro c hcount hwrite _ hlen
      rw [List.length_cons] at hlen
      have hrise : c.rise b = if (c.count + 1) % 8 = 0 then
          { c with
            data := shiftIn c.data b
            count := c.count + 1
            store := c.store.write c.command ((c.count + 1) / 8 - 2) (shiftIn c.data b) }
          else { c with data := shiftIn c.data b, count := c.count + 1 } := by
        rw [rise, if_neg (by omega), if_neg (by rw [hwrite]; decide)]
      rw [List.foldl_cons, clockIn, hrise]
      cases l with
      | nil =>
          rw [if_pos (by simp only [List.length_nil] at hlen; omega)]
          exact ⟨true, rfl⟩
      | cons b' l =>
          rw [if_neg (by rw [List.length_cons] at hlen; omega)]
          have hsum : c.count + 1 + (b' :: l).length = c.count + (b :: b' :: l).length := by
            simp only [List.length_cons]
            omega
          obtain ⟨x, hx⟩ := ih { c with data := shiftIn c.data b, count := c.count + 1, sclk := true }
            (Nat.le_succ_of_le hcount) hwrite (Nat.succ_pos _)
            (by rw [List.length_cons] at hlen ⊢; show (c.count + 1) % 8 + _ = 8; omega)
          dsimp only at hx
          rw [hsum] at hx
          exact ⟨x, hx⟩

/-- The command, and with it a transfer's first byte. -/
theorem foldl_begun (m : Store) (command : Byte) :
    ((bits command).foldl clockIn (begun m)).Took m command 0 := by
  obtain ⟨x, hx⟩ := foldl_command (bits command) (begun m) (by rw [length_bits]; rfl)
  rw [hx, foldl_bits, length_bits]
  exact ⟨rfl, rfl, rfl, rfl, rfl, rfl⟩

theorem foldl_took {m : Store} {command : Byte} {k : Nat} (h : c.Took m command k)
    (hwrite : reads command = false) (b : Byte) :
    ((bits b).foldl clockIn c).Took (m.write command k b) command (k + 1) := by
  have hcount := h.count
  obtain ⟨x, hx⟩ := foldl_data (bits b) c (by omega) (h.command ▸ hwrite) (by rw [length_bits]; omega)
    (by rw [length_bits]; omega)
  rw [hx, foldl_bits, length_bits, h.command, h.store]
  have hindex : (c.count + 8) / 8 - 2 = k := by omega
  rw [hindex]
  exact ⟨h.ce, h.drive, rfl, by dsimp only; omega, h.fell, rfl⟩

end Chip

/-! ### A word and its two bytes -/

theorem getElem_word (h l : Byte) {i : Nat} (hi : i < 16) :
    (h ++ l : Word)[i] = if i < 8 then l.getLsbD i else h.getLsbD (i - 8) := by
  rw [← BitVec.getLsbD_eq_getElem]
  show (h ++ l : BitVec (8 + 8)).getLsbD i = _
  rw [BitVec.getLsbD_append]

/-- `AL` with a bit out of `AH` for the data line, the clock low. -/
def outLow (h l : Byte) : Byte := (l &&& 0xFA) ||| (h &&& 1)

/-- `and al,~DSCLK`, `shr ax,1`, `rol al,1` -/
theorem low_shr (h l : Byte) :
    (low ((h ++ (l &&& ~~~DSCLK)) >>> 1)).rotateLeft 1 = outLow h l := by
  refine BitVec.eq_of_getLsbD_eq fun i hi => ?_
  interval_cases i <;> simp [low, getElem_word, DSCLK, outLow]

theorem high_shr (h l : Byte) : high ((h ++ l) >>> 1) = h >>> 1 := by
  refine BitVec.eq_of_getLsbD_eq fun i hi => ?_
  interval_cases i <;> simp [high, getElem_word]

/-- `ror ax,1`, `shl al,1` -/
theorem high_ror (h l : Byte) : high ((h ++ l).rotateRight 1) = shiftIn h (l.getLsbD 0) := by
  refine BitVec.eq_of_getLsbD_eq fun i hi => ?_
  rw [getLsbD_shiftIn]
  interval_cases i <;> simp [high, getElem_word]

theorem low_ror (h l : Byte) : low ((h ++ l).rotateRight 1) <<< 1 = l &&& 0xFE := by
  refine BitVec.eq_of_getLsbD_eq fun i hi => ?_
  interval_cases i <;> simp [low, getElem_word]

/-! ### What a routine leaves -/

variable {u : Byte} {s s' s'' : Cpu (Board Port)}

/-- Ready for the wires: `DX` is the latch, and `AL` has its lights and RESET#. -/
structure Held (u : Byte) (s : Cpu (Board Port)) : Prop where
  dx : s.dx = DSLTC
  al : s.al &&& 0xF8 = u
  latch : s.world.chip.latch &&& 0xF8 = u

/-- A routine that left `b` in `AH` and the chip as `c`, and but for the rest of the port,
`AL` and `DX` touched nothing. -/
structure Wired (u : Byte) (s s' : Cpu (Board Port)) (b : Byte) (c : Chip) : Prop where
  frame : s' = { s with ax := s'.ax, dx := DSLTC, world := { s.world with chip := s'.world.chip } }
  ah : s'.ah = b
  chip : s'.world.chip.chip = c
  rts : s'.world.chip.rts = s.world.chip.rts
  al : s'.al &&& 0xF8 = u
  latch : s'.world.chip.latch &&& 0xF8 = u

namespace Wired

variable {b b' : Byte} {c c' : Chip}

theorem held (h : Wired u s s' b c) : Held u s' := ⟨by rw [h.frame], h.al, h.latch⟩

theorem trans {u' : Byte} (h : Wired u s s' b c) (h' : Wired u' s' s'' b' c') :
    Wired u' s s'' b' c' where
  frame := by
    have hframe := h'.frame
    rw [h.frame] at hframe
    exact hframe
  ah := h'.ah
  chip := h'.chip
  rts := h'.rts.trans h.rts
  al := h'.al
  latch := h'.latch

/-- The count of a loop is its caller's. -/
theorem count (h : Wired u s s' b c) (n : Word) :
    Wired u { s with cx := n } { s' with cx := n } b c where
  frame := by
    have hframe := h.frame
    rw [hframe]
  ah := h.ah
  chip := h.chip
  rts := h.rts
  al := h.al
  latch := h.latch

end Wired

/-! ### A bit -/

theorem dsOutbRound_eq (hdx : s.dx = DSLTC) : dsOutbRound s =
    { s with
      ax := s.ah >>> 1 ++ (outLow s.ah s.al ||| DSCLK)
      cx := s.cx - 1
      world := { s.world with
        chip := (s.world.chip.out (outLow s.ah s.al)).out (outLow s.ah s.al ||| DSCLK) } } := by
  simp [dsOutbRound, dsOutLatch, outDx, onPort, hdx, low_shr, high_shr]

theorem dsInbRound_eq (hdx : s.dx = DSLTC) {p : Port} (hp : p =
    (s.world.chip.out (s.al ||| (DSCLK + DSDAT))).out ((s.al ||| (DSCLK + DSDAT)) &&& ~~~DSCLK)) :
    dsInbRound s =
      { s with
        ax := shiftIn s.ah (p.pins.getLsbD 0) ++ (p.pins &&& 0xFE)
        cx := s.cx - 1
        world := { s.world with chip := { p with looks := p.looks + 1 } } } := by
  rw [hp]
  simp [dsInbRound, dsOutLatch, outDx, inDx, onPort, hdx, low_ror, high_ror]

/-- The clock low, then high with the bit on the data line. -/
theorem out_clock {p : Port} (hchip : p.chip.Listening) (hdrive : p.chip.drive = none) {v w : Byte}
    (hv : v.getLsbD 3 = true ∧ v.getLsbD 2 = false) (hw : w.getLsbD 3 = true ∧ w.getLsbD 2 = true) :
    ((p.out v).out w).chip = p.chip.clockIn (w.getLsbD 0) := by
  have hlow : (p.out v).chip = { p.chip with sclk := false } := by
    rw [Port.out, hv.1, hv.2]
    exact Chip.see_low hchip _
  rw [Port.out, hlow, hw.1, hw.2, hdrive, Option.getD_none, Bool.and_true]
  exact Chip.see_clock hchip _

/-- The clock high, then low with the data line left to the chip. -/
theorem out_clockOut {p : Port} (hchip : p.chip.Giving) {v w : Byte}
    (hv : v.getLsbD 3 = true ∧ v.getLsbD 2 = true) (hw : w.getLsbD 3 = true ∧ w.getLsbD 2 = false) :
    ((p.out v).out w).chip = p.chip.clockOut := by
  have hhigh : (p.out v).chip = { p.chip with sclk := true } := by
    rw [Port.out, hv.1, hv.2]
    exact Chip.see_high hchip _
  rw [Port.out, hhigh, hw.1, hw.2]
  exact Chip.see_clockOut hchip _

theorem held_three {v : Byte} (h : v &&& 0xF8 = u) : v.getLsbD 3 = u.getLsbD 3 := by
  rw [← h]
  simp

theorem held_outLow (h l : Byte) : outLow h l &&& 0xF8 = l &&& 0xF8 := by
  refine BitVec.eq_of_getLsbD_eq fun i hi => ?_
  interval_cases i <;> simp [outLow]

theorem held_or {v w : Byte} (hw : w &&& 0xF8 = 0#8) : (v ||| w) &&& 0xF8 = v &&& 0xF8 := by
  rw [BitVec.and_or_distrib_right, hw, BitVec.or_zero]

theorem held_and (v : Byte) {w : Byte} (hw : w &&& 0xF8 = 0xF8) : v &&& w &&& 0xF8 = v &&& 0xF8 := by
  rw [BitVec.and_assoc, hw]

theorem held_pins (p : Port) : p.pins &&& 0xF8 = p.latch &&& 0xF8 := by
  rw [Port.pins, held_or (by split_ifs <;> rfl), held_or (by split_ifs <;> rfl), held_and _ rfl]

/-- A round of `ds_outb` clocks a bit in. -/
theorem dsOutbRound_wired (h : Held u s) (hu : u.getLsbD 3 = true)
    (hchip : s.world.chip.chip.Listening) (hdrive : s.world.chip.chip.drive = none) :
    Wired u { s with cx := s.cx - 1 } (dsOutbRound s) (s.ah >>> 1)
      (s.world.chip.chip.clockIn (s.ah.getLsbD 0)) := by
  obtain ⟨o, ho⟩ : ∃ o, o = outLow s.ah s.al := ⟨_, rfl⟩
  have hlow : o &&& 0xF8 = u := by rw [ho, held_outLow, h.al]
  have hhigh : (o ||| DSCLK) &&& 0xF8 = u := by rw [held_or rfl, hlow]
  have hbit : (o ||| DSCLK).getLsbD 0 = s.ah.getLsbD 0 := by rw [ho]; simp [outLow, DSCLK]
  rw [dsOutbRound_eq h.dx, ← ho, ← hbit]
  refine ⟨by rw [h.dx], high_append _ _, ?_, rfl, ?_, hhigh⟩
  · exact out_clock hchip hdrive ⟨(held_three hlow).trans hu, by rw [ho]; simp [outLow]⟩
      ⟨(held_three hhigh).trans hu, by simp [DSCLK]⟩
  · show low (_ ++ _) &&& _ = u
    rw [low_append, hhigh]

/-- A round of `ds_inb` clocks a bit out. -/
theorem dsInbRound_wired (h : Held u s) (hu : u.getLsbD 3 = true) (hchip : s.world.chip.chip.Giving) :
    Wired u { s with cx := s.cx - 1 } (dsInbRound s) (shiftIn s.ah s.world.chip.chip.next)
      s.world.chip.chip.clockOut := by
  obtain ⟨v, hv⟩ : ∃ v, v = s.al ||| (DSCLK + DSDAT) := ⟨_, rfl⟩
  obtain ⟨p, hp⟩ : ∃ p, p = (s.world.chip.out v).out (v &&& ~~~DSCLK) := ⟨_, rfl⟩
  have hhigh : v &&& 0xF8 = u := by rw [hv, held_or rfl, h.al]
  have hlow : (v &&& ~~~DSCLK) &&& 0xF8 = u := by rw [held_and _ rfl, hhigh]
  have hclocked : p.chip = s.world.chip.chip.clockOut := by
    rw [hp]
    exact out_clockOut hchip ⟨(held_three hhigh).trans hu, by rw [hv]; simp [DSCLK, DSDAT]⟩
      ⟨(held_three hlow).trans hu, by simp [DSCLK]⟩
  have hopen : p.latch.getLsbD 0 = true := by
    rw [hp, hv]
    simp [Port.out, DSCLK, DSDAT]
  have hbit : p.pins.getLsbD 0 = s.world.chip.chip.next := by
    simp only [Port.pins, hopen, hclocked, Chip.clockOut, Option.getD_some, Bool.true_and]
    cases s.world.chip.chip.next <;> cases p.rts p.looks <;> simp
  have hlatch : p.latch &&& 0xF8 = u := by rw [hp]; exact hlow
  rw [dsInbRound_eq h.dx (hv ▸ hp), hbit]
  refine ⟨by rw [h.dx], high_append _ _, hclocked, by rw [hp]; rfl, ?_, hlatch⟩
  show low (_ ++ _) &&& _ = u
  rw [low_append, held_and _ rfl, held_pins, hlatch]

/-! ### A byte -/

/-- `CX` counted down once, and `n` times more. -/
theorem sub_ofNat_succ (v : Word) (n : Nat) :
    v - 1 - BitVec.ofNat 16 n = v - BitVec.ofNat 16 (n + 1) := by
  rw [BitVec.ofNat_add, BitVec.add_comm, ← sub_sub]
  rfl

theorem dsOutbLoop_wired (n : Nat) : ∀ {s : Cpu (Board Port)}, Held u s → u.getLsbD 3 = true →
    s.world.chip.chip.Taking n →
      Wired u { s with cx := s.cx - BitVec.ofNat 16 n } (dsOutbRound^[n] s) (s.ah >>> n)
        (((List.range n).map s.ah.getLsbD).foldl Chip.clockIn s.world.chip.chip) := by
  induction n with
  | zero =>
      intro s h hu _
      have hcx : s.cx - BitVec.ofNat 16 0 = s.cx := BitVec.sub_zero _
      rw [hcx]
      exact ⟨by rw [Function.iterate_zero_apply, ← h.dx], by simp, rfl, rfl, h.al, h.latch⟩
  | succ n ih =>
      intro s h hu hchip
      have hround := dsOutbRound_wired h hu hchip.listening hchip.2.1
      have hrest := ih hround.held hu (by rw [hround.chip]; exact hchip.clockIn _)
      have hcx : (dsOutbRound s).cx - BitVec.ofNat 16 n = s.cx - BitVec.ofNat 16 (n + 1) := by
        rw [hround.frame, ← sub_ofNat_succ]
      have hbits : (List.range (n + 1)).map s.ah.getLsbD =
          s.ah.getLsbD 0 :: (List.range n).map (s.ah >>> 1).getLsbD := by
        rw [List.range_succ_eq_map, List.map_cons, List.map_map]
        refine congrArg (List.cons _) (List.map_congr_left fun i _ => ?_)
        rw [BitVec.getLsbD_ushiftRight, Nat.add_comm]
        rfl
      have hwired := (hround.count ((dsOutbRound s).cx - BitVec.ofNat 16 n)).trans hrest
      rw [hround.ah, hround.chip, ← BitVec.shiftRight_add, Nat.add_comm 1] at hwired
      rw [hcx] at hwired
      rw [hbits]
      exact hwired

/-- **`ds_outb`** clocks the byte in `AH` in. -/
theorem dsOutb_wired (h : Held u s) (hu : u.getLsbD 3 = true) (hchip : s.world.chip.chip.Taking 8) :
    Wired u s (dsOutb s) 0 ((bits s.ah).foldl Chip.clockIn s.world.chip.chip) := by
  have hloop := dsOutbLoop_wired 8 (s := { s.push s.cx with cx := 8 }) ⟨h.dx, h.al, h.latch⟩ hu hchip
  have hout : dsOutb s = (dsOutbRound^[8] { s.push s.cx with cx := 8 }).popCx := rfl
  generalize dsOutbRound^[8] { s.push s.cx with cx := 8 } = t at hloop hout
  rw [hout]
  refine ⟨?_, ?_, hloop.chip, hloop.rts, hloop.al, hloop.latch⟩
  · rw [hloop.frame]
    rfl
  · exact hloop.ah.trans (BitVec.ushiftRight_eq_zero (Nat.le_refl 8))

theorem dsInbLoop_wired (n : Nat) : ∀ {s : Cpu (Board Port)}, Held u s → u.getLsbD 3 = true →
    s.world.chip.chip.Giving →
      Wired u { s with cx := s.cx - BitVec.ofNat 16 n } (dsInbRound^[n] s)
        (((List.range n).map fun i => (Chip.clockOut^[i] s.world.chip.chip).next).foldl shiftIn s.ah)
        (Chip.clockOut^[n] s.world.chip.chip) := by
  induction n with
  | zero =>
      intro s h hu _
      have hcx : s.cx - BitVec.ofNat 16 0 = s.cx := BitVec.sub_zero _
      rw [hcx]
      exact ⟨by rw [Function.iterate_zero_apply, ← h.dx], rfl, rfl, rfl, h.al, h.latch⟩
  | succ n ih =>
      intro s h hu hchip
      have hround := dsInbRound_wired h hu hchip
      have hrest := ih hround.held hu (by rw [hround.chip]; exact hchip.clockOut)
      have hcx : (dsInbRound s).cx - BitVec.ofNat 16 n = s.cx - BitVec.ofNat 16 (n + 1) := by
        rw [hround.frame, ← sub_ofNat_succ]
      have hwired := (hround.count ((dsInbRound s).cx - BitVec.ofNat 16 n)).trans hrest
      rw [hround.ah, hround.chip, hcx] at hwired
      rw [List.range_succ_eq_map, List.map_cons, List.map_map]
      exact hwired

/-- **`ds_inb`** takes a byte to `AH`. -/
theorem dsInb_wired (h : Held u s) (hu : u.getLsbD 3 = true)
    (hchip : s.world.chip.chip.Giving) {k : Nat} (hfell : s.world.chip.chip.fell = 8 * k) :
    Wired u s (dsInb s) (s.world.chip.chip.store.fetch s.world.chip.chip.command k)
      (Chip.clockOut^[8] s.world.chip.chip) := by
  have hloop := dsInbLoop_wired 8 (s := { s.push s.cx with cx := 8 }) ⟨h.dx, h.al, h.latch⟩ hu hchip
  have hin : dsInb s = (dsInbRound^[8] { s.push s.cx with cx := 8 }).popCx := rfl
  generalize dsInbRound^[8] { s.push s.cx with cx := 8 } = t at hloop hin
  rw [hin]
  refine ⟨?_, ?_, hloop.chip, hloop.rts, hloop.al, hloop.latch⟩
  · rw [hloop.frame]
    rfl
  · refine hloop.ah.trans ?_
    show (List.map (fun i => (Chip.clockOut^[i] s.world.chip.chip).next) _).foldl shiftIn _ = _
    rw [Chip.bits_clockOut hfell, foldl_bits]

theorem dsOutb_command (h : Held u s) (hu : u.getLsbD 3 = true) {m : Store}
    (hchip : s.world.chip.chip = Chip.begun m) :
    ∃ c : Chip, Wired u s (dsOutb s) 0 c ∧ c.Took m s.ah 0 := by
  have hwired := dsOutb_wired h hu (by rw [hchip]; exact ⟨rfl, rfl, .inl (Nat.le_refl 8)⟩)
  rw [hchip] at hwired
  exact ⟨_, hwired, Chip.foldl_begun m s.ah⟩

theorem dsOutb_data (h : Held u s) (hu : u.getLsbD 3 = true) {m : Store} {command : Byte} {k : Nat}
    (hchip : s.world.chip.chip.Took m command k) (hwrite : reads command = false) :
    ∃ c : Chip, Wired u s (dsOutb s) 0 c ∧ c.Took (m.write command k s.ah) command (k + 1) := by
  have hcount := hchip.count
  have hwired := dsOutb_wired h hu
    ⟨hchip.ce, hchip.drive, .inr ⟨by omega, hchip.command ▸ hwrite⟩⟩
  exact ⟨_, hwired, Chip.foldl_took hchip hwrite s.ah⟩

theorem dsInb_gave (h : Held u s) (hu : u.getLsbD 3 = true) {m : Store} {command : Byte} {k : Nat}
    (hchip : s.world.chip.chip.Gave m command k) :
    ∃ c : Chip, Wired u s (dsInb s) (m.fetch command k) c ∧ c.Gave m command (k + 1) := by
  have hwired := dsInb_wired h hu hchip.giving hchip.fell
  obtain ⟨x, d, hx⟩ := Chip.iterate_clockOut (c := s.world.chip.chip) 8
  rw [hchip.store, hchip.command, hx] at hwired
  have hfell := hchip.fell
  exact ⟨_, hwired, hchip.giving, hchip.command, by dsimp only; omega, hchip.store⟩

/-! ### A transfer's ends -/

/-- RESET# low ends whatever was under way. -/
theorem dsResetOn_wired (s : Cpu (Board Port)) : ∃ c : Chip,
    Wired (s.world.chip.latch &&& 0xF0) s (dsResetOn s) s.ah c ∧
      c.ce = false ∧ c.store = s.world.chip.chip.store := by
  obtain ⟨v, hv⟩ : ∃ v, v = s.world.chip.latch &&& ~~~DSCLK := ⟨_, rfl⟩
  obtain ⟨w, hw⟩ : ∃ w, w = (v ||| DSDAT) &&& ~~~DSRST := ⟨_, rfl⟩
  have heq : dsResetOn s =
      { s with
        ax := s.ah ++ w
        dx := DSLTC
        world := { s.world with chip := (s.world.chip.out v).out w } } := by
    rw [hw, hv]
    simp [dsResetOn, dsOutLatch, outDx, inDx, onPort, DSLTC, DSPIN]
  have hheld : w &&& 0xF8 = s.world.chip.latch &&& 0xF0 := by
    rw [hw, hv]
    refine BitVec.eq_of_getLsbD_eq fun i hi => ?_
    interval_cases i <;> simp [DSCLK, DSDAT, DSRST]
  have hreset : w.getLsbD 3 = false := by rw [hw]; simp [DSRST]
  have hclock : v.getLsbD 2 = false := by rw [hv]; simp [DSCLK]
  obtain ⟨c, hc⟩ : ∃ c, c = (s.world.chip.out v).chip := ⟨_, rfl⟩
  have hstore : c.store = s.world.chip.chip.store := by
    rw [hc, Port.out, hclock]
    exact Chip.store_see_low _ _ _
  have hchip : ((s.world.chip.out v).out w).chip =
      { c with ce := false, sclk := w.getLsbD 2, drive := none } := by
    rw [Port.out, ← hc, hreset]
    rfl
  rw [heq]
  refine ⟨_, ⟨rfl, high_append _ _, hchip, rfl, ?_, hheld⟩, rfl, hstore⟩
  show low (_ ++ _) &&& _ = _
  rw [low_append, hheld]

theorem dsResetOff_wired (h : Held u s) (hu : u.getLsbD 3 = false) :
    Wired (u ||| DSRST) s (dsResetOff s) s.ah (Chip.begun s.world.chip.chip.store) := by
  obtain ⟨v, hv⟩ : ∃ v, v = (s.al &&& ~~~DSCLK) ||| DSDAT := ⟨_, rfl⟩
  have heq : dsResetOff s =
      { s with
        ax := s.ah ++ (v ||| DSRST)
        world := { s.world with chip := (s.world.chip.out v).out (v ||| DSRST) } } := by
    rw [hv]
    simp [dsResetOff, dsOutLatch, outDx, onPort, h.dx]
  have hlow : v &&& 0xF8 = u := by rw [hv, held_or rfl, held_and _ rfl, h.al]
  have hheld : (v ||| DSRST) &&& 0xF8 = u ||| DSRST := by
    rw [BitVec.and_or_distrib_right, hlow]
    rfl
  have hclock : v.getLsbD 2 = false := by rw [hv]; simp [DSCLK, DSDAT]
  have hchip : ((s.world.chip.out v).out (v ||| DSRST)).chip = Chip.begun s.world.chip.chip.store := by
    have hfirst : (s.world.chip.out v).chip =
        { s.world.chip.chip with ce := false, sclk := false, drive := none } := by
      rw [Port.out, (held_three hlow).trans hu, hclock]
      rfl
    have hthree : (v ||| DSRST).getLsbD 3 = true := by simp [DSRST]
    have htwo : (v ||| DSRST).getLsbD 2 = false := by rw [BitVec.getLsbD_or, hclock]; rfl
    rw [Port.out, hfirst, hthree, htwo]
    rfl
  rw [heq]
  refine ⟨by rw [h.dx], high_append _ _, hchip, rfl, ?_, hheld⟩
  show low (_ ++ _) &&& _ = _
  rw [low_append, hheld]

/-- A transfer begun, from whatever the chip and the latch were. -/
theorem begin_wired (s : Cpu (Board Port)) :
    Wired ((s.world.chip.latch &&& 0xF0) ||| DSRST) s (dsResetOff (dsResetOn s)) s.ah
      (Chip.begun s.world.chip.chip.store) := by
  obtain ⟨c, hon, -, hstore⟩ := dsResetOn_wired s
  have hoff := dsResetOff_wired hon.held (by simp)
  rw [hon.ah, hon.chip, hstore] at hoff
  exact hon.trans hoff

end Sbc386Ex.Time.Pins

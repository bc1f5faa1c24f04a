import Sbc386Ex.Time.NvramKept
import Sbc386Ex.Time.PinBytes

/-!
# Sbc386Ex.Time.PinCalls

`ds_read`, `ds_write` and `wr_protect` down to the wires. Whatever the latch and the chip were,
a call is a whole transfer: what it stores and what it reads is `Call.store` of what the chip
kept, and after it RESET# is low and the lights are as they were.
-/

namespace Sbc386Ex.Time.Pins

open Cpu Serial

variable {u : Byte} {s s' : Cpu (Board Port)} {m : Store}

/-! ### Commands -/

/-- `byte_read` and `byte_write` of a byte of the RAM. -/
theorem ram_command {v : Byte} (hv : v < 31) {bits : Byte} (hbits : bits = 0xC0 ∨ bits = 0xC1) :
    isRam (v <<< 1 ||| bits) = true ∧ address (v <<< 1 ||| bits) = v.toNat ∧
      (v <<< 1 ||| bits).msb = true ∧ reads (v <<< 1 ||| bits) = bits.getLsbD 0 := by
  obtain ⟨n, hn, rfl⟩ : ∃ n < 31, v = BitVec.ofNat 8 n :=
    ⟨v.toNat, BitVec.lt_def.mp hv, (BitVec.ofNat_toNat 8 v).symm⟩
  obtain rfl | rfl := hbits <;> interval_cases n <;> decide

namespace Store

theorem fetch_ram {v : Byte} (hv : v < 31) (m : Store) :
    m.fetch (v <<< 1 ||| 0xC1) 0 = m.ram v.toNat := by
  obtain ⟨hram, haddress, -, -⟩ := ram_command hv (.inr rfl)
  have hlt : v.toNat < 31 := BitVec.lt_def.mp hv
  rw [fetch, if_pos hram, haddress, if_neg (by omega)]

theorem write_ram {v : Byte} (hv : v < 31) (m : Store) (b : Byte) : m.write (v <<< 1 ||| 0xC0) 0 b =
    if m.guarded then m else { m with ram := Function.update m.ram v.toNat b } := by
  obtain ⟨hram, haddress, hmsb, -⟩ := ram_command hv (.inl rfl)
  have hlt : v.toNat < 31 := BitVec.lt_def.mp hv
  rw [write, hmsb, if_neg (by decide), if_pos hram, haddress, if_neg (by omega : ¬ v.toNat = 31),
    if_pos rfl]

theorem write_control {v : Byte} (hv : v &&& 0x7F = 0) (m : Store) :
    m.write ((7 : Byte) <<< 1 ||| 0x80) 0 v = { m with regs := Function.update m.regs CONTROL v } := by
  have hram : ¬ isRam ((7 : Byte) <<< 1 ||| 0x80) = true := by decide
  have hmask : v &&& 0x80 = v := by
    have hall : v &&& (0x7F ||| 0x80) = v := BitVec.and_allOnes
    rw [BitVec.and_or_distrib_left, hv] at hall
    exact (BitVec.zero_or.symm).trans hall
  rw [write, if_neg (by decide), if_neg hram, if_pos rfl, if_pos (by decide), hmask]

/-- A burst's bytes, one after the other. -/
def writes (m : Store) (command : Byte) : Nat → List Byte → Store
  | _, [] => m
  | k, b :: bs => (m.write command k b).writes command (k + 1) bs

theorem write_burst {k : Nat} (hk : k < 31) (m : Store) (b : Byte) :
    m.write 0xFE k b = if m.guarded then m else { m with ram := Function.update m.ram k b } := by
  have hram : isRam 0xFE = true := by decide
  have haddress : address 0xFE = 31 := by decide
  rw [write, if_neg (by decide), if_pos hram, if_pos haddress, if_pos hk]

theorem writes_burst (bytes : List Byte) : ∀ (m : Store) {k : Nat}, k + bytes.length ≤ 31 →
    m.writes 0xFE k bytes = if m.guarded then m else { m with ram := placed m.ram k bytes } := by
  induction bytes with
  | nil =>
      intro m k _
      rw [writes, placed_nil, ite_self]
  | cons b bytes ih =>
      intro m k h
      rw [List.length_cons] at h
      rw [writes, write_burst (by omega), ih _ (by omega)]
      by_cases hguarded : m.guarded = true
      · rw [if_pos hguarded, if_pos hguarded, if_pos hguarded]
      · rw [if_neg hguarded, if_neg hguarded]
        exact (if_neg hguarded).trans (by rw [placed_cons])

end Store

/-! ### Transfers -/

theorem ah_setAh (s : Cpu (Board Port)) (v : Byte) : (s.setAh v).ah = v := high_append _ _

theorem al_setAh (s : Cpu (Board Port)) (v : Byte) : (s.setAh v).al = s.al := low_append _ _

theorem Held.setAh (h : Held u s) (v : Byte) : Held u (s.setAh v) :=
  ⟨h.dx, by rw [al_setAh]; exact h.al, h.latch⟩

namespace Wired

variable {b : Byte} {c : Chip}

theorem ofAx {v : Word} (h : Wired u { s with ax := v } s' b c) : Wired u s s' b c :=
  ⟨h.frame, h.ah, h.chip, h.rts, h.al, h.latch⟩

/-- Its caller has moved on in the buffer. -/
theorem moved (h : Wired u s s' b c) (bx cx : Word) (mem : Mem) :
    Wired u { s with bx := bx, cx := cx, world := { s.world with mem := mem } }
      { s' with bx := bx, cx := cx, world := { s'.world with mem := mem } } b c where
  frame := by
    have hframe := h.frame
    rw [hframe]
  ah := h.ah
  chip := h.chip
  rts := h.rts
  al := h.al
  latch := h.latch

/-- RESET# ends the transfer. -/
theorem ends (h : Wired u s s' b c) (hu : u = (s.world.chip.latch &&& 0xF0) ||| DSRST) :
    ∃ c' : Chip, Wired (s.world.chip.latch &&& 0xF0) s (dsResetOn s') b c' ∧
      c'.ce = false ∧ c'.store = c.store := by
  obtain ⟨c', hon, hce, hstore⟩ := dsResetOn_wired s'
  have hlights : s'.world.chip.latch &&& 0xF0 = s.world.chip.latch &&& 0xF0 := by
    have hmask : s'.world.chip.latch &&& 0xF0 = s'.world.chip.latch &&& 0xF8 &&& 0xF0 := by
      rw [BitVec.and_assoc]
      rfl
    rw [hmask, h.latch, hu, BitVec.and_or_distrib_right, BitVec.and_assoc]
    exact BitVec.or_zero
  rw [hlights, h.ah] at hon
  rw [h.chip] at hstore
  exact ⟨c', h.trans hon, hce, hstore⟩

end Wired

theorem rst_set (v : Byte) : ((v &&& 0xF0) ||| DSRST).getLsbD 3 = true := by
  simp [DSRST]

/-- A command sent. -/
theorem command_took (s : Cpu (Board Port)) (v : Byte) : ∃ c : Chip,
    Wired ((s.world.chip.latch &&& 0xF0) ||| DSRST) s
        (dsOutb ((dsResetOff (dsResetOn s)).setAh v)) 0 c ∧
      c.Took s.world.chip.chip.store v 0 := by
  have hbegin := begin_wired s
  obtain ⟨c, hout, htook⟩ := dsOutb_command (hbegin.held.setAh v) (rst_set _) hbegin.chip
  rw [ah_setAh] at htook
  exact ⟨c, hbegin.trans hout.ofAx, htook⟩

theorem setAh_self (s : Cpu (Board Port)) : s.setAh s.ah = s := by
  rw [setAh, ah, al, high_append_low]

/-- `byte_read_direct` and `byte_write_direct` have it in `AH` from the start. -/
theorem command_direct (s : Cpu (Board Port)) :
    (dsResetOff (dsResetOn s)).setAh s.ah = dsResetOff (dsResetOn s) := by
  rw [← (begin_wired s).ah]
  exact setAh_self _

theorem byteReadDirect_wired (h : reads s.ah = true) : ∃ c : Chip,
    Wired (s.world.chip.latch &&& 0xF0) s (byteReadDirect s) (s.world.chip.chip.store.fetch s.ah 0) c ∧
      c.ce = false ∧ c.store = s.world.chip.chip.store := by
  obtain ⟨c, hcommand, htook⟩ := command_took s s.ah
  rw [command_direct] at hcommand
  obtain ⟨c', hin, hgave⟩ := dsInb_gave hcommand.held (rst_set _)
    (by rw [hcommand.chip]; exact htook.gave h)
  obtain ⟨c'', hends, hce, hstore⟩ := (hcommand.trans hin).ends rfl
  exact ⟨c'', hends, hce, hstore.trans hgave.store⟩

theorem byteWriteDirect_wired (h : reads s.ah = false) : ∃ c : Chip,
    Wired (s.world.chip.latch &&& 0xF0) s (byteWriteDirect s) 0 c ∧
      c.ce = false ∧ c.store = s.world.chip.chip.store.write s.ah 0 s.cl := by
  obtain ⟨c, hcommand, htook⟩ := command_took s s.ah
  rw [command_direct] at hcommand
  obtain ⟨t, ht⟩ : ∃ t, t = dsOutb (dsResetOff (dsResetOn s)) := ⟨_, rfl⟩
  rw [← ht] at hcommand
  have hcl : t.cl = s.cl := by rw [hcommand.frame]; rfl
  obtain ⟨c', hout, htook'⟩ :=
    dsOutb_data (hcommand.held.setAh s.cl) (rst_set _) (hcommand.chip ▸ htook) h
  obtain ⟨c'', hends, hce, hstore⟩ := (hcommand.trans hout.ofAx).ends rfl
  have heq : byteWriteDirect s = dsResetOn (dsOutb (t.setAh s.cl)) := by
    rw [byteWriteDirect, ← ht, hcl]
  rw [ah_setAh] at htook'
  rw [heq]
  exact ⟨c'', hends, hce, hstore.trans htook'.store⟩

theorem byteRead_wired (h : reads (s.al <<< 1 ||| s.ah) = true) : ∃ c : Chip,
    Wired (s.world.chip.latch &&& 0xF0) s (byteRead s)
      (s.world.chip.chip.store.fetch (s.al <<< 1 ||| s.ah) 0) c ∧
      c.ce = false ∧ c.store = s.world.chip.chip.store := by
  obtain ⟨v, hv⟩ : ∃ v, v = s.al <<< 1 ||| s.ah := ⟨_, rfl⟩
  have heq : byteRead s = byteReadDirect { s with ax := v ++ v } := by
    rw [hv]
    simp [byteRead]
  have hah : ({ s with ax := v ++ v } : Cpu (Board Port)).ah = v := high_append _ _
  obtain ⟨c, hdirect, hce, hstore⟩ := byteReadDirect_wired (s := { s with ax := v ++ v })
    (by rw [hah, hv]; exact h)
  rw [hah] at hdirect
  rw [heq, ← hv]
  exact ⟨c, hdirect.ofAx, hce, hstore⟩

theorem byteWrite_wired (h : reads (s.al <<< 1 ||| s.ah) = false) : ∃ c : Chip,
    Wired (s.world.chip.latch &&& 0xF0) s (byteWrite s) 0 c ∧
      c.ce = false ∧ c.store = s.world.chip.chip.store.write (s.al <<< 1 ||| s.ah) 0 s.cl := by
  obtain ⟨v, hv⟩ : ∃ v, v = s.al <<< 1 ||| s.ah := ⟨_, rfl⟩
  have heq : byteWrite s = byteWriteDirect { s with ax := v ++ v } := by
    rw [hv]
    simp [byteWrite]
  have hah : ({ s with ax := v ++ v } : Cpu (Board Port)).ah = v := high_append _ _
  obtain ⟨c, hdirect, hce, hstore⟩ := byteWriteDirect_wired (s := { s with ax := v ++ v })
    (by rw [hah, hv]; exact h)
  rw [hah] at hstore
  rw [heq, ← hv]
  exact ⟨c, hdirect.ofAx, hce, hstore⟩

/-! ### The loops of the bursts -/

theorem add_ofNat_succ (v : Word) (n : Nat) :
    v + 1 + BitVec.ofNat 16 n = v + BitVec.ofNat 16 (n + 1) := by
  rw [BitVec.ofNat_add, BitVec.add_comm (BitVec.ofNat 16 n), ← BitVec.add_assoc]
  rfl

theorem dsWrite2_wired (n : Nat) : ∀ {s : Cpu (Board Port)} {m : Store} {k : Nat}, Held u s →
    u.getLsbD 3 = true → s.world.chip.chip.Took m 0xFE k → ∃ b c,
      Wired u { s with bx := s.bx + BitVec.ofNat 16 n, cx := s.cx - BitVec.ofNat 16 n }
          (dsWrite2 n s) b c ∧
        c.Took (m.writes 0xFE k (loadBytes s.world.mem s.es s.bx n)) 0xFE (k + n) := by
  induction n with
  | zero =>
      intro s m k h _ hchip
      have hbx : s.bx + BitVec.ofNat 16 0 = s.bx := BitVec.add_zero _
      have hcx : s.cx - BitVec.ofNat 16 0 = s.cx := BitVec.sub_zero _
      rw [hbx, hcx]
      exact ⟨s.ah, _, ⟨by rw [dsWrite2, ← h.dx], rfl, rfl, rfl, h.al, h.latch⟩, hchip⟩
  | succ n ih =>
      intro s m k h hu hchip
      obtain ⟨c, hout, htook⟩ := dsOutb_data (h.setAh (s.world.mem (linear s.es s.bx))) hu hchip rfl
      rw [ah_setAh] at htook
      obtain ⟨t, ht⟩ : ∃ t, t = dsOutb (s.setAh (s.world.mem (linear s.es s.bx))) := ⟨_, rfl⟩
      rw [← ht] at hout
      have hbx : t.bx = s.bx := by rw [hout.frame]; rfl
      have hcx : t.cx = s.cx := by rw [hout.frame]; rfl
      have hes : t.es = s.es := by rw [hout.frame]; rfl
      have hmem : t.world.mem = s.world.mem := by rw [hout.frame]; rfl
      have hloop : dsWrite2 (n + 1) s = dsWrite2 n { t with bx := s.bx + 1, cx := s.cx - 1 } := by
        rw [dsWrite2, ← ht, hbx, hcx]
      obtain ⟨b, c', hrest, htook'⟩ := ih (s := { t with bx := s.bx + 1, cx := s.cx - 1 })
        ⟨hout.held.dx, hout.al, hout.latch⟩ hu (hout.chip ▸ htook)
      have hwired := (hout.ofAx.moved (s.bx + 1 + BitVec.ofNat 16 n) (s.cx - 1 - BitVec.ofNat 16 n)
        t.world.mem).trans hrest
      have htimes : k + 1 + n = k + (n + 1) := by omega
      dsimp only at htook'
      rw [hes, hmem, htimes] at htook'
      rw [add_ofNat_succ, sub_ofNat_succ, hmem] at hwired
      rw [hloop, loadBytes_succ]
      exact ⟨b, c', hwired, htook'⟩

/-- A burst's bytes read. -/
theorem dsRead2_wired (n : Nat) : ∀ {s : Cpu (Board Port)} {k : Nat}, Held u s →
    u.getLsbD 3 = true → s.world.chip.chip.Gave m 0xFF k → ∃ b c,
      Wired u
        { s with
          bx := s.bx + BitVec.ofNat 16 n
          cx := s.cx - BitVec.ofNat 16 n
          world := { s.world with
            mem := repMovsb s.es ((List.range n).map fun i => m.ram (k + i)) s.bx s.world.mem } }
        (dsRead2 n s) b c ∧ c.Gave m 0xFF (k + n) := by
  induction n with
  | zero =>
      intro s k h _ hchip
      have hbx : s.bx + BitVec.ofNat 16 0 = s.bx := BitVec.add_zero _
      have hcx : s.cx - BitVec.ofNat 16 0 = s.cx := BitVec.sub_zero _
      rw [hbx, hcx]
      exact ⟨s.ah, _, ⟨by rw [dsRead2, ← h.dx]; rfl, rfl, rfl, rfl, h.al, h.latch⟩, hchip⟩
  | succ n ih =>
      intro s k h hu hchip
      obtain ⟨c, hin, hgave⟩ := dsInb_gave h hu hchip
      obtain ⟨t, ht⟩ : ∃ t, t = dsInb s := ⟨_, rfl⟩
      rw [← ht] at hin
      have hbx : t.bx = s.bx := by rw [hin.frame]
      have hcx : t.cx = s.cx := by rw [hin.frame]
      have hes : t.es = s.es := by rw [hin.frame]
      have hmem : t.world.mem = s.world.mem := by rw [hin.frame]
      have hbyte : t.ah = m.ram k := hin.ah
      obtain ⟨mem, hput⟩ : ∃ mem,
          mem = Function.update s.world.mem (linear s.es s.bx) (m.ram k) := ⟨_, rfl⟩
      have hloop : dsRead2 (n + 1) s = dsRead2 n
          { t with bx := s.bx + 1, cx := s.cx - 1, world := { t.world with mem := mem } } := by
        rw [dsRead2, ← ht, hbyte, hes, hbx, hcx, hmem, hput]
      obtain ⟨b, c', hrest, hgave'⟩ := ih
        (s := { t with bx := s.bx + 1, cx := s.cx - 1, world := { t.world with mem := mem } })
        ⟨hin.held.dx, hin.al, hin.latch⟩ hu (hin.chip ▸ hgave)
      obtain ⟨bytes, hrestBytes⟩ : ∃ bytes, bytes = (List.range n).map fun i => m.ram (k + 1 + i) :=
        ⟨_, rfl⟩
      rw [← hrestBytes] at hrest
      have hsegment : repMovsb t.es bytes (s.bx + 1) mem = repMovsb s.es bytes (s.bx + 1) mem := by
        rw [hes]
      have hwired := (hin.moved (s.bx + 1 + BitVec.ofNat 16 n) (s.cx - 1 - BitVec.ofNat 16 n)
        (repMovsb t.es bytes (s.bx + 1) mem)).trans hrest
      have hbytes : (List.range (n + 1)).map (fun i => m.ram (k + i)) =
          m.ram k :: bytes := by
        rw [hrestBytes, List.range_succ_eq_map, List.map_cons, List.map_map]
        refine congrArg (List.cons _) (List.map_congr_left fun i _ => ?_)
        show m.ram (k + (i + 1)) = _
        rw [Nat.add_assoc, Nat.add_comm 1]
      have htimes : k + 1 + n = k + (n + 1) := by omega
      rw [add_ofNat_succ, sub_ofNat_succ, hsegment] at hwired
      rw [htimes] at hgave'
      rw [hloop, hbytes, repMovsb, ← hput]
      exact ⟨b, c', hwired, hgave'⟩

/-! ### The functions -/

/-- How a call ends: no transfer under way, RESET# low, the lights and RTS0# as they were. -/
structure Rests (p p' : Port) : Prop where
  idle : p'.chip.ce = false
  reset : p'.latch.getLsbD 3 = false
  lights : p'.latch &&& 0xF0 = p.latch &&& 0xF0
  rts : p'.rts = p.rts

section Exits

variable {b : Byte} {c : Chip}

theorem Wired.rests (h : Wired u s s' b c) (hu : u = s.world.chip.latch &&& 0xF0) (hce : c.ce = false) :
    Rests s.world.chip s'.world.chip where
  idle := by rw [h.chip, hce]
  reset := by
    rw [held_three h.latch, hu]
    simp
  lights := by
    have hmask : s'.world.chip.latch &&& 0xF0 = s'.world.chip.latch &&& 0xF8 &&& 0xF0 := by
      rw [BitVec.and_assoc]
      rfl
    rw [hmask, h.latch, hu, BitVec.and_assoc]
    rfl
  rts := h.rts

/-- After a burst the buffer's registers come back. -/
theorem Wired.popped {bx cx : Word} {mem : Mem}
    (h : Wired u
      { (s.push s.cx).push s.bx with bx := bx, cx := cx, world := { s.world with mem := mem } } s' b c) : Wired u { s with world := { s.world with mem := mem } } s'.popBx.popCx b c where
  frame := by
    rw [h.frame]
    rfl
  ah := h.ah
  chip := h.chip
  rts := h.rts
  al := h.al
  latch := h.latch

theorem dsReadExit_eq (h : Wired u (pushAxDx s) s' b c) : dsReadExit s' =
    { s with
      ax := s.ah ++ b
      flags := (s.setCarry false).flags
      world := { s.world with chip := s'.world.chip } } := by
  have hah : high s'.ax = b := h.ah
  rw [h.frame]
  simp [dsReadExit, dsGoodExit, pushAxDx, hah]

theorem dsFullExit_eq (h : Wired u (pushAxDx s) s' b c) : dsFullExit s' =
    { s with
      flags := (s.setCarry false).flags
      world := { s.world with chip := s'.world.chip } } := by
  rw [h.frame]
  simp [dsFullExit, dsGoodExit, pushAxDx]

end Exits

theorem dsError_eq (s : Cpu (Board Port)) : dsError (pushAxDx s) = s.setCarry true := by
  simp [dsError, pushAxDx]

/-- **`ds_read` of a byte.** -/
theorem dsRead_byte (h : s.al < 31) (hm : m = s.world.chip.chip.store) : ∃ p,
    dsRead s =
      { s with
        ax := s.ah ++ m.ram s.al.toNat
        flags := (s.setCarry false).flags
        world := { s.world with chip := p } } ∧
    Rests s.world.chip p ∧ p.chip.store = m := by
  obtain ⟨t, ht⟩ : ∃ t, t = (pushAxDx s).setAh 0xC1 := ⟨_, rfl⟩
  have hal : t.al = s.al := by rw [ht, al_setAh]; rfl
  have hah : t.ah = 0xC1 := by rw [ht, ah_setAh]
  obtain ⟨-, -, -, hreads⟩ := ram_command h (.inr rfl)
  obtain ⟨c, hread, hce, hstore⟩ := byteRead_wired (s := t) (by rw [hal, hah, hreads]; rfl)
  rw [hal, hah, Store.fetch_ram h, ht] at hread
  rw [ht] at hstore
  have heq : dsRead s = dsReadExit (byteRead ((pushAxDx s).setAh 0xC1)) := if_pos h
  have hrests := hread.ofAx.rests rfl hce
  refine ⟨_, heq.trans ((dsReadExit_eq hread.ofAx).trans ?_), hrests, ?_⟩
  · rw [hm]
    rfl
  · rw [hread.chip, hstore, hm]
    rfl

/-- **`ds_read` of all of it.** -/
theorem dsRead_burst (h : s.al = 31) (hm : m = s.world.chip.chip.store) : ∃ (v : Byte) (p : Port),
    dsRead s =
      { s with
        ax := s.ah ++ v
        flags := (s.setCarry false).flags
        world := { s.world with
          mem := repMovsb s.es ((List.range 31).map m.ram) s.bx s.world.mem
          chip := p } } ∧
    Rests s.world.chip p ∧ p.chip.store = m := by
  obtain ⟨s₁, hs₁⟩ : ∃ s₁, s₁ = ((pushAxDx s).push s.cx).push s.bx := ⟨_, rfl⟩
  obtain ⟨c, hcommand, htook⟩ := command_took s₁ 0xFF
  obtain ⟨t, ht⟩ : ∃ t, t = dsOutb ((dsResetOff (dsResetOn s₁)).setAh 0xFF) := ⟨_, rfl⟩
  have heq : dsRead s = dsReadExit (dsResetOn (dsRead2 31 { t with cx := 31 })).popBx.popCx := by
    have hal : (pushAxDx s).al = 31 := h
    rw [dsRead, ht, hs₁]
    exact (if_neg (by rw [hal]; decide)).trans (if_neg (not_not_intro hal))
  rw [← ht] at hcommand
  have hstore : s₁.world.chip.chip.store = m := by rw [hs₁, hm]; rfl
  have hmem : repMovsb t.es ((List.range 31).map fun i => m.ram (0 + i)) t.bx t.world.mem =
      repMovsb s.es ((List.range 31).map m.ram) s.bx s.world.mem := by
    simp only [Nat.zero_add]
    rw [hcommand.frame, hs₁]
    rfl
  rw [hstore] at htook
  have hgave := htook.gave rfl
  obtain ⟨b, c', hloop, hgave'⟩ := dsRead2_wired 31 (s := { t with cx := 31 }) (k := 0)
    ⟨hcommand.held.dx, hcommand.al, hcommand.latch⟩ (rst_set _) (hcommand.chip ▸ hgave)
  generalize dsRead2 31 { t with cx := 31 } = t' at hloop heq
  dsimp only at hloop
  rw [hmem] at hloop
  obtain ⟨c'', hends, hce, hkept⟩ := ((hcommand.moved _ _ _).trans hloop).ends rfl
  rw [hs₁] at hends
  have hpopped := hends.popped
  refine ⟨b, _, heq.trans (dsReadExit_eq (s := { s with world := { s.world with
    mem := repMovsb s.es ((List.range 31).map m.ram) s.bx s.world.mem } }) hpopped), ?_, ?_⟩
  · have hrests := hpopped.rests rfl hce
    exact hrests
  · rw [hpopped.chip, hkept, hgave'.store]

/-- **`ds_write` of a byte.** -/
theorem dsWrite_byte (h : s.al < 31) (hm : m = s.world.chip.chip.store) : ∃ p,
    dsWrite s = { s with flags := (s.setCarry false).flags, world := { s.world with chip := p } } ∧
    Rests s.world.chip p ∧ p.chip.store =
      if m.guarded then m else { m with ram := Function.update m.ram s.al.toNat s.cl } := by
  obtain ⟨t, ht⟩ : ∃ t, t = (pushAxDx s).setAh 0xC0 := ⟨_, rfl⟩
  have hal : t.al = s.al := by rw [ht, al_setAh]; rfl
  have hah : t.ah = 0xC0 := by rw [ht, ah_setAh]
  obtain ⟨-, -, -, hreads⟩ := ram_command h (.inl rfl)
  obtain ⟨c, hwrite, hce, hstore⟩ := byteWrite_wired (s := t) (by rw [hal, hah, hreads]; rfl)
  have heq : dsWrite s = dsFullExit (byteWrite t) := by rw [ht]; exact if_pos h
  rw [hal, hah, Store.write_ram h] at hstore
  generalize byteWrite t = t' at hwrite heq
  rw [ht] at hwrite hstore
  have hrests := hwrite.ofAx.rests rfl hce
  refine ⟨_, heq.trans (dsFullExit_eq hwrite.ofAx), hrests, ?_⟩
  rw [hwrite.chip, hstore, hm]
  rfl

/-- **`ds_write` of all of it.** -/
theorem dsWrite_burst (h : s.al = 31) (hm : m = s.world.chip.chip.store) : ∃ p,
    dsWrite s = { s with flags := (s.setCarry false).flags, world := { s.world with chip := p } } ∧
    Rests s.world.chip p ∧ p.chip.store =
      if m.guarded then m
      else { m with ram := placed m.ram 0 (loadBytes s.world.mem s.es s.bx 31) } := by
  obtain ⟨s₁, hs₁⟩ : ∃ s₁, s₁ = ((pushAxDx s).push s.cx).push s.bx := ⟨_, rfl⟩
  obtain ⟨c, hcommand, htook⟩ := command_took s₁ 0xFE
  obtain ⟨t, ht⟩ : ∃ t, t = dsOutb ((dsResetOff (dsResetOn s₁)).setAh 0xFE) := ⟨_, rfl⟩
  have heq : dsWrite s = dsFullExit (dsResetOn (dsWrite2 31 { t with cx := 31 })).popBx.popCx := by
    have hal : (pushAxDx s).al = 31 := h
    rw [dsWrite, ht, hs₁]
    exact (if_neg (by rw [hal]; decide)).trans (if_neg (not_not_intro hal))
  rw [← ht] at hcommand
  have hstore : s₁.world.chip.chip.store = m := by rw [hs₁, hm]; rfl
  have hbytes : loadBytes t.world.mem t.es t.bx 31 = loadBytes s.world.mem s.es s.bx 31 := by
    rw [hcommand.frame, hs₁]
    rfl
  rw [hstore] at htook
  obtain ⟨b, c', hloop, htook'⟩ := dsWrite2_wired 31 (s := { t with cx := 31 })
    ⟨hcommand.held.dx, hcommand.al, hcommand.latch⟩ (rst_set _) (hcommand.chip ▸ htook)
  generalize dsWrite2 31 { t with cx := 31 } = t' at hloop heq
  dsimp only at hloop htook'
  rw [hbytes, Store.writes_burst _ _ (by rw [loadBytes, List.length_map, List.length_range])] at htook'
  obtain ⟨c'', hends, hce, hkept⟩ := ((hcommand.moved _ _ t.world.mem).trans hloop).ends rfl
  rw [hs₁] at hends
  have hpopped := hends.popped
  have hmem : t.world.mem = s.world.mem := by rw [hcommand.frame, hs₁]; rfl
  rw [hmem] at hpopped
  have hrests := hpopped.rests rfl hce
  refine ⟨_, heq.trans (dsFullExit_eq hpopped), hrests, ?_⟩
  rw [hpopped.chip, hkept, htook'.store]

/-- **`wr_protect`** -/
theorem wrProtect_wired (h : s.al &&& 0x7F = 0) (hm : m = s.world.chip.chip.store) : ∃ p,
    wrProtect s = { s with flags := (s.setCarry false).flags, world := { s.world with chip := p } } ∧
    Rests s.world.chip p ∧ p.chip.store = { m with regs := Function.update m.regs CONTROL s.al } := by
  obtain ⟨t, ht⟩ : ∃ t, t = reg (((pushAxDx s).push s.cx).setCl s.al) 0x80 7 := ⟨_, rfl⟩
  have hal : t.al = 7 := by rw [ht]; exact low_append _ _
  have hah : t.ah = 0x80 := by rw [ht]; exact high_append _ _
  have hcl : t.cl = s.al := by rw [ht]; exact low_append _ _
  have heq : wrProtect s = dsFullExit (byteWrite t).popCx := by
    rw [ht]
    exact if_neg (not_not_intro h)
  obtain ⟨c, hwrite, hce, hstore⟩ := byteWrite_wired (s := t) (by rw [hal, hah]; rfl)
  rw [hal, hah, hcl, Store.write_control h] at hstore
  generalize byteWrite t = t' at hwrite heq
  have hpopped : Wired (s.world.chip.latch &&& 0xF0) (pushAxDx s) t'.popCx 0 c := by
    rw [ht] at hwrite
    exact ⟨by rw [hwrite.frame]; rfl, hwrite.ah, hwrite.chip, hwrite.rts, hwrite.al, hwrite.latch⟩
  have hrests := hpopped.rests rfl hce
  refine ⟨_, heq.trans (dsFullExit_eq hpopped), hrests, ?_⟩
  rw [hpopped.chip, hstore, hm, ht]
  rfl

end Sbc386Ex.Time.Pins

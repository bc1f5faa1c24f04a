import Sbc386Ex.Boot.Int19

/-!
# Sbc386Ex.Boot.BootOrder

What INT 19h does, by the calls of INT 13h it makes: `Tries` is the calls of one device,
`bootList` the devices in their order. Control goes to `0000:7C00` from one place only, and what
is known there is what the last of all calls has left.
-/

namespace Sbc386Ex.Boot

/-! ### The devices -/

inductive Device
  | floppy
  | fixed
  deriving Repr, DecidableEq

namespace Device

def drive : Device → Word
  | floppy => BOOT_FLOPPY
  | fixed => BOOT_DRIVE

def tries : Device → Nat
  | floppy => BOOT_FD_TRIES.toNat
  | fixed => BOOT_RETRIES.toNat

end Device

/-- The order SETUP asked for; what it does not know is the order of a PC. -/
def bootList (order : Byte) : List Device :=
  if order = BOOT_CA then [.fixed, .floppy]
  else if order = BOOT_A then [.floppy]
  else if order = BOOT_C then [.fixed]
  else [.floppy, .fixed]

/-! ### Calls -/

/-- The last two bytes of a bootable sector. -/
def Signed (sector : Nat → Byte) : Prop := sector 510 = 0x55 ∧ sector 511 = 0xAA

namespace Call

variable (c : Call) (drive : Word)

/-- Function 00h. -/
def Resets : Prop := Cpu.high c.request.ax = 0 ∧ c.request.dx = drive

/-- Function 02h: one sector, cylinder 0, head 0, sector 1, to `0000:7C00`. -/
def Reads : Prop := c.request = ⟨0x0201, BOOT_OFF, 0x0001, drive, 0x0000⟩

/-- The drive's boot sector has been read, and it is signed. -/
def Boots : Prop := c.Reads drive ∧ c.carry = false ∧ Signed c.sector

end Call

/-- The calls of up to `n` attempts on a drive: a reset each and, where that succeeds, a read,
which is the last of all where it succeeds. -/
inductive Tries (drive : Word) : Nat → List Call → Prop
  | out : Tries drive 0 []
  | unset {n : Nat} {c : Call} {cs : List Call} (resets : c.Resets drive) (failed : c.carry = true)
      (rest : Tries drive n cs) : Tries drive (n + 1) (c :: cs)
  | unread {n : Nat} {c r : Call} {cs : List Call} (resets : c.Resets drive)
      (done : c.carry = false) (reads : r.Reads drive) (failed : r.carry = true)
      (rest : Tries drive n cs) : Tries drive (n + 1) (c :: r :: cs)
  | loaded {n : Nat} {c r : Call} (resets : c.Resets drive) (done : c.carry = false)
      (reads : r.Reads drive) (loads : r.carry = false) : Tries drive (n + 1) [c, r]

theorem Tries.length_le {drive : Word} {n : Nat} {cs : List Call} (h : Tries drive n cs) :
    cs.length ≤ 2 * n := by
  induction h with
  | out => exact Nat.le_refl 0
  | unset _ _ _ ih =>
      rw [List.length_cons]
      omega
  | unread _ _ _ _ _ ih =>
      rw [List.length_cons, List.length_cons]
      omega
  | loaded => exact Nat.le_add_left 2 _

/-! ### One call -/

section Run

variable {D : Type} {b : Int13 D} {s : Cpu (Room D)} {drive : Word}

theorem carry_setCarry (s : Cpu (Room D)) (c : Bool) : (s.setCarry c).carry = c := by
  cases c <;> simp [Cpu.carry]

/-- The call INT 13h makes of the registers. -/
def callOf (b : Int13 D) (s : Cpu (Room D)) : Call :=
  ⟨request s, (b.answer (request s) s.world.mem s.world.drives).carry,
    b.sector (request s) s.world.drives⟩

theorem int13_carry (b : Int13 D) (s : Cpu (Room D)) : (int13 b s).carry = (callOf b s).carry :=
  carry_setCarry _ _

/-- What a sector read to `0000:7C00` leaves there. -/
theorem int13_mem (h : (callOf b s).Reads drive) (hc : (callOf b s).carry = false) :
    ∀ i < 512, (int13 b s).world.mem (linear 0 BOOT_OFF + i) = (callOf b s).sector i := by
  have hq : request s = ⟨0x0201, BOOT_OFF, 0x0001, drive, 0x0000⟩ := h
  have hread : (request s).IsRead := by rw [hq]; rfl
  have hall := b.delivers (request s) s.world.mem s.world.drives hread hc
  have hes : (request s).es = 0 := by rw [hq]
  have hbx : (request s).bx = BOOT_OFF := by rw [hq]
  rwa [hes, hbx] at hall

/-- A round of `boot_try`. -/
theorem attempt_calls (b : Int13 D) (s : Cpu (Room D)) : ∃ c : Call, c.Resets s.si ∧
    (c.carry = true ∧ (attempt b s).carry = true ∧
        (attempt b s).world.calls = s.world.calls ++ [c] ∨
      c.carry = false ∧ ∃ r : Call, r.Reads s.si ∧ (attempt b s).carry = r.carry ∧
        (attempt b s).world.calls = s.world.calls ++ [c, r] ∧
        (r.carry = false →
          ∀ i < 512, (attempt b s).world.mem (linear 0 BOOT_OFF + i) = r.sector i)) := by
  have hreset : (reset b s).carry = (callOf b (Cpu.setAh { s with dx := s.si } 0)).carry :=
    int13_carry _ _
  refine ⟨callOf b (Cpu.setAh { s with dx := s.si } 0), ⟨Cpu.high_append _ _, rfl⟩, ?_⟩
  rw [← hreset]
  by_cases hc : (reset b s).carry = true
  · refine .inl ⟨hc, ?_, ?_⟩
    · rw [attempt, if_pos hc]
      exact hc
    · rw [attempt, if_pos hc]
      rfl
  · refine .inr ⟨Bool.eq_false_of_not_eq_true hc, ?_⟩
    rw [attempt, if_neg hc, read]
    have hreads : (callOf b { reset b s with
        dx := (reset b s).si, ax := 0x0201, cx := 0x0001, bx := BOOT_OFF, es := 0 }).Reads s.si := rfl
    exact ⟨_, hreads, int13_carry _ _, List.append_assoc _ _ _, int13_mem hreads⟩

theorem attempt_si (b : Int13 D) (s : Cpu (Room D)) : (attempt b s).si = s.si := by
  rw [attempt]
  split_ifs <;> rfl

/-- The signature of the sector that is there. -/
theorem signature_carry {sector : Nat → Byte}
    (h : ∀ i < 512, s.world.mem (linear 0 BOOT_OFF + i) = sector i) :
    (signature s).carry = false ↔ Signed sector := by
  have hlow : s.world.mem (linear 0 (BOOT_OFF + 510)) = sector 510 := h 510 (by decide)
  have hhigh : s.world.mem (linear 0 (BOOT_OFF + 511)) = sector 511 := h 511 (by decide)
  have hword : ∀ h l : Byte, (h ++ l : Word) = 0xAA55 ↔ l = 0x55 ∧ h = 0xAA := by
    intro h l
    constructor
    · intro heq
      have hlow := congrArg Cpu.low heq
      have hhigh := congrArg Cpu.high heq
      rw [Cpu.low_append] at hlow
      rw [Cpu.high_append] at hhigh
      exact ⟨hlow, hhigh⟩
    · rintro ⟨rfl, rfl⟩
      rfl
  rw [signature, carry_setCarry, decide_eq_false_iff_not, not_not]
  dsimp only
  rw [hlow, hhigh, hword, Signed]

/-- What the attempts on a drive come to: carry, and none of the calls has read a signed sector;
or the last of them has, and it is the one at `0000:7C00`. -/
def Tried (drive : Word) (n : Nat) (s t : Cpu (Room D)) : Prop :=
  ∃ cs, Tries drive n cs ∧ t.world.calls = s.world.calls ++ cs ∧
    (t.carry = true → ∀ c ∈ cs, ¬ c.Boots drive) ∧
    (t.carry = false → t.si = drive ∧ ∃ before c, cs = before ++ [c] ∧ c.Boots drive ∧
      ∀ i < 512, t.world.mem (linear 0 BOOT_OFF + i) = c.sector i)

theorem Tried.out {s t : Cpu (Room D)} (hc : t.carry = true)
    (hcalls : t.world.calls = s.world.calls) : Tried drive 0 s t := by
  refine ⟨[], .out, ?_, fun _ => nofun, fun h => Bool.noConfusion (hc.symm.trans h)⟩
  rw [hcalls, List.append_nil]

/-- The attempts that come before. -/
theorem Tried.cons {n : Nat} {s u t : Cpu (Room D)} {cs : List Call} (h : Tried drive n u t)
    (hcalls : u.world.calls = s.world.calls ++ cs) (hnot : ∀ c ∈ cs, ¬ c.Boots drive)
    (htries : ∀ rest, Tries drive n rest → Tries drive (n + 1) (cs ++ rest)) :
    Tried drive (n + 1) s t := by
  obtain ⟨rest, hrest, hcalls', hcarry, hboots⟩ := h
  refine ⟨cs ++ rest, htries rest hrest, ?_, fun hc => ?_, fun hc => ?_⟩
  · rw [hcalls', hcalls, List.append_assoc]
  · exact List.forall_mem_append.mpr ⟨hnot, hcarry hc⟩
  · obtain ⟨hsi, before, c, rfl, hc, hmem⟩ := hboots hc
    exact ⟨hsi, cs ++ before, c, (List.append_assoc _ _ _).symm, hc, hmem⟩

theorem Call.not_boots {c : Call} (h : c.carry = true) : ¬ c.Boots drive :=
  fun hb => Bool.noConfusion (h.symm.trans hb.2.1)

theorem Call.not_boots_of_resets {c : Call} (h : c.Resets drive) : ¬ c.Boots drive := by
  rintro ⟨hr, -⟩
  have hax := h.1
  rw [hr] at hax
  have hread : Cpu.high 0x0201 ≠ 0 := by decide
  exact hread hax

/-- A round, and what follows it. -/
theorem attempt_tried {n : Nat} {t : Cpu (Room D)}
    (hagain : (attempt b s).carry = true → Tried s.si n (attempt b s) t)
    (hloaded : (attempt b s).carry = false → t.carry = (signature (attempt b s)).carry ∧
      t.world = (attempt b s).world ∧ t.si = s.si) : Tried s.si (n + 1) s t := by
  obtain ⟨c, hresets, ⟨hc, hcarry, hcalls⟩ | ⟨hc, r, hreads, hcarry, hcalls, hmem⟩⟩ :=
    attempt_calls b s
  · exact (hagain hcarry).cons hcalls (List.forall_mem_singleton.mpr (Call.not_boots hc))
      fun _ hrest => .unset hresets hc hrest
  have hnot : ¬ c.Boots s.si := Call.not_boots_of_resets hresets
  cases hr : r.carry with
  | true =>
      have hboth : ∀ c' ∈ [c, r], ¬ c'.Boots s.si :=
        List.forall_mem_cons.mpr ⟨hnot, List.forall_mem_singleton.mpr (Call.not_boots hr)⟩
      exact (hagain (hcarry.trans hr)).cons hcalls hboth
        fun _ hrest => .unread hresets hc hreads hr hrest
  | false =>
      obtain ⟨hsig, hworld, hsi⟩ := hloaded (hcarry.trans hr)
      have hsigned := signature_carry (hmem hr)
      rw [← hsig] at hsigned
      refine ⟨[c, r], .loaded hresets hc hreads hr, hworld ▸ hcalls, fun ht => ?_, fun ht => ?_⟩
      · refine List.forall_mem_cons.mpr ⟨hnot, List.forall_mem_singleton.mpr fun hb => ?_⟩
        exact Bool.noConfusion (ht.symm.trans (hsigned.mpr hb.2.2))
      · refine ⟨hsi, [c], r, rfl, ⟨hreads, hr, hsigned.mp ht⟩, ?_⟩
        rw [hworld]
        exact hmem hr

theorem retry_eq (b : Int13 D) (s : Cpu (Room D)) : retry b s =
    if (attempt b (s.push s.cx)).carry then
      if s.cx - 1 = 0 then
        Cpu.setCarry { (attempt b (s.push s.cx)).popCx with cx := s.cx - 1 } true
      else retry b { (attempt b (s.push s.cx)).popCx with cx := s.cx - 1 }
    else signature (attempt b (s.push s.cx)).popCx := by
  rw [retry]
  dsimp only
  rw [attempt_top]
  split_ifs <;> rfl

theorem retry_tried (b : Int13 D) (s : Cpu (Room D)) :
    Tried s.si ((s.cx - 1).toNat + 1) s (retry b s) := by
  induction hn : (s.cx - 1).toNat generalizing s with
  | zero =>
      have hcx : s.cx - 1 = 0 := BitVec.toNat_inj.mp hn
      rw [retry_eq, if_pos hcx]
      refine @attempt_tried D b (s.push s.cx) 0 _ (fun hc => ?_) fun hc => ?_
      · rw [if_pos hc]
        exact .out (carry_setCarry _ _) rfl
      · rw [if_neg (by rw [hc]; decide)]
        exact ⟨rfl, rfl, attempt_si b (s.push s.cx)⟩
  | succ n ih =>
      have hcx : s.cx - 1 ≠ 0 := fun hz => by rw [hz] at hn; cases hn
      have hnext : (s.cx - 1 - 1).toNat = n := by
        have hone : (1 : Word) ≤ s.cx - 1 := BitVec.le_def.mpr (by rw [hn]; exact Nat.le_add_left 1 n)
        rw [BitVec.toNat_sub_of_le hone, hn]
        rfl
      have hrest := ih { (attempt b (s.push s.cx)).popCx with cx := s.cx - 1 } hnext
      have hsi : (attempt b (s.push s.cx)).popCx.si = s.si := attempt_si b (s.push s.cx)
      rw [hsi] at hrest
      rw [retry_eq, if_neg hcx]
      refine @attempt_tried D b (s.push s.cx) (n + 1) _ (fun hc => ?_) fun hc => ?_
      · rw [if_pos hc]
        exact hrest
      · rw [if_neg (by rw [hc]; decide)]
        exact ⟨rfl, rfl, attempt_si b (s.push s.cx)⟩

/-! ### The devices -/

theorem repStosw_keeps (n : Nat) (s : Cpu (Room D)) : (repStosw n s).stack = s.stack ∧
    (repStosw n s).si = s.si ∧ (repStosw n s).world.calls = s.world.calls := by
  induction n generalizing s with
  | zero => exact ⟨rfl, rfl, rfl⟩
  | succ n ih => exact ih (stosw s)

theorem clear_keeps (s : Cpu (Room D)) : (clear s).si = s.dx ∧ (clear s).cx = s.cx ∧
    (clear s).world.calls = s.world.calls := by
  have hpop : ∀ u : Cpu (Room D), u.popCx.si = u.si ∧ u.popCx.cx = u.top ∧
      u.popCx.world = u.world := fun u => by simp only [Cpu.popCx, Cpu.drop, and_self]
  rw [clear]
  dsimp only [Cpu.push]
  obtain ⟨hsi, hcx, hworld⟩ := hpop (repStosw 256 { s with
    si := s.dx, ax := 0, es := 0, di := BOOT_OFF, cx := 256, stack := s.cx :: s.stack })
  obtain ⟨hstack, hsi', hcalls⟩ := repStosw_keeps 256 { s with
    si := s.dx, ax := 0, es := 0, di := BOOT_OFF, cx := 256, stack := s.cx :: s.stack }
  rw [hsi, hcx, hworld, hsi', hcalls, Cpu.top, hstack]
  exact ⟨rfl, rfl, rfl⟩

theorem save_dx (s : Cpu (Room D)) : (save s).dx = s.dx := by simp only [save, Cpu.push]

theorem save_cx (s : Cpu (Room D)) : (save s).cx = s.cx := by simp only [save, Cpu.push]

theorem save_world (s : Cpu (Room D)) : (save s).world = s.world := by simp only [save, Cpu.push]

theorem restore_keeps (s : Cpu (Room D)) : (restore s).carry = s.carry ∧
    (restore s).si = s.si ∧ (restore s).world = s.world := by
  simp only [restore, Cpu.carry, Cpu.popAx, Cpu.popBx, Cpu.popCx, Cpu.popDx, Cpu.popDi, Cpu.popEs,
    Cpu.drop, and_self]

theorem bootTry_tried (b : Int13 D) (s : Cpu (Room D)) :
    Tried s.dx ((s.cx - 1).toNat + 1) s (bootTry b s) := by
  obtain ⟨hsi, hcx, hcalls⟩ := clear_keeps (save s)
  rw [save_dx] at hsi
  rw [save_cx] at hcx
  rw [save_world] at hcalls
  have h := retry_tried b (clear (save s))
  rw [hsi, hcx] at h
  obtain ⟨cs, htries, hafter, hcarry, hboots⟩ := h
  rw [hcalls] at hafter
  obtain ⟨hrcarry, hrsi, hrworld⟩ := restore_keeps (retry b (clear (save s)))
  rw [← hrworld] at hafter
  rw [← hrcarry] at hcarry
  rw [← hrcarry, ← hrsi, ← hrworld] at hboots
  exact ⟨cs, htries, hafter, hcarry, hboots⟩

/-- What a device's calls come to; a floppy drive that is not fitted is not called. -/
def TriedDevice (d : Device) (s t : Cpu (Room D)) : Prop :=
  d = .floppy ∧ t.carry = true ∧ t.world.calls = s.world.calls ∨ Tried d.drive d.tries s t

theorem bootTry_device {d : Device} {s u : Cpu (Room D)} (hdx : u.dx = d.drive)
    (hcx : (u.cx - 1).toNat + 1 = d.tries) (hcalls : u.world.calls = s.world.calls) :
    TriedDevice d s (bootTry b u) := by
  have h := bootTry_tried b u
  rw [hdx, hcx] at h
  obtain ⟨cs, htries, hafter, hends⟩ := h
  rw [hcalls] at hafter
  exact .inr ⟨cs, htries, hafter, hends⟩

theorem tryFloppy_tried (b : Int13 D) (s : Cpu (Room D)) :
    TriedDevice .floppy s (tryFloppy b s) := by
  rw [tryFloppy]
  dsimp only
  have hcx : (BOOT_FD_TRIES - 1).toNat + 1 = Device.floppy.tries := by decide
  split_ifs
  · exact .inl ⟨rfl, carry_setCarry _ _, rfl⟩
  · exact bootTry_device rfl hcx rfl

theorem tryFixed_tried (b : Int13 D) (s : Cpu (Room D)) : TriedDevice .fixed s (tryFixed b s) := by
  have hcx : (BOOT_RETRIES - 1).toNat + 1 = Device.fixed.tries := by decide
  exact bootTry_device rfl hcx rfl

/-! ### The order -/

/-- The calls of a device on its turn. -/
def Turn (p : Device × List Call) : Prop :=
  p.1 = .floppy ∧ p.2 = [] ∨ Tries p.1.drive p.1.tries p.2

/-- What `e` is to be, after `tried`: control goes to a sector that the last of all calls has
read, or every device there is has been tried. -/
def Ends (devices : List Device) (calls : List Call) (tried : List (Device × List Call)) :
    End D → Prop
  | .enter t => t.world.calls = calls ++ tried.flatMap Prod.snd ∧
      ∃ earlier d before c, tried = earlier ++ [(d, before ++ [c])] ∧
        (∀ p ∈ earlier, ∀ r ∈ p.2, ¬ r.Boots p.1.drive) ∧ c.Boots d.drive ∧ t.dx = d.drive ∧
        ∀ i < 512, t.world.mem (linear 0 BOOT_OFF + i) = c.sector i
  | .int18 t => t.world.calls = calls ++ tried.flatMap Prod.snd ∧
      tried.map Prod.fst = devices ∧ ∀ p ∈ tried, ∀ r ∈ p.2, ¬ r.Boots p.1.drive

/-- The devices in their order, as far as they are tried. -/
def InOrder (devices : List Device) (s : Cpu (Room D)) (e : End D) : Prop :=
  ∃ tried : List (Device × List Call), tried.map Prod.fst <+: devices ∧ (∀ p ∈ tried, Turn p) ∧
    Ends devices s.world.calls tried e

theorem inOrder_none (s : Cpu (Room D)) : InOrder [] s (none s) :=
  ⟨[], List.prefix_rfl, nofun, (List.append_nil _).symm, rfl, nofun⟩

/-- A device that does not boot, and the rest. -/
theorem inOrder_cons {d : Device} {devices : List Device} {s t : Cpu (Room D)} {e : End D}
    (h : TriedDevice d s t) (hc : t.carry = true) (hrest : InOrder devices t e) :
    InOrder (d :: devices) s e := by
  obtain ⟨cs, hturn, hcalls, hnot⟩ : ∃ cs, Turn (d, cs) ∧
      t.world.calls = s.world.calls ++ cs ∧ ∀ r ∈ cs, ¬ r.Boots d.drive := by
    rcases h with ⟨hd, -, hcalls⟩ | ⟨cs, htries, hcalls, hcarry, -⟩
    · exact ⟨[], .inl ⟨hd, rfl⟩, by rw [hcalls, List.append_nil], nofun⟩
    · exact ⟨cs, .inr htries, hcalls, hcarry hc⟩
  obtain ⟨tried, hprefix, hturns, hends⟩ := hrest
  have hflat : t.world.calls ++ tried.flatMap Prod.snd =
      s.world.calls ++ ((d, cs) :: tried).flatMap Prod.snd := by
    rw [hcalls, List.flatMap_cons, List.append_assoc]
  refine ⟨(d, cs) :: tried, List.cons_prefix_cons.mpr ⟨rfl, hprefix⟩,
    List.forall_mem_cons.mpr ⟨hturn, hturns⟩, ?_⟩
  cases e with
  | enter u =>
      obtain ⟨hu, earlier, d', before, c, htried, hearlier, hlast⟩ := hends
      refine ⟨hu.trans hflat, (d, cs) :: earlier, d', before, c, ?_, ?_, hlast⟩
      · rw [htried, List.cons_append]
      · exact List.forall_mem_cons.mpr ⟨hnot, hearlier⟩
  | int18 u =>
      obtain ⟨hu, hall, hnone⟩ := hends
      refine ⟨hu.trans hflat, ?_, List.forall_mem_cons.mpr ⟨hnot, hnone⟩⟩
      rw [List.map_cons, hall]

theorem inOrder_enter {d : Device} {devices : List Device} {s t : Cpu (Room D)}
    (h : TriedDevice d s t) (hc : t.carry = false) : InOrder (d :: devices) s (enter t) := by
  rcases h with ⟨-, hcarry, -⟩ | ⟨cs, htries, hcalls, -, hboots⟩
  · exact Bool.noConfusion (hc.symm.trans hcarry)
  · obtain ⟨hsi, before, c, rfl, hc', hmem⟩ := hboots hc
    refine ⟨[(d, before ++ [c])], List.cons_prefix_cons.mpr ⟨rfl, List.nil_prefix⟩,
      List.forall_mem_singleton.mpr (.inr htries), ?_, [], d, before, c, rfl, nofun, hc', hsi, hmem⟩
    rw [List.flatMap_singleton]
    exact hcalls

/-- A list of devices is gone through. -/
theorem inOrder_try {d : Device} {devices : List Device} {s t : Cpu (Room D)} {e : End D}
    (h : TriedDevice d s t) (hrest : InOrder devices t e) :
    InOrder (d :: devices) s (if t.carry then e else enter t) := by
  split_ifs with hc
  · exact inOrder_cons h hc hrest
  · exact inOrder_enter h (Bool.eq_false_of_not_eq_true hc)

theorem int19h_inOrder (b : Int13 D) (s : Cpu (Room D)) :
    InOrder (bootList (s.world.mem (linear 0x40 boot_order))) s (int19h b s) := by
  rw [int19h]
  dsimp only
  generalize hs' : Cpu.setAl { s with stack := [], ax := 0, ds := 0, es := 0 }
    (s.world.mem (linear 0x40 boot_order)) = s'
  have hal : s'.al = s.world.mem (linear 0x40 boot_order) := by
    rw [← hs']
    exact Cpu.low_append _ _
  have hcalls : s'.world.calls = s.world.calls := by rw [← hs']; rfl
  clear hs'
  rw [← hal]
  suffices h : InOrder (bootList s'.al) s' _ by
    rw [InOrder, hcalls] at h
    exact h
  have hfloppy := tryFloppy_tried b s'
  have hfixed := tryFixed_tried b s'
  rw [bootList]
  by_cases hca : s'.al = BOOT_CA
  · rw [if_pos hca, if_pos hca]
    exact inOrder_try hfixed (inOrder_try (tryFloppy_tried b _) (inOrder_none _))
  rw [if_neg hca, if_neg hca]
  by_cases ha : s'.al = BOOT_A
  · rw [if_pos ha, if_pos ha]
    exact inOrder_try hfloppy (inOrder_none _)
  rw [if_neg ha, if_neg ha]
  by_cases hc : s'.al = BOOT_C
  · rw [if_pos hc, if_pos hc]
    exact inOrder_try hfixed (inOrder_none _)
  · rw [if_neg hc, if_neg hc]
    exact inOrder_try hfloppy (inOrder_try (tryFixed_tried b _) (inOrder_none _))

/-! ### The number of calls -/

/-- The most calls devices can take. -/
def most (devices : List Device) : Nat := (devices.map fun d => 2 * d.tries).sum

theorem Turn.length_le {p : Device × List Call} (h : Turn p) : p.2.length ≤ 2 * p.1.tries := by
  rcases h with ⟨-, hnone⟩ | htries
  · rw [hnone]
    exact Nat.zero_le _
  · exact htries.length_le

theorem length_le_most {tried : List (Device × List Call)} (h : ∀ p ∈ tried, Turn p) :
    (tried.flatMap Prod.snd).length ≤ most (tried.map Prod.fst) := by
  induction tried with
  | nil => exact Nat.le_refl 0
  | cons p tried ih =>
      obtain ⟨hp, htried⟩ := List.forall_mem_cons.mp h
      rw [List.flatMap_cons, List.length_append, most, List.map_cons, List.map_cons, List.sum_cons]
      exact Nat.add_le_add hp.length_le (ih htried)

theorem most_mono {earlier devices : List Device} (h : earlier <+: devices) :
    most earlier ≤ most devices := by
  obtain ⟨rest, rfl⟩ := h
  rw [most, most, List.map_append, List.sum_append]
  exact Nat.le_add_right _ _

theorem most_bootList (order : Byte) : most (bootList order) ≤ 12 := by
  rw [bootList]
  split_ifs <;> decide

end Run

end Sbc386Ex.Boot

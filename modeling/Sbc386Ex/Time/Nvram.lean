import Sbc386Ex.Crc16Tab
import Sbc386Ex.Time.Returns

/-!
# Sbc386Ex.Time.Nvram

The 31 bytes of configuration, between the clock chip's RAM and the BIOS data area:
`get_nvram_crc_` and `put_nvram_info_` of `start.asm`, `crc16` of `crc.asm`, what `set_top`
does with them and what the POST does.
-/

namespace Sbc386Ex.Time

open Cpu

variable {W : Type}

/-! ### The check -/

section Check

variable (s : Cpu (Board W))

/-- `nvram_info` of the BIOS data area, which ends at 40:FFh, and its last word. -/
def nvramInfo : Word := 0x00E1
def nvramChecksum : Word := 0x00FE

/-- `get_bda ES` -/
def getBdaEs : Cpu (Board W) := { s with es := 0x0040 }

/-- `.2` of `crc16`. -/
def crc16Round : Cpu (Board W) :=
  let s := s.setBl s.ah
  let s := s.setBh 0
  let s := s.setBl (s.bl ^^^ s.world.mem (linear s.es s.si))
  let s := { s with si := s.si + 1 }
  let s := s.setAh s.al
  let s := s.setAl 0
  let s := { s with bx := s.bx <<< 1 }
  let s := { s with ax := s.ax ^^^ crc16tab.getD (s.bx.toNat / 2) 0 }
  { s with cx := s.cx - 1 }

/-- `loop` counts `CX` down to zero, all the way round from zero. -/
def loopCount (cx : Word) : Nat := if cx = 0 then 65536 else cx.toNat

def crc16 : Cpu (Board W) :=
  let s := s.push s.si
  let s := { s with si := s.bx }
  let s := crc16Round^[loopCount s.cx] s
  let s := { s with bx := s.si }
  s.popSi

/-- `get_nvram_crc_`, `n` in `AX`. The lights it shows are not on the chip's wires. -/
def getNvramCrc : Cpu (Board W) :=
  let s := ((s.push s.es).push s.cx).push s.bx
  let s := s.push s.ax
  let s := { s with ax := 0 }
  let s := { s with bx := 0xF000 }
  let s := { s with es := s.bx }
  let s := { s with bx := 0xFFF0 }
  let s := { s with cx := 16 }
  let s := crc16 s
  let s := getBdaEs s
  let s := { s with bx := nvramInfo }
  let s := s.popCx
  let s := crc16 s
  -- xchg ah,al
  let s := { s with ax := s.al ++ s.ah }
  s.popBx.popCx.popEs

/-- `bda.nvram_checksum = get_nvram_crc(29)`, a word with its low byte first. -/
def storeChecksum : Cpu (Board W) :=
  let s := getNvramCrc { s with ax := 29 }
  let mem := Function.update s.world.mem (linear 0x0040 nvramChecksum) s.al
  let mem := Function.update mem (linear 0x0040 (nvramChecksum + 1)) s.ah
  { s with world := { s.world with mem := mem } }

end Check

/-! ### The clock chip called -/

section Calls

variable [ThreeWire W] (s : Cpu (Board W))

/-- `int 0x1A` at `site`, where it comes back. No function used here looks at the fuel. -/
def int1A (site : Word × Word) (ra : Word) : Option (Cpu (Board W)) :=
  (int1Ah (((s.push s.flags).push site.2).push site.1) ra 0).bind fun r =>
    if r.1 = site then some r.2 else none

/-- Where a routine's `int 0x1A`s come back to, and the dispatcher's call. -/
structure Sites where
  first : Word × Word
  second : Word × Word
  third : Word × Word
  ra : Word

def putNvramInfo (sites : Sites) : Option (Cpu (Board W)) :=
  let s := ((s.push s.es).push s.bx).push s.ax
  (int1A { s with ax := 0x2200 } sites.first sites.ra).bind fun s =>
    let s := getBdaEs { s with bx := nvramInfo }
    (int1A { s with ax := 0x211F } sites.second sites.ra).bind fun s =>
      (int1A { s with ax := 0x2280 } sites.third sites.ra).map fun s => s.popAx.popBx.popEs

/-- The table `NVRAM00`. -/
def NVRAM00 : List Byte := [0xE7, 0x00] ++ List.replicate 29 0

/-- `rep movsb` of a table to `ES:DI`. -/
def repMovsb (es : Word) : List Byte → Word → Mem → Mem
  | [], _, mem => mem
  | b :: bs, di, mem => repMovsb es bs (di + 1) (Function.update mem (linear es di) b)

/-- `NVRAM00`, at `dgroup:table`, in place of what was read, and `inc byte [bp]`. -/
def takeDefaults (s : Cpu (Board W)) (dgroup table : Word) : Cpu (Board W) :=
  let s := getBdaEs { s with ds := dgroup, si := table }
  let mem := repMovsb s.es NVRAM00 nvramInfo s.world.mem
  let s := { s with world := { s.world with mem := mem } }
  let s := { s with cx := 0, si := s.si + 31, di := nvramInfo + 31 }
  s.drop.push (high s.top ++ (low s.top + 1))

/-- The POST, from where it primes the chip up to `.2`, with its flags on top of the stack;
nothing where it halts. -/
def postNvram (sites : Sites) (dgroup table : Word) : Option (Cpu (Board W)) :=
  let s := dsResetOn s
  let s := getBdaEs s
  let s := { s with bx := nvramInfo }
  (int1A { s with ax := 0x201F } sites.first sites.ra).bind fun s =>
    if s.carry then none
    else
      let s := s.push 0
      let s := getNvramCrc { s with ax := 31 }
      some (if s.ax = 0 then s else takeDefaults s dgroup table)

end Calls

/-! ### What the check comes to -/

section Check

variable (s : Cpu (Board W))

/-- `mov ah,al; xor al,al` -/
theorem low_append_zero (v : Word) : low v ++ 0#8 = v <<< 8 := by
  apply BitVec.eq_of_toNat_eq
  simp only [low, BitVec.toNat_append, BitVec.toNat_setWidth, BitVec.toNat_shiftLeft,
    BitVec.toNat_ofNat, Nat.shiftLeft_eq, Nat.zero_mod, Nat.or_zero]
  omega

/-- A round is a step of the check, with the byte at `ES:SI`. -/
theorem crc16Round_ax :
    (crc16Round s).ax = Crc16.step CRC16poly s.ax (s.world.mem (linear s.es s.si)) := by
  generalize hb : s.world.mem (linear s.es s.si) = b
  have hax : (crc16Round s).ax = (low s.ax ++ 0#8) ^^^
      crc16tab.getD ((((0#8 ++ (high s.ax ^^^ b)) : Word) <<< 1).toNat / 2) 0 := by
    rw [← hb]
    simp [crc16Round]
  have hindex : (((0#8 ++ (high s.ax ^^^ b)) : Word) <<< 1).toNat / 2 = (b ^^^ high s.ax).toNat := by
    rw [BitVec.xor_comm (high s.ax)]
    have hlt : (b ^^^ high s.ax).toNat < 256 := (b ^^^ high s.ax).isLt
    have hbyte : ((0#8 ++ (b ^^^ high s.ax) : Word)).toNat = (b ^^^ high s.ax).toNat := by
      rw [BitVec.toNat_append, BitVec.toNat_ofNat, Nat.zero_mod, Nat.zero_shiftLeft, Nat.zero_or]
    rw [BitVec.toNat_shiftLeft, hbyte, Nat.shiftLeft_eq]
    omega
  rw [hax, low_append_zero, hindex, crc16tab_eq]
  rfl

theorem crc16Round_eq : ∃ b, crc16Round s =
    { s with
      ax := Crc16.step CRC16poly s.ax (s.world.mem (linear s.es s.si))
      bx := b
      cx := s.cx - 1
      si := s.si + 1 } := by
  refine ⟨(crc16Round s).bx, ?_⟩
  rw [← crc16Round_ax]
  simp [crc16Round]

/-- The bytes from `seg:off` on. -/
def bytesAt (mem : Mem) (seg off : Word) : BitBuffer.Buffer :=
  fun k => mem (linear seg (off + BitVec.ofNat 16 k))

theorem crc16Loop_eq (n : Nat) : ∃ b, crc16Round^[n] s =
    { s with
      ax := Crc16.crc CRC16poly s.ax (bytesAt s.world.mem s.es s.si) n
      bx := b
      cx := s.cx - BitVec.ofNat 16 n
      si := s.si + BitVec.ofNat 16 n } := by
  induction n with
  | zero => exact ⟨s.bx, by simp [Crc16.crc]⟩
  | succ n ih =>
      obtain ⟨b, hrest⟩ := ih
      obtain ⟨b', hlast⟩ := crc16Round_eq (crc16Round^[n] s)
      refine ⟨b', ?_⟩
      rw [Function.iterate_succ_apply', hlast, hrest, BitVec.ofNat_add, ← BitVec.add_assoc,
        ← sub_sub]
      rfl

theorem crc16_ax : (crc16 s).ax =
    Crc16.crc CRC16poly s.ax (bytesAt s.world.mem s.es s.bx) (loopCount s.cx) := by
  obtain ⟨b, hloop⟩ := crc16Loop_eq { s.push s.si with si := s.bx } (loopCount s.cx)
  simp only [crc16, push] at hloop ⊢
  rw [hloop]
  simp

/-- **`crc16`**: the check of `CX` bytes at `ES:BX`, from `AX` on. -/
theorem crc16_eq (h : s.cx ≠ 0) : crc16 s =
    { s with
      ax := Crc16.crc CRC16poly s.ax (bytesAt s.world.mem s.es s.bx) s.cx.toNat
      bx := s.bx + s.cx
      cx := 0 } := by
  obtain ⟨b, hloop⟩ := crc16Loop_eq { s.push s.si with si := s.bx } s.cx.toNat
  have hcount : loopCount s.cx = s.cx.toNat := if_neg h
  simp only [crc16, push, hcount] at hloop ⊢
  rw [hloop]
  simp

/-- The bytes the check is of, in its order: the last 16 of the ROM, then the NVRAM's. -/
def guarded (mem : Mem) : BitBuffer.Buffer := fun k =>
  if k < 16 then bytesAt mem 0xF000 0xFFF0 k else bytesAt mem 0x0040 nvramInfo (k - 16)

theorem crc_guarded (mem : Mem) (n : Nat) : Crc16.crc CRC16poly 0 (guarded mem) (16 + n) =
    Crc16.crc CRC16poly (Crc16.crc CRC16poly 0 (bytesAt mem 0xF000 0xFFF0) 16)
      (bytesAt mem 0x0040 nvramInfo) n := by
  have hrom : Crc16.crc CRC16poly 0 (guarded mem) 16 =
      Crc16.crc CRC16poly 0 (bytesAt mem 0xF000 0xFFF0) 16 :=
    Crc16.crc_congr fun k hk => if_pos hk
  rw [Crc16.crc_add, hrom]
  refine Crc16.crc_congr fun k _ => ?_
  rw [guarded, if_neg (Nat.not_lt.mpr (Nat.le_add_right 16 k)), Nat.add_sub_cancel_left]

/-- **`get_nvram_crc_`**: the check of the ROM's 16 bytes and `AX` of the NVRAM's, its bytes
swapped. -/
theorem getNvramCrc_eq (h : s.ax ≠ 0) : getNvramCrc s =
    { s with
      ax := low (Crc16.crc CRC16poly 0 (guarded s.world.mem) (16 + s.ax.toNat)) ++
        high (Crc16.crc CRC16poly 0 (guarded s.world.mem) (16 + s.ax.toNat)) } := by
  have hrom := crc16_eq
    { s with
      ax := 0, bx := 0xFFF0, cx := 16, es := 0xF000
      stack := s.ax :: s.bx :: s.cx :: s.es :: s.stack }
    (show (16 : Word) ≠ 0 by decide)
  rw [crc_guarded]
  simp only [getNvramCrc, push, getBdaEs, popCx, drop, top, hrom, List.tail_cons]
  rw [crc16_eq _ h]
  simp

end Check

/-! ### What the calls come to -/

section Bursts

variable [ThreeWire W]

/-- As many bytes shifted in, and the chip after them. -/
def shiftsIn : Nat → W → List Byte × W
  | 0, w => ([], w)
  | n + 1, w =>
      let r := shiftsIn n (ThreeWire.shiftIn w).2
      ((ThreeWire.shiftIn w).1 :: r.1, r.2)

def shiftsOut (bytes : List Byte) (w : W) : W := bytes.foldl (fun w b => ThreeWire.shiftOut b w) w

/-- A burst read of `n` bytes of the RAM. -/
def burstRead (n : Nat) (w : W) : List Byte × W :=
  let r := shiftsIn n (ThreeWire.shiftOut 0xFF (ThreeWire.resetOff (ThreeWire.resetOn w)))
  (r.1, ThreeWire.resetOn r.2)

/-- A burst write to the RAM. -/
def burstWrite (bytes : List Byte) (w : W) : W :=
  let w := ThreeWire.shiftOut 0xFE (ThreeWire.resetOff (ThreeWire.resetOn w))
  ThreeWire.resetOn (shiftsOut bytes w)

/-- `n` bytes from `seg:off` on. -/
def loadBytes (mem : Mem) (seg off : Word) (n : Nat) : List Byte :=
  (List.range n).map (bytesAt mem seg off)

attribute [local simp] onChip dsInb dsOutb dsResetOn dsResetOff pushAxDx dsReadExit dsGoodExit
  dsFullExit

theorem dsRead2_world (n : Nat) (s : Cpu (Board W)) : (dsRead2 n s).world =
    { s.world with
      mem := repMovsb s.es (shiftsIn n s.world.chip).1 s.bx s.world.mem
      chip := (shiftsIn n s.world.chip).2 } := by
  induction n generalizing s with
  | zero => rfl
  | succ n ih =>
      rw [dsRead2, ih]
      simp [shiftsIn, repMovsb]

theorem loadBytes_succ (mem : Mem) (seg off : Word) (n : Nat) :
    loadBytes mem seg off (n + 1) = mem (linear seg off) :: loadBytes mem seg (off + 1) n := by
  rw [loadBytes, List.range_succ_eq_map, List.map_cons, List.map_map, loadBytes]
  congr 1
  · simp [bytesAt]
  · refine List.map_congr_left fun k _ => ?_
    show mem (linear seg (off + BitVec.ofNat 16 (k + 1))) = mem (linear seg (off + 1 + BitVec.ofNat 16 k))
    rw [BitVec.ofNat_add, BitVec.add_assoc, BitVec.add_comm (BitVec.ofNat 16 k)]
    rfl

theorem dsWrite2_world (n : Nat) (s : Cpu (Board W)) : (dsWrite2 n s).world =
    { s.world with
      chip := shiftsOut (loadBytes s.world.mem s.es s.bx n) s.world.chip } := by
  induction n generalizing s with
  | zero => rfl
  | succ n ih =>
      rw [dsWrite2, ih, loadBytes_succ]
      simp [shiftsOut]

theorem dsRead_burst {s : Cpu (Board W)} (h : s.al = 31) : (dsRead s).world =
    { s.world with
      mem := repMovsb s.es (burstRead 31 s.world.chip).1 s.bx s.world.mem
      chip := (burstRead 31 s.world.chip).2 } ∧ (dsRead s).carry = false := by
  have hal : low s.ax = 31#8 := h
  constructor
  · simp [dsRead, hal, dsRead2_world, burstRead]
  · simp [dsRead, hal, carry]

theorem dsWrite_burst {s : Cpu (Board W)} (h : s.al = 31) : (dsWrite s).world =
    { s.world with
      chip := burstWrite (loadBytes s.world.mem s.es s.bx 31) s.world.chip } := by
  have hal : low s.ax = 31#8 := h
  simp [dsWrite, hal, dsWrite2_world, burstWrite]

end Bursts

section Calls

theorem callEntry_eq {f : Cpu (Board W) → Cpu (Board W)} (hstack : ∀ t, (f t).stack = t.stack)
    (c : Cpu (Board W)) (si ra : Word) :
    callEntry { pushFrame c with si := si } ra (fun t => some (f t, .ret)) =
      some (exit (f (atEntry c ra si)).drop) := by
  have htop : (f (atEntry c ra si)).top = ra := by
    rw [top, hstack]
    rfl
  show (some (f (atEntry c ra si), Leaves.ret)).bind _ = _
  rw [Option.bind_some]
  exact if_pos htop

variable [ThreeWire W] {s : Cpu (Board W)}

/-- `int 0x1A` with a function of the tables that leaves the stack alone. -/
theorem int1A_eq {fn : Byte} (hfn : s.ah = fn) {f : Cpu (Board W) → Cpu (Board W)}
    (hentry : ∀ fuel, entryOf fuel fn = some fun t => some (f t, .ret))
    (hstack : ∀ t, (f t).stack = t.stack) (site : Word × Word) (ra : Word) :
    ∃ si stack, int1A s site ra = some
      { f { s with si := si, stack := stack } with
        bx := s.bx, si := s.si, di := s.di, bp := s.bp, ds := s.ds, es := s.es, stack := s.stack } := by
  obtain ⟨si, hrun⟩ := int1Ah_entry (s := ((s.push s.flags).push site.2).push site.1) ra hfn
    (fun _ t => some (f t, .ret)) hentry
  obtain ⟨stack, hframe⟩ : ∃ stack, stack = ra :: s.bx :: s.si :: s.di :: s.bp :: s.ds :: s.es ::
    site.1 :: site.2 :: s.flags :: s.stack := ⟨_, rfl⟩
  have hat : atEntry (((s.push s.flags).push site.2).push site.1) ra si =
      { s with si := si, stack := stack } := by
    simp only [atEntry, pushFrame, push, hframe]
  obtain ⟨t, ht⟩ : ∃ t, t = f { s with si := si, stack := stack } := ⟨_, rfl⟩
  have hdrop : t.drop.stack = s.bx :: s.si :: s.di :: s.bp :: s.ds :: s.es :: site.1 :: site.2 ::
      s.flags :: s.stack := by rw [drop, ht, hstack, hframe, List.tail_cons]
  refine ⟨si, stack, ?_⟩
  rw [int1A, hrun, callEntry_eq hstack, hat, ← ht, exit_eq hdrop, Option.bind_some, if_pos rfl]
  rfl

theorem int1A_wrProtect {v : Byte} (hfn : s.ah = 0x22) (hal : s.al = v) (site : Word × Word) (ra : Word) :
    ∃ r, int1A s site ra = some r ∧ r.stack = s.stack ∧
      r.world = { s.world with chip := protectChip v s.world.chip } := by
  obtain ⟨si, stack, hrun⟩ := int1A_eq hfn (f := wrProtect) (fun _ => rfl)
    (fun t => (wrProtect_answers t).2) site ra
  refine ⟨_, hrun, rfl, ?_⟩
  show (wrProtect _).world = _
  rw [wrProtect_eq, ← hal]
  rfl

theorem int1A_dsWrite (hfn : s.ah = 0x21) (hal : s.al = 31) (site : Word × Word) (ra : Word) :
    ∃ r, int1A s site ra = some r ∧ r.stack = s.stack ∧
      r.world = { s.world with
        chip := burstWrite (loadBytes s.world.mem s.es s.bx 31) s.world.chip } := by
  obtain ⟨si, stack, hrun⟩ := int1A_eq hfn (f := dsWrite) (fun _ => rfl)
    (fun t => (dsWrite_answers t).2) site ra
  exact ⟨_, hrun, rfl, dsWrite_burst hal⟩

theorem int1A_dsRead (hfn : s.ah = 0x20) (hal : s.al = 31) (site : Word × Word) (ra : Word) :
    ∃ r, int1A s site ra = some r ∧ r.stack = s.stack ∧ r.carry = false ∧
      r.world = { s.world with
        mem := repMovsb s.es (burstRead 31 s.world.chip).1 s.bx s.world.mem
        chip := (burstRead 31 s.world.chip).2 } := by
  obtain ⟨si, stack, hrun⟩ := int1A_eq hfn (f := dsRead) (fun _ => rfl)
    (fun t => (dsRead_answers t).2) site ra
  obtain ⟨hworld, hcarry⟩ := dsRead_burst (s := { s with si := si, stack := stack }) hal
  exact ⟨_, hrun, rfl, hcarry, hworld⟩

/-- **`put_nvram_info_`**: protection off, the 31 bytes, protection on. -/
theorem putNvramInfo_eq (s : Cpu (Board W)) (sites : Sites) : ∃ r, putNvramInfo s sites = some r ∧
    r.world = { s.world with
      chip := protectChip 0x80 (burstWrite (loadBytes s.world.mem 0x0040 nvramInfo 31)
        (protectChip 0 s.world.chip)) } := by
  obtain ⟨r₁, h₁, -, hw₁⟩ := int1A_wrProtect
    (s := { ((s.push s.es).push s.bx).push s.ax with ax := 0x2200 })
    (show high 0x2200 = 0x22 by decide) (show low 0x2200 = 0 by decide) sites.first sites.ra
  obtain ⟨r₂, h₂, -, hw₂⟩ := int1A_dsWrite
    (s := { getBdaEs { r₁ with bx := nvramInfo } with ax := 0x211F })
    (show high 0x211F = 0x21 by decide) (show low 0x211F = 31 by decide) sites.second sites.ra
  obtain ⟨r₃, h₃, -, hw₃⟩ := int1A_wrProtect (s := { r₂ with ax := 0x2280 })
    (show high 0x2280 = 0x22 by decide) (show low 0x2280 = 0x80 by decide) sites.third sites.ra
  refine ⟨r₃.popAx.popBx.popEs, ?_, ?_⟩
  · simp only [putNvramInfo, h₁, h₂, h₃, Option.bind_some, Option.map_some]
  · show r₃.world = _
    rw [hw₃, hw₂]
    show { r₁.world with
      chip := protectChip 0x80
        (burstWrite (loadBytes r₁.world.mem 0x0040 nvramInfo 31) r₁.world.chip) } = _
    rw [hw₁]
    rfl

/-- A check is zero whichever of its bytes is first. -/
theorem swap_eq_zero_iff (c : Word) : (low c ++ high c : Word) = 0 ↔ c = 0 := by
  constructor
  · intro hzero
    have hlow : low c = 0 := by rw [← high_append (low c) (high c), hzero]; rfl
    have hhigh : high c = 0 := by rw [← low_append (low c) (high c), hzero]; rfl
    rw [← high_append_low c, hlow, hhigh]
    rfl
  · rintro rfl
    rfl

/-- **The POST** takes the 31 bytes from the chip; where their check is not zero it flags it,
and the table takes their place. -/
theorem postNvram_eq (s : Cpu (Board W)) (sites : Sites) (dgroup table : Word) {mem : Mem}
    (hmem : mem = repMovsb 0x0040 (burstRead 31 (ThreeWire.resetOn s.world.chip)).1 nvramInfo
      s.world.mem) :
    ∃ r, postNvram s sites dgroup table = some r ∧
      (Crc16.crc CRC16poly 0 (guarded mem) 47 = 0 → r.top = 0 ∧ r.world.mem = mem) ∧
      (Crc16.crc CRC16poly 0 (guarded mem) 47 ≠ 0 →
        r.top = 1 ∧ r.world.mem = repMovsb 0x0040 NVRAM00 nvramInfo mem) := by
  obtain ⟨s₀, hs₀⟩ : ∃ s₀, s₀ = { getBdaEs (dsResetOn s) with bx := nvramInfo, ax := 0x201F } :=
    ⟨_, rfl⟩
  have hax : s₀.ax = 0x201F := by rw [hs₀]
  have hbx : s₀.bx = nvramInfo := by rw [hs₀]
  have hes : s₀.es = 0x0040 := by rw [hs₀]; rfl
  have hworld₀ : s₀.world = { s.world with chip := ThreeWire.resetOn s.world.chip } := by
    rw [hs₀]
    rfl
  obtain ⟨t, hcall, -, hcarry, hworld⟩ := int1A_dsRead (s := s₀)
    (by rw [ah, hax]; decide) (by rw [al, hax]; decide) sites.first sites.ra
  have hread : t.world.mem = mem := by rw [hworld, hmem, hes, hbx, hworld₀]
  obtain ⟨c, hc⟩ : ∃ c, c = Crc16.crc CRC16poly 0 (guarded mem) 47 := ⟨_, rfl⟩
  have hcrc : getNvramCrc { t.push 0 with ax := 31 } = { t.push 0 with ax := low c ++ high c } := by
    rw [getNvramCrc_eq _ (show (31 : Word) ≠ 0 by decide), hc, ← hread]
    rfl
  rw [hs₀] at hcall
  rw [← hc]
  by_cases hzero : c = 0
  · refine ⟨{ t.push 0 with ax := low c ++ high c }, ?_, fun _ => ⟨rfl, hread⟩,
      fun hne => absurd hzero hne⟩
    simp only [postNvram, hcall, Option.bind_some, hcarry, Bool.false_eq_true, if_false, hcrc]
    exact congrArg some (if_pos ((swap_eq_zero_iff c).mpr hzero))
  · refine ⟨takeDefaults { t.push 0 with ax := low c ++ high c } dgroup table, ?_,
      fun h => absurd h hzero, fun _ => ⟨?_, ?_⟩⟩
    · simp only [postNvram, hcall, Option.bind_some, hcarry, Bool.false_eq_true, if_false, hcrc]
      exact congrArg some (if_neg (mt (swap_eq_zero_iff c).mp hzero))
    · have hflag : (high 0 ++ (low 0 + 1) : Word) = 1 := by decide
      exact hflag
    · rw [← hread]
      rfl

end Calls

end Sbc386Ex.Time

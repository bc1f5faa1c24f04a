import Sbc386Ex.Sd.SdCore
import Sbc386Ex.Time.Nvram

/-!
# Sbc386Ex.Sd.CoreCrc

`crcinit` and `crc16` of `sdcore.inc` on the registers: the table they share in memory, and
what it makes of `crc16`, with one segment for code, data and the strings.
-/

namespace Sbc386Ex.Sd.CoreCrc

open Cpu
open Time (loopCount)

/-- The segment, by offset. -/
abbrev Seg := Word → Byte

def Seg.word (m : Seg) (a : Word) : Word := m (a + 1) ++ m a

variable (tab : Word) (s : Cpu Seg)

/-- `.b` of `crcinit` -/
def crcinitBit : Cpu Seg :=
  let carry := s.ax.msb
  let s := { s with ax := s.ax <<< 1 }
  let s := if carry then { s with ax := s.ax ^^^ 0x1021 } else s
  { s with cx := s.cx - 1 }

def stosw : Cpu Seg :=
  { s with
    world := Function.update (Function.update s.world s.di s.al) (s.di + 1) s.ah
    di := s.di + 2 }

/-- `.n` of `crcinit` -/
def crcinitRound : Cpu Seg :=
  let s := s.setAh s.bl
  let s := s.setAl 0
  let s := { s with cx := 8 }
  let s := crcinitBit^[loopCount s.cx] s
  let s := stosw s
  { s with bx := s.bx + 1 }

/-- Rounds until `BX` is 256; nothing if `fuel` of them were not enough. -/
def crcinitLoop : Nat → Cpu Seg → Option (Cpu Seg)
  | 0, _ => none
  | fuel + 1, s =>
      let s := crcinitRound s
      if s.bx < 256 then crcinitLoop fuel s else some s

/-- `crcinit`, `crctab` at `tab`. -/
def crcinit (fuel : Nat) : Option (Cpu Seg) := crcinitLoop fuel { s with di := tab, bx := 0 }

/-- `.byte` of `crc16` -/
def crc16Round : Cpu Seg :=
  -- lodsb
  let s := { s.setAl (s.world s.si) with si := s.si + 1 }
  let s := s.setAl (s.al ^^^ s.dh)
  let s := { s with bx := s.al.setWidth 16 }
  let s := { s with bx := s.bx <<< 1 }
  let s := s.setDh s.dl
  let s := s.setDl 0
  let s := { s with dx := s.dx ^^^ Seg.word s.world (tab + s.bx) }
  { s with cx := s.cx - 1 }

def crc16 : Cpu Seg :=
  let s := (((s.push s.bx).push s.cx).push s.dx).push s.si
  let s := { s with dx := 0 }
  let s := (crc16Round tab)^[loopCount s.cx] s
  let s := { s with ax := s.dx }
  s.popSi.popDx.popCx.popBx

/-! ### The table -/

variable {tab s}

theorem crcinitBit_ax : (crcinitBit s).ax = Crc16.shift CRC16poly s.ax := by
  rw [crcinitBit, Crc16.shift]
  split_ifs <;> rfl

theorem crcinitBit_eq :
    crcinitBit s = { s with ax := Crc16.shift CRC16poly s.ax, cx := s.cx - 1 } := by
  rw [← crcinitBit_ax, crcinitBit]
  split_ifs <;> rfl

theorem crcinitBit_iterate (n : Nat) : crcinitBit^[n] s =
    { s with ax := (Crc16.shift CRC16poly)^[n] s.ax, cx := s.cx - BitVec.ofNat 16 n } := by
  induction n with
  | zero => simp
  | succ n ih =>
      rw [Function.iterate_succ_apply', Function.iterate_succ_apply', ih, crcinitBit_eq,
        BitVec.ofNat_add, ← BitVec.sub_sub]
      rfl

/-- Byte `j` of the table. -/
def entryByte (j : Nat) : Byte :=
  let w := Crc16.table CRC16poly (BitVec.ofNat 8 (j / 2))
  if j % 2 = 0 then low w else high w

theorem crcinitRound_eq : crcinitRound s =
    { s with
      ax := Crc16.table CRC16poly s.bl
      bx := s.bx + 1
      cx := 0
      di := s.di + 2
      world := Function.update
        (Function.update s.world s.di (low (Crc16.table CRC16poly s.bl)))
        (s.di + 1) (high (Crc16.table CRC16poly s.bl)) } := by
  have hcount : loopCount 8 = 8 := by decide
  simp only [crcinitRound, hcount, crcinitBit_iterate, stosw]
  simp [Crc16.table]

/-- Offsets of one segment are different as numbers below 64K. -/
theorem add_ofNat_ne {j k : Nat} (hj : j < 2 ^ 16) (hk : k < 2 ^ 16) (hne : j ≠ k) :
    tab + BitVec.ofNat 16 j ≠ tab + BitVec.ofNat 16 k := by
  intro h
  have heq := congrArg BitVec.toNat (add_left_cancel h)
  rw [BitVec.toNat_ofNat, BitVec.toNat_ofNat, Nat.mod_eq_of_lt hj, Nat.mod_eq_of_lt hk] at heq
  exact hne heq

/-- `n` rounds on, that many entries are in place. -/
structure Filling (tab : Word) (s s' : Cpu Seg) (n : Nat) : Prop where
  bx : s'.bx = BitVec.ofNat 16 n
  di : s'.di = tab + BitVec.ofNat 16 (2 * n)
  entries : ∀ j < 2 * n, s'.world (tab + BitVec.ofNat 16 j) = entryByte j
  rest : ∀ a, (∀ j < 2 * n, a ≠ tab + BitVec.ofNat 16 j) → s'.world a = s.world a
  stack : s'.stack = s.stack

theorem filling_round {s' : Cpu Seg} {n : Nat} (hn : n < 256) (h : Filling tab s s' n) :
    Filling tab s (crcinitRound s') (n + 1) := by
  have hbl : s'.bl = BitVec.ofNat 8 n := by
    rw [bl, h.bx]
    exact BitVec.setWidth_ofNat_of_le (by decide) n
  have hbx : s'.bx + 1 = BitVec.ofNat 16 (n + 1) := by
    rw [h.bx, BitVec.ofNat_add]
    rfl
  have hnext : s'.di + 1 = tab + BitVec.ofNat 16 (2 * n + 1) := by
    rw [h.di, BitVec.ofNat_add, BitVec.add_assoc]
    rfl
  have hdi : s'.di + 2 = tab + BitVec.ofNat 16 (2 * (n + 1)) := by
    rw [h.di, show 2 * (n + 1) = 2 * n + 2 by omega, BitVec.ofNat_add, BitVec.add_assoc]
    rfl
  have hworld : (crcinitRound s').world = Function.update
      (Function.update s'.world (tab + BitVec.ofNat 16 (2 * n)) (entryByte (2 * n)))
      (tab + BitVec.ofNat 16 (2 * n + 1)) (entryByte (2 * n + 1)) := by
    rw [crcinitRound_eq, ← hnext, ← h.di, hbl, entryByte, entryByte, if_pos (by omega),
      if_neg (by omega), show 2 * n / 2 = n by omega, show (2 * n + 1) / 2 = n by omega]
  refine ⟨?_, ?_, ?_, ?_, ?_⟩
  · rw [crcinitRound_eq]
    exact hbx
  · rw [crcinitRound_eq]
    exact hdi
  · intro j hj
    rw [hworld]
    by_cases hlast : j = 2 * n + 1
    · rw [hlast, Function.update_self]
    rw [Function.update_of_ne (add_ofNat_ne (by omega) (by omega) hlast)]
    by_cases hfirst : j = 2 * n
    · rw [hfirst, Function.update_self]
    rw [Function.update_of_ne (add_ofNat_ne (by omega) (by omega) hfirst)]
    exact h.entries j (by omega)
  · intro a ha
    rw [hworld, Function.update_of_ne (ha _ (by omega)), Function.update_of_ne (ha _ (by omega))]
    exact h.rest a fun j hj => ha j (by omega)
  · rw [crcinitRound_eq]
    exact h.stack

/-- With `k` rounds to go. -/
theorem crcinitLoop_filling {s' : Cpu Seg} {k : Nat} (hpos : 1 ≤ k) (hk : k ≤ 256)
    (h : Filling tab s s' (256 - k)) :
    ∃ s'', crcinitLoop k s' = some s'' ∧ Filling tab s s'' 256 := by
  induction k generalizing s' with
  | zero => omega
  | succ k ih =>
      have hround := filling_round (by omega) h
      have hbx : (crcinitRound s').bx.toNat = 256 - (k + 1) + 1 := by
        rw [hround.bx, BitVec.toNat_ofNat, Nat.mod_eq_of_lt (by omega)]
      have hbound : (256 : Word).toNat = 256 := rfl
      simp only [crcinitLoop, BitVec.lt_def, hbx, hbound]
      by_cases hlast : k = 0
      · subst hlast
        exact ⟨_, if_neg (by decide), hround⟩
      · rw [if_pos (by omega)]
        rw [show 256 - (k + 1) + 1 = 256 - k by omega] at hround
        exact ih (by omega) (by omega) hround

/-- **`crcinit`** puts the table in place and leaves the rest of the segment alone. -/
theorem crcinit_filling (tab : Word) (s : Cpu Seg) :
    ∃ s', crcinit tab s 256 = some s' ∧ Filling tab s s' 256 :=
  crcinitLoop_filling (by decide) le_rfl
    { bx := rfl, di := (BitVec.add_zero _).symm, entries := fun _ hj => absurd hj (by omega)
      rest := fun _ _ => rfl, stack := rfl }

/-! ### The check -/

/-- The table is in memory. -/
def HasTable (tab : Word) (m : Seg) : Prop :=
  ∀ b : Byte, m.word (tab + b.setWidth 16 <<< 1) = Crc16.table CRC16poly b

/-- Memory that still has what `crcinit` has put in place. -/
theorem Filling.hasTable {s' : Cpu Seg} {m : Seg} (h : Filling tab s s' 256)
    (hm : ∀ j < 512, m (tab + BitVec.ofNat 16 j) = s'.world (tab + BitVec.ofNat 16 j)) :
    HasTable tab m := by
  have hindex : ∀ b : Byte, b.setWidth 16 <<< 1 = BitVec.ofNat 16 (2 * b.toNat) := by decide
  intro b
  have hb := b.isLt
  have hlow : m (tab + BitVec.ofNat 16 (2 * b.toNat)) = low (Crc16.table CRC16poly b) := by
    rw [hm _ (by omega), h.entries _ (by omega), entryByte, if_pos (by omega),
      Nat.mul_div_cancel_left _ (by decide), BitVec.ofNat_toNat, BitVec.setWidth_eq]
  have hhigh : m (tab + BitVec.ofNat 16 (2 * b.toNat) + 1) = high (Crc16.table CRC16poly b) := by
    have hnext : tab + BitVec.ofNat 16 (2 * b.toNat) + 1 =
        tab + BitVec.ofNat 16 (2 * b.toNat + 1) := by
      rw [BitVec.ofNat_add, BitVec.add_assoc]
      rfl
    rw [hnext, hm _ (by omega), h.entries _ (by omega), entryByte, if_neg (by omega),
      show (2 * b.toNat + 1) / 2 = b.toNat by omega, BitVec.ofNat_toNat, BitVec.setWidth_eq]
  rw [Seg.word, hindex, hlow, hhigh, high_append_low]

theorem crc16Round_dx (ht : HasTable tab s.world) :
    (crc16Round tab s).dx = Crc16.step CRC16poly s.dx (s.world s.si) := by
  have hdx : (crc16Round tab s).dx = (low s.dx ++ 0#8) ^^^
      s.world.word (tab + (s.world s.si ^^^ high s.dx).setWidth 16 <<< 1) := by
    simp [crc16Round]
  rw [hdx, ht, Time.low_append_zero]
  rfl

/-- What a round leaves besides. -/
theorem crc16Round_eq (ht : HasTable tab s.world) : ∃ a b, crc16Round tab s =
    { s with
      ax := a
      bx := b
      cx := s.cx - 1
      dx := Crc16.step CRC16poly s.dx (s.world s.si)
      si := s.si + 1 } := by
  refine ⟨(crc16Round tab s).ax, (crc16Round tab s).bx, ?_⟩
  rw [← crc16Round_dx ht]
  simp [crc16Round]

/-- The bytes from offset `a` on. -/
def bytesFrom (m : Seg) (a : Word) : BitBuffer.Buffer := fun k => m (a + BitVec.ofNat 16 k)

theorem crc16Loop_eq (ht : HasTable tab s.world) (n : Nat) : ∃ a b, (crc16Round tab)^[n] s =
    { s with
      ax := a
      bx := b
      cx := s.cx - BitVec.ofNat 16 n
      dx := Crc16.crc CRC16poly s.dx (bytesFrom s.world s.si) n
      si := s.si + BitVec.ofNat 16 n } := by
  induction n with
  | zero => exact ⟨s.ax, s.bx, by simp [Crc16.crc]⟩
  | succ n ih =>
      obtain ⟨a, b, hrest⟩ := ih
      have ht' : HasTable tab ((crc16Round tab)^[n] s).world := by
        rw [hrest]
        exact ht
      obtain ⟨a', b', hlast⟩ := crc16Round_eq ht'
      refine ⟨a', b', ?_⟩
      rw [Function.iterate_succ_apply', hlast, hrest, BitVec.ofNat_add, ← BitVec.add_assoc,
        ← sub_sub]
      rfl

/-- **`crc16`**: the check of `CX` bytes at `SI`, in `AX`. -/
theorem crc16_eq (ht : HasTable tab s.world) : crc16 tab s =
    { s with ax := Crc16.crc CRC16poly 0 (bytesFrom s.world s.si) (loopCount s.cx) } := by
  obtain ⟨a, b, hloop⟩ := crc16Loop_eq
    (s := { s with dx := 0, stack := s.si :: s.dx :: s.cx :: s.bx :: s.stack }) ht
    (loopCount s.cx)
  simp only [crc16, push]
  rw [hloop]
  simp

end Sbc386Ex.Sd.CoreCrc

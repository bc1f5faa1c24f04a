import Mathlib.Order.Basic
import Mathlib.Data.Nat.Find
import Mathlib.Tactic.SplitIfs
import Sbc386Ex.Ide.Bus

/-!
# Sbc386Ex.Ide.Script

A drive that is nothing but what it shows: any sequence of status and error register
values, beside any clock. `IDE_WRITE_SECTOR` must not report success unless such a
drive asked for each sector in turn, was given its bytes, and showed neither ERR nor DF
from the command to the end. `writeSector_honest_iff` says when it keeps to that.
-/

namespace Sbc386Ex.Ide

open Prog

/-- What the drive shows and the clock reads, reading by reading. -/
structure Shown where
  status : Nat → Byte
  error : Nat → Byte
  clk : Nat → Word

/-- A byte sent to a port, and how many status readings came before it. -/
structure Out where
  port : Word
  al : Byte
  seen : Nat
  deriving DecidableEq

/-- The readings, how far each has got, and what the drive was sent. -/
structure Script where
  shown : Shown
  reads : Nat
  errs : Nat
  ticks : Nat
  outs : List Out

instance : IdeBus Script where
  inb port b :=
    if port = IDESTTS then (b.shown.status b.reads, { b with reads := b.reads + 1 })
    else if port = IDEERR then (b.shown.error b.errs, { b with errs := b.errs + 1 })
    else (0xFF, b)
  outb port al b := { b with outs := b.outs ++ [⟨port, al, b.reads⟩] }
  tick b := (b.shown.clk b.ticks, { b with ticks := b.ticks + 1 })

/-! ### A wait, in readings -/

namespace Shown

variable (σ : Shown) (judge : Byte → Option Bool)

/-- Round `i` of a wait from status reading `s` and clock reading `t` goes on. -/
def GoesOn (s t i : Nat) : Prop :=
  judge (σ.status (s + i)) = none ∧ σ.clk (t + (i + 1)) - σ.clk t < IDE_TIMEOUT

instance (s t i : Nat) : Decidable (σ.GoesOn judge s t i) := inferInstanceAs (Decidable (_ ∧ _))

/-- The wait is over in success at its round `k`. -/
def Passes (s t k : Nat) : Prop :=
  (∀ i < k, σ.GoesOn judge s t i) ∧ judge (σ.status (s + k)) = some true

/-- The clock leaves no wait on for more than `patience` rounds. -/
def Patient (patience : Nat) : Prop :=
  ∀ t, ∃ j ≤ patience, ¬ σ.clk (t + (j + 1)) - σ.clk t < IDE_TIMEOUT

variable {σ judge}

theorem Passes.unique {s t k k' : Nat} (h : σ.Passes judge s t k) (h' : σ.Passes judge s t k') :
    k = k' := by
  have hstop : ∀ {a b}, σ.Passes judge s t a → σ.Passes judge s t b → ¬ a < b := by
    intro a b ha hb hlt
    have hnone := (hb.1 a hlt).1
    rw [ha.2] at hnone
    cases hnone
  have h₁ := hstop h h'
  have h₂ := hstop h' h
  omega

/-- The round a wait ends with. -/
theorem exists_last {patience : Nat} (hp : σ.Patient patience) (judge : Byte → Option Bool)
    (s t : Nat) : ∃ k ≤ patience, (∀ i < k, σ.GoesOn judge s t i) ∧ ¬ σ.GoesOn judge s t k := by
  obtain ⟨j, hj, hlate⟩ := hp t
  have hex : ∃ k, ¬ σ.GoesOn judge s t k := ⟨j, fun hgo => hlate hgo.2⟩
  refine ⟨Nat.find hex, (Nat.find_min' hex fun hgo => hlate hgo.2).trans hj, ?_, Nat.find_spec hex⟩
  intro i hi
  exact not_not.mp (Nat.find_min hex hi)

end Shown

/-! ### The waits of the driver -/

section Waits

variable {h : Host Script} {judge : Byte → Option Bool} {fuel patience : Nat}

/-- The readings of a wait that ended with its status. -/
def Host.waited (h : Host Script) (k : Nat) : Host Script :=
  { h with bus := { h.bus with reads := h.bus.reads + (k + 1), ticks := h.bus.ticks + (k + 1) } }

/-- The host after the first clock reading and `i` rounds that went on. -/
def Host.round (h : Host Script) (i : Nat) : Host Script :=
  { h with bus := { h.bus with reads := h.bus.reads + i, ticks := h.bus.ticks + (i + 1) } }

theorem runs_shown (i : Nat) :
    Runs (inPort IDESTTS) (h.round i) (h.bus.shown.status (h.bus.reads + i)) (h.waited i) :=
  runs_modifyGet.mpr ⟨rfl, rfl⟩

theorem runs_clock (i : Nat) :
    Runs timerCountLow (h.waited i) (h.bus.shown.clk (h.bus.ticks + (i + 1))) (h.round (i + 1)) :=
  runs_modifyGet.mpr ⟨rfl, rfl⟩

theorem runs_round_on {i : Nat} (hgo : h.bus.shown.GoesOn judge h.bus.reads h.bus.ticks i) :
    Runs (waitRound judge (h.bus.shown.clk h.bus.ticks)) (h.round i) none (h.round (i + 1)) := by
  refine (runs_shown i).bind ?_
  rw [hgo.1]
  refine (runs_clock i).bind ?_
  rw [if_pos hgo.2]
  exact runs_pure.mpr ⟨rfl, rfl⟩

theorem runs_round_off {i : Nat} (hoff : ¬ h.bus.shown.GoesOn judge h.bus.reads h.bus.ticks i) :
    ∃ h', Runs (waitRound judge (h.bus.shown.clk h.bus.ticks)) (h.round i)
        (some ((judge (h.bus.shown.status (h.bus.reads + i))).getD false)) h' ∧
      (judge (h.bus.shown.status (h.bus.reads + i)) = some true → h' = h.waited i) := by
  cases hj : judge (h.bus.shown.status (h.bus.reads + i)) with
  | some zf =>
      refine ⟨h.waited i, (runs_shown i).bind ?_, fun _ => rfl⟩
      rw [hj]
      exact runs_pure.mpr ⟨rfl, rfl⟩
  | none =>
      refine ⟨h.round (i + 1), (runs_shown i).bind ?_, fun hyes => by cases hyes⟩
      rw [hj]
      refine (runs_clock i).bind ?_
      rw [if_neg fun hlt => hoff ⟨hj, hlt⟩]
      exact runs_pure.mpr ⟨rfl, rfl⟩

/-- **A wait succeeds exactly when some round of it does, and then with that round's
readings.** -/
theorem runs_wait (judge : Byte → Option Bool) (h : Host Script)
    (hp : h.bus.shown.Patient patience) (hf : patience < fuel) :
    ∃ zf h', Runs (waitStatus judge fuel) h zf h' ∧
      (zf = true ↔ ∃ k, h.bus.shown.Passes judge h.bus.reads h.bus.ticks k) ∧
      (∀ k, h.bus.shown.Passes judge h.bus.reads h.bus.ticks k → h' = h.waited k) := by
  obtain ⟨k, hk, hgo, hoff⟩ := Shown.exists_last hp judge h.bus.reads h.bus.ticks
  obtain ⟨h', hend, hat⟩ := runs_round_off hoff
  have hstart : Runs (timerCountLow (W := Script)) h (h.bus.shown.clk h.bus.ticks) (h.round 0) :=
    runs_modifyGet.mpr ⟨rfl, rfl⟩
  have hloop : Runs (loop .outOfFuel (waitRound judge (h.bus.shown.clk h.bus.ticks)) fuel)
      (h.round 0) _ h' :=
    Runs.loop_count (s := h.round) (fun i hi => runs_round_on (hgo i hi)) hend (by omega)
  -- a round that passes is the one the wait ends with
  have hlast : ∀ {j}, h.bus.shown.Passes judge h.bus.reads h.bus.ticks j → j = k := by
    intro j hj
    rcases Nat.lt_trichotomy j k with hlt | heq | hgt
    · have hnone := (hgo j hlt).1
      rw [hj.2] at hnone
      cases hnone
    · exact heq
    · exact absurd (hj.1 k hgt) hoff
  refine ⟨_, h', hstart.bind hloop, ⟨?_, ?_⟩, ?_⟩
  · intro hzf
    refine ⟨k, hgo, ?_⟩
    cases hj : judge (h.bus.shown.status (h.bus.reads + k)) with
    | none => rw [hj] at hzf; cases hzf
    | some zf => rw [hj] at hzf; exact congrArg some hzf
  · rintro ⟨j, hj⟩
    rw [← hlast hj, hj.2]
    rfl
  · intro j hj
    rw [hlast hj]
    exact hat (hlast hj ▸ hj.2)

end Waits

/-! ### The bytes of a sector -/

section Data

/-- The sector at `seg:off` as the drive is sent it, `c` status readings in. -/
def sectorData (mem : Mem) (seg off : Word) (c : Nat) : List Out :=
  (List.range 512).map fun i => ⟨IDEDTA, mem (linear seg (off + BitVec.ofNat 16 i)), c⟩

/-- Sector `k` of the buffer, `seen k` readings in. -/
def sectorOuts (mem : Mem) (seg off : Word) (seen : Nat → Nat) (k : Nat) : List Out :=
  sectorData mem seg (off + BitVec.ofNat 16 (512 * k)) (seen k)

/-- `c`, then `seen`. -/
def seenFrom (c : Nat) (seen : Nat → Nat) : Nat → Nat
  | 0 => c
  | k + 1 => seen k

theorem sectorOuts_seenFrom (mem : Mem) (seg off : Word) (c : Nat) (seen : Nat → Nat) (n : Nat) :
    (List.range (n + 1)).flatMap (sectorOuts mem seg off (seenFrom c seen)) =
      sectorData mem seg off c ++
        (List.range n).flatMap (sectorOuts mem seg (off + BitVec.ofNat 16 512) seen) := by
  have hfirst : sectorOuts mem seg off (seenFrom c seen) 0 = sectorData mem seg off c := by
    rw [sectorOuts, Nat.mul_zero, BitVec.add_zero]
    rfl
  have hrest : ∀ k, sectorOuts mem seg off (seenFrom c seen) (k + 1) =
      sectorOuts mem seg (off + BitVec.ofNat 16 512) seen k := by
    intro k
    rw [sectorOuts, sectorOuts, Nat.mul_succ, Nat.add_comm (512 * k), BitVec.ofNat_add,
      ← BitVec.add_assoc]
    rfl
  rw [List.range_succ_eq_map, List.flatMap_cons, List.flatMap_map, hfirst]
  simp only [hrest]

theorem writeDataLoop_outs (ds : Word) :
    ∀ (n : Nat) (si : Word) (h : Host Script),
      ∃ h', Runs (writeDataLoop ds n si) h (si + BitVec.ofNat 16 n) h' ∧ h'.mem = h.mem ∧
        h'.bus = { h.bus with outs := h.bus.outs ++ (List.range n).map fun i =>
          ⟨IDEDTA, h.mem (linear ds (si + BitVec.ofNat 16 i)), h.bus.reads⟩ } := by
  intro n
  induction n with
  | zero =>
      intro si h
      refine ⟨h, runs_pure.mpr ⟨by simp, rfl⟩, rfl, ?_⟩
      simp
  | succ n ih =>
      intro si h
      let h₁ : Host Script :=
        { h with addrs := h.addrs ++ [linear ds si]
                 bus := IdeBus.outb IDEDTA (h.mem (linear ds si)) h.bus }
      have hround : Runs (outPort IDEDTA (h.mem (linear ds si)))
          { h with addrs := h.addrs ++ [linear ds si] } () h₁ := runs_modify.mpr rfl
      obtain ⟨h', hrun, hmem, hbus⟩ := ih (si + 1) h₁
      have hstep : ∀ i, si + 1 + BitVec.ofNat 16 i = si + BitVec.ofNat 16 (i + 1) := by
        intro i
        rw [BitVec.add_assoc, BitVec.add_comm 1, BitVec.ofNat_add]
        rfl
      rw [hstep n] at hrun
      refine ⟨h', Runs.bind (runs_modifyGet.mpr ⟨rfl, rfl⟩) (hround.bind hrun), hmem, ?_⟩
      rw [hbus]
      simp only [hstep, h₁, IdeBus.outb, List.range_succ_eq_map, List.map_cons, List.map_map,
        List.append_assoc, List.singleton_append]
      simp [Function.comp_def]

end Data

/-! ### What the drive shows during a write -/

theorem dataRequested_true : ∀ {st : Byte}, dataRequested st = some true → st &&& 0x89 = 0x08 := by
  decide

theorem dataRequested_noErr : ∀ {st : Byte}, dataRequested st ≠ some false → st &&& 0x01 = 0 := by
  decide

theorem notBusy_none : ∀ {st : Byte}, notBusy st = none → st &&& 0x80 ≠ 0 := by
  decide

theorem notBusy_true : ∀ {st : Byte}, notBusy st = some true → st &&& 0x80 = 0 := by
  decide

theorem flags_clear_iff : ∀ {st : Byte}, st &&& 0x21 = 0 ↔ st &&& 0x20 = 0 ∧ st &&& 0x01 = 0 := by
  decide

namespace Shown

variable (σ : Shown)

/-- The drive asks for `n` sectors in turn, each inside its timeout; the readings go
from `s` and `t` to `s'` and `t'`. -/
def AsksFor : Nat → Nat → Nat → Nat → Nat → Prop
  | 0, s, t, s', t' => s' = s ∧ t' = t
  | n + 1, s, t, s', t' =>
      ∃ k, σ.Passes dataRequested s t k ∧ AsksFor n (s + (k + 1)) (t + (k + 1)) s' t'

/-- The drive comes through every wait of a write of `n` sectors: the command is sent
after `c` status readings, the data after `s`, and reading `e` ends the last wait. -/
def ComesThrough (n s₀ t₀ c s e : Nat) : Prop :=
  ∃ k₀ t k, (σ.Passes notBusy s₀ t₀ k₀ ∧ c = s₀ + (k₀ + 1)) ∧
    σ.AsksFor n c (t₀ + (k₀ + 1)) s t ∧ σ.Passes notBusy s t k ∧ e = s + k

/-- Each of `n` sectors goes out after a reading of its own that shows DRQ, and no BSY
and no ERR, between readings `s` and `s'`. -/
structure InTurn (n s s' : Nat) (seen : Nat → Nat) : Prop where
  asked : ∀ k < n, s < seen k ∧ seen k ≤ s' ∧ σ.status (seen k - 1) &&& 0x89 = 0x08
  ordered : ∀ k, k + 1 < n → seen k < seen (k + 1)

variable {σ}

theorem AsksFor.unique : ∀ {n s t s₁ t₁ s₂ t₂ : Nat}, σ.AsksFor n s t s₁ t₁ →
    σ.AsksFor n s t s₂ t₂ → s₁ = s₂ ∧ t₁ = t₂
  | 0, _, _, _, _, _, _ => fun h₁ h₂ => ⟨h₁.1.trans h₂.1.symm, h₁.2.trans h₂.2.symm⟩
  | n + 1, s, t, s₁, t₁, s₂, t₂ => by
      rintro ⟨k, hk, h₁⟩ ⟨k', hk', h₂⟩
      obtain rfl := hk.unique hk'
      exact AsksFor.unique h₁ h₂

theorem AsksFor.le : ∀ {n s t s' t' : Nat}, σ.AsksFor n s t s' t' → s ≤ s'
  | 0, _, _, _, _ => fun h => Nat.le_of_eq h.1.symm
  | n + 1, s, t, s', t' => by
      rintro ⟨k, -, hrest⟩
      have hle := AsksFor.le hrest
      omega

/-- A drive that asks for them all shows no ERR while it does. -/
theorem AsksFor.noErr : ∀ {n s t s' t' : Nat}, σ.AsksFor n s t s' t' →
    ∀ i, s ≤ i → i < s' → σ.status i &&& 0x01 = 0
  | 0, _, _, _, _ => fun h i hs hs' => by have heq := h.1; omega
  | n + 1, s, t, s', t' => by
      rintro ⟨k, ⟨hgo, hpass⟩, hrest⟩ i hs hs'
      rcases Nat.lt_trichotomy i (s + k) with hlt | rfl | hgt
      · obtain ⟨d, rfl⟩ := Nat.exists_eq_add_of_le hs
        refine dataRequested_noErr ?_
        rw [(hgo d (by omega)).1]
        exact nofun
      · refine dataRequested_noErr ?_
        rw [hpass]
        exact fun h => by cases h
      · exact AsksFor.noErr hrest i (by omega) hs'

theorem InTurn.cons {n s c s' : Nat} {seen : Nat → Nat} (h : σ.InTurn n c s' seen) (hs : s < c)
    (hc : c ≤ s') (hst : σ.status (c - 1) &&& 0x89 = 0x08) :
    σ.InTurn (n + 1) s s' (seenFrom c seen) where
  asked := by
    intro k hk
    cases k with
    | zero => exact ⟨hs, hc, hst⟩
    | succ k =>
        obtain ⟨hlo, hhi, hready⟩ := h.asked k (Nat.lt_of_succ_lt_succ hk)
        exact ⟨Nat.lt_trans hs hlo, hhi, hready⟩
  ordered := by
    intro k hk
    cases k with
    | zero => exact (h.asked 0 (Nat.lt_of_succ_lt_succ hk)).1
    | succ k => exact h.ordered k (Nat.lt_of_succ_lt_succ hk)

theorem ComesThrough.unique {n s₀ t₀ c s e c' s' e' : Nat} (h : σ.ComesThrough n s₀ t₀ c s e)
    (h' : σ.ComesThrough n s₀ t₀ c' s' e') : c = c' ∧ s = s' ∧ e = e' := by
  obtain ⟨k₀, t, k, ⟨hk₀, rfl⟩, hask, hk, rfl⟩ := h
  obtain ⟨k₀', t', k', ⟨hk₀', rfl⟩, hask', hk', rfl⟩ := h'
  obtain rfl := hk₀.unique hk₀'
  obtain ⟨rfl, rfl⟩ := hask.unique hask'
  obtain rfl := hk.unique hk'
  exact ⟨rfl, rfl, rfl⟩

/-- **What a write does not look at**: DF all the way, and ERR at the end. -/
theorem ComesThrough.clean_iff {n s₀ t₀ c s e : Nat} (h : σ.ComesThrough n s₀ t₀ c s e) :
    (∀ i, c ≤ i → i ≤ e → σ.status i &&& 0x80 = 0 → σ.status i &&& 0x21 = 0) ↔
      (∀ i, c ≤ i → i ≤ e → σ.status i &&& 0x80 = 0 → σ.status i &&& 0x20 = 0) ∧
        σ.status e &&& 0x01 = 0 := by
  obtain ⟨k₀, t, k, -, hask, ⟨hgo, hend⟩, rfl⟩ := h
  have hcs := hask.le
  constructor
  · intro hclean
    refine ⟨fun i hc he hb => (flags_clear_iff.mp (hclean i hc he hb)).1, ?_⟩
    exact (flags_clear_iff.mp (hclean (s + k) (by omega) (Nat.le_refl _) (notBusy_true hend))).2
  · rintro ⟨hdf, herr⟩ i hc he hb
    refine flags_clear_iff.mpr ⟨hdf i hc he hb, ?_⟩
    rcases Nat.lt_or_ge i s with hlt | hge
    · exact hask.noErr i hc hlt
    · obtain ⟨d, rfl⟩ := Nat.exists_eq_add_of_le hge
      rcases Nat.lt_or_ge d k with hdk | hdk
      · exact absurd hb (notBusy_none (hgo d hdk).1)
      · obtain rfl : d = k := by omega
        exact herr

end Shown

/-! ### The write -/

section Write

variable {fuel patience : Nat}

/-- The sector loop: it gets through when the drive asks for every sector, and then
each has gone out in turn. -/
theorem writeSectors_outs (hf : patience < fuel) (seg : Word) :
    ∀ (n : Nat) (off : Word) (h : Host Script), h.bus.shown.Patient patience →
      ∃ ok h', Runs (writeSectors fuel seg n off) h ok h' ∧
        (ok = true ↔ ∃ s t, h.bus.shown.AsksFor n h.bus.reads h.bus.ticks s t) ∧
        (∀ s t, h.bus.shown.AsksFor n h.bus.reads h.bus.ticks s t →
          ∃ seen, h.bus.shown.InTurn n h.bus.reads s seen ∧
            h'.bus = { h.bus with
              reads := s, ticks := t
              outs := h.bus.outs ++ (List.range n).flatMap (sectorOuts h.mem seg off seen) }) := by
  intro n
  induction n with
  | zero =>
      intro off h _
      refine ⟨true, h, runs_pure.mpr ⟨rfl, rfl⟩, ⟨fun _ => ⟨_, _, rfl, rfl⟩, fun _ => rfl⟩, ?_⟩
      rintro s t ⟨rfl, rfl⟩
      refine ⟨id, ⟨fun k hk => absurd hk (Nat.not_lt_zero k), fun k hk => ?_⟩, by simp⟩
      exact absurd hk (Nat.not_lt_zero _)
  | succ n ih =>
      intro off h hp
      obtain ⟨zf, h₁, hwait, hzf, hat⟩ := runs_wait dataRequested h hp hf
      cases zf with
      | false =>
          have hno : ∀ k, ¬ h.bus.shown.Passes dataRequested h.bus.reads h.bus.ticks k :=
            fun k hk => Bool.false_ne_true (hzf.mpr ⟨k, hk⟩)
          refine ⟨false, h₁, hwait.bind (runs_pure.mpr ⟨rfl, rfl⟩), ?_, ?_⟩
          · constructor
            · intro hyes
              cases hyes
            · rintro ⟨s, t, k, hk, -⟩
              exact absurd hk (hno k)
          · rintro s t ⟨k, hk, -⟩
            exact absurd hk (hno k)
      | true =>
          obtain ⟨k, hk⟩ := hzf.mp rfl
          have hh₁ := hat k hk
          obtain ⟨h₂, hdata, hmem₂, hbus₂⟩ := writeDataLoop_outs seg 512 off h₁
          have hshown₂ : h₂.bus.shown = h.bus.shown := by rw [hbus₂, hh₁]; rfl
          have hreads₂ : h₂.bus.reads = h.bus.reads + (k + 1) := by rw [hbus₂, hh₁]; rfl
          have hticks₂ : h₂.bus.ticks = h.bus.ticks + (k + 1) := by rw [hbus₂, hh₁]; rfl
          obtain ⟨ok, h', hrest, hok, hout⟩ :=
            ih (off + BitVec.ofNat 16 512) h₂ (by rw [hshown₂]; exact hp)
          rw [hshown₂, hreads₂, hticks₂] at hok hout
          refine ⟨ok, h', hwait.bind (hdata.bind hrest), ?_, ?_⟩
          · rw [hok]
            constructor
            · rintro ⟨s, t, hask⟩
              exact ⟨s, t, k, hk, hask⟩
            · rintro ⟨s, t, k', hk', hask⟩
              obtain rfl := hk.unique hk'
              exact ⟨s, t, hask⟩
          · rintro s t ⟨k', hk', hask⟩
            obtain rfl := hk.unique hk'
            obtain ⟨seen, hturn, hbus'⟩ := hout s t hask
            refine ⟨seenFrom (h.bus.reads + (k + 1)) seen, hturn.cons ?_ hask.le ?_, ?_⟩
            · omega
            · exact dataRequested_true hk.2
            · have hmem : h₂.mem = h.mem := by rw [hmem₂, hh₁]; rfl
              rw [hbus', hmem, sectorOuts_seenFrom, hbus₂, hh₁]
              simp [Host.waited, sectorData]

/-- The task file as a write of `count` sectors fills it, `c` status readings in, and the
command. -/
def setupOuts (al : Byte) (lba : DWord) (count : Byte) (c : Nat) : List Out :=
  [⟨IDEDRV, (0x10 &&& al) ||| ((lba.extractLsb' 24 8 &&& 0x0F) ||| 0xE0), c⟩,
    ⟨IDELBAH, lba.extractLsb' 16 8, c⟩, ⟨IDELBAM, lba.extractLsb' 8 8, c⟩,
    ⟨IDELBAL, lba.extractLsb' 0 8, c⟩, ⟨IDESECC, count, c⟩, ⟨IDESTTS, IDE_CMD_PIO_WRITE, c⟩]

/-- What the drive was sent tells when. -/
theorem setupOuts_inj {al : Byte} {lba : DWord} {count : Byte} {c c' : Nat} {l m m' : List Out}
    (h : l ++ setupOuts al lba count c ++ m = l ++ setupOuts al lba count c' ++ m') : c = c' := by
  rw [List.append_assoc, List.append_assoc] at h
  have hsetup := (List.append_inj (List.append_cancel_left h) rfl).1
  have hfirst := congrArg (fun l => l.head?.map Out.seen) hsetup
  simpa [setupOuts] using hfirst

theorem runs_setup (al : Byte) (lba : DWord) (count : Byte) (h : Host Script) :
    Runs (do wrLba lba al count; outPort IDESTTS IDE_CMD_PIO_WRITE) h ()
      { h with bus := { h.bus with outs := h.bus.outs ++ setupOuts al lba count h.bus.reads } } := by
  simp only [wrLba, outPort, bind_assoc, runs_bind, runs_modify, exists_const, exists_eq_left]
  simp [IdeBus.outb, setupOuts]

theorem runs_ideErrorCode (h : Host Script) :
    ∃ bl h', Runs ideErrorCode h bl h' ∧ bl ≠ 0 := by
  let h₁ : Host Script := { h with bus := { h.bus with reads := h.bus.reads + 1 } }
  have hst : Runs (inPort IDESTTS) h (h.bus.shown.status h.bus.reads) h₁ :=
    runs_modifyGet.mpr ⟨rfl, rfl⟩
  by_cases hbusy : h.bus.shown.status h.bus.reads &&& 0x80 ≠ 0
  · refine ⟨TIME_OUT, h₁, hst.bind ?_, by decide⟩
    rw [if_pos hbusy]
    exact runs_pure.mpr ⟨rfl, rfl⟩
  by_cases herr : h.bus.shown.status h.bus.reads &&& 0x01 = 0
  · refine ⟨TIME_OUT, h₁, hst.bind ?_, by decide⟩
    rw [if_neg hbusy, if_pos herr]
    exact runs_pure.mpr ⟨rfl, rfl⟩
  by_cases hdf : h.bus.shown.status h.bus.reads &&& 0x20 ≠ 0
  · refine ⟨WRITE_FAULT, h₁, hst.bind ?_, by decide⟩
    rw [if_neg hbusy, if_neg herr, if_pos hdf]
    exact runs_pure.mpr ⟨rfl, rfl⟩
  · refine ⟨decodeError (h.bus.shown.error h.bus.errs),
      { h₁ with bus := { h₁.bus with errs := h.bus.errs + 1 } }, hst.bind ?_, decodeError_ne_zero _⟩
    rw [if_neg hbusy, if_neg herr, if_neg hdf]
    exact Runs.bind (runs_modifyGet.mpr ⟨rfl, rfl⟩) (runs_pure.mpr ⟨rfl, rfl⟩)

/-- A routine that gives up returns a code. -/
theorem runs_ideError (h : Host Script) : ∃ ax h', Runs ideError h ax h' ∧ ax ≠ 0 := by
  obtain ⟨bl, h₁, hrun, hbl⟩ := runs_ideErrorCode h
  refine ⟨bl.setWidth 16, { h₁ with hdStatus := bl }, hrun.bind (Runs.bind (a := ())
    (runs_modify.mpr rfl) (runs_pure.mpr ⟨rfl, rfl⟩)), ?_⟩
  intro h0
  apply hbl
  have hlow := congrArg (BitVec.setWidth 8) h0
  simpa using hlow

variable {h : Host Script} {al : Byte} {seg off : Word} {lba : DWord} {nsectors : Word}

/-- The host once the command has been sent. -/
def Host.commanded (h : Host Script) (al : Byte) (lba : DWord) (count : Byte) (k : Nat) :
    Host Script :=
  { h.waited k with bus := { (h.waited k).bus with
      outs := h.bus.outs ++ setupOuts al lba count (h.bus.reads + (k + 1)) } }

/-- The way to the sector loop. -/
theorem runs_toSectors {k : Nat} {h' : Host Script} {ax : Word}
    (hn : (nsectors.setWidth 8 : Byte) ≠ 0)
    (hwait : Runs (ideWaitNotBusy fuel) h true (h.waited k))
    (hrest : Runs (do
        if ← writeSectors fuel seg (nsectors.setWidth 8 : Byte).toNat off then
          if ← ideWaitNotBusy fuel then pure 0 else ideError
        else ideError) (h.commanded al lba (nsectors.setWidth 8) k) ax h') :
    Runs (ideWriteSector fuel al seg off lba nsectors) h ax h' := by
  obtain ⟨u, h₁, hlba, hcmd⟩ := runs_bind.mp (runs_setup al lba (nsectors.setWidth 8) (h.waited k))
  unfold ideWriteSector
  simp only [hn, if_false]
  refine hwait.bind ?_
  rw [if_pos rfl]
  exact hlba.bind (hcmd.bind hrest)

/-- A drive that comes through every wait has been sent the command and each sector in
turn, and the write succeeds. -/
theorem ideWriteSector_comes (al : Byte) (seg off : Word) (lba : DWord) (hf : patience < fuel) (hp : h.bus.shown.Patient patience)
    (hn : (nsectors.setWidth 8 : Byte) ≠ 0) {c s e : Nat}
    (hc : h.bus.shown.ComesThrough (nsectors.setWidth 8 : Byte).toNat h.bus.reads h.bus.ticks c s e) :
    ∃ h' seen, Runs (ideWriteSector fuel al seg off lba nsectors) h 0 h' ∧
      h.bus.shown.InTurn (nsectors.setWidth 8 : Byte).toNat c s seen ∧ s ≤ e ∧
      h'.bus.reads = e + 1 ∧
      h'.bus.outs = h.bus.outs ++ setupOuts al lba (nsectors.setWidth 8) c ++
        (List.range (nsectors.setWidth 8 : Byte).toNat).flatMap (sectorOuts h.mem seg off seen) := by
  obtain ⟨k₀, t, k, ⟨hk₀, rfl⟩, hask, hk, rfl⟩ := hc
  obtain ⟨zf₀, h₀, hwait₀, hzf₀, hat₀⟩ := runs_wait notBusy h hp hf
  obtain rfl : zf₀ = true := hzf₀.mpr ⟨k₀, hk₀⟩
  obtain rfl := hat₀ k₀ hk₀
  obtain ⟨ok, h₂, hsec, hok, hout⟩ := writeSectors_outs hf seg (nsectors.setWidth 8 : Byte).toNat off
    (h.commanded al lba (nsectors.setWidth 8) k₀) hp
  obtain rfl : ok = true := hok.mpr ⟨s, t, hask⟩
  obtain ⟨seen, hturn, hbus₂⟩ := hout s t hask
  have hshown₂ : h₂.bus.shown = h.bus.shown := by rw [hbus₂]; rfl
  have hreads₂ : h₂.bus.reads = s := by rw [hbus₂]
  have hticks₂ : h₂.bus.ticks = t := by rw [hbus₂]
  obtain ⟨zf, h₃, hwait, hzf, hat⟩ := runs_wait notBusy h₂ (by rw [hshown₂]; exact hp) hf
  rw [hshown₂, hreads₂, hticks₂] at hzf hat
  obtain rfl : zf = true := hzf.mpr ⟨k, hk⟩
  obtain rfl := hat k hk
  refine ⟨h₂.waited k, seen, runs_toSectors hn hwait₀ (hsec.bind ?_), hturn, by omega, ?_, ?_⟩
  · rw [if_pos rfl]
    exact hwait.bind (runs_pure.mpr ⟨rfl, rfl⟩)
  · rw [Host.waited, hreads₂]
    rfl
  · rw [Host.waited, hbus₂]
    rfl

/-- One that does not come through makes the write fail. -/
theorem ideWriteSector_fails (hf : patience < fuel) (hp : h.bus.shown.Patient patience)
    (hn : (nsectors.setWidth 8 : Byte) ≠ 0)
    (hno : ∀ c s e, ¬ h.bus.shown.ComesThrough (nsectors.setWidth 8 : Byte).toNat h.bus.reads
      h.bus.ticks c s e) :
    ∃ ax h', Runs (ideWriteSector fuel al seg off lba nsectors) h ax h' ∧ ax ≠ 0 := by
  obtain ⟨zf₀, h₀, hwait₀, hzf₀, hat₀⟩ := runs_wait notBusy h hp hf
  cases zf₀ with
  | false =>
      obtain ⟨ax, h', herr, hax⟩ := runs_ideError h₀
      refine ⟨ax, h', ?_, hax⟩
      unfold ideWriteSector
      simp only [hn, if_false]
      exact hwait₀.bind herr
  | true =>
      obtain ⟨k₀, hk₀⟩ := hzf₀.mp rfl
      obtain rfl := hat₀ k₀ hk₀
      obtain ⟨ok, h₂, hsec, hok, hout⟩ := writeSectors_outs hf seg
        (nsectors.setWidth 8 : Byte).toNat off (h.commanded al lba (nsectors.setWidth 8) k₀) hp
      cases ok with
      | false =>
          obtain ⟨ax, h', herr, hax⟩ := runs_ideError h₂
          exact ⟨ax, h', runs_toSectors hn hwait₀ (hsec.bind herr), hax⟩
      | true =>
          obtain ⟨s, t, hask⟩ := hok.mp rfl
          obtain ⟨seen, -, hbus₂⟩ := hout s t hask
          have hshown₂ : h₂.bus.shown = h.bus.shown := by rw [hbus₂]; rfl
          have hreads₂ : h₂.bus.reads = s := by rw [hbus₂]
          have hticks₂ : h₂.bus.ticks = t := by rw [hbus₂]
          obtain ⟨zf, h₃, hwait, hzf, -⟩ := runs_wait notBusy h₂ (by rw [hshown₂]; exact hp) hf
          rw [hshown₂, hreads₂, hticks₂] at hzf
          cases zf with
          | false =>
              obtain ⟨ax, h', herr, hax⟩ := runs_ideError h₃
              refine ⟨ax, h', runs_toSectors hn hwait₀ (hsec.bind ?_), hax⟩
              rw [if_pos rfl]
              exact hwait.bind herr
          | true =>
              obtain ⟨k, hk⟩ := hzf.mp rfl
              exact absurd ⟨k₀, t, k, ⟨hk₀, rfl⟩, hask, hk, rfl⟩ (hno _ s (s + k))

/-! ### The promise -/

/-- The drive took `n` sectors from `seg:off`: the command after `c` status readings, then
sector by sector as it asked for them; and from the command to the end it showed
neither ERR nor DF. While BSY is set the other bits mean nothing. -/
structure Honoured (h h' : Host Script) (al : Byte) (seg off : Word) (lba : DWord) (count : Byte)
    (c : Nat) (seen : Nat → Nat) : Prop where
  sent : h'.bus.outs = h.bus.outs ++ setupOuts al lba count c ++
    (List.range count.toNat).flatMap (sectorOuts h.mem seg off seen)
  inTurn : h.bus.shown.InTurn count.toNat c h'.bus.reads seen
  clean : ∀ i, c ≤ i → i < h'.bus.reads → h.bus.shown.status i &&& 0x80 = 0 →
    h.bus.shown.status i &&& 0x21 = 0

/-- Success means that. Of no sectors there is nothing to take. -/
def WriteHonest (h h' : Host Script) (ax : Word) (al : Byte) (seg off : Word) (lba : DWord)
    (count : Byte) : Prop :=
  ax = 0 → count = 0 ∨ ∃ c seen, Honoured h h' al seg off lba count c seen

/-- If the drive comes through every wait of the write, it does so without DF in any status
it shows out of BSY, and without ERR in the one that ends the last wait. -/
def Shown.Unflagged (σ : Shown) (n s t : Nat) : Prop :=
  ∀ c s' e, σ.ComesThrough n s t c s' e →
    (∀ i, c ≤ i → i ≤ e → σ.status i &&& 0x80 = 0 → σ.status i &&& 0x20 = 0) ∧
      σ.status e &&& 0x01 = 0

/-- **A write that succeeds was honoured, for exactly the drives that are `Unflagged`.** -/
theorem ideWriteSector_honest_iff (hf : patience < fuel) (al : Byte) (seg off : Word) (lba : DWord)
    (nsectors : Word) (h : Host Script) (hp : h.bus.shown.Patient patience) :
    let count : Byte := nsectors.setWidth 8
    ∃ ax h', Runs (ideWriteSector fuel al seg off lba nsectors) h ax h' ∧
      (WriteHonest h h' ax al seg off lba count ↔
        (count ≠ 0 → h.bus.shown.Unflagged count.toNat h.bus.reads h.bus.ticks)) := by
  intro count
  by_cases hn : count = 0
  · refine ⟨0, h, ?_, ⟨fun _ hne => absurd hn hne, fun _ _ => Or.inl hn⟩⟩
    have hzero : (nsectors.setWidth 8 : Byte) = 0 := hn
    unfold ideWriteSector
    simp only [hzero, if_true]
    exact runs_pure.mpr ⟨rfl, rfl⟩
  by_cases hall : ∃ c s e, h.bus.shown.ComesThrough count.toNat h.bus.reads h.bus.ticks c s e
  · obtain ⟨c, s, e, hc⟩ := hall
    obtain ⟨h', seen, hrun, hturn, hse, hreads, houts⟩ :=
      ideWriteSector_comes al seg off lba hf hp hn hc
    refine ⟨0, h', hrun, ?_⟩
    constructor
    · intro hhonest _ c' s' e' hc'
      obtain ⟨rfl, rfl, rfl⟩ := hc.unique hc'
      rcases hhonest rfl with h0 | ⟨c', seen', hhon⟩
      · exact absurd h0 hn
      · obtain rfl : c' = c := setupOuts_inj (hhon.sent.symm.trans houts)
        exact hc.clean_iff.mp fun i hi he => hhon.clean i hi (by omega)
    · intro hun _
      refine Or.inr ⟨c, seen, houts, ?_, ?_⟩
      · refine ⟨fun k hk => ?_, hturn.ordered⟩
        obtain ⟨hlo, hhi, hst⟩ := hturn.asked k hk
        exact ⟨hlo, by omega, hst⟩
      · intro i hi hlt
        exact hc.clean_iff.mpr (hun hn c s e hc) i hi (by omega)
  · have hno : ∀ c s e, ¬ h.bus.shown.ComesThrough count.toNat h.bus.reads h.bus.ticks c s e :=
      fun c s e hc => hall ⟨c, s, e, hc⟩
    obtain ⟨ax, h', hrun, hax⟩ := ideWriteSector_fails hf hp hn hno
    refine ⟨ax, h', hrun, fun _ _ c s e hc => absurd hc (hno c s e), fun _ h0 => absurd h0 hax⟩

end Write

/-! ### On the bench -/

/-- A clock that goes on by one at every reading, and a drive that shows `sts`, then `last`
for good. -/
def Shown.bench (sts : List Byte) (last : Byte) : Shown where
  status := fun i => sts.getD i last
  error := fun _ => 0
  clk := BitVec.ofNat 16

theorem Shown.bench_patient (sts : List Byte) (last : Byte) : (Shown.bench sts last).Patient 89 := by
  intro t
  refine ⟨89, Nat.le_refl _, ?_⟩
  have hdiff : BitVec.ofNat 16 (t + (89 + 1)) - BitVec.ofNat 16 t = (90 : Word) := by
    rw [BitVec.ofNat_add, BitVec.add_comm, BitVec.add_sub_cancel]
    rfl
  show ¬ BitVec.ofNat 16 (t + (89 + 1)) - BitVec.ofNat 16 t < IDE_TIMEOUT
  rw [hdiff]
  decide

/-- Blank memory in front of that drive. -/
def Host.scripted (σ : Shown) : Host Script := ⟨⟨σ, 0, 0, 0, []⟩, fun _ => 0, 0, []⟩

theorem ideWriteSector_honest_bench :
    ∃ ax h', Runs (ideWriteSector 90 0 0x1000 0 0 1) (Host.scripted (.bench [0x50, 0x58] 0x50)) ax h' ∧
      (WriteHonest (Host.scripted (.bench [0x50, 0x58] 0x50)) h' ax 0 0x1000 0 0 1 ↔
        ((1 : Byte) ≠ 0 → (Shown.bench [0x50, 0x58] 0x50).Unflagged 1 0 0)) :=
  ideWriteSector_honest_iff (by decide) 0 0x1000 0 0 1 _ (Shown.bench_patient [0x50, 0x58] 0x50)

/-- One sector, and ERR as the drive comes out of BSY with it: success. -/
theorem ideWriteSector_dishonest :
    ∃ h', Runs (ideWriteSector 90 0 0x1000 0 0 1) (Host.scripted (.bench [0x50, 0x58] 0x51)) 0 h' ∧
      ¬ WriteHonest (Host.scripted (.bench [0x50, 0x58] 0x51)) h' 0 0 0x1000 0 0 1 := by
  have hnow : ∀ {judge s t}, judge ((Shown.bench [0x50, 0x58] 0x51).status s) = some true →
      (Shown.bench [0x50, 0x58] 0x51).Passes judge s t 0 :=
    fun hj => ⟨fun i hi => absurd hi (Nat.not_lt_zero i), hj⟩
  have hc : (Shown.bench [0x50, 0x58] 0x51).ComesThrough 1 0 0 1 2 2 :=
    ⟨0, 2, 0, ⟨hnow (by decide), rfl⟩, ⟨0, hnow (by decide), rfl, rfl⟩, hnow (by decide), rfl⟩
  have hone : ((1 : Word).setWidth 8 : Byte) ≠ 0 := by decide
  have hf : 89 < 90 := by decide
  obtain ⟨h', seen, hrun, -, -, hreads, houts⟩ := ideWriteSector_comes 0 0x1000 0 0
    (h := Host.scripted (.bench [0x50, 0x58] 0x51)) hf (Shown.bench_patient _ _) hone hc
  refine ⟨h', hrun, ?_⟩
  intro hhonest
  rcases hhonest rfl with h0 | ⟨c, seen', hhon⟩
  · exact absurd h0 (by decide)
  · obtain rfl : c = 1 := setupOuts_inj (hhon.sent.symm.trans houts)
    exact absurd (hhon.clean 2 (by decide) (by omega) (by decide)) (by decide)

end Sbc386Ex.Ide

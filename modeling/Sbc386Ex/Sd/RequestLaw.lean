import Sbc386Ex.Sd.Request

/-!
# Sbc386Ex.Sd.RequestLaw

The law of READ and WRITE, and when `SD.SYS` keeps it. Its bounds check is right: it is
made in the request's own numbers before the partition offset is added. What can wrap are
the sum with the offset (and, on a byte-addressed card, the shift of it), and the segment
of the transfer address, which is normalised into sixteen bits and stepped there.
-/

namespace Sbc386Ex.Sd.SdSys

open Prog

/-- The sectors a request asks for. -/
def Req.span (q : Req) : Nat := q.startSector.toNat + q.count.toNat

/-- The card's sectors a command can name. -/
def Drv.nameable (d : Drv) : Nat := if d.ccs then 2 ^ 32 else 2 ^ 23

/-- What a READ or WRITE promises: nothing at all, with an error, or the sectors from the
partition offset and the start on, in order and inside the volume, each exchanged with the
next 512 bytes from the transfer address on, and their number in the packet. -/
structure RequestLaw (q : Req) (s : Sys Drv) (q' : Req) (s' : Sys Drv) : Prop where
  kept : ∃ es, s'.log = s.log ++ es ∧
    s'.mem = (if q.cmd = 4 then copiedOut es s.mem else s.mem) ∧
    (es = [] ∧ q'.count = 0 ∧ q'.status ≠ ST_DONE ∨
      (∀ k < q.count.toNat, s.drv.poff.toNat ≤ s.drv.poff.toNat + q.startSector.toNat + k ∧
        s.drv.poff.toNat + q.startSector.toNat + k < s.drv.poff.toNat + s.drv.vsize.toNat) ∧
      Served s.mem (q.cmd ≠ 4) (q.cmd = 9) (fun k => s.drv.poff.toNat + q.startSector.toNat + k)
        (fun k => List.range' (linear q.addrSeg q.addrOff + 512 * k) 512) 0 q.count.toNat
        q'.count.toNat es)

/-! ### What the driver does -/

section Driver

variable {q : Req} {s s' : Sys Drv}

/-- The two tests of `getio` are one comparison of numbers. -/
theorem inRange_taken (d : Drv) : d.taken.inRange = true ↔ d.req.span ≤ d.vsize.toNat := by
  have hc := d.req.count.isLt
  have hv := d.vsize.isLt
  have hsum : (d.req.count.setWidth 32 + d.req.startSector).toNat =
      (d.req.count.toNat + d.req.startSector.toNat) % 2 ^ 32 := by
    rw [BitVec.toNat_add, BitVec.toNat_setWidth]
    omega
  rw [Drv.inRange, decide_eq_true_iff, BitVec.le_def]
  show d.req.count.toNat + d.req.startSector.toNat < _ ∧
    (d.req.count.setWidth 32 + d.req.startSector).toNat ≤ d.vsize.toNat ↔ _
  rw [hsum, Req.span]
  omega

theorem errorStatus_ne (e : Word) : errorStatus e ≠ ST_DONE := by
  intro h
  have hbit := congrArg (fun v : Word => v.getLsbD 15) h
  simp only [errorStatus, ST_DONE, ST_ERROR, BitVec.getLsbD_or] at hbit
  revert hbit
  cases e.getLsbD 15 <;> decide

theorem taken_atSector (d : Drv) : AtSector d d.req 0 d.taken where
  poff := rfl
  ccs := rfl
  verify := rfl
  lba := (BitVec.add_zero _).symm
  off := rfl
  seg := (BitVec.add_zero _).symm
  done := rfl

/-- A request refused: nothing was done, and the packet says so. -/
structure Refused (s s' : Sys Drv) : Prop where
  log : s'.log = s.log
  mem : s'.mem = s.mem
  count : s'.drv.req.count = 0
  status : s'.drv.status ≠ ST_DONE

theorem notReady_spec {r : Bool} (h : Runs notReady s r s') :
    r = false ∧ s'.log = s.log ∧ s'.mem = s.mem ∧ s'.drv.req = s.drv.req ∧ s'.drv.status ≠ ST_DONE := by
  obtain ⟨u, t, hgone, hrest⟩ := runs_bind.mp h
  obtain rfl := runs_setDrv hgone
  obtain ⟨u, t, hstat, hpure⟩ := runs_bind.mp hrest
  obtain rfl := runs_setDrv hstat
  obtain ⟨rfl, rfl⟩ := runs_pure.mp hpure
  exact ⟨rfl, rfl, rfl, rfl, errorStatus_ne _⟩

/-- `getio`: the request is in the driver's variables, or it is refused, because the card is
out or has been or because the range runs off the end. -/
theorem getio_spec {r : Bool} (h : Runs getio s r s') :
    (r = true ∧ s.drv.gone = false ∧ s.drv.req.span ≤ s.drv.vsize.toNat ∧
        s' = { s.looked with drv := s.drv.taken }) ∨
      (r = false ∧ Refused s s' ∧ (s.looked.socket.card.isSome = true → s.drv.gone = false →
        s.drv.vsize.toNat < s.drv.req.span)) := by
  obtain ⟨u, t, hset, hrest⟩ := runs_bind.mp h
  obtain rfl := runs_setDrv hset
  obtain ⟨isin, t, hcard, hrest⟩ := runs_bind.mp hrest
  obtain ⟨rfl, rfl⟩ := runs_cardIn hcard
  rcases runs_ite.mp hrest with ⟨hout, hrest⟩ | ⟨hin, hrest⟩
  · obtain ⟨rfl, hlog, hmem, hreq, hstat⟩ := notReady_spec hrest
    refine Or.inr ⟨rfl, ⟨hlog, hmem, ?_, hstat⟩, ?_⟩
    · rw [hreq]
      rfl
    · intro hcard
      have hnone : s.looked.socket.card.isSome = false := Bool.not_eq_true' _ ▸ hout
      rw [hnone] at hcard
      cases hcard
  obtain ⟨d, t, hdrv, hrest⟩ := runs_bind.mp hrest
  obtain ⟨rfl, rfl⟩ := runs_getDrv hdrv
  rcases runs_ite.mp hrest with ⟨hgone, hrest⟩ | ⟨hgone, hrest⟩
  · obtain ⟨rfl, hlog, hmem, hreq, hstat⟩ := notReady_spec hrest
    refine Or.inr ⟨rfl, ⟨hlog, hmem, ?_, hstat⟩, ?_⟩
    · rw [hreq]
      rfl
    · intro _ hnot
      have hset : s.drv.gone = true := hgone
      rw [hset] at hnot
      cases hnot
  have hnot : s.drv.gone = false := Bool.eq_false_iff.mpr hgone
  rcases runs_ite.mp hrest with ⟨hrange, hrest⟩ | ⟨hrange, hrest⟩
  · obtain ⟨rfl, rfl⟩ := runs_pure.mp hrest
    exact Or.inl ⟨rfl, hnot, (inRange_taken s.drv).mp hrange, rfl⟩
  · obtain ⟨u₁, t₁, hset, hpure⟩ := runs_bind.mp hrest
    obtain rfl := runs_setDrv hset
    obtain ⟨rfl, rfl⟩ := runs_pure.mp hpure
    refine Or.inr ⟨rfl, ⟨rfl, rfl, rfl, errorStatus_ne _⟩, ?_⟩
    intro _ _
    exact Nat.lt_of_not_le fun hle => hrange ((inRange_taken s.drv).mpr hle)

/-- A request carried out, as far as the card goes: the sectors and addresses are the ones
the driver steps through. -/
structure Stepped (w v : Bool) (s s' : Sys Drv) : Prop where
  gone : s.drv.gone = false
  range : s.drv.req.span ≤ s.drv.vsize.toNat
  served : ∃ m es, s'.log = s.log ++ es ∧ s'.mem = (if w then s.mem else copiedOut es s.mem) ∧
    s'.drv.req.count = BitVec.ofNat 16 m ∧
    Served s.mem w v (s.drv.sectorOf s.drv.req) s.drv.req.addrsOf 0 s.drv.req.count.toNat m es

/-- What `do_read` and `do_write` come to. -/
structure Outcome (w v : Bool) (s s' : Sys Drv) : Prop where
  cases : Refused s s' ∧ (s.looked.socket.card.isSome = true → s.drv.gone = false →
    s.drv.vsize.toNat < s.drv.req.span) ∨ Stepped w v s s'

theorem doRead_outcome {u : Unit} (v : Bool) (h : Runs doRead s u s') : Outcome false v s s' := by
  obtain ⟨ok, t, hget, hrest⟩ := runs_bind.mp h
  rcases getio_spec hget with ⟨rfl, hgone, hrange, rfl⟩ | ⟨rfl, hrefused, hwhy⟩
  · simp only [if_true] at hrest
    obtain ⟨d, t, hdrv, hrest⟩ := runs_bind.mp hrest
    obtain ⟨rfl, rfl⟩ := runs_getDrv hdrv
    obtain ⟨m, es, hserved, hlog, hmem, hcount⟩ :=
      readLoop_spec hrest (taken_atSector s.drv) s.mem v
    rw [Nat.zero_add] at hcount
    exact ⟨.inr ⟨hgone, hrange, m, es, hlog, hmem, hcount, hserved⟩⟩
  · simp only [Bool.false_eq_true, if_false] at hrest
    obtain ⟨rfl, rfl⟩ := runs_pure.mp hrest
    exact ⟨.inl ⟨hrefused, hwhy⟩⟩

theorem doWrite_outcome {u : Unit} (h : Runs doWrite s u s') : Outcome true s.drv.verify s s' := by
  obtain ⟨ok, t, hget, hrest⟩ := runs_bind.mp h
  rcases getio_spec hget with ⟨rfl, hgone, hrange, rfl⟩ | ⟨rfl, hrefused, hwhy⟩
  · simp only [if_true] at hrest
    obtain ⟨d, t, hdrv, hrest⟩ := runs_bind.mp hrest
    obtain ⟨rfl, rfl⟩ := runs_getDrv hdrv
    obtain ⟨m, es, hserved, hlog, hmem, hcount⟩ := writeLoop_spec hrest (taken_atSector s.drv)
    rw [Nat.zero_add] at hcount
    exact ⟨.inr ⟨hgone, hrange, m, es, hlog, hmem, hcount, hserved⟩⟩
  · simp only [Bool.false_eq_true, if_false] at hrest
    obtain ⟨rfl, rfl⟩ := runs_pure.mp hrest
    exact ⟨.inl ⟨hrefused, hwhy⟩⟩

theorem writeRequest_outcome {v : Bool} {u : Unit} (h : Runs (writeRequest v) s u s') :
    Outcome true v s s' := by
  obtain ⟨u, t, hset, hwrite⟩ := runs_bind.mp h
  obtain rfl := runs_setDrv hset
  rcases (doWrite_outcome hwrite).cases with ⟨hrefused, hwhy⟩ | hstepped
  · exact ⟨.inl ⟨⟨hrefused.log, hrefused.mem, hrefused.count, hrefused.status⟩, hwhy⟩⟩
  · exact ⟨.inr ⟨hstepped.gone, hstepped.range, hstepped.served⟩⟩

/-- The driver's data as a request finds it. -/
def Drv.asked (d : Drv) (q : Req) : Drv := { d with req := q, status := ST_DONE }

/-- A request goes to its routine, and the packet gets the status. -/
theorem runs_interrupt {q' : Req} (h : Runs (interrupt q) s q' s') :
    ∃ t, Runs (dispatch q.cmd) { s with drv := s.drv.asked q } () t ∧
      q' = { t.drv.req with status := t.drv.status } ∧
      s' = { t with drv.req := { t.drv.req with status := t.drv.status } } := by
  obtain ⟨u, t, hset, hrest⟩ := runs_bind.mp h
  obtain rfl := runs_setDrv hset
  obtain ⟨u, t, hgo, hrest⟩ := runs_bind.mp hrest
  obtain ⟨u, t', hstat, hrest⟩ := runs_bind.mp hrest
  obtain rfl := runs_setDrv hstat
  obtain ⟨d, t', hdrv, hpure⟩ := runs_bind.mp hrest
  obtain ⟨rfl, rfl⟩ := runs_getDrv hdrv
  obtain ⟨rfl, rfl⟩ := runs_pure.mp hpure
  exact ⟨t, hgo, rfl, rfl⟩

/-- What a READ or WRITE request comes to. -/
theorem dispatch_transfer {cmd : Byte} {u : Unit} (hcmd : cmd = 4 ∨ cmd = 8 ∨ cmd = 9)
    (h : Runs (dispatch cmd) s u s') : Outcome (cmd ≠ 4) (cmd = 9) s s' := by
  rcases hcmd with rfl | rfl | rfl
  · exact doRead_outcome _ h
  · exact writeRequest_outcome h
  · exact writeRequest_outcome h

end Driver

/-! ### Where the sums wrap -/

section Wrap

variable {d : Drv} {q : Req} {k : Nat}

/-- The sector asked for is the one of the volume just when the card can be asked for it. -/
theorem sectorOf_eq_iff (hin : q.startSector.toNat + k < 2 ^ 32) :
    d.sectorOf q k = d.poff.toNat + q.startSector.toNat + k ↔
      d.poff.toNat + q.startSector.toNat + k < d.nameable := by
  have hsum : (q.startSector + BitVec.ofNat 32 k + d.poff).toNat =
      (d.poff.toNat + q.startSector.toNat + k) % 2 ^ 32 := by
    rw [BitVec.toNat_add, BitVec.toNat_add, BitVec.toNat_ofNat]
    omega
  rw [Drv.sectorOf, Drv.addressed, addressedBy, Drv.nameable]
  cases d.ccs with
  | true =>
      simp only [if_true, hsum]
      omega
  | false =>
      simp only [Bool.false_eq_true, if_false, BitVec.toNat_shiftLeft, hsum, Nat.shiftLeft_eq]
      omega

theorem toNat_normalised (seg off : Word) (k i : Nat) (hi : i < 512) :
    linear (seg + (off >>> 4) + BitVec.ofNat 16 (32 * k)) ((off &&& 0x0F) + BitVec.ofNat 16 i) =
      16 * ((seg.toNat + off.toNat / 16 + 32 * k) % 65536) + off.toNat % 16 + i := by
  have hand : (off &&& 0x0F).toNat = off.toNat % 16 := by
    have hmask : (off &&& 0x0F).toNat = off.toNat &&& 15 := BitVec.toNat_and _ _
    rw [hmask]
    exact Nat.and_two_pow_sub_one_eq_mod off.toNat 4
  have hshift : (off >>> 4).toNat = off.toNat / 16 := by
    rw [BitVec.toNat_ushiftRight, Nat.shiftRight_eq_div_pow]
  rw [linear, BitVec.toNat_add, BitVec.toNat_add, BitVec.toNat_add, BitVec.toNat_ofNat,
    BitVec.toNat_ofNat, hand, hshift]
  omega

/-- The addresses are the contiguous ones just when the segment has not wrapped. -/
theorem addrsOf_eq_iff :
    q.addrsOf k = List.range' (linear q.addrSeg q.addrOff + 512 * k) 512 ↔
      linear q.addrSeg q.addrOff / 16 + 32 * k < 65536 := by
  rw [Req.addrsOf, List.range'_eq_map_range, List.map_inj_left]
  constructor
  · intro hall
    have hfirst := hall 0 (List.mem_range.mpr (by decide))
    rw [toNat_normalised _ _ _ _ (by decide)] at hfirst
    rw [linear] at hfirst ⊢
    omega
  · intro hlt i hi
    have hi' := List.mem_range.mp hi
    rw [toNat_normalised _ _ _ _ hi']
    rw [linear] at hlt ⊢
    omega

end Wrap

/-! ### A card that does everything -/

/-- A card is in and up, nobody touches it, it does every command, and it reads as zeros. -/
structure Obliging (s : Sys Drv) : Prop where
  before : ∀ n, s.world.before n = []
  ok : ∀ n, (s.world.answer n).ok = true
  zeros : ∀ n i, (s.world.answer n).data i = 0
  up : s.socket.up = true

section Obliging

variable {s s' : Sys Drv}

theorem Obliging.of_eq (h : Obliging s) (hw : s'.world = s.world) (hk : s'.socket = s.socket) :
    Obliging s' := by
  refine ⟨?_, ?_, ?_, ?_⟩
  · rw [hw]; exact h.before
  · rw [hw]; exact h.ok
  · rw [hw]; exact h.zeros
  · rw [hk]; exact h.up

theorem Obliging.looked (h : Obliging s) : Obliging s.looked := by
  refine h.of_eq rfl ?_
  rw [Sys.looked, h.before]
  rfl

theorem Obliging.dataCommand {w : Bool} {n : Nat} {b : Block} {p : Bool × Block} (h : Obliging s)
    (hr : Runs (dataCommand w n b) s p s') :
    p.1 = true ∧ Obliging s' ∧ (w = false → ∀ i, p.2 i = 0) := by
  obtain ⟨d, hok, -, hdata, hworks, rfl⟩ := runs_dataCommand hr
  refine ⟨?_, h.looked.of_eq rfl rfl, ?_⟩
  · rw [hok, hworks]
    exact ⟨h.ok _, h.looked.up⟩
  · intro hw i
    rw [hdata, hw]
    exact h.zeros _ i

theorem Obliging.sdRead {ebx : DWord} {r : Bool} (h : Obliging s) (hr : Runs (sdRead ebx) s r s') :
    r = true ∧ Obliging s' ∧ ∀ i, s'.drv.secbuf i = 0 := by
  obtain ⟨d₀, s₁, hdrv, hrest⟩ := runs_bind.mp hr
  obtain ⟨rfl, rfl⟩ := runs_getDrv hdrv
  obtain ⟨p, s₂, hcmd, hrest⟩ := runs_bind.mp hrest
  obtain ⟨hok, h₂, hzeros⟩ := h.dataCommand hcmd
  obtain ⟨u, s₃, hset, hpure⟩ := runs_bind.mp hrest
  obtain rfl := runs_setDrv hset
  obtain ⟨rfl, rfl⟩ := runs_pure.mp hpure
  exact ⟨hok, h₂.of_eq rfl rfl, hzeros rfl⟩

theorem Obliging.wrSector {ebx : DWord} {r : Bool} (h : Obliging s)
    (hr : Runs (wrSector ebx) s r s') : r = true ∧ Obliging s' := by
  obtain ⟨d₀, s₁, hdrv, hrest⟩ := runs_bind.mp hr
  obtain ⟨rfl, rfl⟩ := runs_getDrv hdrv
  obtain ⟨p, s₂, hcmd, hrest⟩ := runs_bind.mp hrest
  obtain ⟨hok, h₂, -⟩ := h.dataCommand hcmd
  obtain ⟨rfl, rfl⟩ := runs_pure.mp hrest
  exact ⟨hok, h₂⟩

/-- The first try does it. -/
theorem Obliging.tryLoop {cmd : DWord → DosM Bool} {P : Sys Drv → Prop}
    (hcmd : ∀ {ebx s r s'}, Obliging s → Runs (cmd ebx) s r s' → r = true ∧ P s') {c : Nat}
    {r : Bool} (h : Obliging s) (hr : Runs (tryLoop cmd (c + 1)) s r s') : r = true ∧ P s' := by
  obtain ⟨d₀, s₁, hdrv, hrest⟩ := runs_bind.mp hr
  obtain ⟨rfl, rfl⟩ := runs_getDrv hdrv
  obtain ⟨ok, t, hone, hrest⟩ := runs_bind.mp hrest
  obtain ⟨rfl, hP⟩ := hcmd h hone
  obtain ⟨rfl, rfl⟩ := runs_pure.mp hrest
  exact ⟨rfl, hP⟩

theorem Obliging.rdTry {r : Bool} (h : Obliging s) (hr : Runs rdTry s r s') :
    r = true ∧ Obliging s' ∧ ∀ i, s'.drv.secbuf i = 0 := h.tryLoop Obliging.sdRead hr

theorem Obliging.wrTry {r : Bool} (h : Obliging s) (hr : Runs wrTry s r s') :
    r = true ∧ Obliging s' := h.tryLoop Obliging.wrSector hr

theorem Obliging.copyOut {u : Unit} (h : Obliging s) (hr : Runs copyOut s u s') :
    Obliging s' ∧ s'.drv = s.drv := by
  obtain rfl := runs_modify.mp hr
  exact ⟨h.of_eq rfl rfl, rfl⟩

theorem Obliging.copyIn {u : Unit} (h : Obliging s) (hr : Runs copyIn s u s') :
    Obliging s' ∧ s'.mem = s.mem ∧ s'.drv.req = s.drv.req := by
  obtain rfl := runs_modify.mp hr
  exact ⟨h.of_eq rfl rfl, rfl, rfl⟩

theorem Obliging.next {u : Unit} (h : Obliging s) (hr : Runs next s u s') :
    Obliging s' ∧ s'.mem = s.mem ∧ s'.drv.req.count = s.drv.req.count + 1 := by
  obtain rfl := runs_setDrv hr
  exact ⟨h.of_eq rfl rfl, rfl, rfl⟩

theorem add_ofNat_succ (c : Word) (n : Nat) :
    c + 1 + BitVec.ofNat 16 n = c + BitVec.ofNat 16 (n + 1) := by
  rw [BitVec.add_assoc, Nat.add_comm n 1, BitVec.ofNat_add]
  rfl

/-- Every sector is read. -/
theorem Obliging.readLoop {n : Nat} : ∀ {s s' : Sys Drv} {u : Unit}, Obliging s →
    Runs (readLoop n) s u s' → s'.drv.req.count = s.drv.req.count + BitVec.ofNat 16 n := by
  induction n with
  | zero =>
      intro s s' u h hr
      obtain ⟨-, rfl⟩ := runs_pure.mp hr
      exact (BitVec.add_zero _).symm
  | succ n ih =>
      intro s s' u h hr
      obtain ⟨ok, t, htry, hrest⟩ := runs_bind.mp hr
      obtain ⟨d, es, hd, -⟩ := rdTry_spec htry
      obtain ⟨rfl, h₁, -⟩ := h.rdTry htry
      simp only [if_true] at hrest
      obtain ⟨u₁, t₁, hcopy, hrest⟩ := runs_bind.mp hrest
      obtain ⟨h₂, hdrv⟩ := h₁.copyOut hcopy
      obtain ⟨u₂, t₂, hnext, hrest⟩ := runs_bind.mp hrest
      obtain ⟨h₃, -, hone⟩ := h₂.next hnext
      have hreq : t.drv.req.count = s.drv.req.count := by rw [hd.drv]
      rw [ih h₃ hrest, hone, hdrv, hreq, add_ofNat_succ]

/-- A sector of zeros is written, and reads back as it was. -/
theorem Obliging.writeSector {r : Bool} (h : Obliging s) (hmem : ∀ a, s.mem a = 0)
    (hr : Runs writeSector s r s') : r = true ∧ Obliging s' := by
  obtain ⟨u, t, hcopy, hrest⟩ := runs_bind.mp hr
  obtain ⟨h₁, hmem₁, -⟩ := h.copyIn hcopy
  obtain ⟨ok, t₁, hwrite, hrest⟩ := runs_bind.mp hrest
  obtain ⟨d, es, hd, -⟩ := wrTry_spec hwrite
  obtain ⟨rfl, h₂⟩ := h₁.wrTry hwrite
  simp only [Bool.not_true, Bool.false_eq_true, if_false] at hrest
  obtain ⟨d₁, t₂, hdrv, hrest⟩ := runs_bind.mp hrest
  obtain ⟨rfl, rfl⟩ := runs_getDrv hdrv
  rcases runs_ite.mp hrest with ⟨-, hrest⟩ | ⟨-, hrest⟩
  · obtain ⟨rfl, rfl⟩ := runs_pure.mp hrest
    exact ⟨rfl, h₂⟩
  · obtain ⟨ok', t₃, hread, hrest⟩ := runs_bind.mp hrest
    obtain ⟨d', es', hd', -⟩ := rdTry_spec hread
    obtain ⟨rfl, h₃, hzeros⟩ := h₂.rdTry hread
    simp only [Bool.not_true, Bool.false_eq_true, if_false] at hrest
    obtain ⟨rfl, hsame⟩ := compare_spec hrest
    refine ⟨hsame.mpr ?_, h₃⟩
    intro i _
    rw [hzeros, gather, hd'.mem, hd.mem, hmem₁, hmem]

/-- Every sector is written. -/
theorem Obliging.writeLoop {n : Nat} : ∀ {s s' : Sys Drv} {u : Unit} {d₀ : Drv} {q : Req} {k : Nat},
    Obliging s → (∀ a, s.mem a = 0) → AtSector d₀ q k s.drv → Runs (writeLoop n) s u s' →
      s'.drv.req.count = s.drv.req.count + BitVec.ofNat 16 n := by
  induction n with
  | zero =>
      intro s s' u d₀ q k h hmem hat hr
      obtain ⟨-, rfl⟩ := runs_pure.mp hr
      exact (BitVec.add_zero _).symm
  | succ n ih =>
      intro s s' u d₀ q k h hmem hat hr
      obtain ⟨ok, t, hone, hrest⟩ := runs_bind.mp hr
      obtain ⟨es, -, hd⟩ := writeSector_spec hone hat
      obtain ⟨rfl, h₁⟩ := h.writeSector hmem hone
      simp only [if_true] at hrest
      obtain ⟨u₁, t₁, hnext, hrest⟩ := runs_bind.mp hrest
      obtain ⟨hat₁, -, -⟩ := next_spec hnext (hat.of_did hd)
      obtain ⟨h₂, hmem₂, hcount⟩ := h₁.next hnext
      have hreq : t.drv.req.count = s.drv.req.count := by rw [hd.drv]
      have hzero : ∀ a, t₁.mem a = 0 := by
        intro a
        rw [hmem₂, hd.mem, hmem]
      rw [ih h₂ hzero hat₁ hrest, hcount, hreq, add_ofNat_succ]

/-- A request inside the volume is admitted. -/
theorem Obliging.getio {r : Bool} (h : Obliging s) (hgone : s.drv.gone = false)
    (hrange : s.drv.req.span ≤ s.drv.vsize.toNat) (hr : Runs getio s r s') :
    r = true ∧ Obliging s' ∧ s'.mem = s.mem ∧ s'.drv = s.drv.taken := by
  rcases getio_spec hr with ⟨rfl, -, -, rfl⟩ | ⟨-, -, hwhy⟩
  · exact ⟨rfl, h.looked.of_eq rfl rfl, rfl, rfl⟩
  · have hlt := hwhy (s.looked.socket.idle h.looked.up) hgone
    omega

theorem taken_count (d : Drv) :
    d.taken.req.count + BitVec.ofNat 16 d.req.count.toNat = d.req.count := by
  rw [BitVec.ofNat_toNat, BitVec.setWidth_eq]
  exact BitVec.zero_add _

/-- And carried out to its last sector. -/
theorem Obliging.doRead {u : Unit} (h : Obliging s) (hgone : s.drv.gone = false)
    (hrange : s.drv.req.span ≤ s.drv.vsize.toNat) (hr : Runs doRead s u s') :
    s'.drv.req.count = s.drv.req.count := by
  obtain ⟨ok, t, hio, hrest⟩ := runs_bind.mp hr
  obtain ⟨rfl, h₁, -, hdrv⟩ := h.getio hgone hrange hio
  simp only [if_true] at hrest
  obtain ⟨d, t₁, hget, hrest⟩ := runs_bind.mp hrest
  obtain ⟨rfl, rfl⟩ := runs_getDrv hget
  rw [h₁.readLoop hrest, hdrv]
  exact taken_count s.drv

theorem Obliging.doWrite {u : Unit} (h : Obliging s) (hmem : ∀ a, s.mem a = 0)
    (hgone : s.drv.gone = false) (hrange : s.drv.req.span ≤ s.drv.vsize.toNat)
    (hr : Runs doWrite s u s') : s'.drv.req.count = s.drv.req.count := by
  obtain ⟨ok, t, hio, hrest⟩ := runs_bind.mp hr
  obtain ⟨rfl, h₁, hmem₁, hdrv⟩ := h.getio hgone hrange hio
  simp only [if_true] at hrest
  obtain ⟨d, t₁, hget, hrest⟩ := runs_bind.mp hrest
  obtain ⟨rfl, rfl⟩ := runs_getDrv hget
  have hzero : ∀ a, t₁.mem a = 0 := by
    intro a
    rw [hmem₁, hmem]
  rw [h₁.writeLoop hzero (hdrv ▸ taken_atSector s.drv) hrest, hdrv]
  exact taken_count s.drv

theorem Obliging.dispatch {cmd : Byte} (hcmd : cmd = 4 ∨ cmd = 8 ∨ cmd = 9) {u : Unit}
    (h : Obliging s) (hmem : ∀ a, s.mem a = 0) (hgone : s.drv.gone = false)
    (hrange : s.drv.req.span ≤ s.drv.vsize.toNat) (hr : Runs (dispatch cmd) s u s') :
    s'.drv.req.count = s.drv.req.count := by
  have hwrite : ∀ {v u}, Runs (writeRequest v) s u s' → s'.drv.req.count = s.drv.req.count := by
    intro v u hr
    obtain ⟨u₁, t, hset, hr⟩ := runs_bind.mp hr
    obtain rfl := runs_setDrv hset
    have hst : Obliging { s with drv := { s.drv with verify := v } } := h.of_eq rfl rfl
    exact hst.doWrite hmem hgone hrange hr
  rcases hcmd with rfl | rfl | rfl
  · exact h.doRead hgone hrange hr
  · exact hwrite hr
  · exact hwrite hr

end Obliging

/-! ### The law -/

/-- A machine with that card, and zeros in memory. -/
def obliging (d : Drv) : Sys Drv where
  world := ⟨fun _ => [], fun _ => [], fun _ => ⟨true, true, d.ccs, fun _ => 0⟩⟩
  now := 0
  socket := ⟨some 0, true, 0, Socket.idle_first⟩
  log := []
  mem := fun _ => 0
  drv := d

/-- The count of a request carried out is the number of its sectors completed. -/
theorem toNat_count {mem : Mem} {w v : Bool} {sector : Nat → Nat} {addrs : Nat → List Nat}
    {c : Word} {m : Nat} {es : List Ev} (h : Served mem w v sector addrs 0 c.toNat m es) :
    (BitVec.ofNat 16 m).toNat = m := by
  have hle := h.le
  have hlt := c.isLt
  rw [BitVec.toNat_ofNat]
  omega

/-- A READ or WRITE: refused with an error, or carried out as far as the card goes. -/
theorem interrupt_transfer {q q' : Req} {s s' : Sys Drv} (hcmd : q.cmd = 4 ∨ q.cmd = 8 ∨ q.cmd = 9)
    (h : Runs (interrupt q) s q' s') :
    (s'.log = s.log ∧ s'.mem = s.mem ∧ q'.count = 0 ∧ q'.status ≠ ST_DONE ∧
        (s.looked.socket.card.isSome = true → s.drv.gone = false → s.drv.vsize.toNat < q.span)) ∨
      (s.drv.gone = false ∧ q.span ≤ s.drv.vsize.toNat ∧ ∃ es, s'.log = s.log ++ es ∧
        s'.mem = (if q.cmd = 4 then copiedOut es s.mem else s.mem) ∧
        Served s.mem (q.cmd ≠ 4) (q.cmd = 9) (s.drv.sectorOf q) q.addrsOf 0 q.count.toNat
          q'.count.toNat es) := by
  obtain ⟨t, hgo, rfl, rfl⟩ := runs_interrupt h
  rcases (dispatch_transfer hcmd hgo).cases with ⟨hrefused, hwhy⟩ | ⟨hgone, hrange, m, es, hlog, hmem, hm, hserved⟩
  · exact .inl ⟨hrefused.log, hrefused.mem, hrefused.count, hrefused.status, hwhy⟩
  · have hcount : t.drv.req.count.toNat = m := by rw [hm, toNat_count hserved]
    refine .inr ⟨hgone, hrange, es, hlog, ?_, ?_⟩
    · show t.mem = _
      rw [hmem]
      by_cases hread : q.cmd = 4 <;> simp [hread]
    · show Served s.mem _ _ _ _ 0 _ t.drv.req.count.toNat es
      rw [hcount]
      exact hserved

/-- By the obliging card it is carried out to the end. -/
theorem interrupt_obliging {d : Drv} {q q' : Req} {s' : Sys Drv}
    (hcmd : q.cmd = 4 ∨ q.cmd = 8 ∨ q.cmd = 9) (hgone : d.gone = false)
    (hrange : q.span ≤ d.vsize.toNat) (h : Runs (interrupt q) (obliging d) q' s') :
    q'.count = q.count := by
  obtain ⟨t, hgo, rfl, rfl⟩ := runs_interrupt h
  have hobliging : Obliging { obliging d with drv := d.asked q } :=
    ⟨fun _ => rfl, fun _ => rfl, fun _ _ => rfl, rfl⟩
  exact hobliging.dispatch hcmd (fun _ => rfl) hgone hrange hgo

/-- Neither sum wraps before the last sector. -/
structure Unwrapped (d : Drv) (q : Req) : Prop where
  sector : d.poff.toNat + q.span ≤ d.nameable
  segment : linear q.addrSeg q.addrOff / 16 + 32 * (q.count.toNat - 1) < 65536

theorem unwrapped_iff {d : Drv} {q : Req} (hrange : q.span ≤ d.vsize.toNat) (hpos : 0 < q.count.toNat) :
    Unwrapped d q ↔ ∀ k < q.count.toNat,
      d.sectorOf q k = d.poff.toNat + q.startSector.toNat + k ∧
        q.addrsOf k = List.range' (linear q.addrSeg q.addrOff + 512 * k) 512 := by
  have hv := d.vsize.isLt
  have hin : ∀ k < q.count.toNat, q.startSector.toNat + k < 2 ^ 32 := by
    intro k hk
    rw [Req.span] at hrange
    omega
  constructor
  · rintro ⟨hsector, hsegment⟩ k hk
    rw [sectorOf_eq_iff (hin k hk), addrsOf_eq_iff]
    rw [Req.span] at hsector
    omega
  · intro hall
    obtain ⟨hsector, haddrs⟩ := hall (q.count.toNat - 1) (by omega)
    rw [sectorOf_eq_iff (hin _ (by omega))] at hsector
    rw [addrsOf_eq_iff] at haddrs
    refine ⟨?_, haddrs⟩
    rw [Req.span]
    omega

/-- By the obliging card the law is kept only where neither wraps. -/
theorem unwrapped_of_law {d : Drv} {q q' : Req} {s' : Sys Drv}
    (hcmd : q.cmd = 4 ∨ q.cmd = 8 ∨ q.cmd = 9) (hgone : d.gone = false)
    (hrange : q.span ≤ d.vsize.toNat) (hpos : 0 < q.count.toNat)
    (hrun : Runs (interrupt q) (obliging d) q' s') (hlaw : RequestLaw q (obliging d) q' s') :
    Unwrapped d q := by
  obtain ⟨es, hlog, -, hkept⟩ := hlaw
  have hcount := interrupt_obliging hcmd hgone hrange hrun
  rcases interrupt_transfer hcmd hrun with ⟨-, -, -, -, hwhy⟩ | ⟨-, -, es', hlog', -, hserved⟩
  · have hfar := hwhy rfl hgone
    exact absurd hrange (Nat.not_le_of_lt hfar)
  obtain rfl : es' = es := List.append_cancel_left (hlog'.symm.trans hlog)
  rw [hcount] at hserved hkept
  rcases hkept with ⟨-, hnone, -⟩ | ⟨-, hclaimed⟩
  · rw [hnone] at hpos
    cases hpos
  · rw [unwrapped_iff hrange hpos]
    intro k hk
    exact hserved.same hclaimed hk

/-- A volume of 1000 sectors from sector 63 on. -/
def benchDrv : Drv where
  layout := ⟨0x0800, 0, 0, 0⟩
  req := ⟨0, 0, 0, 0, 0, 0, 0, 0⟩
  status := 0
  poff := 63
  vsize := 1000
  lba := 0
  xferOff := 0
  xferSeg := 0
  count := 0
  verify := false
  gone := false
  ccs := true
  bpb := fun _ => 0
  secbuf := fun _ => 0
  fail := none
  search := none

/-- A READ of `count` sectors from the volume's first. -/
def readReq (seg off count : Word) : Req := ⟨4, 0, 0, off, seg, count, 0, 0⟩

end Sbc386Ex.Sd.SdSys

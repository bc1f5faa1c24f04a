import Sbc386Ex.Sd.SdSys

/-!
# Sbc386Ex.Sd.Request

What a READ or WRITE request of `SD.SYS` does, at whichever sector the card first fails.
The driver does a request's sectors one by one, and each comes to a piece of the log:
tries, at most three, and the copy between its buffer and the caller's. The law says which
sectors and which addresses the pieces are about; the driver keeps it for every conduct
of the card exactly when neither of its two sums wraps.
-/

namespace Sbc386Ex.Sd.SdSys

open Prog

/-! ### The log of a request -/

/-- At most `c` tries of a sector, the last of which works or none does. -/
inductive Tried (w : Bool) (n : Nat) : Nat → Option Block → List Ev → Prop
  | gaveUp : Tried w n 0 none []
  | worked (card : Option Nat) (c : Nat) (b : Block) :
      Tried w n (c + 1) (some b) [.touch card w n (some b)]
  | again (card : Option Nat) {c : Nat} {d : Option Block} {es : List Ev}
      (rest : Tried w n c d es) : Tried w n (c + 1) d (.touch card w n none :: es)

/-- A block is another's first 512 bytes. -/
def SameBytes (b c : Block) : Prop := ∀ i < 512, b i = c i

/-- What one sector of a request comes to: READ or WRITE, verified or not, completed or
not. -/
inductive Piece (mem : Mem) (n : Nat) (addrs : List Nat) : Bool → Bool → Bool → List Ev → Prop
  | read {v : Bool} {b : Block} {es : List Ev} (tries : Tried false n 3 (some b) es) :
      Piece mem n addrs false v true (es ++ [.copy addrs b])
  | unread {v : Bool} {es : List Ev} (tries : Tried false n 3 none es) :
      Piece mem n addrs false v false es
  | written {es : List Ev} (tries : Tried true n 3 (some (gather mem addrs)) es) :
      Piece mem n addrs true false true (.copy addrs (gather mem addrs) :: es)
  | unwritten {v : Bool} {es : List Ev} (tries : Tried true n 3 none es) :
      Piece mem n addrs true v false (.copy addrs (gather mem addrs) :: es)
  | verified {c : Block} {es es' : List Ev} (tries : Tried true n 3 (some (gather mem addrs)) es)
      (back : Tried false n 3 (some c) es') (same : SameBytes c (gather mem addrs)) :
      Piece mem n addrs true true true (.copy addrs (gather mem addrs) :: es ++ es')
  | unverified {d : Option Block} {es es' : List Ev}
      (tries : Tried true n 3 (some (gather mem addrs)) es) (back : Tried false n 3 d es')
      (differs : ∀ c, d = some c → ¬ SameBytes c (gather mem addrs)) :
      Piece mem n addrs true true false (.copy addrs (gather mem addrs) :: es ++ es')

/-- Of `n` sectors from the `k`-th on, `m` were completed, in order, up to the first that
was not. -/
inductive Served (mem : Mem) (w v : Bool) (sector : Nat → Nat) (addrs : Nat → List Nat) :
    Nat → Nat → Nat → List Ev → Prop
  | done (k : Nat) : Served mem w v sector addrs k 0 0 []
  | stopped {k n : Nat} {es : List Ev} (piece : Piece mem (sector k) (addrs k) w v false es) :
      Served mem w v sector addrs k (n + 1) 0 es
  | more {k n m : Nat} {es rest : List Ev} (piece : Piece mem (sector k) (addrs k) w v true es)
      (later : Served mem w v sector addrs (k + 1) n m rest) :
      Served mem w v sector addrs k (n + 1) (m + 1) (es ++ rest)

/-- Only the sectors and addresses of the request matter. -/
theorem Served.congr {mem : Mem} {w v : Bool} {sector sector' : Nat → Nat}
    {addrs addrs' : Nat → List Nat} {k n m : Nat} {es : List Ev}
    (h : Served mem w v sector addrs k n m es)
    (hsame : ∀ j, k ≤ j → j < k + n → sector j = sector' j ∧ addrs j = addrs' j) :
    Served mem w v sector' addrs' k n m es := by
  induction h with
  | done k => exact .done k
  | stopped piece =>
      obtain ⟨hs, ha⟩ := hsame _ (Nat.le_refl _) (by omega)
      rw [hs, ha] at piece
      exact .stopped piece
  | more piece _ ih =>
      obtain ⟨hs, ha⟩ := hsame _ (Nat.le_refl _) (by omega)
      rw [hs, ha] at piece
      exact .more piece (ih fun j hj hj' => hsame j (by omega) (by omega))

theorem Served.le {mem : Mem} {w v : Bool} {sector : Nat → Nat} {addrs : Nat → List Nat}
    {k n m : Nat} {es : List Ev} (h : Served mem w v sector addrs k n m es) : m ≤ n := by
  induction h with
  | done k => exact Nat.le_refl 0
  | stopped piece => exact Nat.zero_le _
  | more piece later ih => exact Nat.succ_le_succ ih

/-- The addresses of a copy. -/
def Ev.copied : Ev → Option (List Nat)
  | .copy addrs _ => some addrs
  | .touch _ _ _ _ => none

/-- The sector of a try that worked, in direction `w`. -/
def Ev.worked (w : Bool) : Ev → Option Nat
  | .touch _ w' n (some _) => if w' = w then some n else none
  | _ => none

theorem copied_copy (addrs : List Nat) (b : Block) (es : List Ev) :
    (Ev.copy addrs b :: es).filterMap Ev.copied = addrs :: es.filterMap Ev.copied := rfl

theorem worked_copy (w : Bool) (addrs : List Nat) (b : Block) (es : List Ev) :
    (Ev.copy addrs b :: es).filterMap (Ev.worked w) = es.filterMap (Ev.worked w) := rfl

theorem Tried.projections {w : Bool} {n c : Nat} {d : Option Block} {es : List Ev}
    (h : Tried w n c d es) (w' : Bool) : es.filterMap Ev.copied = [] ∧
      es.filterMap (Ev.worked w') = if w = w' ∧ d.isSome = true then [n] else [] := by
  induction h with
  | gaveUp => simp
  | worked card c b =>
      refine ⟨rfl, ?_⟩
      by_cases hw : w = w' <;> simp [Ev.worked, hw]
  | again card rest ih => exact ih

/-- A sector completed is one copy and one try that worked. -/
theorem Piece.projections {mem : Mem} {n : Nat} {addrs : List Nat} {w v : Bool} {es : List Ev}
    (h : Piece mem n addrs w v true es) :
    es.filterMap Ev.copied = [addrs] ∧ es.filterMap (Ev.worked w) = [n] := by
  cases h with
  | read tries =>
      obtain ⟨hcopied, hworked⟩ := tries.projections false
      rw [List.filterMap_append, List.filterMap_append, hcopied, hworked]
      exact ⟨rfl, rfl⟩
  | written tries =>
      obtain ⟨hcopied, hworked⟩ := tries.projections true
      rw [copied_copy, worked_copy, hcopied, hworked]
      exact ⟨rfl, rfl⟩
  | verified tries back same =>
      obtain ⟨hcopied, hworked⟩ := tries.projections true
      obtain ⟨hcopied', hworked'⟩ := back.projections true
      rw [List.cons_append, copied_copy, worked_copy, List.filterMap_append, List.filterMap_append,
        hcopied, hworked, hcopied', hworked']
      exact ⟨rfl, rfl⟩

/-- A request completed says where each of its sectors and copies was. -/
theorem Served.projections {mem : Mem} {w v : Bool} {sector : Nat → Nat} {addrs : Nat → List Nat}
    {k n m : Nat} {es : List Ev} (h : Served mem w v sector addrs k n m es) (hall : m = n) :
    es.filterMap Ev.copied = (List.range' k n).map addrs ∧
      es.filterMap (Ev.worked w) = (List.range' k n).map sector := by
  induction h with
  | done k => exact ⟨rfl, rfl⟩
  | stopped piece => cases hall
  | more piece later ih =>
      obtain ⟨hcopied, hworked⟩ := ih (Nat.succ.inj hall)
      obtain ⟨hcopied₁, hworked₁⟩ := piece.projections
      rw [List.filterMap_append, List.filterMap_append, hcopied₁, hworked₁, hcopied, hworked,
        List.range'_succ]
      exact ⟨rfl, rfl⟩

/-- So the log of a completed request has only one account. -/
theorem Served.same {mem mem' : Mem} {w v : Bool} {sector sector' : Nat → Nat}
    {addrs addrs' : Nat → List Nat} {n : Nat} {es : List Ev}
    (h : Served mem w v sector addrs 0 n n es) (h' : Served mem' w v sector' addrs' 0 n n es) {k : Nat}
    (hk : k < n) : sector k = sector' k ∧ addrs k = addrs' k := by
  have hmem : k ∈ List.range' 0 n := List.mem_range'_1.mpr ⟨Nat.zero_le k, by omega⟩
  obtain ⟨hcopied, hworked⟩ := h.projections rfl
  obtain ⟨hcopied', hworked'⟩ := h'.projections rfl
  exact ⟨List.map_inj_left.mp (hworked.symm.trans hworked') k hmem,
    List.map_inj_left.mp (hcopied.symm.trans hcopied') k hmem⟩

/-! ### What each routine does -/

/-- `es` was done between `s` and `s'`, and nothing else but to `secbuf`. -/
structure Did (es : List Ev) (s s' : Sys Drv) : Prop where
  log : s'.log = s.log ++ es
  mem : s'.mem = s.mem
  drv : s'.drv = { s.drv with secbuf := s'.drv.secbuf }

theorem Did.trans {es es' : List Ev} {s t u : Sys Drv} (h : Did es s t) (h' : Did es' t u) :
    Did (es ++ es') s u := by
  refine ⟨?_, h'.mem.trans h.mem, ?_⟩
  · rw [h'.log, h.log, List.append_assoc]
  · rw [h'.drv, h.drv]

theorem Did.addressed {es : List Ev} {s s' : Sys Drv} (h : Did es s s') :
    s'.drv.addressed = s.drv.addressed := by
  rw [h.drv]
  rfl

/-- `es` was done for sector `n`, and `d` is what it brought to `secbuf` or took from it. -/
structure Carried (w : Bool) (d : Option Block) (es : List Ev) (s : Sys Drv) (r : Bool)
    (s' : Sys Drv) : Prop extends Did es s s' where
  ok : r = d.isSome
  brought : ∀ b, d = some b → s'.drv.secbuf = b
  kept : w = true → s'.drv.secbuf = s.drv.secbuf

theorem sdRead_spec {ebx : DWord} {s s' : Sys Drv} {r : Bool} (h : Runs (sdRead ebx) s r s') :
    ∃ d card, Carried false d [.touch card false (s.drv.addressed ebx) d] s r s' := by
  obtain ⟨d₀, s₁, hdrv, hrest⟩ := runs_bind.mp h
  obtain ⟨rfl, rfl⟩ := runs_getDrv hdrv
  obtain ⟨p, s₂, hcmd, hrest⟩ := runs_bind.mp hrest
  obtain ⟨d, hok, hbrought, -, -, rfl⟩ := runs_dataCommand hcmd
  obtain ⟨u, s₃, hset, hpure⟩ := runs_bind.mp hrest
  obtain rfl := runs_setDrv hset
  obtain ⟨rfl, rfl⟩ := runs_pure.mp hpure
  exact ⟨d, _, ⟨rfl, rfl, rfl⟩, hok, hbrought, fun hw => by cases hw⟩

theorem wrSector_spec {ebx : DWord} {s s' : Sys Drv} {r : Bool} (h : Runs (wrSector ebx) s r s') :
    ∃ d card, Carried true d [.touch card true (s.drv.addressed ebx) d] s r s' := by
  obtain ⟨d₀, s₁, hdrv, hrest⟩ := runs_bind.mp h
  obtain ⟨rfl, rfl⟩ := runs_getDrv hdrv
  obtain ⟨p, s₂, hcmd, hrest⟩ := runs_bind.mp hrest
  obtain ⟨d, hok, hbrought, hbuf, -, rfl⟩ := runs_dataCommand hcmd
  obtain ⟨rfl, rfl⟩ := runs_pure.mp hrest
  refine ⟨d, _, ⟨rfl, rfl, rfl⟩, hok, ?_, fun _ => rfl⟩
  intro b hb
  rw [← hbrought b hb, hbuf]
  rfl

/-- Tries of one sector. -/
theorem tryLoop_spec {w : Bool} {cmd : DWord → DosM Bool}
    (hcmd : ∀ {ebx s r s'}, Runs (cmd ebx) s r s' →
      ∃ d card, Carried w d [.touch card w (s.drv.addressed ebx) d] s r s') :
    ∀ {c : Nat} {s s' : Sys Drv} {r : Bool}, Runs (tryLoop cmd c) s r s' →
      ∃ d es, Carried w d es s r s' ∧ Tried w (s.drv.addressed (s.drv.lba + s.drv.poff)) c d es := by
  intro c
  induction c with
  | zero =>
      intro s s' r h
      obtain ⟨rfl, rfl⟩ := runs_pure.mp h
      exact ⟨none, [], ⟨⟨(List.append_nil _).symm, rfl, rfl⟩, rfl, fun b hb => by (cases hb), fun _ => rfl⟩,
        .gaveUp⟩
  | succ c ih =>
      intro s s' r h
      obtain ⟨d₀, s₁, hdrv, h⟩ := runs_bind.mp h
      obtain ⟨rfl, rfl⟩ := runs_getDrv hdrv
      obtain ⟨ok, t, hone, hrest⟩ := runs_bind.mp h
      obtain ⟨d, card, hd⟩ := hcmd hone
      cases d with
      | some b =>
          rw [hd.ok] at hrest
          obtain ⟨rfl, rfl⟩ := runs_pure.mp hrest
          exact ⟨some b, _, { hd with ok := rfl }, .worked card c b⟩
      | none =>
          rw [hd.ok] at hrest
          obtain ⟨d, es, hc, htried⟩ := ih hrest
          rw [hd.addressed] at htried
          have hlba : t.drv.lba + t.drv.poff = s₁.drv.lba + s₁.drv.poff := by rw [hd.drv]
          rw [hlba] at htried
          refine ⟨d, _, ⟨hd.toDid.trans hc.toDid, hc.ok, hc.brought, ?_⟩, .again card htried⟩
          intro hw
          rw [hc.kept hw, hd.kept hw]

theorem rdTry_spec {s s' : Sys Drv} {r : Bool} (h : Runs rdTry s r s') :
    ∃ d es, Carried false d es s r s' ∧
      Tried false (s.drv.addressed (s.drv.lba + s.drv.poff)) 3 d es := tryLoop_spec sdRead_spec h

theorem wrTry_spec {s s' : Sys Drv} {r : Bool} (h : Runs wrTry s r s') :
    ∃ d es, Carried true d es s r s' ∧
      Tried true (s.drv.addressed (s.drv.lba + s.drv.poff)) 3 d es := tryLoop_spec wrSector_spec h

/-! ### Sector by sector -/

/-- The card sector and the addresses of the `k`-th sector of a request, as the driver
steps them. -/
def Drv.sectorOf (d : Drv) (q : Req) (k : Nat) : Nat :=
  d.addressed (q.startSector + BitVec.ofNat 32 k + d.poff)

def Req.addrsOf (q : Req) (k : Nat) : List Nat :=
  (List.range 512).map fun i =>
    linear (q.addrSeg + (q.addrOff >>> 4) + BitVec.ofNat 16 (32 * k))
      ((q.addrOff &&& 0x0F) + BitVec.ofNat 16 i)

/-- The driver's data before the `k`-th sector of request `q`. -/
structure AtSector (d₀ : Drv) (q : Req) (k : Nat) (d : Drv) : Prop where
  poff : d.poff = d₀.poff
  ccs : d.ccs = d₀.ccs
  verify : d.verify = d₀.verify
  lba : d.lba = q.startSector + BitVec.ofNat 32 k
  off : d.xferOff = q.addrOff &&& 0x0F
  seg : d.xferSeg = q.addrSeg + (q.addrOff >>> 4) + BitVec.ofNat 16 (32 * k)
  done : d.req.count = BitVec.ofNat 16 k

section Steps

variable {d₀ : Drv} {q : Req} {k : Nat} {s s' : Sys Drv}

theorem AtSector.of_did {es : List Ev} (h : AtSector d₀ q k s.drv) (hd : Did es s s') :
    AtSector d₀ q k s'.drv := by
  rw [hd.drv]
  exact ⟨h.poff, h.ccs, h.verify, h.lba, h.off, h.seg, h.done⟩

theorem AtSector.sector {d : Drv} (h : AtSector d₀ q k d) :
    d.addressed (d.lba + d.poff) = d₀.sectorOf q k := by
  rw [Drv.sectorOf, Drv.addressed, Drv.addressed, h.lba, h.poff, h.ccs]

theorem AtSector.addrs {d : Drv} (h : AtSector d₀ q k d) : d.xferAddrs = q.addrsOf k := by
  rw [Drv.xferAddrs, Req.addrsOf, h.seg, h.off]

/-- An offset under 16 stays where it is, and 512 more of it are 32 paragraphs. -/
theorem paragraphs (v : Word) :
    ((v &&& 0x0F) + 512) >>> 4 = 32 ∧ ((v &&& 0x0F) + 512) &&& 0x0F = v &&& 0x0F := by
  have hlow : (v &&& 0x0F).toNat < 16 := by
    have hle : v.toNat &&& 15 ≤ 15 := Nat.and_le_right
    rw [BitVec.toNat_and]
    exact Nat.lt_succ_of_le hle
  have hsum : ((v &&& 0x0F) + 512).toNat = (v &&& 0x0F).toNat + 512 := by
    have hsize : (512 : Word).toNat = 512 := rfl
    rw [BitVec.toNat_add, hsize]
    exact Nat.mod_eq_of_lt (by omega)
  constructor
  · apply BitVec.eq_of_toNat_eq
    have hpars : (32 : Word).toNat = 32 := rfl
    rw [BitVec.toNat_ushiftRight, hsum, hpars, Nat.shiftRight_eq_div_pow]
    omega
  · apply BitVec.eq_of_toNat_eq
    have hmod : ∀ n : Nat, n &&& 15 = n % 16 := fun n => Nat.and_two_pow_sub_one_eq_mod n 4
    have hand : (((v &&& 0x0F) + 512) &&& 0x0F).toNat = ((v &&& 0x0F) + 512).toNat &&& 15 :=
      BitVec.toNat_and _ _
    rw [hand, hsum, hmod]
    omega

theorem next_spec {u : Unit} (h : Runs next s u s') (hat : AtSector d₀ q k s.drv) :
    AtSector d₀ q (k + 1) s'.drv ∧ s'.log = s.log ∧ s'.mem = s.mem := by
  obtain rfl := runs_setDrv h
  obtain ⟨hshift, hand⟩ := paragraphs q.addrOff
  refine ⟨⟨hat.poff, hat.ccs, hat.verify, ?_, ?_, ?_, ?_⟩, rfl, rfl⟩
  · dsimp only
    rw [hat.lba, BitVec.ofNat_add, BitVec.add_assoc]
    rfl
  · dsimp only
    rw [hat.off, hand]
  · dsimp only
    rw [hat.off, hat.seg, hshift, Nat.mul_add, BitVec.ofNat_add, BitVec.add_assoc]
    rfl
  · dsimp only
    rw [hat.done, BitVec.ofNat_add]
    rfl

/-- Memory after the copies of a log to the caller. -/
def copiedOut : List Ev → Mem → Mem
  | [], mem => mem
  | .touch _ _ _ _ :: es, mem => copiedOut es mem
  | .copy addrs bytes :: es, mem =>
      copiedOut es (addrs.zipIdx.foldl (fun mem e => Function.update mem e.1 (bytes e.2)) mem)

theorem copiedOut_append (es es' : List Ev) (mem : Mem) :
    copiedOut (es ++ es') mem = copiedOut es' (copiedOut es mem) := by
  induction es generalizing mem with
  | nil => rfl
  | cons e es ih => cases e <;> exact ih _

theorem Tried.copiedOut {w : Bool} {n c : Nat} {d : Option Block} {es : List Ev}
    (h : Tried w n c d es) (mem : Mem) : copiedOut es mem = mem := by
  induction h with
  | gaveUp => rfl
  | worked card c b => rfl
  | again card rest ih => exact ih

/-- **The read loop**: by induction on the sectors still wanted. -/
theorem readLoop_spec {n : Nat} : ∀ {k : Nat} {s s' : Sys Drv} {u : Unit},
    Runs (readLoop n) s u s' → AtSector d₀ q k s.drv → ∀ mem v,
      ∃ m es, Served mem false v (d₀.sectorOf q) q.addrsOf k n m es ∧ s'.log = s.log ++ es ∧
        s'.mem = copiedOut es s.mem ∧ s'.drv.req.count = BitVec.ofNat 16 (k + m) := by
  induction n with
  | zero =>
      intro k s s' u h hat mem v
      obtain ⟨rfl, rfl⟩ := runs_pure.mp h
      exact ⟨0, [], .done k, (List.append_nil _).symm, rfl, hat.done⟩
  | succ n ih =>
      intro k s s' u h hat mem v
      obtain ⟨ok, t, htry, hrest⟩ := runs_bind.mp h
      obtain ⟨d, es, hd, htried⟩ := rdTry_spec htry
      rw [hat.sector] at htried
      have hat' := hat.of_did hd.toDid
      cases d with
      | none =>
          simp only [hd.ok, Option.isSome_none, Bool.false_eq_true, if_false] at hrest
          obtain rfl := runs_setDrv hrest
          refine ⟨0, es, .stopped (.unread htried), hd.log, ?_, hat'.done⟩
          rw [htried.copiedOut]
          exact hd.mem
      | some b =>
          simp only [hd.ok, Option.isSome_some, if_true] at hrest
          obtain ⟨u₁, t₁, hcopy, hrest⟩ := runs_bind.mp hrest
          obtain rfl := runs_modify.mp hcopy
          obtain ⟨u₂, t₂, hnext, hrest⟩ := runs_bind.mp hrest
          obtain ⟨hat₂, hlog₂, hmem₂⟩ := next_spec hnext hat'
          obtain ⟨m, rest, hserved, hlog, hmem, hcount⟩ := ih hrest hat₂ mem v
          refine ⟨m + 1, es ++ [.copy (q.addrsOf k) b] ++ rest, .more (.read htried) hserved, ?_, ?_, ?_⟩
          · rw [hlog, hlog₂, hd.log, hat'.addrs, hd.brought b rfl, List.append_assoc,
              List.append_assoc, List.append_assoc]
          · rw [hmem, hmem₂, copiedOut_append, copiedOut_append, htried.copiedOut, hat'.addrs,
              hd.brought b rfl, hd.mem]
            simp only [copiedOut]
          · have hk : k + 1 + m = k + (m + 1) := by omega
            rw [hcount, hk]

theorem compare_spec {s s' : Sys Drv} {r : Bool} (h : Runs compare s r s') :
    s' = s ∧ (r = true ↔ SameBytes s.drv.secbuf (gather s.mem s.drv.xferAddrs)) := by
  obtain ⟨t, t', hget, hpure⟩ := runs_bind.mp h
  obtain ⟨rfl, rfl⟩ := runs_get.mp hget
  obtain ⟨hr, hs⟩ := runs_pure.mp hpure
  refine ⟨hs, ?_⟩
  rw [hr, List.all_eq_true]
  constructor
  · intro hall i hi
    exact of_decide_eq_true (hall i (List.mem_range.mpr hi))
  · intro hsame i hi
    exact decide_eq_true (hsame i (List.mem_range.mp hi))

/-- A sector written, and read back if that is asked for. -/
theorem writeSector_spec {r : Bool} (h : Runs writeSector s r s') (hat : AtSector d₀ q k s.drv) :
    ∃ es, Piece s.mem (d₀.sectorOf q k) (q.addrsOf k) true d₀.verify r es ∧ Did es s s' := by
  obtain ⟨u, t, hcopy, hrest⟩ := runs_bind.mp h
  obtain rfl := runs_modify.mp hcopy
  have hcopied : Did [.copy (q.addrsOf k) (gather s.mem (q.addrsOf k))] s
      { s with
        log := s.log ++ [.copy s.drv.xferAddrs (gather s.mem s.drv.xferAddrs)]
        drv.secbuf := gather s.mem s.drv.xferAddrs } := by
    rw [hat.addrs]
    exact ⟨rfl, rfl, rfl⟩
  have hbuf : gather s.mem s.drv.xferAddrs = gather s.mem (q.addrsOf k) := by rw [hat.addrs]
  have hat₁ := hat.of_did hcopied
  obtain ⟨ok, t, hwrite, hrest⟩ := runs_bind.mp hrest
  obtain ⟨d, es, hd, htried⟩ := wrTry_spec hwrite
  rw [hat₁.sector] at htried
  have hdid := hcopied.trans hd.toDid
  have hat₂ := hat₁.of_did hd.toDid
  cases d with
  | none =>
      simp only [hd.ok, Option.isSome_none, Bool.not_false, if_true] at hrest
      obtain ⟨rfl, rfl⟩ := runs_pure.mp hrest
      exact ⟨_, .unwritten htried, hdid⟩
  | some b =>
      -- what was written is what was copied
      have hb : b = gather s.mem (q.addrsOf k) := by
        rw [← hd.brought b rfl, hd.kept rfl]
        exact hbuf
      subst hb
      simp only [hd.ok, Option.isSome_some, Bool.not_true, Bool.false_eq_true, if_false] at hrest
      obtain ⟨d₁, t₁, hdrv, hrest⟩ := runs_bind.mp hrest
      obtain ⟨rfl, rfl⟩ := runs_getDrv hdrv
      rw [hat₂.verify] at hrest
      cases hv : d₀.verify with
      | false =>
          simp only [hv, Bool.not_false, if_true] at hrest
          obtain ⟨rfl, rfl⟩ := runs_pure.mp hrest
          exact ⟨_, .written htried, hdid⟩
      | true =>
          simp only [hv, Bool.not_true, Bool.false_eq_true, if_false] at hrest
          obtain ⟨ok', t₂, hread, hrest⟩ := runs_bind.mp hrest
          obtain ⟨d', es', hd', htried'⟩ := rdTry_spec hread
          rw [hat₂.sector] at htried'
          have hdid' := hdid.trans hd'.toDid
          have hat₃ := hat₂.of_did hd'.toDid
          cases d' with
          | none =>
              simp only [hd'.ok, Option.isSome_none, Bool.not_false, if_true] at hrest
              obtain ⟨rfl, rfl⟩ := runs_pure.mp hrest
              exact ⟨_, .unverified htried htried' (fun c hc => by cases hc), hdid'⟩
          | some c =>
              simp only [hd'.ok, Option.isSome_some, Bool.not_true, Bool.false_eq_true, if_false] at hrest
              obtain ⟨rfl, hsame⟩ := compare_spec hrest
              rw [hd'.brought c rfl, hat₃.addrs, hdid'.mem] at hsame
              cases r with
              | true => exact ⟨_, .verified htried htried' (hsame.mp rfl), hdid'⟩
              | false =>
                  refine ⟨_, .unverified htried htried' ?_, hdid'⟩
                  intro c' hc' hbytes
                  obtain rfl := Option.some.inj hc'
                  cases hsame.mpr hbytes

/-- **The write loop**. -/
theorem writeLoop_spec {n : Nat} : ∀ {k : Nat} {s s' : Sys Drv} {u : Unit},
    Runs (writeLoop n) s u s' → AtSector d₀ q k s.drv →
      ∃ m es, Served s.mem true d₀.verify (d₀.sectorOf q) q.addrsOf k n m es ∧
        s'.log = s.log ++ es ∧ s'.mem = s.mem ∧ s'.drv.req.count = BitVec.ofNat 16 (k + m) := by
  induction n with
  | zero =>
      intro k s s' u h hat
      obtain ⟨rfl, rfl⟩ := runs_pure.mp h
      exact ⟨0, [], .done k, (List.append_nil _).symm, rfl, hat.done⟩
  | succ n ih =>
      intro k s s' u h hat
      obtain ⟨ok, t, hone, hrest⟩ := runs_bind.mp h
      obtain ⟨es, hpiece, hd⟩ := writeSector_spec hone hat
      have hat' := hat.of_did hd
      cases ok with
      | false =>
          simp only [Bool.false_eq_true, if_false] at hrest
          obtain rfl := runs_setDrv hrest
          exact ⟨0, es, .stopped hpiece, hd.log, hd.mem, hat'.done⟩
      | true =>
          simp only [if_true] at hrest
          obtain ⟨u₁, t₁, hnext, hrest⟩ := runs_bind.mp hrest
          obtain ⟨hat₁, hlog₁, hmem₁⟩ := next_spec hnext hat'
          obtain ⟨m, rest, hserved, hlog, hmem, hcount⟩ := ih hrest hat₁
          rw [hmem₁, hd.mem] at hserved hmem
          refine ⟨m + 1, es ++ rest, .more hpiece hserved, ?_, hmem, ?_⟩
          · rw [hlog, hlog₁, hd.log, List.append_assoc]
          · have hk : k + 1 + m = k + (m + 1) := by omega
            rw [hcount, hk]

end Steps

end Sbc386Ex.Sd.SdSys

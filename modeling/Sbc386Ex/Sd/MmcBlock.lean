import Sbc386Ex.Sd.CardDetect

/-!
# Sbc386Ex.Sd.MmcBlock

Requests to the Coherent driver, from the partition's entry in `pparm` to the bytes in the
caller's buffer. Whatever the table says and wherever the card fails, a request is a run of
sectors from `p_base + b_bno` on (`Moved`); that these are in the partition is left to the
checks, which are sums of 32 bits.
-/

namespace Sbc386Ex.Sd.Mmc

open Prog
open SdSys (addressedBy gather)

variable {s s' : Sys Drv}

/-! ### One sector -/

/-- A command that worked. -/
def Worked : Ev → Prop
  | .touch _ _ _ d => d.isSome = true
  | .copy _ _ => False

instance : DecidablePred Worked
  | .touch _ _ _ _ => inferInstanceAs (Decidable (_ = _))
  | .copy _ _ => inferInstanceAs (Decidable False)

/-- How many of the commands worked. -/
def worked (es : List Ev) : Nat := es.countP (decide <| Worked ·)

/-- The 512 bytes at `p` are those the command carried. -/
def Holds (mem : Mem) (p : Nat) (b : Block) : Prop := ∀ i < 512, b i = mem (p + i)

/-- `es` was done for one sector and the 512 bytes at `p`. -/
structure Sector (write : Bool) (n p : Nat) (es : List Ev) (s : Sys Drv) (ok : Bool)
    (s' : Sys Drv) : Prop where
  log : s'.log = s.log ++ es
  drv : s'.drv = s.drv
  touch : ∀ e ∈ es, ∃ card d, e = .touch card write n d
  worked : worked es = if ok then 1 else 0
  data : ok = true → ∃ card b, .touch card write n (some b) ∈ es ∧ Holds s'.mem p b
  outside : ∀ a, ¬ (p ≤ a ∧ a < p + 512) → s'.mem a = s.mem a
  kept : write = true → s'.mem = s.mem

theorem gather_range {mem : Mem} {p : Nat} : Holds mem p (gather mem (List.range' p 512)) := by
  intro i hi
  have hget : (List.range' p 512)[i]? = some (p + i) := by simp [hi]
  rw [gather, List.getD_eq_getElem?_getD, hget, Option.getD_some]

/-- One command, where its bytes are in memory afterwards if it worked. -/
theorem Sector.single {write : Bool} {n p : Nat} {card : Option Nat} {d : Option Block}
    (hlog : s'.log = s.log ++ [.touch card write n d]) (hdrv : s'.drv = s.drv)
    (hdata : ∀ b, d = some b → Holds s'.mem p b)
    (hout : ∀ a, ¬ (p ≤ a ∧ a < p + 512) → s'.mem a = s.mem a)
    (hkept : write = true → s'.mem = s.mem) :
    Sector write n p [.touch card write n d] s d.isSome s' := by
  refine ⟨hlog, hdrv, fun e he => ⟨card, d, List.mem_singleton.mp he⟩, ?_, fun hsome => ?_, hout, hkept⟩
  · cases d <;> rfl
  · obtain ⟨b, rfl⟩ := Option.isSome_iff_exists.mp hsome
    exact ⟨card, b, List.mem_singleton_self _, hdata b rfl⟩

theorem sdRead_sector {lba : DWord} {p : Nat} {ok : Bool} (h : Runs (sdRead lba p) s ok s') :
    ∃ es, Sector false (addressedBy s.drv.ccs lba) p es s ok s' := by
  obtain ⟨d₀, s₁, hdrv, h⟩ := runs_bind.mp h
  obtain ⟨rfl, rfl⟩ := runs_getDrv hdrv
  obtain ⟨r, s₂, hcmd, h⟩ := runs_bind.mp h
  obtain ⟨d, hok, hbrought, -, -, rfl⟩ := runs_dataCommand hcmd
  obtain ⟨u, s₃, hmod, hpure⟩ := runs_bind.mp h
  obtain rfl := runs_modify.mp hmod
  obtain ⟨rfl, rfl⟩ := runs_pure.mp hpure
  rw [hok]
  refine ⟨_, Sector.single rfl rfl (fun b hb i hi => ?_) (fun a ha => if_neg ha) fun hw => by cases hw⟩
  change b i = if p ≤ p + i ∧ p + i < p + 512 then r.2 (p + i - p) else _
  rw [if_pos ⟨Nat.le_add_right p i, Nat.add_lt_add_left hi p⟩, hbrought b hb, Nat.add_sub_cancel_left]

theorem sdWrite_sector {lba : DWord} {p : Nat} {ok : Bool} (h : Runs (sdWrite lba p) s ok s') :
    ∃ es, Sector true (addressedBy s.drv.ccs lba) p es s ok s' := by
  obtain ⟨s₀, s₁, hget, hrest⟩ := runs_bind.mp h
  obtain ⟨rfl, rfl⟩ := runs_get.mp hget
  obtain ⟨r, s₂, hcmd, hpure⟩ := runs_bind.mp hrest
  obtain ⟨d, hok, hbrought, hbuf, -, rfl⟩ := runs_dataCommand hcmd
  obtain ⟨rfl, rfl⟩ := runs_pure.mp hpure
  rw [hok]
  refine ⟨_, Sector.single rfl rfl (fun b hb => ?_) (fun a _ => rfl) fun _ => rfl⟩
  rw [← hbrought b hb, hbuf]
  exact gather_range

/-- Tries that failed, and those after them. -/
theorem Sector.trans {write ok : Bool} {n p : Nat} {es es' : List Ev} {t : Sys Drv}
    (h : Sector write n p es s false t) (h' : Sector write n p es' t ok s') :
    Sector write n p (es ++ es') s ok s' := by
  refine ⟨?_, h'.drv.trans h.drv, fun e he => ?_, ?_, fun hok => ?_, fun a ha => ?_, fun hw => ?_⟩
  · rw [h'.log, h.log, List.append_assoc]
  · exact (List.mem_append.mp he).elim (h.touch e) (h'.touch e)
  · rw [Mmc.worked, List.countP_append]
    exact (congrArg₂ (· + ·) h.worked h'.worked).trans (Nat.zero_add _)
  · obtain ⟨card, b, hmem, hb⟩ := h'.data hok
    exact ⟨card, b, List.mem_append_right es hmem, hb⟩
  · rw [h'.outside a ha, h.outside a ha]
  · rw [h'.kept hw, h.kept hw]

theorem Sector.nothing {write : Bool} {n p : Nat} : Sector write n p [] s false s :=
  ⟨(List.append_nil _).symm, rfl, fun _ he => absurd he List.not_mem_nil, rfl,
    fun hf => (by cases hf), fun _ _ => rfl, fun _ => rfl⟩

theorem tryLoop_sector {write : Bool} {n p : Nat} {ccs : Bool} {cmd : MmcM Bool}
    (hcmd : ∀ {s ok s'}, s.drv.ccs = ccs → Runs cmd s ok s' → ∃ es, Sector write n p es s ok s') :
    ∀ {t : Nat} {s s' : Sys Drv} {ok : Bool}, s.drv.ccs = ccs → Runs (tryLoop cmd t) s ok s' →
      ∃ es, Sector write n p es s ok s'
  | 0, s, s', ok, _, h => by
      obtain ⟨rfl, rfl⟩ := runs_pure.mp h
      exact ⟨[], Sector.nothing⟩
  | t + 1, s, s', ok, hccs, h => by
      obtain ⟨r, u, hone, h⟩ := runs_bind.mp h
      obtain ⟨es, hes⟩ := hcmd hccs hone
      rcases runs_ite.mp h with ⟨rfl, h⟩ | ⟨hr, h⟩
      · obtain ⟨rfl, rfl⟩ := runs_pure.mp h
        exact ⟨es, hes⟩
      · obtain rfl : r = false := Bool.eq_false_of_not_eq_true hr
        obtain ⟨es', hes'⟩ := tryLoop_sector hcmd (by rw [hes.drv, hccs]) h
        exact ⟨es ++ es', hes.trans hes'⟩

/-! ### A run of sectors -/

/-- `es` was done for `n` sectors from `lba` on and the bytes from `addr` on: the first `m` of
them were moved. -/
structure Moved (write : Bool) (lba addr n m : Nat) (es : List Ev) (s s' : Sys Drv) : Prop where
  log : s'.log = s.log ++ es
  drv : s'.drv = s.drv
  touch : ∀ e ∈ es, ∃ k < n, ∃ card d, e = .touch card write (lba + k) d
  le : m ≤ n
  worked : worked es = m
  data : ∀ k < m, ∃ card b, .touch card write (lba + k) (some b) ∈ es ∧ Holds s'.mem (addr + 512 * k) b
  outside : ∀ a, ¬ (addr ≤ a ∧ a < addr + 512 * n) → s'.mem a = s.mem a
  kept : write = true → s'.mem = s.mem

variable {write : Bool} {lba addr n m : Nat}

theorem Moved.nothing : Moved write lba addr 0 0 [] s s :=
  ⟨(List.append_nil _).symm, rfl, fun _ he => absurd he List.not_mem_nil, Nat.le_refl 0, rfl,
    fun _ hk => absurd hk (Nat.not_lt_zero _), fun _ _ => rfl, fun _ => rfl⟩

/-- The sector that cannot be moved is the last. -/
theorem Moved.stop {es : List Ev} (h : Sector write lba addr es s false s') :
    Moved write lba addr (n + 1) 0 es s s' := by
  refine ⟨h.log, h.drv, fun e he => ⟨0, Nat.succ_pos n, h.touch e he⟩, Nat.zero_le _, h.worked,
    fun _ hk => absurd hk (Nat.not_lt_zero _), fun a ha => h.outside a fun hin => ha ?_, h.kept⟩
  exact ⟨hin.1, by omega⟩

theorem outside_both {a : Nat} (h : ¬ (addr ≤ a ∧ a < addr + 512 * (n + 1))) :
    ¬ (addr ≤ a ∧ a < addr + 512) ∧ ¬ (addr + 512 ≤ a ∧ a < addr + 512 + 512 * n) := by
  omega

/-- A sector, and the rest. -/
theorem Moved.next {es es' : List Ev} {t : Sys Drv} (h : Sector write lba addr es s true t)
    (h' : Moved write (lba + 1) (addr + 512) n m es' t s') :
    Moved write lba addr (n + 1) (m + 1) (es ++ es') s s' := by
  have hle := h'.le
  refine ⟨?_, h'.drv.trans h.drv, fun e he => ?_, Nat.succ_le_succ h'.le, ?_, fun k hk => ?_,
    fun a ha => ?_, fun hw => ?_⟩
  · rw [h'.log, h.log, List.append_assoc]
  · rcases List.mem_append.mp he with he | he
    · exact ⟨0, Nat.succ_pos n, h.touch e he⟩
    · obtain ⟨k, hk, card, d, rfl⟩ := h'.touch e he
      exact ⟨k + 1, Nat.succ_lt_succ hk, card, d, by rw [Nat.add_assoc, Nat.add_comm 1]⟩
  · rw [Mmc.worked, List.countP_append]
    exact (congrArg₂ (· + ·) h.worked h'.worked).trans (Nat.add_comm 1 m)
  · cases k with
    | zero =>
        -- the rest leaves the first 512 bytes alone
        obtain ⟨card, b, hmem, hb⟩ := h.data rfl
        refine ⟨card, b, List.mem_append_left es' hmem, fun i hi => ?_⟩
        rw [h'.outside _ (by omega)]
        exact hb i hi
    | succ k =>
        obtain ⟨card, b, hmem, hb⟩ := h'.data k (Nat.lt_of_succ_lt_succ hk)
        have hlba : lba + 1 + k = lba + (k + 1) := by omega
        have haddr : addr + 512 + 512 * k = addr + 512 * (k + 1) := by omega
        rw [hlba] at hmem
        rw [haddr] at hb
        exact ⟨card, b, List.mem_append_right es hmem, hb⟩
  · obtain ⟨hone, hrest⟩ := outside_both ha
    rw [h'.outside a hrest, h.outside a hone]
  · rw [h'.kept hw, h.kept hw]

/-- The card can be asked for every sector below `top`. -/
def Reaches (ccs : Bool) (top : Nat) : Prop := top ≤ if ccs then 2 ^ 32 else 2 ^ 23

instance {ccs : Bool} {top : Nat} : Decidable (Reaches ccs top) := inferInstanceAs (Decidable (_ ≤ _))

theorem Reaches.le {ccs : Bool} {top : Nat} (h : Reaches ccs top) : top ≤ 2 ^ 32 := by
  refine Nat.le_trans h ?_
  split
  · exact Nat.le_refl _
  · exact Nat.pow_le_pow_right (by decide) (by decide)

theorem addressedBy_eq {ccs : Bool} {sector : DWord} {top : Nat} (h : Reaches ccs top)
    (hlt : sector.toNat < top) : addressedBy ccs sector = sector.toNat := by
  cases ccs with
  | true => rfl
  | false =>
      have htop : top ≤ 2 ^ 23 := h
      change (sector <<< 9).toNat / 512 = sector.toNat
      rw [BitVec.toNat_shiftLeft, Nat.shiftLeft_eq, Nat.mod_eq_of_lt (by omega)]
      omega

theorem int_succ (m : Nat) : BSIZE + BitVec.ofNat 32 (512 * m) = BitVec.ofNat 32 (512 * (m + 1)) := by
  rw [Nat.mul_succ, Nat.add_comm, BitVec.ofNat_add]
  rfl

/-- What the loop makes of the request. -/
structure Looped (n m : Nat) (bp bp' : Buf) : Prop where
  resid : bp'.resid = bp.resid - BitVec.ofNat 32 (512 * m)
  err : bp'.err = true ↔ bp.err = true ∨ m < n

theorem blockLoop_moved {ccs : Bool} {top : Nat} (hreach : Reaches ccs top) :
    ∀ {n : Nat} {bno : DWord} {addr : Nat} {bp bp' : Buf} {s s' : Sys Drv}, s.drv.ccs = ccs →
      bno.toNat + n ≤ top → Runs (blockLoop n bno addr bp) s bp' s' →
        ∃ m es, Moved bp.write bno.toNat addr n m es s s' ∧ Looped n m bp bp'
  | 0, bno, addr, bp, bp', s, s', _, _, h => by
      obtain ⟨rfl, rfl⟩ := runs_pure.mp h
      exact ⟨0, [], Moved.nothing, (BitVec.sub_zero _).symm, by simp⟩
  | n + 1, bno, addr, bp, bp', s, s', hccs, htop, h => by
      have haddressed : addressedBy ccs bno = bno.toNat := addressedBy_eq hreach (by omega)
      obtain ⟨ok, t, htry, h⟩ := runs_bind.mp h
      have hsector : ∃ es, Sector bp.write bno.toNat addr es s ok t := by
        refine tryLoop_sector (fun {u r u'} hu hcmd => ?_) hccs htry
        rw [← haddressed, ← hu]
        rcases runs_ite.mp hcmd with ⟨hw, hcmd⟩ | ⟨hw, hcmd⟩
        · rw [hw]
          exact sdWrite_sector hcmd
        · rw [Bool.eq_false_of_not_eq_true hw]
          exact sdRead_sector hcmd
      obtain ⟨es, hes⟩ := hsector
      rcases runs_ite.mp h with ⟨rfl, h⟩ | ⟨hok, h⟩
      · by_cases hn : n = 0
        · subst hn
          obtain ⟨rfl, rfl⟩ := runs_pure.mp h
          refine ⟨1, es ++ [], Moved.next hes Moved.nothing, rfl, by simp⟩
        have hone : (1 : DWord).toNat = 1 := rfl
        have htop32 := hreach.le
        have hsucc : (bno + 1).toNat = bno.toNat + 1 := by
          rw [BitVec.toNat_add, hone, Nat.mod_eq_of_lt (by omega)]
        obtain ⟨m, es', hes', hresid, herr⟩ :=
          blockLoop_moved hreach (by rw [hes.drv, hccs]) (by omega) h
        rw [hsucc] at hes'
        refine ⟨m + 1, es ++ es', Moved.next hes hes', ?_, ?_⟩
        · rw [hresid, BitVec.sub_sub, int_succ]
        · rw [Nat.succ_lt_succ_iff]
          exact herr
      · obtain rfl : ok = false := Bool.eq_false_of_not_eq_true hok
        obtain ⟨rfl, rfl⟩ := runs_pure.mp h
        exact ⟨0, es, Moved.stop hes, (BitVec.sub_zero _).symm, by simp⟩

/-! ### Requests -/

/-- A request as it should be answered in `s`, by the entry of its partition in `pparm`, where
`Bad` is what makes it an error. The driver changes nothing but what it knows of card detect. -/
structure Handled (bp bp' : Buf) (s s' : Sys Drv) (Bad : Prop) : Prop where
  touches : ∃ es, s'.log = s.log ++ es ∧
    (∀ e ∈ es, ∃ k card d, (s.drv.pparm (part bp.dev)).base.toNat ≤ k ∧
      k < (s.drv.pparm (part bp.dev)).base.toNat + (s.drv.pparm (part bp.dev)).size.toNat ∧
        e = .touch card bp.write k d) ∧
    bp'.resid.toNat + 512 * worked es = bp.count.toNat ∧
    ∀ k < worked es, ∃ card b, .touch card bp.write
      ((s.drv.pparm (part bp.dev)).base.toNat + bp.bno.toNat + k) (some b) ∈ es ∧
        Holds s'.mem (bp.paddr + 512 * k) b
  err : bp'.err = true ↔ bp.err = true ∨ ¬ bp.atEnd s.drv = true ∧ Bad
  outside : ∀ a, ¬ (bp.paddr ≤ a ∧ a < bp.paddr + bp.count.toNat) → s'.mem a = s.mem a
  kept : bp.write = true → s'.mem = s.mem
  drv : s'.drv = { s.drv with up := s'.drv.up }

theorem noteCard_known {u : Unit} (h : Runs noteCard s u s') :
    s'.log = s.log ∧ s'.mem = s.mem ∧ s'.drv = { s.drv with up := s'.drv.up } := by
  obtain ⟨isin, t, hcard, h⟩ := runs_bind.mp h
  obtain ⟨-, rfl⟩ := runs_cardIn hcard
  rcases runs_ite.mp h with ⟨-, h⟩ | ⟨-, h⟩
  · rw [runs_setDrv h]
    exact ⟨rfl, rfl, rfl⟩
  · obtain ⟨-, rfl⟩ := runs_pure.mp h
    exact ⟨rfl, rfl, rfl⟩

/-- A request that comes back without a command. -/
theorem handled_untouched {bp bp' : Buf} {Bad : Prop} (hlog : s'.log = s.log) (hmem : s'.mem = s.mem)
    (hdrv : s'.drv = { s.drv with up := s'.drv.up }) (hresid : bp'.resid = bp.count)
    (herr : bp'.err = true ↔ bp.err = true ∨ ¬ bp.atEnd s.drv = true ∧ Bad) :
    Handled bp bp' s s' Bad := by
  refine ⟨⟨[], ?_, fun _ he => absurd he List.not_mem_nil, ?_, fun _ hk => absurd hk (Nat.not_lt_zero _)⟩,
    herr, fun a _ => by rw [hmem], fun _ => hmem, hdrv⟩
  · rw [hlog, List.append_nil]
  · rw [hresid]
    rfl

/-- The sectors a request asks for, by its count. -/
def Buf.sectors (bp : Buf) : Nat := bp.count.toNat / 512

/-- What the checks let through, where the sum they look at is not cut short. -/
theorem of_not_refused {bp : Buf} {d : Drv} (h : ¬ bp.refused d = true)
    (hsum : bp.bno.toNat + bp.count.toNat / 512 < 2 ^ 32) :
    bp.bno.toNat + bp.sectors ≤ (d.pparm (part bp.dev)).size.toNat ∧
      bp.count.toNat = 512 * bp.sectors ∧ (bp.count / BSIZE).toNat = bp.sectors ∧ bp.count ≠ 0 := by
  have hbsize : BSIZE.toNat = 512 := rfl
  simp only [Buf.refused, decide_eq_true_eq, not_or, Decidable.not_not] at h
  obtain ⟨-, hsize, hmod, hzero⟩ := h
  have hdiv : (bp.count / BSIZE).toNat = bp.sectors := by
    rw [BitVec.toNat_udiv, hbsize, Buf.sectors]
  have hadd : (bp.bno + bp.count / BSIZE).toNat = bp.bno.toNat + bp.sectors := by
    rw [BitVec.toNat_add, hdiv]
    exact Nat.mod_eq_of_lt hsum
  have hle : (bp.bno + bp.count / BSIZE).toNat ≤ (d.pparm (part bp.dev)).size.toNat :=
    not_lt.mp hsize
  have hmod' : bp.count.toNat % 512 = 0 := by
    have heq := congrArg BitVec.toNat hmod
    rwa [BitVec.toNat_umod, hbsize] at heq
  refine ⟨by omega, ?_, hdiv, hzero⟩
  have hdiv' := Nat.div_add_mod bp.count.toNat 512
  rw [Buf.sectors]
  omega

/-- A request is answered as it should be, wherever the card fails: an empty one is an error like
one that falls short. -/
theorem mmcblock_handled {bp bp' : Buf} (hrun : Runs (mmcblock bp) s bp' s')
    (hsum : bp.bno.toNat + bp.count.toNat / 512 < 2 ^ 32)
    (hreach : Reaches s.drv.ccs ((s.drv.pparm (part bp.dev)).base.toNat +
      (s.drv.pparm (part bp.dev)).size.toNat)) :
    Handled bp bp' s s' (bp.count = 0 ∨ bp'.resid ≠ 0) := by
  obtain ⟨d, t, hdrv, h⟩ := runs_bind.mp hrun
  obtain ⟨rfl, rfl⟩ := runs_getDrv hdrv
  rcases runs_ite.mp h with ⟨hend, h⟩ | ⟨hend, h⟩
  · obtain ⟨rfl, rfl⟩ := runs_pure.mp h
    exact handled_untouched rfl rfl rfl rfl ⟨.inl, fun h => h.resolve_right fun h => h.1 hend⟩
  obtain ⟨u, t₁, hnote, h⟩ := runs_bind.mp h
  obtain ⟨hlog, hmem, hknown⟩ := noteCard_known hnote
  obtain ⟨d, t₂, hdrv, h⟩ := runs_bind.mp h
  obtain ⟨rfl, rfl⟩ := runs_getDrv hdrv
  have hpparm : t₂.drv.pparm = t.drv.pparm := by rw [hknown]
  have hccs : t₂.drv.ccs = t.drv.ccs := by rw [hknown]
  rcases runs_ite.mp h with ⟨-, h⟩ | ⟨href, h⟩
  · obtain ⟨rfl, rfl⟩ := runs_pure.mp h
    refine handled_untouched hlog hmem hknown rfl (iff_of_true rfl (.inr ⟨hend, ?_⟩))
    exact or_iff_not_imp_left.mpr id
  obtain ⟨hle, hcount, hdiv, hne⟩ := of_not_refused href hsum
  rw [hpparm] at hle h
  rw [hdiv] at h
  have htop : Reaches t₂.drv.ccs _ := hccs ▸ hreach
  have htop32 : (t.drv.pparm (part bp.dev)).base.toNat + (t.drv.pparm (part bp.dev)).size.toNat ≤ 2 ^ 32 :=
    htop.le
  have hpos : 0 < bp.sectors := Nat.pos_of_ne_zero fun h0 => hne (BitVec.eq_of_toNat_eq (by
    rw [hcount, h0]; rfl))
  have hfirst : ((t.drv.pparm (part bp.dev)).base + bp.bno).toNat =
      (t.drv.pparm (part bp.dev)).base.toNat + bp.bno.toNat := by
    rw [BitVec.toNat_add, Nat.mod_eq_of_lt (by omega)]
  obtain ⟨m, es, hmoved, hresid, herr⟩ :=
    blockLoop_moved htop rfl (by rw [hfirst]; omega) h
  rw [hfirst] at hmoved
  have hmul : 512 * m ≤ bp.count.toNat := hcount ▸ Nat.mul_le_mul_left _ hmoved.le
  have hint : (BitVec.ofNat 32 (512 * m)).toNat = 512 * m := by
    rw [BitVec.toNat_ofNat, Nat.mod_eq_of_lt (lt_of_le_of_lt hmul bp.count.isLt)]
  have hleft : bp'.resid.toNat = bp.count.toNat - 512 * m := by
    rw [hresid, BitVec.toNat_sub_of_le (by rw [BitVec.le_def, hint]; exact hmul), hint]
  refine ⟨⟨es, ?_, fun e he => ?_, ?_, ?_⟩, ?_, fun a ha => ?_, fun hw => ?_, ?_⟩
  · rw [hmoved.log, hlog]
  · obtain ⟨k, hk, card, d, rfl⟩ := hmoved.touch e he
    exact ⟨_, card, d, by omega, by omega, rfl⟩
  · rw [hmoved.worked, hleft]
    omega
  · rw [hmoved.worked]
    exact hmoved.data
  · rw [herr, or_iff_right hne]
    refine or_congr_right ⟨fun hlt => ⟨hend, fun h0 => ?_⟩, fun h => ?_⟩
    · have hzero : bp'.resid.toNat = 0 := by rw [h0]; rfl
      omega
    · have hle' := hmoved.le
      refine Nat.lt_of_le_of_ne hle' fun heq => h.2 (BitVec.eq_of_toNat_eq ?_)
      rw [hleft, hcount, heq, Nat.sub_self]
      rfl
  · rw [hmoved.outside a (hcount ▸ ha), hmem]
  · rw [hmoved.kept hw, hmem]
  · rw [hmoved.drv, hknown]

/-- An open of a partition that succeeds has checked it. -/
theorem openWith_checked {fdisk : MmcM Unit} {minor : Byte} (h : Runs (openWith fdisk minor) s none s')
    (hpart : part minor ≠ WHOLE) : ∃ t, Runs (checkPart minor) t none s' := by
  rcases runs_ite.mp h with ⟨-, h⟩ | ⟨-, h⟩
  · cases (runs_pure.mp h).1
  obtain ⟨isin, t, -, h⟩ := runs_bind.mp h
  rcases runs_ite.mp h with ⟨-, h⟩ | ⟨-, h⟩
  · obtain ⟨u, t₁, -, h⟩ := runs_bind.mp h
    cases (runs_pure.mp h).1
  obtain ⟨ok, t₁, -, h⟩ := runs_bind.mp h
  rcases runs_ite.mp h with ⟨-, h⟩ | ⟨-, h⟩
  · cases (runs_pure.mp h).1
  rcases runs_ite.mp h with ⟨hwhole, -⟩ | ⟨-, h⟩
  · exact absurd hwhole hpart
  obtain ⟨d, t₂, -, h⟩ := runs_bind.mp h
  rcases runs_ite.mp h with ⟨-, h⟩ | ⟨-, h⟩
  · obtain ⟨u, t₃, -, h⟩ := runs_bind.mp h
    exact ⟨t₃, h⟩
  · exact ⟨t₂, h⟩

theorem checkPart_none {minor : Byte} (h : Runs (checkPart minor) s none s') :
    s' = s ∧ ((s.drv.pparm (part minor)).base + (s.drv.pparm (part minor)).size).toNat ≤
      (s.drv.pparm WHOLE).size.toNat := by
  obtain ⟨d, t, hdrv, h⟩ := runs_bind.mp h
  obtain ⟨rfl, rfl⟩ := runs_getDrv hdrv
  rcases runs_ite.mp h with ⟨-, h⟩ | ⟨-, h⟩
  · cases (runs_pure.mp h).1
  rcases runs_ite.mp h with ⟨-, h⟩ | ⟨hfits, h⟩
  · cases (runs_pure.mp h).1
  · exact ⟨(runs_pure.mp h).2, not_lt.mp hfits⟩

/-- A partition is open when its sectors are on the card: so the card can be asked for all of
them, if the sum the open looks at is not cut short and the card has no more sectors than its
kind of address has room for. -/
theorem mmcopen_reaches {cache : BufferCache} {minor : Byte} (h : Runs (mmcopen cache minor) s none s')
    (hpart : part minor ≠ WHOLE) (hcard : Reaches s'.drv.ccs (s'.drv.pparm WHOLE).size.toNat)
    (hsum : (s'.drv.pparm (part minor)).base.toNat + (s'.drv.pparm (part minor)).size.toNat < 2 ^ 32) :
    Reaches s'.drv.ccs
      ((s'.drv.pparm (part minor)).base.toNat + (s'.drv.pparm (part minor)).size.toNat) := by
  obtain ⟨t, hcheck⟩ := openWith_checked h hpart
  obtain ⟨rfl, hfits⟩ := checkPart_none hcheck
  rw [BitVec.toNat_add, Nat.mod_eq_of_lt hsum] at hfits
  exact Nat.le_trans hfits hcard

/-- A card of 1024 sectors that stays in and works. -/
def steady : World where
  before _ := []
  during _ := []
  answer _ := ⟨true, true, true, fun i => if i = 0 then 0x40 else 0⟩

/-- The driver with the whole of it open. -/
def steadyOpen : Sys Drv := (opened (loaded steady)).2

/-- What a request comes to. -/
def requested (bp : Buf) (s : Sys Drv) : Buf × Sys Drv :=
  match (mmcblock bp).run s with
  | .ok r => r
  | .error e => e.elim

theorem runs_requested (bp : Buf) (s : Sys Drv) :
    Runs (mmcblock bp) s (requested bp s).1 (requested bp s).2 := by
  obtain ⟨bp', s', hrun⟩ := returns (mmcblock bp) s
  have heq : (mmcblock bp).run s = .ok (bp', s') := hrun
  rw [requested, heq]
  exact heq

/-- A read of two sectors from block 5, and one of none. -/
def twoSectors : Buf := ⟨XDEV, false, 5, 1024, 0x1000, 0, false⟩
def noSectors : Buf := ⟨XDEV, false, 5, 0, 0x1000, 0, false⟩

theorem mmcblock_handled_twoSectors :
    Handled twoSectors (requested twoSectors steadyOpen).1 steadyOpen
      (requested twoSectors steadyOpen).2
      (twoSectors.count = 0 ∨ (requested twoSectors steadyOpen).1.resid ≠ 0) :=
  mmcblock_handled (runs_requested twoSectors steadyOpen) (by decide) (by decide)

/-- A request of no bytes ends with an error, though none of it is left. -/
theorem mmcblock_empty_err :
    (opened (loaded steady)).1 = none ∧
      ¬ Handled noSectors (requested noSectors steadyOpen).1 steadyOpen
        (requested noSectors steadyOpen).2 ((requested noSectors steadyOpen).1.resid ≠ 0) := by
  refine ⟨by decide, fun h => ?_⟩
  rcases h.err.mp (by decide) with hbefore | ⟨-, hresid⟩
  · cases hbefore
  · exact hresid (by decide)

/-- The sum the check looks at can be cut to 32 bits, and then it lets the request through. -/
example : ({ twoSectors with bno := 0xFFFFFFFF, count := 512 } : Buf).refused steadyOpen.drv = false := by
  decide

end Sbc386Ex.Sd.Mmc

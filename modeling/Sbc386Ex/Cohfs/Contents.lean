import Sbc386Ex.Cohfs.Inodes
import Sbc386Ex.Cohfs.Layout

/-!
# Sbc386Ex.Cohfs.Contents

Writing a file's contents: its former blocks go back to the free list, the new ones and the
blocks of pointers to them come off it in order, and nothing else of the image changes.
-/

namespace Sbc386Ex.Cohfs

open Raising

/-- What taking blocks and giving them back may change: the free list, and the blocks `ts`. -/
structure Fsw.Changes (ts : List Nat) (fs fs' : Fsw) : Prop where
  fields : fs' = { fs with disk := fs'.disk, nfree := fs'.nfree, free := fs'.free, tfree := fs'.tfree }
  base : fs'.disk.base = fs.disk.base
  length : fs'.disk.bytes.length = fs.disk.bytes.length
  block : ∀ b, b ∉ ts → fs'.disk.block b = fs.disk.block b
  iread : ∀ ino, Image.InTable fs.isize ino → fs'.disk.iread ino = fs.disk.iread ino

variable {fs fs' fs'' : Fsw} {ts ts' l own : List Nat} {b : Nat} {new : List Byte}

namespace Fsw.Changes

theorem isize (h : fs.Changes ts fs') : fs'.isize = fs.isize := by rw [h.fields]

theorem refl (fs : Fsw) : fs.Changes [] fs := ⟨rfl, rfl, rfl, fun _ _ => rfl, fun _ _ => rfl⟩

theorem mono (h : fs.Changes ts fs') (hts : ts ⊆ ts') : fs.Changes ts' fs' :=
  ⟨h.fields, h.base, h.length, fun b hb => h.block b fun hmem => hb (hts hmem), h.iread⟩

theorem trans (h : fs.Changes ts fs') (h' : fs'.Changes ts' fs'') : fs.Changes (ts ++ ts') fs'' where
  fields := by rw [h'.fields, h.fields]
  base := h'.base.trans h.base
  length := h'.length.trans h.length
  block b hb := by
    rw [List.mem_append, not_or] at hb
    rw [h'.block b hb.2, h.block b hb.1]
  iread ino hino := by rw [h'.iread ino (by rwa [h.isize]), h.iread ino hino]

/-- One block is written. -/
theorem of_wrote (hfields : fs' = { fs with
      disk := fs'.disk, nfree := fs'.nfree, free := fs'.free, tfree := fs'.tfree })
    (hnew : new.length = BSIZE) (hwrote : fs.disk.Wrote b new fs'.disk) (hb : fs.isize ≤ b) :
    fs.Changes [b] fs' where
  fields := hfields
  base := hwrote.base
  length := hwrote.put.length
  block _ hn := hwrote.block_ne hnew fun hnb => hn (List.mem_singleton.mpr hnb)
  iread _ hino := hwrote.iread hino hb

end Fsw.Changes

/-! ### Taking blocks -/

/-- A pile is as it was where only other blocks are written. -/
theorem Fsw.Pool.withDisk (h : fs.Pool l) {d : Image} (hbase : d.base = fs.disk.base)
    (hlen : d.bytes.length = fs.disk.bytes.length) (hblock : ∀ b ∈ l, d.block b = fs.disk.block b) :
    (fs.withDisk d).Pool l where
  isize := h.isize
  room := h.room
  fsize := h.fsize
  size := by
    rw [Fsw.withDisk_disk, hbase, hlen]
    exact h.size
  pile := by
    obtain ⟨n, hn, hpile⟩ := h.pile
    exact ⟨n, hn, hpile.transfer fun b hb => Image.node_congr (hblock b hb)⟩
  length := h.length
  longs := h.longs
  nodup := h.nodup
  range := h.range
  total := h.total

theorem wblock_pool (h : fs.Pool l) (hb : fs.InFiles b) (hout : b ∉ l) (hnew : new.length ≤ BSIZE) :
    ∃ d, outcome (Fsw.wblock b new) fs = (.ok (), fs.withDisk d) ∧ (fs.withDisk d).Pool l ∧
      fs.Changes [b] (fs.withDisk d) ∧ d.block b = ljust new BSIZE := by
  have hhold := h.holds hb.2
  have hwrote := Image.wblock_wrote hhold hnew
  have hlen : (ljust new BSIZE).length = BSIZE := length_ljust hnew
  refine ⟨_, outcome_wblock b new fs, h.withDisk hwrote.base hwrote.put.length fun c hc =>
    hwrote.block_ne hlen fun hcb => hout (hcb ▸ hc), .of_wrote rfl hlen hwrote hb.1,
    hwrote.block_self hhold hlen⟩

/-- `p` takes the next free block, where there is one, and puts there what `Q` says. -/
structure Takes (p : Op Nat) (Q : List Byte → Prop) : Prop where
  some : ∀ {fs b l}, fs.Pool (b :: l) → ∃ fs', outcome p fs = (.ok b, fs') ∧ fs'.Pool l ∧
    fs.Changes [b] fs' ∧ Q (fs'.disk.block b)
  none : ∀ {fs}, fs.Pool [] → ∃ e fs', outcome p fs = (.error e, fs')

theorem balloc_changes (h : fs.Pool (b :: l)) :
    ∃ fs', outcome Fsw.balloc fs = (.ok b, fs') ∧ fs'.Pool l ∧ fs.Changes [b] fs' := by
  obtain ⟨nfree, free, hrun, hpool⟩ := balloc_pool h
  have hb := h.range b List.mem_cons_self
  exact ⟨_, hrun, hpool, .of_wrote rfl (length_ljust (Nat.zero_le _))
    (Fsw.took_wrote (h.holds hb.2) nfree free) hb.1⟩

/-- A block that is taken and filled. -/
theorem takes_of_fill {p : Op Nat} {fill : Nat → Op Nat} (hp : p = (do fill (← Fsw.balloc)))
    (hfill : ∀ b fs, outcome (fill b) fs = outcome (do Fsw.wblock b new; return b) fs)
    (hnew : new.length ≤ BSIZE) : Takes p (· = ljust new BSIZE) := by
  subst hp
  refine ⟨fun {fs b l} h => ?_, fun {fs} h => ?_⟩
  · obtain ⟨fs₁, htake, hpool, hchanges⟩ := balloc_changes h
    have hb : fs₁.InFiles b := by
      have hrange := h.range b List.mem_cons_self
      rw [Fsw.InFiles, hchanges.fields]
      exact hrange
    obtain ⟨d, hwrite, hpool', hchanges', hblock⟩ :=
      wblock_pool hpool hb (List.nodup_cons.mp h.nodup).1 hnew
    refine ⟨fs₁.withDisk d, ?_, hpool', (hchanges.trans hchanges').mono (by simp), hblock⟩
    rw [outcome_bind_ok htake, hfill, outcome_bind_ok hwrite, outcome_pure]
  · obtain ⟨nfree, hfull, -⟩ := balloc_pool_nil h
    exact ⟨_, _, outcome_bind_error hfull _⟩

theorem writeBlock_takes {piece : List Byte} (h : piece.length ≤ BSIZE) :
    Takes (Fsw.writeBlock piece) (· = ljust piece BSIZE) :=
  takes_of_fill rfl (fun _ _ => rfl) h

theorem long_zeros (n o : Nat) : long (List.replicate n (0 : Byte)) o = 0 := by
  simp [long, word]

/-- The block numbers `ps` and zeros, as `_indirect` packs them. -/
theorem putPtrs {ps : List Nat} (hlen : ps.length ≤ NIND) (hps : ∀ p ∈ ps, p ≠ 0 ∧ p < 2 ^ 32) :
    ∃ blk, ps.zipIdx.foldlM (fun b (p, i) => putpdp b (4 * i) p) (List.replicate BSIZE (0 : Byte)) = .ok blk ∧
      Table blk ps := by
  have hzeros : (List.replicate BSIZE (0 : Byte)).length = 512 := List.length_replicate
  have hmany : ps.length ≤ 128 := hlen
  obtain ⟨blk, hfold, hsize, hkept, hplaces⟩ := putPdps ps (b := List.replicate BSIZE 0) (o := 0) (by omega)
  simp only [Nat.zero_add] at hfold hkept hplaces
  refine ⟨blk, hfold, hsize.trans hzeros, ?_, fun p hp => (hps p hp).1⟩
  refine List.ext_getElem (by simp [ptrs, hlen]) fun i hi _ => ?_
  simp only [ptrs, List.getElem_map, List.getElem_range]
  by_cases hin : i < ps.length
  · rw [List.getElem_append_left hin, hplaces i hin (getD_lt (by decide) (fun p hp => (hps p hp).2) i),
      List.getD_eq_getElem _ _ hin]
  · -- past them the block is as it began
    rw [List.getElem_append_right (Nat.le_of_not_lt hin), List.getElem_replicate, ← long_zeros BSIZE (4 * i)]
    exact long_congr fun j hj _ => hkept j (.inr (by omega))

theorem Takes.mono {p : Op Nat} {Q R : List Byte → Prop} (h : Takes p Q) (hQ : ∀ blk, Q blk → R blk) :
    Takes p R where
  some hpool := by
    obtain ⟨fs', hrun, hpool', hchanges, hblock⟩ := h.some hpool
    exact ⟨fs', hrun, hpool', hchanges, hQ _ hblock⟩
  none := h.none

theorem indirect_takes {ps : List Nat} (hlen : ps.length ≤ NIND) (hps : ∀ p ∈ ps, p ≠ 0 ∧ p < 2 ^ 32) :
    Takes (Fsw.indirect ps) (Table · ps) := by
  obtain ⟨blk, hblk, htable⟩ := putPtrs hlen hps
  refine (@takes_of_fill blk (Fsw.indirect ps) _ rfl
    (fun b fs => by rw [outcome_bind, outcome_reading, hblk]) htable.length.le).mono fun b hb => ?_
  rwa [hb, ljust_self htable.length]

section Several

variable {α : Type} {f : α → Op Nat} {Q : α → List Byte → Prop}

/-- Blocks taken in turn, each for what is to be in it. -/
theorem mapM_takes : ∀ {as : List α} {bs l : List Nat} {fs : Fsw}, (∀ a ∈ as, Takes (f a) (Q a)) →
    fs.Pool (bs ++ l) → bs.length = as.length → ∃ fs', outcome (as.mapM f) fs = (.ok bs, fs') ∧
      fs'.Pool l ∧ fs.Changes bs fs' ∧ List.Forall₂ (fun b a => Q a (fs'.disk.block b)) bs as := by
  intro as
  induction as with
  | nil =>
      intro bs l fs _ h hlen
      obtain rfl : bs = [] := List.length_eq_zero_iff.mp hlen
      exact ⟨fs, rfl, h, .refl fs, .nil⟩
  | cons a as ih =>
      intro bs l fs htakes h hlen
      obtain _ | ⟨b, bs⟩ := bs
      · cases hlen
      obtain ⟨fs₁, hfirst, hpool, hchanges, hblock⟩ := (htakes a List.mem_cons_self).some h
      obtain ⟨fs', hrest, hpool', hchanges', hblocks⟩ :=
        ih (fun x hx => htakes x (List.mem_cons_of_mem _ hx)) hpool (Nat.succ.inj hlen)
      refine ⟨fs', ?_, hpool', hchanges.trans hchanges', .cons ?_ hblocks⟩
      · rw [List.mapM_cons, outcome_bind_ok hfirst, outcome_bind_ok hrest, outcome_pure]
      · -- the others are not the first, which is no longer free
        have hout : b ∉ bs := fun hb => (List.nodup_cons.mp h.nodup).1 (List.mem_append_left _ hb)
        rwa [hchanges'.block b hout]

/-- With too few blocks free it raises. -/
theorem mapM_takes_few : ∀ {as : List α} {l : List Nat} {fs : Fsw}, (∀ a ∈ as, Takes (f a) (Q a)) →
    fs.Pool l → l.length < as.length → ∃ e fs', outcome (as.mapM f) fs = (.error e, fs') := by
  intro as
  induction as with
  | nil => exact fun _ _ hlen => absurd hlen (Nat.not_lt_zero _)
  | cons a as ih =>
      intro l fs htakes h hlen
      rw [List.mapM_cons]
      obtain _ | ⟨b, l⟩ := l
      · obtain ⟨e, fs', herror⟩ := (htakes a List.mem_cons_self).none h
        exact ⟨e, fs', outcome_bind_error herror _⟩
      · obtain ⟨fs₁, hfirst, hpool, -⟩ := (htakes a List.mem_cons_self).some h
        obtain ⟨e, fs', herror⟩ :=
          ih (fun x hx => htakes x (List.mem_cons_of_mem _ hx)) hpool (Nat.lt_of_succ_lt_succ hlen)
        exact ⟨e, fs', by rw [outcome_bind_ok hfirst, outcome_bind_error herror]⟩

/-- Where it returns, what it returns was at the head of the list. -/
theorem of_mapM_takes {as : List α} (htakes : ∀ a ∈ as, Takes (f a) (Q a)) (h : fs.Pool l) {bs : List Nat}
    (hrun : outcome (as.mapM f) fs = (.ok bs, fs')) : ∃ l', l = bs ++ l' ∧ bs.length = as.length ∧
      fs'.Pool l' ∧ fs.Changes bs fs' ∧ List.Forall₂ (fun b a => Q a (fs'.disk.block b)) bs as := by
  rcases Nat.lt_or_ge l.length as.length with hfew | hmany
  · obtain ⟨e, s, herror⟩ := mapM_takes_few htakes h hfew
    rw [herror] at hrun
    cases hrun
  · have hlen : (l.take as.length).length = as.length := by rw [List.length_take, Nat.min_eq_left hmany]
    rw [← List.take_append_drop as.length l] at h
    obtain ⟨t, hrun', hpool, hchanges, hblocks⟩ := mapM_takes htakes h hlen
    rw [hrun'] at hrun
    cases hrun
    exact ⟨_, (List.take_append_drop ..).symm, hlen, hpool, hchanges, hblocks⟩

/-- The same for one block. -/
theorem of_takes {p : Op Nat} {Q : List Byte → Prop} (htakes : Takes p Q) (h : fs.Pool l) {b : Nat}
    (hrun : outcome p fs = (.ok b, fs')) : ∃ l', l = b :: l' ∧ fs'.Pool l' ∧ fs.Changes [b] fs' ∧
      Q (fs'.disk.block b) := by
  obtain _ | ⟨c, l⟩ := l
  · obtain ⟨e, s, herror⟩ := htakes.none h
    rw [herror] at hrun
    cases hrun
  · obtain ⟨t, hrun', hpool, hchanges, hblock⟩ := htakes.some h
    rw [hrun'] at hrun
    cases hrun
    exact ⟨l, rfl, hpool, hchanges, hblock⟩

end Several

/-! ### The new contents -/

/-- Block numbers that are in use, and fit a long. -/
def Named (bs : List Nat) : Prop := ∀ b ∈ bs, b ≠ 0 ∧ b < 2 ^ 32

theorem Fsw.Pool.named (h : fs.Pool l) : Named l := fun b hb => by
  have hrange := h.range b hb
  have hfsize := h.fsize
  exact ⟨h.ne_zero hrange, hrange.2.trans hfsize⟩

theorem of_setSingle {ip ip' : Ip} {A rest : List Nat} (hA : A.length = ND) (hip : ip.addr = A ++ [0, 0, 0])
    (hrest : Named rest) (h : fs.Pool l) (hrun : outcome (Fsw.setSingle ip rest) fs = (.ok ip', fs')) :
    ∃ s sins l', l = sins ++ l' ∧ fs'.Pool l' ∧ fs.Changes sins fs' ∧ One fs'.disk s (rest.take NIND) sins ∧
      ip' = { ip with addr := A ++ [s, 0, 0] } := by
  rw [Fsw.setSingle] at hrun
  by_cases hnil : rest = []
  · rw [if_pos hnil, outcome_pure] at hrun
    cases hrun
    exact ⟨0, [], l, rfl, h, .refl _, by rw [hnil]; exact .none, by rw [← hip]⟩
  rw [if_neg hnil] at hrun
  obtain ⟨s, t, htake, hrun⟩ := of_outcome_bind hrun
  cases hrun
  obtain ⟨l', rfl, hpool, hchanges, htable⟩ := of_takes
    (indirect_takes (List.length_take_le _ _) fun p hp => hrest p (List.mem_of_mem_take hp)) h htake
  refine ⟨s, [s], l', rfl, hpool, hchanges, .some (h.named s List.mem_cons_self).1 (fun hnone => ?_) htable, ?_⟩
  · exact hnil ((List.take_eq_nil_iff.mp hnone).resolve_left (by decide))
  · rw [hip, List.set_append_right _ _ hA.le, hA]
    rfl

theorem of_setDouble {ip ip' : Ip} {A rest : List Nat} {s : Nat} (hA : A.length = ND)
    (hip : ip.addr = A ++ [s, 0, 0]) (hrest : Named rest) (h : fs.Pool l)
    (hrun : outcome (Fsw.setDouble ip rest) fs = (.ok ip', fs')) :
    ∃ t tins l', l = tins ++ l' ∧ fs'.Pool l' ∧ fs.Changes tins fs' ∧
      Two fs'.disk t (rest.take (NIND * NIND)) tins ∧ ip' = { ip with addr := A ++ [s, t, 0] } := by
  rw [Fsw.setDouble] at hrun
  by_cases hnil : rest = []
  · rw [if_pos hnil, outcome_pure] at hrun
    cases hrun
    exact ⟨0, [], l, rfl, h, .refl _, by rw [hnil]; exact .none, by rw [← hip]⟩
  rw [if_neg hnil] at hrun
  obtain ⟨firsts, fs₁, hfirsts, hrun⟩ := of_outcome_bind hrun
  obtain ⟨t, fs₂, htop, hrun⟩ := of_outcome_bind hrun
  cases hrun
  have hpieces : ∀ piece ∈ Fsw.chunks NIND (rest.take (NIND * NIND)),
      Takes (Fsw.indirect piece) (Table · piece) :=
    fun piece hp => by
      obtain ⟨hlen, -, hsub⟩ := mem_chunks (by decide) hp
      exact indirect_takes hlen fun p hp => hrest p (List.mem_of_mem_take (hsub hp))
  obtain ⟨l₁, rfl, hcount, hpool₁, hchanges₁, hbelow⟩ := of_mapM_takes hpieces h hfirsts
  have hfirst : Named firsts := fun b hb => h.named b (List.mem_append_left _ hb)
  have hfew : firsts.length ≤ NIND := by
    have hlen : (rest.take (NIND * NIND)).length ≤ 16384 := List.length_take_le _ _
    have hnind : NIND = 128 := rfl
    rw [hcount, length_chunks]
    generalize (rest.take (NIND * NIND)).length = n at hlen
    rw [hnind]
    omega
  obtain ⟨l', rfl, hpool, hchanges, htable⟩ := of_takes (indirect_takes hfew hfirst) hpool₁ htop
  have hout : t ∉ firsts := fun ht =>
    (List.nodup_append.mp h.nodup).2.2 t ht t List.mem_cons_self rfl
  refine ⟨t, firsts ++ [t], l', by rw [List.append_assoc]; rfl, hpool, hchanges₁.trans hchanges,
    .some (hpool₁.named t List.mem_cons_self).1 (fun hnone => ?_) htable ?_, ?_⟩
  · exact hnil ((List.take_eq_nil_iff.mp hnone).resolve_left (by decide))
  · -- the last block is not one of those it points to
    refine List.forall₂_iff_zip.mpr ⟨hbelow.length_eq, fun {b piece} hmem => ?_⟩
    rw [hchanges.block b fun hb => hout (List.mem_singleton.mp hb ▸ (List.of_mem_zip hmem).1)]
    exact List.forall₂_zip hbelow hmem
  · rw [hip, List.set_append_right _ _ (by rw [hA]; decide), hA]
    rfl

/-- What `setdata` does once the former contents are gone. -/
def Fsw.fill (ip : Ip) (data : List Byte) : Op Ip := do
  let blocks ← (Fsw.chunks BSIZE data).mapM Fsw.writeBlock
  let ip := { ip with addr := splice ip.addr 0 (min blocks.length ND) (blocks.take ND) }
  let ip ← Fsw.setSingle ip (blocks.drop ND)
  let ip ← Fsw.setDouble ip ((blocks.drop ND).drop NIND)
  raiseIf (((blocks.drop ND).drop NIND).drop (NIND * NIND) ≠ []) (.osError tooLarge)
  return { ip with size := data.length }

theorem setdata_eq (ip : Ip) (data : List Byte) :
    Fsw.setdata ip data = (do Fsw.fill (← Fsw.truncate ip) data) := rfl

/-- The direct blocks of an inode that had none. -/
theorem splice_direct (bs : List Nat) :
    splice (List.replicate NADDR 0) 0 (min bs.length ND) (bs.take ND) =
      (bs.take ND ++ List.replicate (ND - bs.length) 0) ++ [0, 0, 0] := by
  have hthree : [0, 0, 0] = List.replicate 3 0 := rfl
  have haddr : NADDR = ND + 3 := rfl
  rw [splice, List.take_zero, List.nil_append, Nat.zero_max, List.drop_replicate, hthree, List.append_assoc,
    ← List.replicate_add]
  congr 2
  omega

/-- Blocks with the pieces of `data` hold the data. -/
theorem contents_pieces {d : Image} {bs : List Nat} {data : List Byte}
    (h : List.Forall₂ (fun b piece => d.block b = ljust piece BSIZE) bs (Fsw.chunks BSIZE data)) :
    (bs.flatMap d.block).take data.length = data := by
  have hmap : bs.map d.block = (Fsw.chunks BSIZE data).map fun p => p ++ List.replicate (BSIZE - p.length) 0 := by
    rw [← List.forall₂_eq_eq_eq, List.forall₂_map_left_iff, List.forall₂_map_right_iff]
    exact h
  obtain ⟨m, hm⟩ := flatten_chunks (n := BSIZE) (by decide) (0 : Byte) data
  rw [List.flatMap_def, hmap, hm, List.take_left]

/-- **The new contents.** Where `setdata` returns, the blocks it took off the list are laid out as
those of a file with `data` in it, whose inode it returns. -/
theorem of_fill {ip ip' : Ip} {data : List Byte} (hip : ip.addr = List.replicate NADDR 0) (h : fs.Pool l)
    (hrun : outcome (Fsw.fill ip data) fs = (.ok ip', fs')) : ∃ bs ins l' addr,
      l = bs ++ ins ++ l' ∧ fs'.Pool l' ∧ fs.Changes (bs ++ ins) fs' ∧
      ip' = { ip with addr, size := data.length } ∧ LaidOut fs'.disk addr bs ins ∧
      bs.length = (data.length + BSIZE - 1) / BSIZE ∧ (bs.flatMap fs'.disk.block).take data.length = data := by
  rw [Fsw.fill] at hrun
  obtain ⟨bs, fs₁, hblocks, hafter⟩ := of_outcome_bind hrun
  obtain ⟨ip₁, fs₂, hsingle, hrest⟩ := of_outcome_bind hafter
  obtain ⟨ip₂, fs₃, hdouble, hlast⟩ := of_outcome_bind hrest
  obtain ⟨_, fs₄, hcheck, hreturn⟩ := of_outcome_bind hlast
  obtain ⟨l₁, rfl, hcount, hpool₁, hchanges₁, hpieces⟩ := of_mapM_takes
    (fun piece hp => writeBlock_takes (mem_chunks (by decide) hp).1) h hblocks
  have hnamed : Named bs := fun b hb => h.named b (List.mem_append_left _ hb)
  obtain ⟨s, sins, l₂, rfl, hpool₂, hchanges₂, hone, rfl⟩ := of_setSingle (length_direct bs)
    (by rw [hip]; exact splice_direct bs) (fun b hb => hnamed b (List.mem_of_mem_drop hb)) hpool₁ hsingle
  obtain ⟨t, tins, l', rfl, hpool, hchanges₃, htwo, rfl⟩ := of_setDouble (length_direct bs) rfl
    (fun b hb => hnamed b (List.mem_of_mem_drop (List.mem_of_mem_drop hb))) hpool₂ hdouble
  obtain ⟨hnone, rfl⟩ := of_raiseIf hcheck
  cases hreturn
  have hend : ((bs.drop ND).drop NIND).drop (NIND * NIND) = [] := not_not.mp hnone
  have htake : ((bs.drop ND).drop NIND).take (NIND * NIND) = (bs.drop ND).drop NIND :=
    List.take_of_length_le (List.drop_eq_nil_iff.mp hend)
  rw [htake, List.drop_drop] at htwo
  rw [List.drop_drop, List.drop_drop, List.drop_eq_nil_iff] at hend
  -- what is taken later is none of what was taken before
  have hnodup := List.nodup_append'.mp h.nodup
  have hnodup₂ := List.nodup_append'.mp hnodup.2.1
  have hsins : ∀ b ∈ sins, fs'.disk.block b = fs₂.disk.block b := fun b hb =>
    hchanges₃.block b fun ht => hnodup₂.2.2 hb (List.mem_append_left _ ht)
  have hbs : ∀ b ∈ bs, fs'.disk.block b = fs₁.disk.block b := fun b hb => by
    rw [hchanges₃.block b fun ht => hnodup.2.2 hb (List.mem_append_right _ (List.mem_append_left _ ht)),
      hchanges₂.block b fun hs => hnodup.2.2 hb (List.mem_append_left _ hs)]
  refine ⟨bs, sins ++ tins, l', _, by simp only [List.append_assoc], hpool, ?_, rfl,
    ⟨fun b hb => (hnamed b hb).1, by omega, s, t, sins, tins, rfl, hone.frame hsins, htwo, rfl⟩,
    hcount.trans (length_chunks _ _), ?_⟩
  · rw [← List.append_assoc]
    exact (hchanges₁.trans hchanges₂).trans hchanges₃
  · rw [List.flatMap_congr hbs]
    exact contents_pieces hpieces

/-! ### The former contents -/

/-- Blocks of a file given back. -/
theorem forM_bfree : ∀ {own : List Nat} {fs : Fsw} {l : List Nat}, fs.Pool l → own.Nodup → own.Disjoint l →
    (∀ b ∈ own, fs.InFiles b) → (l ≠ [] ∨ own = []) →
    ∃ fs', outcome (own.forM Fsw.bfree) fs = (.ok (), fs') ∧ fs'.Pool (own.reverse ++ l) ∧
      fs.Changes own fs' := by
  intro own
  induction own with
  | nil => exact fun {fs l} h _ _ _ _ => ⟨fs, rfl, h, .refl fs⟩
  | cons b own ih =>
      intro fs l h hnodup hout hin hsome
      have hne : l ≠ [] := hsome.resolve_right (List.cons_ne_nil _ _)
      obtain ⟨c, l₀, rfl⟩ := List.exists_cons_of_ne_nil hne
      have hb := hin b List.mem_cons_self
      obtain ⟨fs₁, hfree, hpool, hfreed⟩ :=
        bfree_pool h hb (fun hmem => hout List.mem_cons_self hmem) (h.clean b)
      have hchanges : fs.Changes [b] fs₁ := by
        rcases hfreed.disk with hdisk | ⟨new, hnew, hwrote⟩
        · exact ⟨hfreed.fields.trans (by rw [hfreed.fields]), by rw [hdisk], by rw [hdisk],
            fun _ _ => by rw [hdisk], fun _ _ => by rw [hdisk]⟩
        · exact .of_wrote (hfreed.fields.trans (by rw [hfreed.fields])) hnew hwrote hb.1
      rw [List.nodup_cons] at hnodup
      have hout' : own.Disjoint (b :: c :: l₀) := List.disjoint_cons_right.mpr
        ⟨hnodup.1, fun x hx => hout (List.mem_cons_of_mem _ hx)⟩
      obtain ⟨fs', hrun, hpool', hchanges'⟩ := ih hpool hnodup.2 hout' (fun x hx => by
        have hx' := hin x (List.mem_cons_of_mem _ hx)
        rwa [Fsw.InFiles, hchanges.fields]) (.inl (List.cons_ne_nil _ _))
      refine ⟨fs', ?_, ?_, hchanges.trans hchanges'⟩
      · change outcome (Fsw.bfree b >>= fun _ => own.forM Fsw.bfree) fs = _
        rw [outcome_bind_ok hfree, hrun]
      · rwa [List.reverse_cons, List.append_assoc]

/-- **A file's blocks are free again.** Where no block is free this wants a file without blocks: there
is no list to put them on. -/
theorem truncate_pool {ip : Ip} {bs ins : List Nat} (hlaid : LaidOut fs.disk ip.addr bs ins) (h : fs.Pool l)
    (hnodup : (bs ++ ins).Nodup) (hout : (bs ++ ins).Disjoint l) (hin : ∀ b ∈ bs ++ ins, fs.InFiles b)
    (hsome : l ≠ [] ∨ bs ++ ins = []) : ∃ fs' l',
      outcome (Fsw.truncate ip) fs = (.ok { ip with addr := List.replicate NADDR 0, size := 0 }, fs') ∧
      l'.Perm (bs ++ ins ++ l) ∧ fs'.Pool l' ∧ fs.Changes (bs ++ ins) fs' := by
  obtain ⟨own, hown, hperm⟩ := blocks_perm hlaid
  have hnil : bs ++ ins = [] → own = [] := fun hnil => List.perm_nil.mp (hnil ▸ hperm)
  obtain ⟨fs', hfree, hpool, hchanges⟩ := forM_bfree h (hperm.nodup_iff.mpr hnodup)
    (fun x hx => hout (hperm.subset hx)) (fun x hx => hin x (hperm.subset hx)) (hsome.imp_right hnil)
  have hread : outcome (reading fun fs : Fsw => Fsw.blocks fs.disk ip) fs = (.ok own, fs) := by
    rw [outcome_reading, hown]
  refine ⟨fs', _, ?_, ((List.reverse_perm own).trans hperm).append_right l, hpool, hchanges.mono hperm.subset⟩
  rw [Fsw.truncate, outcome_bind_ok hread, outcome_bind_ok hfree, outcome_pure]

/-- **Replacing the contents.** The blocks the file had are free again but for those it has now, and
these are laid out as those of a file with `data` in it. -/
theorem of_setdata {ip ip' : Ip} {bs ins : List Nat} {data : List Byte} (hlaid : LaidOut fs.disk ip.addr bs ins)
    (h : fs.Pool l) (hnodup : (bs ++ ins).Nodup) (hout : (bs ++ ins).Disjoint l)
    (hin : ∀ b ∈ bs ++ ins, fs.InFiles b) (hsome : l ≠ [] ∨ bs ++ ins = [])
    (hrun : outcome (Fsw.setdata ip data) fs = (.ok ip', fs')) : ∃ bs' ins' l' addr,
      (bs' ++ ins' ++ l').Perm (bs ++ ins ++ l) ∧ fs'.Pool l' ∧
      fs.Changes (bs ++ ins ++ (bs' ++ ins')) fs' ∧ ip' = { ip with addr, size := data.length } ∧
      LaidOut fs'.disk addr bs' ins' ∧ bs'.length = (data.length + BSIZE - 1) / BSIZE ∧
      (bs'.flatMap fs'.disk.block).take data.length = data := by
  obtain ⟨fs₁, l₁, htruncate, hperm, hpool, hchanges⟩ := truncate_pool hlaid h hnodup hout hin hsome
  rw [setdata_eq, outcome_bind_ok htruncate] at hrun
  obtain ⟨bs', ins', l', addr, hl, hpool', hchanges', rfl, hlaid', hcount, hdata⟩ := of_fill rfl hpool hrun
  exact ⟨bs', ins', l', addr, hl ▸ hperm, hpool', hchanges.trans hchanges', rfl, hlaid', hcount, hdata⟩

end Sbc386Ex.Cohfs

import Sbc386Ex.Cohfs.Super
import Sbc386Ex.Lib.Pile

/-!
# Sbc386Ex.Cohfs.Pool

The free blocks as `cohfsw.py` keeps them: a pile whose table is in the superblock and whose
nodes are free blocks. `balloc` takes the block on top and `bfree` puts one there, but for one
case: into an empty table it puts the block as the link to whatever list its old contents make.
-/

namespace Sbc386Ex.Cohfs

open Raising

/-- The list in the block `b`: how many, and which. -/
def Image.node (d : Image) (b : Nat) : Nat × (Nat → Nat) :=
  (word (d.block b) 0, fun i => long (d.block b) (2 + 4 * i))

theorem Image.node_congr {d d' : Image} {b : Nat} (h : d'.block b = d.block b) : d'.node b = d.node b := by
  rw [node, node, h]

/-- The file blocks are in the image, and their numbers fit a long. -/
structure Fsw.Sized (fs : Fsw) : Prop where
  isize : 2 ≤ fs.isize
  room : fs.isize ≤ fs.fsize
  fsize : fs.fsize < 2 ^ 32
  size : (fs.fsize + fs.disk.base) * BSIZE ≤ fs.disk.bytes.length

/-- What of an object its superblock has besides: the inodes. -/
structure Fsw.InodesInRange (fs : Fsw) : Prop where
  ninode : -0x8000 ≤ fs.ninode ∧ fs.ninode < 0x8000
  length : fs.icache.length = NICINOD
  icache : ∀ ino ∈ fs.icache, ino < 65536
  tinode : 0 ≤ fs.tinode ∧ fs.tinode < 65536
  isize : fs.isize < 65536

/-- A file block's number. -/
def Fsw.InFiles (fs : Fsw) (b : Nat) : Prop := fs.isize ≤ b ∧ b < fs.fsize

/-- The free blocks of the file system, the one that is handed out next first. -/
structure Fsw.Pool (l : List Nat) (fs : Fsw) : Prop extends fs.Sized where
  pile : ∃ n : Nat, fs.nfree = n ∧ Pile 0 NICFREE fs.disk.node n (fun i => fs.free.getD i 0) l
  length : fs.free.length = NICFREE
  longs : ∀ b ∈ fs.free, b < 2 ^ 32
  nodup : l.Nodup
  range : ∀ b ∈ l, fs.InFiles b
  total : fs.tfree = l.length

variable {fs : Fsw} {b : Nat} {l : List Nat}

theorem length_le_of_nodup {n : Nat} (h : l.Nodup) (hlt : ∀ b ∈ l, b < n) : l.length ≤ n := by
  have hsub : l ⊆ List.range n := fun b hb => List.mem_range.mpr (hlt b hb)
  simpa using (h.subperm hsub).length_le

theorem Fsw.Sized.holds (h : fs.Sized) (hb : b < fs.fsize) : fs.disk.Holds b :=
  Image.holds_of_lt h.size hb

theorem Fsw.Pool.ne_zero (h : fs.Pool l) (hb : fs.InFiles b) : b ≠ 0 := by
  have hisize := h.isize
  have hlow := hb.1
  omega

theorem Fsw.Pool.inRange (h : fs.Pool l) (hi : fs.InodesInRange) : fs.InRange where
  isize := hi.isize
  fsize := h.fsize
  nfree := by
    obtain ⟨n, hn, hpile⟩ := h.pile
    have hcap := hpile.le_cap (by decide)
    have hsixty : NICFREE = 64 := rfl
    omega
  length := h.length
  free := h.longs
  ninode := hi.ninode
  lengthI := hi.length
  icache := hi.icache
  tfree := by
    have htotal := h.total
    have hlen := length_le_of_nodup h.nodup fun b hb => (h.range b hb).2
    have hfsize := h.fsize
    omega
  tinode := hi.tinode

/-- What counts the blocks of a table is small enough for a signed word. -/
theorem short_small {n : Nat} (h : n ≤ NICFREE) : short n = n := by
  have hcap : NICFREE = 64 := rfl
  unfold short
  rw [if_pos (by omega)]

/-! ### Taking a block -/

theorem node_loaded {n : Nat} (hblock : (fs.disk.block b).length = BSIZE) (hn : (fs.disk.node b).1 = n)
    (hcap : n ≤ NICFREE) : i16 (fs.disk.block b) 0 = .ok (n : Int) := by
  rw [i16_eq (by rw [hblock]; decide), ← short_small hcap, ← hn]
  rfl

theorem node_places (hblock : (fs.disk.block b).length = BSIZE) :
    ((List.range NICFREE).mapM fun i => pdplong (fs.disk.block b) (2 + 4 * i)) =
      .ok ((List.range NICFREE).map (fs.disk.node b).2) :=
  mapM_eq_ok fun i hi => pdplong_eq ((slots_le (List.mem_range.mp hi) (by decide)).trans hblock.ge)

/-- The table of a list that is loaded. -/
theorem getD_places {f : Nat → Nat} {n i : Nat} (hi : i < n) :
    ((List.range n).map f).getD i 0 = f i := by
  rw [List.getD_eq_getElem _ _ (by rwa [List.length_map, List.length_range]), List.getElem_map,
    List.getElem_range]

theorem Fsw.took_wrote (h : fs.disk.Holds b) (nfree : Int) (free : List Nat) :
    fs.disk.Wrote b (ljust [] BSIZE) (fs.took nfree free b).disk :=
  Image.wblock_wrote h (Nat.zero_le _)

/-- A pile that does not have the block that is zeroed. -/
theorem Fsw.Pool.took (h : fs.Pool (b :: l)) {n : Nat} {free : List Nat} (hfree : free.length = NICFREE)
    (hlongs : ∀ b ∈ free, b < 2 ^ 32)
    (hpile : Pile 0 NICFREE fs.disk.node n (fun i => free.getD i 0) l) : (fs.took n free b).Pool l := by
  have hnodup := List.nodup_cons.mp h.nodup
  have hb := h.range b List.mem_cons_self
  have hwrote := Fsw.took_wrote (h.holds hb.2) n free
  exact
  { isize := h.isize
    room := h.room
    fsize := h.fsize
    size := by
      rw [hwrote.put.length, hwrote.base]
      exact h.size
    pile := ⟨n, rfl, hpile.transfer fun c hc => Image.node_congr
      (hwrote.block_ne (length_ljust (Nat.zero_le _)) fun hcb => hnodup.1 (hcb ▸ hc))⟩
    length := hfree
    longs := hlongs
    nodup := hnodup.2
    range := fun c hc => h.range c (List.mem_cons_of_mem _ hc)
    total := by
      have htotal := h.total
      rw [List.length_cons] at htotal
      exact (congrArg (· - 1) htotal).trans (by omega) }

theorem balloc_pool (h : fs.Pool (b :: l)) : ∃ nfree free,
    outcome Fsw.balloc fs = (.ok b, fs.took nfree free b) ∧ (fs.took nfree free b).Pool l := by
  obtain ⟨n, hn, hpile⟩ := h.pile
  have hb := h.range b List.mem_cons_self
  have hcap := hpile.le_cap (by decide)
  obtain _ | k := n
  · exact absurd hpile.eq_nil (List.cons_ne_nil b l)
  obtain ⟨htop, hne, hlink, hmore⟩ := hpile.pop
  have hk : k < fs.free.length := by
    rw [h.length]
    exact hcap
  by_cases hzero : k = 0
  · subst hzero
    have hblock := Image.length_block (h.holds hb.2)
    have hnext := hlink rfl
    have hballoc := @balloc_link fs ((fs.disk.node b).1 : Nat)
      ((List.range NICFREE).map (fs.disk.node b).2) hn hk (by rwa [htop])
      (by rw [htop]; exact node_loaded hblock rfl (hnext.le_cap (by decide)))
      (by rw [htop]; exact node_places hblock)
    rw [htop] at hballoc
    refine ⟨_, _, hballoc, h.took (by rw [List.length_map, List.length_range]) (fun x hx => ?_)
      (hnext.congr fun i hi => getD_places (hi.trans_le (hnext.le_cap (by decide))))⟩
    obtain ⟨i, -, rfl⟩ := List.mem_map.mp hx
    exact long_lt _ _
  · have hballoc := balloc_block hn hk hzero (by rwa [htop])
    rw [htop] at hballoc
    exact ⟨_, _, hballoc, h.took h.length h.longs (hmore hzero)⟩

/-- With no block free the file system is full. -/
theorem balloc_pool_nil (h : fs.Pool []) : ∃ nfree,
    outcome Fsw.balloc fs = (.error (.osError full), { fs with nfree }) ∧
      ({ fs with nfree } : Fsw).Pool [] := by
  obtain ⟨n, hn, hpile⟩ := h.pile
  obtain rfl | ⟨rfl, hlast⟩ := hpile.of_nil
  · exact ⟨fs.nfree, balloc_none hn.le, h⟩
  · have hlen := h.length
    exact ⟨_, balloc_empty (k := 0) hn (by rw [hlen]; decide) hlast,
      { h with pile := ⟨0, rfl, .empty⟩ }⟩

/-! ### Giving one back -/

/-- What a block given back changes: the list and its count, and at most the block itself. -/
structure Fsw.Freed (b : Nat) (fs fs' : Fsw) : Prop where
  fields : fs' = { fs with disk := fs'.disk, nfree := fs'.nfree, free := fs'.free, tfree := fs.tfree + 1 }
  disk : fs'.disk = fs.disk ∨ ∃ new, new.length = BSIZE ∧ fs.disk.Wrote b new fs'.disk

/-- A full list, packed. -/
theorem linkBlock_eq {n : Nat} (hn : fs.nfree = n) (hcap : n ≤ NICFREE) (hlen : fs.free.length = NICFREE)
    (hfree : ∀ i < NICFREE, fs.free.getD i 0 < 2 ^ 32) :
    ∃ new, fs.linkBlock = .ok new ∧ new.length = BSIZE ∧ word new 0 = n ∧
      ∀ i < NICFREE, long new (2 + 4 * i) = fs.free.getD i 0 := by
  have hrange : -0x8000 ≤ fs.nfree ∧ fs.nfree < 0x8000 := by
    have hcount : NICFREE = 64 := rfl
    omega
  have hzeros : (List.replicate BSIZE (0 : Byte)).length = BSIZE := List.length_replicate
  obtain ⟨m, hm, hpack, hshort⟩ := packh_ok hrange
  obtain ⟨b₁, e₁, p₁⟩ := packInto_put (bytes16 m) (b := List.replicate BSIZE 0) (o := 0)
    (by rw [hzeros, length_bytes16]; decide)
  obtain ⟨b₂, e₂, hlen₂, hkept, hslots⟩ := putLongs fs.free NICFREE (b := b₁) (o := 2) hlen.ge
    (by rw [p₁.length, hzeros]; decide)
  refine ⟨b₂, ?_, by rw [hlen₂, p₁.length, hzeros], ?_, fun i hi => hslots i hi (hfree i hi)⟩
  · rw [Fsw.linkBlock, bind_ok hpack, bind_ok e₁, e₂]
  · have hword : word b₂ 0 = word b₁ 0 := by
      rw [word, word, hkept _ (.inl (by decide)), hkept _ (.inl (by decide))]
    have hcount : word b₁ 0 = m := (p₁.word_at (k := 0) (length_bytes16 m).ge).trans (word_bytes16 hm)
    have hcap64 : NICFREE = 64 := rfl
    rw [hword, hcount]
    unfold short at hshort
    split_ifs at hshort <;> omega

theorem setItem_nat {α : Type} {l : List α} {k : Nat} (h : k < l.length) (a : α) :
    setItem l k a = .ok (l.set k a) := by
  rw [setItem, position, if_pos (by omega), if_pos (by omega)]
  rfl

/-- The object with `b` in the place `n` of the list. -/
def Fsw.putBack (fs : Fsw) (d : Image) (free : List Nat) (n b : Nat) : Fsw :=
  { fs with disk := d, free := free.set n b, nfree := n + 1, tfree := fs.tfree + 1 }

theorem bfree_room {n : Nat} (hn : fs.nfree = n) (hroom : n < NICFREE) (hlen : fs.free.length = NICFREE) :
    outcome (Fsw.bfree b) fs = (.ok (), fs.putBack fs.disk fs.free n b) := by
  have hset : outcome (reading fun t : Fsw => setItem t.free t.nfree b) fs =
      (.ok (fs.free.set n b), fs) := by
    refine outcome_reading_ok ?_
    rw [hn]
    exact setItem_nat (hroom.trans_eq hlen.symm) b
  have hskip : outcome (onlyIf ((NICFREE : Int) ≤ fs.nfree) (Fsw.storeList b)) fs = (.ok (), fs) := by
    rw [onlyIf, if_neg (by omega), outcome_pure]
  rw [Fsw.bfree, outcome_bind_ok (outcome_get _), outcome_bind_ok hskip, outcome_bind_ok hset,
    outcome_modify, Fsw.putBack, hn]

/-- The object whose list has moved out, into the block that makes the disk `d`. -/
def Fsw.spilled (fs : Fsw) (d : Image) : Fsw :=
  { fs with disk := d, nfree := 0, free := List.replicate NICFREE 0 }

theorem storeList_eq {new : List Byte} (hlink : fs.linkBlock = .ok new) :
    outcome (Fsw.storeList b) fs = (.ok (), fs.spilled (fs.disk.wblock b new)) := by
  rw [Fsw.storeList, outcome_bind_ok (outcome_reading_ok hlink), outcome_bind_ok (outcome_wblock _ _ _),
    outcome_modify, Fsw.spilled, Fsw.withDisk]

theorem bfree_full (hn : fs.nfree = NICFREE) {new : List Byte} (hlink : fs.linkBlock = .ok new) :
    outcome (Fsw.bfree b) fs =
      (.ok (), fs.putBack (fs.disk.wblock b new) (List.replicate NICFREE 0) 0 b) := by
  generalize hd : fs.disk.wblock b new = d
  have hstore : outcome (onlyIf ((NICFREE : Int) ≤ fs.nfree) (Fsw.storeList b)) fs =
      (.ok (), fs.spilled d) := by
    rw [onlyIf, if_pos hn.ge, storeList_eq hlink, hd]
  have hset : outcome (reading fun t : Fsw => setItem t.free t.nfree b) (fs.spilled d) =
      (.ok ((List.replicate NICFREE 0).set 0 b), fs.spilled d) := by
    refine outcome_reading_ok ?_
    exact setItem_nat (k := 0) (by rw [Fsw.spilled, List.length_replicate]; decide) b
  rw [Fsw.bfree, outcome_bind_ok (outcome_get _), outcome_bind_ok hstore, outcome_bind_ok hset,
    outcome_modify, Fsw.putBack, Fsw.spilled]
  rfl

/-- The pile with `b` put on it. -/
theorem Fsw.Pool.putBack (h : fs.Pool l) (hb : fs.InFiles b) (hout : b ∉ l) {d : Image} {n : Nat}
    {free : List Nat} (hbase : d.base = fs.disk.base) (hlen : d.bytes.length = fs.disk.bytes.length)
    (hfree : free.length = NICFREE) (hlongs : ∀ b ∈ free, b < 2 ^ 32)
    (hpile : Pile 0 NICFREE d.node (n + 1) (fun i => (free.set n b).getD i 0) (b :: l)) :
    (fs.putBack d free n b).Pool (b :: l) where
  isize := h.isize
  room := h.room
  fsize := h.fsize
  size := by
    rw [Fsw.putBack, hlen, hbase]
    exact h.size
  pile := ⟨n + 1, rfl, hpile⟩
  length := (List.length_set ..).trans hfree
  longs := fun x hx => (List.mem_or_eq_of_mem_set hx).elim (hlongs x) fun heq => by
    have hlast := hb.2
    have hfsize := h.fsize
    omega
  nodup := List.nodup_cons.mpr ⟨hout, h.nodup⟩
  range := List.forall_mem_cons.mpr ⟨hb, h.range⟩
  total := by
    have htotal := h.total
    rw [List.length_cons]
    exact (congrArg (· + 1) htotal).trans (by omega)

theorem getD_set_self {l : List Nat} {n : Nat} (h : n < l.length) (a : Nat) : (l.set n a).getD n 0 = a := by
  rw [List.getD_eq_getElem _ _ (by rwa [List.length_set]), List.getElem_set_self]

theorem getD_set_ne {l : List Nat} {n i : Nat} (hi : i ≠ n) (a : Nat) :
    (l.set n a).getD i 0 = l.getD i 0 := by
  rw [List.getD_eq_getElem?_getD, List.getElem?_set_ne (Ne.symm hi), ← List.getD_eq_getElem?_getD]

/-- What `bfree` relies on: where there is no list to put `b` on, what `b` holds from its former
use is not a list either. -/
def Fsw.Clean (fs : Fsw) (b : Nat) : Prop :=
  fs.nfree = 0 → Pile 0 NICFREE fs.disk.node (fs.disk.node b).1 (fs.disk.node b).2 []

theorem bfree_moves (h : fs.Pool l) (hb : fs.InFiles b) (hout : b ∉ l) (hfull : fs.nfree = NICFREE) :
    ∃ fs', outcome (Fsw.bfree b) fs = (.ok (), fs') ∧ fs'.Pool (b :: l) ∧ fs.Freed b fs' := by
  obtain ⟨n, hn, hpile⟩ := h.pile
  obtain rfl : n = NICFREE := Int.ofNat_inj.mp (hn.symm.trans hfull)
  obtain ⟨new, hlink, hnew, hword, hslots⟩ := linkBlock_eq hn le_rfl h.length fun i _ =>
    getD_lt (by decide) h.longs i
  have hhold := h.holds hb.2
  have hwrote := Image.wblock_wrote hhold hnew.le
  rw [ljust_self hnew] at hwrote
  have hblock := hwrote.block_self hhold hnew
  refine ⟨_, bfree_full hn hlink, h.putBack hb hout hwrote.base hwrote.put.length
    List.length_replicate (fun x hx => by rw [List.eq_of_mem_replicate hx]; decide) ?_, rfl,
    .inr ⟨new, hnew, hwrote⟩⟩
  refine Pile.spill (hpile.transfer fun c hc => Image.node_congr
    (hwrote.block_ne hnew fun hcb => hout (hcb ▸ hc))) (h.ne_zero hb) ?_ (fun i hi => ?_) ?_
  · rw [Image.node, hblock, hword]
  · rw [Image.node, hblock]
    exact hslots i hi
  · exact getD_set_self (by rw [List.length_replicate]; decide) b

/-- **Giving a block back.** It always returns, and puts the block on the free list, exactly where
that is not empty or the block holds no list. -/
theorem bfree_pool_iff (h : fs.Pool l) (hb : fs.InFiles b) (hout : b ∉ l) :
    ∃ fs', outcome (Fsw.bfree b) fs = (.ok (), fs') ∧ fs.Freed b fs' ∧
      (fs'.Pool (b :: l) ↔ fs.Clean b) := by
  obtain ⟨n, hn, hpile⟩ := h.pile
  have hcap := hpile.le_cap (by decide)
  have hlen := h.length
  by_cases hfull : n = NICFREE
  · obtain ⟨fs', hrun, hpool, hfreed⟩ := bfree_moves h hb hout (by rw [hn, hfull])
    have hsixty : NICFREE = 64 := rfl
    exact ⟨fs', hrun, hfreed, fun _ _ => by omega, fun _ => hpool⟩
  · have hroom : n < NICFREE := by omega
    have hput : (fs.free.set n b).getD n 0 = b := getD_set_self (by omega) b
    refine ⟨_, bfree_room hn hroom hlen, ⟨rfl, .inl rfl⟩, fun hpool hzero => ?_, fun hclean => ?_⟩
    · -- the block has become the link to the list that it holds
      obtain rfl : n = 0 := by omega
      obtain rfl := hpile.eq_nil
      obtain ⟨m, hm, hpile'⟩ := hpool.pile
      obtain rfl : m = 1 := by
        have hone : ((0 : Nat) : Int) + 1 = m := hm
        omega
      exact hpile'.pop.2.2.1 rfl
    · refine h.putBack hb hout rfl rfl hlen h.longs ?_
      by_cases hnone : n = 0
      · subst hnone
        obtain rfl := hpile.eq_nil
        exact .linkTo hput (h.ne_zero hb) (hclean hn)
      · exact hpile.push (by omega) hroom (h.ne_zero hb) (fun i hi => getD_set_ne (by omega) b) hput

theorem bfree_pool (h : fs.Pool l) (hb : fs.InFiles b) (hout : b ∉ l) (hclean : fs.Clean b) :
    ∃ fs', outcome (Fsw.bfree b) fs = (.ok (), fs') ∧ fs'.Pool (b :: l) ∧ fs.Freed b fs' := by
  obtain ⟨fs', hrun, hfreed, hiff⟩ := bfree_pool_iff h hb hout
  exact ⟨fs', hrun, hiff.mpr hclean, hfreed⟩

/-- Where a block is free there is a list to put another on. -/
theorem Fsw.Pool.clean (h : fs.Pool (b :: l)) (x : Nat) : fs.Clean x := fun hzero => by
  obtain ⟨n, hn, hpile⟩ := h.pile
  obtain rfl : n = 0 := by omega
  exact absurd hpile.eq_nil (List.cons_ne_nil b l)

/-! ### The small image -/

theorem tiny_pool : tiny.Pool [4, 5] where
  isize := by decide
  room := by decide
  fsize := by decide
  size := length_tinyFile.ge
  pile := by
    have hnode : (tiny.disk.node 5).1 = 0 := by
      rw [Image.node, tiny_block (by decide) (by decide)]
      rfl
    have hlink : Pile 0 NICFREE tiny.disk.node (tiny.disk.node 5).1 (tiny.disk.node 5).2 [] := by
      rw [hnode]
      exact .empty
    have hbase : Pile 0 NICFREE tiny.disk.node 1 (fun i => tiny.free.getD i 0) [5] :=
      .linkTo rfl (by decide) hlink
    exact ⟨2, rfl, hbase.push (by decide) (by decide) (by decide) (fun _ _ => rfl) rfl⟩
  length := rfl
  longs := by decide
  nodup := by decide
  range := by
    unfold Fsw.InFiles
    decide
  total := rfl

end Sbc386Ex.Cohfs

import Sbc386Ex.Cohfs.KernelPool

/-!
# Sbc386Ex.Cohfs.Shared

One free list for two programs: an image that `cohfsw.py` and the kernel have in turns, each
taking blocks and giving blocks back while it has it. What either finds is what the other
left.
-/

namespace Sbc386Ex.Cohfs

open Raising

/-! ### On the disk -/

/-- The free blocks of an image that nobody has in memory. -/
def Image.Pool (l : List Nat) (d : Image) : Prop := (Fsw.loaded (fun _ => 0) d.base d.bytes).Pool l

theorem loaded_pool {d : Image} {l : List Nat} (h : d.Pool l) (clock : Nat → Int) :
    (Fsw.loaded clock d.base d.bytes).Pool l :=
  ⟨⟨h.isize, h.room, h.fsize, h.size⟩, h.pile, h.length, h.longs, h.nodup, h.range, h.total⟩

theorem Fsw.Sized.holds_super {fs : Fsw} (h : fs.Sized) : fs.disk.Holds 1 :=
  h.holds (lt_of_lt_of_le Nat.one_lt_two (h.isize.trans h.room))

/-! ### In memory and on the disk -/

/-- The block `sb` has the numbers of `s`. -/
structure Filsys.On (s : Filsys) (sb : List Byte) : Prop where
  isize : s.isize.toNat = word sb SB_ISIZE
  fsize : s.fsize.toNat = long sb SB_FSIZE
  nfree : s.nfree.toNat = word sb SB_NFREE
  length : s.free.length = NICFREE
  free : ∀ i < NICFREE, (s.free.getD i 0).toNat = long sb (SB_FREE + 4 * i)
  ninode : s.ninode.toNat = word sb SB_NINODE
  lengthI : s.inode.length = NICINOD
  inode : ∀ i < NICINOD, (s.inode.getD i 0).toNat = word sb (SB_INODE + 2 * i)
  tfree : s.tfree.toNat = long sb SB_TFREE
  tinode : s.tinode.toNat = word sb SB_TINODE

section Mounting

variable {c : Canon} {d : Image} {l : List Nat}

theorem canshort_le16 (hc : c.OnI386) (b : List Byte) (o : Nat) :
    (c.canshort (le16 b o)).toNat = word b o := by
  rw [hc.canshort, le16_toNat]

theorem canlong_le32 (hc : c.OnI386) (b : List Byte) (o : Nat) :
    (c.canlong (le32 b o)).toNat = long b o := by
  rw [hc.canlong, canl_le32]

theorem getD_map_range {α : Type} {f : Nat → α} {n i : Nat} (hi : i < n) (x : α) :
    ((List.range n).map f).getD i x = f i := by
  rw [List.getD_eq_getElem _ _ (by rwa [List.length_map, List.length_range]), List.getElem_map,
    List.getElem_range]

theorem fsmount_on (hc : c.OnI386) (d : Image) : (fsmount c d).super.On (d.block 1) where
  isize := canshort_le16 hc _ _
  fsize := canlong_le32 hc _ _
  nfree := canshort_le16 hc _ _
  length := by
    show (((List.range NICFREE).map _).map c.canlong).length = _
    rw [List.length_map, List.length_map, List.length_range]
  free i hi := by
    show ((((List.range NICFREE).map fun i => le32 (d.block 1) (SB_FREE + 4 * i)).map c.canlong).getD i
      0).toNat = _
    rw [List.map_map, getD_map_range hi]
    exact canlong_le32 hc _ _
  ninode := canshort_le16 hc _ _
  lengthI := by
    show (((List.range NICINOD).map _).map c.canshort).length = _
    rw [List.length_map, List.length_map, List.length_range]
  inode i hi := by
    show ((((List.range NICINOD).map fun i => le16 (d.block 1) (SB_INODE + 2 * i)).map c.canshort).getD i
      0).toNat = _
    rw [List.map_map, getD_map_range hi]
    exact canshort_le16 hc _ _
  tfree := canlong_le32 hc _ _
  tinode := canshort_le16 hc _ _

theorem length_bytesOf16 (s : BitVec 16) : (bytesOf16 s).length = 2 := rfl

theorem length_bytesOf32 (l : BitVec 32) : (bytesOf32 l).length = 4 := rfl

theorem laid_fields {s : Filsys} (hlen : s.free.length = NICFREE) (hlenI : s.inode.length = NICINOD) :
    Laid BSIZE 0 s.fields := by
  have hfree : (s.free.flatMap bytesOf32).length = 256 := by
    rw [length_flatMap_bytesOf32, hlen]
    rfl
  have hinode : (s.inode.flatMap bytesOf16).length = 200 := by
    rw [length_flatMap_bytesOf16, hlenI]
    rfl
  simp only [Filsys.fields, Laid, hfree, hinode, length_bytesOf16, length_bytesOf32]
  decide

/-- The block that is written has them. -/
theorem toBlock_on (hc : c.OnI386) {s : Filsys} (hlen : s.free.length = NICFREE)
    (hlenI : s.inode.length = NICINOD) {b : List Byte} (hb : b.length = BSIZE) :
    ((cansuper c s).toBlock b).length = BSIZE ∧ s.On ((cansuper c s).toBlock b) := by
  have hcfree : (cansuper c s).free.length = NICFREE := (List.length_map ..).trans hlen
  have hcinode : (cansuper c s).inode.length = NICINOD := (List.length_map ..).trans hlenI
  obtain ⟨hsize, -, hfields⟩ := pokes_at (hb.symm ▸ laid_fields hcfree hcinode :
    Laid b.length 0 (cansuper c s).fields)
  have hshort : ∀ {o : Nat} {x : BitVec 16}, (o, bytesOf16 (c.canshort x)) ∈ (cansuper c s).fields →
      x.toNat = word ((cansuper c s).toBlock b) o := fun {o x} hmem => by
    have hword := (hfields _ hmem).word (k := 0) (length_bytesOf16 _).ge
    rw [Filsys.toBlock, ← Nat.add_zero o, hword, word_bytesOf16, hc.canshort]
  have hlong : ∀ {o : Nat} {x : BitVec 32}, (o, bytesOf32 (c.canlong x)) ∈ (cansuper c s).fields →
      x.toNat = long ((cansuper c s).toBlock b) o := fun {o x} hmem => by
    have hlong := (hfields _ hmem).long (k := 0) (length_bytesOf32 _).ge
    rw [Filsys.toBlock, ← Nat.add_zero o, hlong, hc.canlong, long_bytesOf32]
  refine ⟨hsize.trans hb, hshort (by simp [Filsys.fields, cansuper]), hlong (by simp [Filsys.fields, cansuper]),
    hshort (by simp [Filsys.fields, cansuper]), hlen, fun i hi => ?_, hshort (by simp [Filsys.fields, cansuper]),
    hlenI, fun i hi => ?_, hlong (by simp [Filsys.fields, cansuper]),
    hshort (by simp [Filsys.fields, cansuper])⟩
  · have hmem : (SB_FREE, (cansuper c s).free.flatMap bytesOf32) ∈ (cansuper c s).fields := by
      simp [Filsys.fields]
    have hplace := (hfields _ hmem).long (k := 4 * i) (by rw [length_flatMap_bytesOf32]; omega)
    dsimp only at hplace
    rw [long_flatMap_bytesOf32 _ (by rw [hcfree]; exact hi)] at hplace
    rw [Filsys.toBlock, hplace]
    show _ = long (bytesOf32 ((s.free.map c.canlong).getD i 0)) 0
    rw [getD_map _ (by rw [hlen]; exact hi) 0, hc.canlong, long_bytesOf32]
  · have hmem : (SB_INODE, (cansuper c s).inode.flatMap bytesOf16) ∈ (cansuper c s).fields := by
      simp [Filsys.fields]
    have hplace := (hfields _ hmem).word (k := 2 * i) (by rw [length_flatMap_bytesOf16]; omega)
    dsimp only at hplace
    rw [word_flatMap_bytesOf16 _ (by rw [hcinode]; exact hi)] at hplace
    rw [Filsys.toBlock, hplace]
    show _ = ((s.inode.map c.canshort).getD i 0).toNat
    rw [getD_map _ (by rw [hlenI]; exact hi) 0, hc.canshort]

/-! ### The list, in memory and on the disk -/

/-- The object of an image whose super block has the numbers of `s`. -/
theorem loaded_on {s : Filsys} {d : Image} (h : s.On (d.block 1)) (clock : Nat → Int) :
    Fsw.loaded clock d.base d.bytes =
      { file := d.bytes, disk := d, clock, ticks := 0
        isize := s.isize.toNat, fsize := s.fsize.toNat, nfree := short s.nfree.toNat
        free := s.free.map BitVec.toNat, ninode := short s.ninode.toNat
        icache := s.inode.map BitVec.toNat, tfree := s.tfree.toNat, tinode := s.tinode.toNat } := by
  have hfree : ((List.range NICFREE).map fun i => long (d.block 1) (SB_FREE + 4 * i)) =
      s.free.map BitVec.toNat := map_getD_range ((List.length_map ..).trans h.length) fun i hi => by
    rw [getD_map _ (by rw [h.length]; exact hi) 0, h.free i hi]
  have hinode : ((List.range NICINOD).map fun i => word (d.block 1) (SB_INODE + 2 * i)) =
      s.inode.map BitVec.toNat := map_getD_range ((List.length_map ..).trans h.lengthI) fun i hi => by
    rw [getD_map _ (by rw [h.lengthI]; exact hi) 0, h.inode i hi]
  rw [Fsw.loaded]
  simp only [hfree, hinode, h.isize, h.fsize, h.nfree, h.ninode, h.tfree, h.tinode]

theorem short_toNat_nfree {s : Filsys} {n : Nat} (h : s.nfree.toNat = n) (hcap : n ≤ NICFREE) :
    short s.nfree.toNat = n := by
  rw [h, short_small hcap]

/-- A mounted file system whose numbers are on the disk has the list that the disk has. -/
theorem pool_iff_of_on {mp : Mount} (h : mp.super.On (mp.disk.block 1)) :
    mp.Pool l ↔ mp.disk.Pool l ∧ mp.super.fsize.toNat < 2 ^ 31 := by
  have hloaded := loaded_on h fun _ => 0
  have hsixty : NICFREE = 64 := rfl
  have htable : ∀ i < NICFREE, (mp.super.free.map BitVec.toNat).getD i 0 = (mp.super.free.getD i 0).toNat :=
    fun i hi => getD_map _ (by rw [h.length]; exact hi) 0 _
  rw [Image.Pool, hloaded]
  constructor
  · intro hp
    have hcap := hp.pile.le_cap (by decide)
    have hfsize := hp.fsize
    refine ⟨⟨⟨hp.isize, hp.room, by dsimp only; omega, hp.size⟩,
      ⟨_, short_toNat_nfree rfl hcap, hp.pile.congr fun i hi => htable i (by omega)⟩,
      (List.length_map ..).trans hp.length, fun x hx => ?_, hp.nodup, hp.range,
      congrArg Nat.cast hp.total⟩, hfsize⟩
    obtain ⟨y, -, rfl⟩ := List.mem_map.mp hx
    exact y.isLt
  · rintro ⟨hp, hfsize⟩
    obtain ⟨n, hn, hpile⟩ := hp.pile
    have hcap := hpile.le_cap (by decide)
    have hlt := mp.super.nfree.isLt
    have hnfree : mp.super.nfree.toNat = n := by
      dsimp only at hn
      unfold short at hn
      split_ifs at hn <;> omega
    refine ⟨hp.isize, hp.room, hfsize, hp.size, ?_, h.length, h.lengthI, hp.nodup, hp.range,
      Int.ofNat_inj.mp hp.total⟩
    rw [hnfree]
    exact hpile.congr fun i hi => (htable i (by omega)).symm

/-- Mounted: the list, and where nothing has changed the numbers are those on the disk. -/
structure Mount.Mounted (l : List Nat) (mp : Mount) : Prop where
  pool : mp.Pool l
  on : mp.super.fmod = false → mp.super.On (mp.disk.block 1)

theorem Mount.Pool.holds_super {mp : Mount} (h : mp.Pool l) : mp.disk.Holds 1 :=
  Image.holds_of_lt h.size (lt_of_lt_of_le Nat.one_lt_two (h.isize.trans h.room))

theorem fsmount_mounted (hc : c.OnI386) (h : d.Pool l)
    (hfsize : (Fsw.loaded (fun _ => 0) d.base d.bytes).fsize < 2 ^ 31) : (fsmount c d).Mounted l := by
  have hon := fsmount_on hc d
  refine ⟨(@pool_iff_of_on _ (fsmount c d) hon).mpr ⟨h, ?_⟩, fun _ => hon⟩
  rw [hon.fsize]
  exact hfsize

/-- A table in an image whose free blocks are what they were. -/
theorem Mount.Pool.frame {mp mp' : Mount} (h : mp.Pool l) (hsuper : mp'.super = { mp.super with
      time := mp'.super.time, fmod := mp'.super.fmod })
    (hbase : mp'.disk.base = mp.disk.base) (hlen : mp'.disk.bytes.length = mp.disk.bytes.length)
    (hblock : ∀ b ∈ l, mp'.disk.block b = mp.disk.block b) : mp'.Pool l := by
  refine ⟨?_, ?_, ?_, ?_, ?_, ?_, ?_, h.nodup, ?_, ?_⟩ <;> rw [hsuper]
  · exact h.isize
  · exact h.room
  · exact h.fsize
  · rw [hbase, hlen]
    exact h.size
  · exact h.pile.transfer fun b hb => Image.node_congr (hblock b hb)
  · exact h.length
  · exact h.lengthI
  · exact h.range
  · exact h.total

/-- What `msync` leaves on the disk. -/
theorem msync_mounted (hc : c.OnI386) {mp : Mount} (h : mp.Mounted l) (time : BitVec 32) :
    ∃ mp' : Mount, (msync c time mp).disk = mp'.disk ∧ mp'.Pool l ∧ mp'.super.On (mp'.disk.block 1) ∧
      mp'.super = { mp.super with time := mp'.super.time, fmod := mp'.super.fmod } ∧
      (mp'.disk = mp.disk ∨ ∃ new, new.length = BSIZE ∧ mp.disk.Wrote 1 new mp'.disk) := by
  by_cases hfmod : mp.super.fmod = false
  · rw [msync, if_pos hfmod]
    exact ⟨mp, rfl, h.pool, h.on hfmod, rfl, .inl rfl⟩
  · have hhold := h.pool.holds_super
    obtain ⟨hnew, hon⟩ := toBlock_on hc (s := { mp.super with time, fmod := false }) h.pool.length
      h.pool.lengthI (Image.length_block hhold)
    have hwrote := Image.wblock_wrote hhold hnew.le
    rw [ljust_self hnew] at hwrote
    have hblock := hwrote.block_self hhold hnew
    rw [msync, if_neg hfmod]
    refine ⟨_, rfl, h.pool.frame rfl hwrote.base hwrote.put.length fun b hb => ?_, ?_, rfl,
      .inr ⟨_, hnew, hwrote⟩⟩
    · refine hwrote.block_ne hnew fun hone => ?_
      have hlow := (h.pool.range b hb).1
      have hisize := h.pool.isize
      omega
    · dsimp only
      rw [hblock]
      exact hon

end Mounting

/-! ### Taking turns -/

/-- Who has the file system: nobody, and it is an image file; `cohfsw.py`; or the kernel. -/
inductive Holder
  | file (d : Image)
  | writer (fs : Fsw)
  | kernel (mp : Mount)

/-- What can happen: an object is made of the file and saved to it, the file system is mounted and
unmounted, and a block is taken or given back by the program that has it. -/
inductive Act
  | load (clock : Nat → Int)
  | save
  | mount
  | unmount (time : BitVec 32)
  | balloc
  | bfree (b : BitVec 32)

inductive Answer
  | nothing
  | block (b : Nat)
  | full
  | raised (e : Raise)

/-- What `cohfsw.py` says of an allocation. -/
def Answer.ofWriter : Except Raise Nat → Answer
  | .ok b => .block b
  | .error e => if e = .osError Cohfs.full then .full else .raised e

/-- And of what has no result. -/
def Answer.ofUnit : Except Raise Unit → Answer
  | .ok () => .nothing
  | .error e => .raised e

namespace Holder

/-- What `load` makes of a file. -/
def opened (d : Image) : Except Raise Fsw → Answer × Holder
  | .ok fs => (.nothing, writer fs)
  | .error e => (.raised e, file d)

/-- What `save` makes of an object. -/
def closed : Except Raise Unit × Fsw → Answer × Holder
  | (.ok (), fs) => (.nothing, file { bytes := fs.file, base := fs.disk.base })
  | (.error e, fs) => (.raised e, writer fs)

variable (c : Canon) (sort : Bool)

def step : Holder → Act → Answer × Holder
  | file d, .load clock => opened d (Fsw.load clock d.base d.bytes)
  | file d, .mount => (.nothing, kernel (fsmount c d))
  | writer fs, .balloc => (.ofWriter (outcome Fsw.balloc fs).1, writer (outcome Fsw.balloc fs).2)
  | writer fs, .bfree b =>
      (.ofUnit (outcome (Fsw.bfree b.toNat) fs).1, writer (outcome (Fsw.bfree b.toNat) fs).2)
  | writer fs, .save => closed (outcome Fsw.save fs)
  | kernel mp, .balloc =>
      (if (mp.balloc c).1 = 0 then .full else .block (mp.balloc c).1.toNat, kernel (mp.balloc c).2)
  | kernel mp, .bfree b => (.nothing, kernel (mp.bfree c sort b))
  | kernel mp, .unmount time => (.nothing, file (msync c time mp).disk)
  | x, _ => (.nothing, x)

theorem step_load (d : Image) (clock : Nat → Int) :
    step c sort (file d) (.load clock) = opened d (Fsw.load clock d.base d.bytes) := rfl

theorem step_writer_balloc (fs : Fsw) : step c sort (writer fs) .balloc =
    (.ofWriter (outcome Fsw.balloc fs).1, writer (outcome Fsw.balloc fs).2) := rfl

theorem step_writer_bfree (fs : Fsw) (b : BitVec 32) : step c sort (writer fs) (.bfree b) =
    (.ofUnit (outcome (Fsw.bfree b.toNat) fs).1, writer (outcome (Fsw.bfree b.toNat) fs).2) := rfl

theorem step_save (fs : Fsw) :
    step c sort (writer fs) .save = closed (outcome Fsw.save fs) := rfl

theorem step_kernel_balloc (mp : Mount) : step c sort (kernel mp) .balloc =
    (if (mp.balloc c).1 = 0 then .full else .block (mp.balloc c).1.toNat, kernel (mp.balloc c).2) := rfl

theorem step_unmount (mp : Mount) (time : BitVec 32) : step c sort (kernel mp) (.unmount time) =
    (.nothing, file (msync c time mp).disk) := rfl

/-- One act after another: the answers, and where it ends. -/
def run : Holder → List Act → List Answer × Holder
  | x, [] => ([], x)
  | x, a :: acts => ((step c sort x a).1 :: (run (step c sort x a).2 acts).1, (run (step c sort x a).2 acts).2)

/-- The blocks that are free. A file system that the kernel is to mount has no more than a signed
long counts. -/
def Pool (l : List Nat) : Holder → Prop
  | file d => d.Pool l ∧ (Fsw.loaded (fun _ => 0) d.base d.bytes).fsize < 2 ^ 31
  | writer fs => fs.Pool l ∧ fs.InodesInRange ∧ fs.fsize < 2 ^ 31
  | kernel mp => mp.Mounted l

/-- Only the program that has the file system acts on it, and it gives back blocks of files that
are not free; `cohfsw.py` none that its empty list would take for a link. -/
def Legal : Holder → Act → Prop
  | file _, .load _ | file _, .mount | writer _, .balloc | writer _, .save | kernel _, .balloc
  | kernel _, .unmount _ => True
  | writer fs, .bfree b =>
      fs.InFiles b.toNat ∧ (∀ l, fs.Pool l → b.toNat ∉ l) ∧ fs.Clean b.toNat
  | kernel mp, .bfree b => mp.InFiles b ∧ ∀ l, mp.Pool l → b.toNat ∉ l
  | _, _ => False

def LegalRun : Holder → List Act → Prop
  | _, [] => True
  | x, a :: acts => x.Legal a ∧ LegalRun (step c sort x a).2 acts

/-- The image as it is now. -/
def image : Holder → Image
  | file d => d
  | writer fs => fs.disk
  | kernel mp => mp.disk

/-- What is known of the file system besides its free blocks: its sizes and its inodes. -/
def sizes : Holder → Nat × Nat × Int × List Nat × Int
  | file d =>
      let fs := Fsw.loaded (fun _ => 0) d.base d.bytes
      (fs.isize, fs.fsize, fs.ninode, fs.icache, fs.tinode)
  | writer fs => (fs.isize, fs.fsize, fs.ninode, fs.icache, fs.tinode)
  | kernel mp => (mp.super.isize.toNat, mp.super.fsize.toNat, short mp.super.ninode.toNat,
      mp.super.inode.map BitVec.toNat, mp.super.tinode.toNat)

/-- What an act leaves alone: all but the blocks `touched` and the super block. -/
structure Frame (touched : List Nat) (x x' : Holder) : Prop where
  sizes : x'.sizes = x.sizes
  base : x'.image.base = x.image.base
  block : ∀ n, n ∉ touched → n ≠ 1 → x'.image.block n = x.image.block n
  inode : ∀ ino, Image.InTable x.sizes.1 ino → x'.image.iread ino = x.image.iread ino

namespace Frame

variable {t t' : List Nat} {x x' x'' : Holder}

theorem mono (h : Frame t x x') (ht : t ⊆ t') : Frame t' x x' :=
  ⟨h.sizes, h.base, fun n hn => h.block n fun hm => hn (ht hm), h.inode⟩

theorem trans (h : Frame t x x') (h' : Frame t x' x'') : Frame t x x'' where
  sizes := h'.sizes.trans h.sizes
  base := h'.base.trans h.base
  block n hn hone := (h'.block n hn hone).trans (h.block n hn hone)
  inode ino hino := (h'.inode ino (by rwa [h.sizes])).trans (h.inode ino hino)

/-- One block of those touched is written, or the super block. -/
theorem of_wrote (hsizes : x'.sizes = x.sizes) {b : Nat} {new : List Byte} (hnew : new.length = BSIZE)
    (hwrote : x.image.Wrote b new x'.image) (hb : b = 1 ∨ b ∈ t ∧ x.sizes.1 ≤ b) : Frame t x x' where
  sizes := hsizes
  base := hwrote.base
  block n hn hone := hwrote.block_ne hnew fun hnb => hb.elim (fun h => hone (hnb.trans h)) fun h =>
    hn (hnb ▸ h.1)
  inode ino hino := hb.elim (fun h => hwrote.iread_low hnew hino.1 (by omega))
    fun h => hwrote.iread hino h.2

theorem of_same (hsizes : x'.sizes = x.sizes) (himage : x'.image = x.image) : Frame t x x' where
  sizes := hsizes
  base := by rw [himage]
  block _ _ _ := by rw [himage]
  inode _ _ := by rw [himage]

end Frame

/-- What becomes of the free blocks, the next one first: an allocation takes that one, and a block
given back is put before it or, where the kernel sorts them, among them. -/
inductive Pools (sort : Bool) : List Nat → Act → Answer → List Nat → Prop
  | take {b : Nat} {l : List Nat} : Pools sort (b :: l) .balloc (.block b) l
  | full : Pools sort [] .balloc .full []
  | give {b : BitVec 32} {l l' : List Nat} (fresh : b.toNat ∉ l) (same : l'.Perm (b.toNat :: l))
      (last : sort = false → l' = b.toNat :: l) : Pools sort l (.bfree b) .nothing l'
  | load {clock : Nat → Int} {l : List Nat} : Pools sort l (.load clock) .nothing l
  | save {l : List Nat} : Pools sort l .save .nothing l
  | mount {l : List Nat} : Pools sort l .mount .nothing l
  | unmount {time : BitVec 32} {l : List Nat} : Pools sort l (.unmount time) .nothing l

variable {c sort} {x : Holder} {l : List Nat}

/-- `cohfsw.py` takes a block. -/
theorem writer_balloc {fs : Fsw} (h : (writer fs).Pool l) :
    ∃ l', Pools sort l .balloc (step c sort (writer fs) .balloc).1 l' ∧
      (step c sort (writer fs) .balloc).2.Pool l' ∧
      Frame l (writer fs) (step c sort (writer fs) .balloc).2 := by
  obtain ⟨hpool, hinodes, hsmall⟩ := h
  rw [step_writer_balloc]
  cases l with
  | nil =>
      obtain ⟨nfree, hrun, hpool'⟩ := balloc_pool_nil hpool
      rw [hrun]
      exact ⟨[], .full, ⟨hpool', ⟨hinodes.ninode, hinodes.length, hinodes.icache, hinodes.tinode,
        hinodes.isize⟩, hsmall⟩, .of_same rfl rfl⟩
  | cons b l =>
      obtain ⟨nfree, free, hrun, hpool'⟩ := balloc_pool hpool
      have hb := hpool.range b List.mem_cons_self
      have hwrote := Fsw.took_wrote (hpool.holds hb.2) nfree free
      rw [hrun]
      exact ⟨l, .take, ⟨hpool', ⟨hinodes.ninode, hinodes.length, hinodes.icache, hinodes.tinode,
        hinodes.isize⟩, hsmall⟩, .of_wrote rfl (length_ljust (Nat.zero_le _)) hwrote
        (.inr ⟨List.mem_cons_self, hb.1⟩)⟩

theorem freed_inodes {fs fs' : Fsw} {b : Nat} (h : fs.Freed b fs') (hinodes : fs.InodesInRange) :
    fs'.InodesInRange := by
  rw [h.fields]
  exact ⟨hinodes.ninode, hinodes.length, hinodes.icache, hinodes.tinode, hinodes.isize⟩

/-- It gives one back. -/
theorem writer_bfree {fs : Fsw} (h : (writer fs).Pool l) {b : BitVec 32}
    (hlegal : (writer fs).Legal (.bfree b)) :
    ∃ l', Pools sort l (.bfree b) (step c sort (writer fs) (.bfree b)).1 l' ∧
      (step c sort (writer fs) (.bfree b)).2.Pool l' ∧
      Frame (b.toNat :: l) (writer fs) (step c sort (writer fs) (.bfree b)).2 := by
  obtain ⟨hpool, hinodes, hsmall⟩ := h
  obtain ⟨hb, hfresh, hclean⟩ := hlegal
  obtain ⟨fs', hrun, hpool', hfreed⟩ := bfree_pool hpool hb (hfresh l hpool) hclean
  have hsizes : (writer fs').sizes = (writer fs).sizes := by
    rw [hfreed.fields]
    rfl
  have hsmall' : fs'.fsize < 2 ^ 31 := by
    rw [hfreed.fields]
    exact hsmall
  rw [step_writer_bfree, hrun]
  refine ⟨_, .give (hfresh l hpool) .rfl fun _ => rfl, ⟨hpool', freed_inodes hfreed hinodes, hsmall'⟩, ?_⟩
  obtain hdisk | ⟨new, hnew, hwrote⟩ := hfreed.disk
  · exact .of_same hsizes hdisk
  · exact .of_wrote hsizes hnew hwrote (.inr ⟨List.mem_cons_self, hb.1⟩)

/-- Its object is saved, and the file has the same list. -/
theorem writer_save {fs : Fsw} (h : (writer fs).Pool l) :
    ∃ l', Pools sort l .save (step c sort (writer fs) .save).1 l' ∧
      (step c sort (writer fs) .save).2.Pool l' ∧
      Frame l (writer fs) (step c sort (writer fs) .save).2 := by
  obtain ⟨hpool, hinodes, hsmall⟩ := h
  have hrange := hpool.inRange hinodes
  have hhold := hpool.toSized.holds_super
  obtain ⟨d, sb, hrun, hwrote, hlen, hsaid⟩ := save_said hrange hhold
  have hblock : d.block 1 = sb := hwrote.block_self hhold hlen
  have himage : (⟨d.bytes, fs.disk.base⟩ : Image) = d := by rw [← hwrote.base]
  have hloaded := @loaded_said _ hrange fs.disk.base d.bytes (by rwa [himage, hblock])
    fun _ => 0
  have hstep : step c sort (writer fs) .save = (.nothing, file d) := by
    rw [step_save, hrun]
    exact congrArg (fun d => (Answer.nothing, file d)) ((congrArg (Image.mk d.bytes) hwrote.base).trans himage)
  rw [hwrote.base.symm] at hloaded
  have hsame : (⟨d.bytes, d.base⟩ : Image) = d := rfl
  rw [hsame] at hloaded
  rw [hstep]
  refine ⟨l, .save, ⟨?_, ?_⟩, .of_wrote ?_ hlen hwrote (.inl rfl)⟩
  · obtain ⟨n, hn, hpile⟩ := hpool.pile
    rw [Image.Pool, hloaded]
    refine ⟨⟨hpool.isize, hpool.room, hpool.fsize, ?_⟩, ⟨n, hn, hpile.transfer fun b hb =>
      Image.node_congr (hwrote.block_ne hlen fun hone => ?_)⟩, hpool.length, hpool.longs, hpool.nodup,
      hpool.range, hpool.total⟩
    · dsimp only
      rw [hwrote.put.length, hwrote.base]
      exact hpool.size
    · have hlow := (hpool.range b hb).1
      have hisize := hpool.isize
      omega
  · rw [hloaded]
    exact hsmall
  · rw [sizes, hloaded]
    rfl

/-- An object is made of the file. -/
theorem file_load {d : Image} (h : (file d).Pool l) (clock : Nat → Int) :
    ∃ l', Pools sort l (.load clock) (step c sort (file d) (.load clock)).1 l' ∧
      (step c sort (file d) (.load clock)).2.Pool l' ∧
      Frame l (file d) (step c sort (file d) (.load clock)).2 := by
  obtain ⟨hpool, hsmall⟩ := h
  have hhold : d.Holds 1 := hpool.toSized.holds_super
  have hload := @load_eq clock d.base d.bytes (Image.length_block hhold)
  rw [step_load, hload]
  refine ⟨l, .load, ⟨loaded_pool hpool clock, ⟨short_lt (word_lt _ _), ?_, fun ino hino => ?_, ?_,
    word_lt _ _⟩, hsmall⟩, .of_same rfl rfl⟩
  · rw [Fsw.loaded, List.length_map, List.length_range]
  · obtain ⟨i, -, rfl⟩ := List.mem_map.mp hino
    exact word_lt _ _
  · have hlt := word_lt (d.block 1) SB_TINODE
    exact ⟨Int.natCast_nonneg _, Int.ofNat_lt.mpr hlt⟩

/-- The kernel mounts it. -/
theorem file_mount (hc : c.OnI386) {d : Image} (h : (file d).Pool l) :
    ∃ l', Pools sort l .mount (step c sort (file d) .mount).1 l' ∧
      (step c sort (file d) .mount).2.Pool l' ∧
      Frame l (file d) (step c sort (file d) .mount).2 := by
  have hon := fsmount_on hc d
  refine ⟨l, .mount, fsmount_mounted hc h.1 h.2, .of_same ?_ rfl⟩
  rw [sizes, loaded_on hon]
  rfl

/-- What an operation of the kernel on free blocks leaves. -/
theorem frame_of_spares {t : List Nat} {mp mp' : Mount} (h : Mount.Spares t mp mp')
    (hlow : ∀ b ∈ t, mp.super.isize.toNat ≤ b) : Frame t (kernel mp) (kernel mp') := by
  have hsizes : (kernel mp').sizes = (kernel mp).sizes := by
    rw [sizes, h.fields]
    rfl
  obtain hdisk | ⟨b, new, hb, hnew, hwrote⟩ := h.disk
  · exact .of_same hsizes hdisk
  · exact .of_wrote hsizes hnew hwrote (.inr ⟨hb, hlow b hb⟩)

theorem mounted_of_spares {t : List Nat} {mp mp' : Mount} (h : Mount.Spares t mp mp')
    (hon : mp.super.fmod = false → mp.super.On (mp.disk.block 1)) {l' : List Nat} (hpool : mp'.Pool l') :
    mp'.Mounted l' := by
  refine ⟨hpool, fun hfmod => ?_⟩
  obtain ⟨hsuper, hdisk⟩ := h.fmod hfmod
  rw [hsuper, hdisk]
  exact hon (by rwa [hsuper] at hfmod)

theorem kernel_balloc (hc : c.OnI386) {mp : Mount} (h : (kernel mp).Pool l) :
    ∃ l', Pools sort l .balloc (step c sort (kernel mp) .balloc).1 l' ∧
      (step c sort (kernel mp) .balloc).2.Pool l' ∧
      Frame l (kernel mp) (step c sort (kernel mp) .balloc).2 := by
  obtain ⟨hpool, hon⟩ := h
  rw [step_kernel_balloc]
  cases l with
  | nil =>
      obtain ⟨hnone, hpool', hspares, -⟩ := Mount.balloc_pool_nil c hpool
      rw [if_pos hnone]
      exact ⟨[], .full, mounted_of_spares hspares hon hpool', frame_of_spares hspares nofun⟩
  | cons b l =>
      obtain ⟨nfree, free, hrun, hpool'⟩ := Mount.balloc_pool hc hpool
      have hspares := Mount.spares_withTable mp nfree free
      have hb := hpool.range b List.mem_cons_self
      have hfsize := hpool.fsize
      have hisize := hpool.isize
      have hnat : (BitVec.ofNat 32 b).toNat = b := by
        rw [BitVec.toNat_ofNat]
        omega
      have hne : BitVec.ofNat 32 b ≠ 0 := fun hzero => by
        rw [hzero] at hnat
        have hbzero : b = 0 := hnat.symm
        omega
      rw [hrun, if_neg hne, hnat]
      exact ⟨l, .take, mounted_of_spares hspares hon hpool',
        (frame_of_spares hspares nofun).mono (List.nil_subset _)⟩

theorem kernel_bfree (hc : c.OnI386) {mp : Mount} (h : (kernel mp).Pool l) {b : BitVec 32}
    (hlegal : (kernel mp).Legal (.bfree b)) :
    ∃ l', Pools sort l (.bfree b) (step c sort (kernel mp) (.bfree b)).1 l' ∧
      (step c sort (kernel mp) (.bfree b)).2.Pool l' ∧
      Frame (b.toNat :: l) (kernel mp) (step c sort (kernel mp) (.bfree b)).2 := by
  obtain ⟨hpool, hon⟩ := h
  obtain ⟨hb, hfresh⟩ := hlegal
  obtain ⟨l', hpool', hsame, hlast, hspares⟩ := Mount.bfree_pool hc sort hpool hb (hfresh l hpool)
  refine ⟨l', .give (hfresh l hpool) hsame hlast, mounted_of_spares hspares hon hpool',
    frame_of_spares hspares fun x hx => ?_⟩
  exact (List.mem_cons.mp hx).elim (fun heq => heq ▸ hb.1) fun hx => (hpool.range x hx).1

/-- It unmounts the file system, and the file has the same list. -/
theorem kernel_unmount (hc : c.OnI386) {mp : Mount} (h : (kernel mp).Pool l) (time : BitVec 32) :
    ∃ l', Pools sort l (.unmount time) (step c sort (kernel mp) (.unmount time)).1 l' ∧
      (step c sort (kernel mp) (.unmount time)).2.Pool l' ∧
      Frame l (kernel mp) (step c sort (kernel mp) (.unmount time)).2 := by
  obtain ⟨mp', hdisk, hpool', hon, hsuper, hwrote⟩ := msync_mounted hc h time
  obtain ⟨hfile, hsmall⟩ := (pool_iff_of_on hon).mp hpool'
  have hsizes : (file mp'.disk).sizes = (kernel mp).sizes := by
    rw [sizes, loaded_on hon, sizes, hsuper]
  rw [step_unmount, hdisk]
  refine ⟨l, .unmount, ⟨hfile, ?_⟩, ?_⟩
  · rw [loaded_on hon]
    exact hsmall
  · obtain hsame | ⟨new, hnew, hwrote⟩ := hwrote
    · exact .of_same hsizes hsame
    · exact .of_wrote hsizes hnew hwrote (.inl rfl)

/-! ### Runs -/

/-- The blocks that are given back, and those that are handed out. -/
def given : List Act → List Nat
  | [] => []
  | .bfree b :: acts => b.toNat :: given acts
  | _ :: acts => given acts

def handed : List Answer → List Nat
  | [] => []
  | .block b :: answers => b :: handed answers
  | _ :: answers => handed answers

/-- One act: the list does what `Pools` says, and nothing else of the file system changes. -/
theorem step_pools (hc : c.OnI386) (hx : x.Pool l) {a : Act} (ha : x.Legal a) :
    ∃ l', Pools sort l a (step c sort x a).1 l' ∧ (step c sort x a).2.Pool l' ∧
      Frame (given [a] ++ l) x (step c sort x a).2 := by
  cases x with
  | file d =>
      cases a with
      | load clock => exact file_load hx clock
      | mount => exact file_mount hc hx
      | _ => exact ha.elim
  | writer fs =>
      cases a with
      | balloc => exact writer_balloc hx
      | bfree b => exact writer_bfree hx ha
      | save => exact writer_save hx
      | _ => exact ha.elim
  | kernel mp =>
      cases a with
      | balloc => exact kernel_balloc hc hx
      | bfree b => exact kernel_bfree hc hx ha
      | unmount time => exact kernel_unmount hc hx time
      | _ => exact ha.elim

/-- The list over a whole run. -/
inductive PoolsRun (sort : Bool) : List Nat → List Act → List Answer → List Nat → Prop
  | done {l : List Nat} : PoolsRun sort l [] [] l
  | next {l m l' : List Nat} {a : Act} {r : Answer} {acts : List Act} {answers : List Answer}
      (first : Pools sort l a r m) (rest : PoolsRun sort m acts answers l') :
      PoolsRun sort l (a :: acts) (r :: answers) l'

/-- What was free or is given back is handed out or is free. -/
theorem Pools.account {l l' : List Nat} {a : Act} {r : Answer} (h : Pools sort l a r l') :
    (handed [r] ++ l').Perm (given [a] ++ l) := by
  cases h with
  | give _ same _ => exact same
  | _ => exact .rfl

theorem handed_cons (r : Answer) (answers : List Answer) :
    handed (r :: answers) = handed [r] ++ handed answers := by
  cases r <;> rfl

theorem given_cons (a : Act) (acts : List Act) : given (a :: acts) = given [a] ++ given acts := by
  cases a <;> rfl

theorem PoolsRun.account {l l' : List Nat} {acts : List Act} {answers : List Answer}
    (h : PoolsRun sort l acts answers l') : (handed answers ++ l').Perm (given acts ++ l) := by
  induction h with
  | done => exact .rfl
  | @next l m l' a r acts answers first _ ih =>
      rw [handed_cons, given_cons, List.append_assoc, List.append_assoc]
      refine (ih.append_left _).trans ?_
      refine List.perm_append_comm_assoc .. |>.trans ((first.account.append_left _).trans ?_)
      exact List.perm_append_comm_assoc ..

theorem run_pools (hc : c.OnI386) (acts : List Act) : ∀ {x : Holder} {l : List Nat}, x.Pool l →
    LegalRun c sort x acts → ∃ l', PoolsRun sort l acts (run c sort x acts).1 l' ∧
      (run c sort x acts).2.Pool l' ∧ Frame (given acts ++ l) x (run c sort x acts).2 := by
  induction acts with
  | nil => exact fun {x l} hx _ => ⟨l, .done, hx, .of_same rfl rfl⟩
  | cons a acts ih =>
      intro x l hx hlegal
      obtain ⟨m, hfirst, hm, hframe⟩ := step_pools hc hx hlegal.1
      obtain ⟨l', hrest, hl', hframe'⟩ := ih hm hlegal.2
      have hsub : m ⊆ given [a] ++ l := fun b hb =>
        (hfirst.account.subset (List.mem_append_right _ hb))
      refine ⟨l', .next hfirst hrest, hl', ?_⟩
      rw [given_cons, List.append_assoc]
      refine (hframe.mono ?_).trans (hframe'.mono ?_)
      · exact List.append_subset.mpr ⟨List.subset_append_left _ _,
          fun b hb => List.mem_append_right _ (List.mem_append_right _ hb)⟩
      · refine List.append_subset.mpr ⟨fun b hb => List.mem_append_right _ (List.mem_append_left _ hb), ?_⟩
        exact fun b hb => (List.mem_append.mp (hsub hb)).elim (List.mem_append_left _)
          fun hb => List.mem_append_right _ (List.mem_append_right _ hb)

end Holder

end Sbc386Ex.Cohfs

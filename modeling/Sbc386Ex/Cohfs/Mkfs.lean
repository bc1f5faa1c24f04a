import Sbc386Ex.Cohfs.Nodes
import Sbc386Ex.Cohfs.Sessions

/-!
# Sbc386Ex.Cohfs.Mkfs

`mkfs`: the image file it makes keeps an empty root directory and the file of the bad blocks, and all
its other blocks are free, in ascending order.
-/

namespace Sbc386Ex.Cohfs

open Raising

def SB_FNAME : Nat := 484
def SB_FPACK : Nat := 490

/-- The blocks in ascending runs of 63, each with the block that links to the next after it. -/
def freeGroups (blocks : List Nat) : List (Nat × List Nat) :=
  let k := min (NICFREE - 1) (blocks.length - 1)
  match _h : blocks.drop k with
  | [] => []
  | link :: rest => (link, blocks.take k) :: freeGroups rest
termination_by blocks.length
decreasing_by
  have hlen := congrArg List.length _h
  rw [List.length_drop, List.length_cons] at hlen
  omega

/-- The lists of the groups, and the empty one that the last links to. -/
def freeLists (groups : List (Nat × List Nat)) : List (List Nat) :=
  groups.map (fun (link, entries) => link :: entries.reverse) ++ [[]]

/-- The inodes that a new superblock has at hand. -/
def newCache (ninodes : Nat) : List Nat := (List.range' 3 (min ninodes (NICINOD + 2) - 2)).reverse.take NICINOD

/-- A new superblock, its free list `first`. -/
def newSuper (isize nblocks ninodes : Nat) (t : Int) (first : List Nat) : Except Raise (List Byte) := do
  let sb := List.replicate BSIZE 0
  let sb ← packInto sb SB_ISIZE (← packH isize)
  let sb ← putpdp sb SB_FSIZE nblocks
  let sb ← packInto sb SB_NFREE (← packh first.length)
  let sb ← first.zipIdx.foldlM (fun sb (b, i) => putpdp sb (SB_FREE + 4 * i) b) sb
  let cache := newCache ninodes
  let sb ← packInto sb SB_NINODE (← packh cache.length)
  let sb ← packInto sb SB_INODE (← cache.mapM fun i : Nat => packH i).flatten
  let sb ← putpdp sb SB_TIME t
  let sb ← putpdp sb SB_TFREE ((nblocks : Int) - isize - 1)
  let sb ← packInto sb SB_TINODE (← packH ((ninodes : Int) - 2))
  let sb ← packInto sb SB_M (bytes16 1 ++ bytes16 1)
  let sb := splice sb SB_FNAME (SB_FNAME + 6) [0x6E, 0x6F, 0x6E, 0x61, 0x6D, 0x65]
  return splice sb SB_FPACK (SB_FPACK + 6) [0x6E, 0x6F, 0x70, 0x61, 0x63, 0x6B]

/-- A link block that holds the list `lst`. -/
def linkTable (lst : List Nat) : Except Raise (List Byte) := do
  let b ← packInto (List.replicate BSIZE 0) 0 (← packh lst.length)
  lst.zipIdx.foldlM (fun b (x, i) => putpdp b (2 + 4 * i) x) b

/-- Each link block, with the list that comes in with it. -/
def putLinks (img : List Byte) (links : List (Nat × List Nat)) : Except Raise (List Byte) :=
  links.foldlM (fun img (link, lst) => do
    return splice img (link * BSIZE) ((link + 1) * BSIZE) (← linkTable lst)) img

/-- `inode`, in `mkfs`. -/
def putInode (img : List Byte) (t : Int) (ino : Nat) (mode nlink : Int) (size addr0 : Nat) :
    Except Raise (List Byte) := do
  let raw := List.replicate INOSZ 0
  let raw ← packInto raw 0 ((← packH mode) ++ (← packh nlink) ++ (← packH 0) ++ (← packH 0))
  let raw ← putpdp raw 8 size
  let raw ← putl3 raw 12 addr0
  let raw ← putpdp raw 52 t
  let raw ← putpdp raw 56 t
  let raw ← putpdp raw 60 t
  let o := 2 * BSIZE + (ino - 1) * INOSZ
  return splice img o (o + INOSZ) raw

/-- The image file `mkfs` makes at the time `t`. -/
def mkfs (nblocks : Nat) (ninodes : Option Nat) (t : Int) : Except Raise (List Byte) := do
  let ninodes := ninodes.getD ((nblocks / 7 + 7) / 8 * 8)
  let iblocks := ninodes * INOSZ / BSIZE
  let isize := 2 + iblocks
  let rootblk := isize
  let img := List.replicate (nblocks * BSIZE) 0
  let groups := freeGroups (List.range' (rootblk + 1) (nblocks - (rootblk + 1)))
  let lists := freeLists groups
  let sb ← newSuper isize nblocks ninodes t (lists.headD [])
  let img := splice img BSIZE (2 * BSIZE) sb
  let img ← putLinks img ((groups.map (·.1)).zip (lists.drop 1))
  -- the bad blocks
  let img ← putInode img t 1 S_IFREG 0 0 0
  let img ← putInode img t ROOTINO (S_IFDIR ||| 0o777 : Nat) 3 32 rootblk
  let d ← Fsw.dots ROOTINO ROOTINO
  return splice img (rootblk * BSIZE) (rootblk * BSIZE + d.length) d

/-! ### The free list -/

/-- The blocks of the groups. -/
def groupBlocks (groups : List (Nat × List Nat)) : List Nat := groups.flatMap fun g => g.2 ++ [g.1]

theorem groupBlocks_cons (link : Nat) (entries : List Nat) (groups : List (Nat × List Nat)) :
    groupBlocks ((link, entries) :: groups) = entries ++ link :: groupBlocks groups := by
  rw [groupBlocks, List.flatMap_cons, List.append_assoc, List.singleton_append]
  rfl

/-- The groups are the blocks in order. -/
theorem flatten_freeGroups (blocks : List Nat) :
    groupBlocks (freeGroups blocks) = blocks ∧
      ∀ g ∈ freeGroups blocks, g.2.length < NICFREE := by
  have hcap : NICFREE = 64 := rfl
  induction blocks using freeGroups.induct with
  | case1 blocks k h =>
      have hlen := congrArg List.length h
      rw [List.length_drop, List.length_nil] at hlen
      obtain rfl : blocks = [] := List.eq_nil_of_length_eq_zero (by omega)
      rw [freeGroups]
      exact ⟨rfl, nofun⟩
  | case2 blocks k link rest h ih =>
      have hgroups : freeGroups blocks = (link, blocks.take k) :: freeGroups rest := by
        rw [freeGroups]
        split
        · next h' => cases h.symm.trans h'
        · next h' => cases h.symm.trans h'; rfl
      rw [hgroups, groupBlocks_cons, ih.1, ← h, List.take_append_drop]
      refine ⟨rfl, fun g hg => ?_⟩
      rcases List.mem_cons.mp hg with rfl | hg
      · rw [List.length_take]
        omega
      · exact ih.2 g hg

/-- The loop that puts longs in a row leaves the places after them as they were: they hold zeros. -/
theorem putPdps_padded (l : List Nat) {n o : Nat} {b : List Byte} (hlen : l.length ≤ n) (h : o + 4 * n ≤ b.length)
    (hzero : ∀ i, o ≤ i → b.getD i 0 = 0) (hl : ∀ v ∈ l, v < 2 ^ 32) :
    ∃ b', l.zipIdx.foldlM (fun b (a, i) => putpdp b (o + 4 * i) a) b = .ok b' ∧ b'.length = b.length ∧
      (∀ i, i < o ∨ o + 4 * n ≤ i → b'.getD i 0 = b.getD i 0) ∧
      ∀ i < n, long b' (o + 4 * i) = (padded n l).getD i 0 := by
  obtain ⟨b', hfold, hsize, hkept, hplaces⟩ := putPdps l (b := b) (o := o) (by omega)
  refine ⟨b', hfold, hsize, fun i hi => hkept i (by omega), fun i hi => ?_⟩
  rw [padded]
  by_cases hin : i < l.length
  · rw [List.getD_append _ _ _ _ hin, hplaces i hin (getD_lt (by decide) hl i)]
  · rw [List.getD_append_right _ _ _ _ (by omega), List.getD_replicate _ (by omega), ← long_zeros 0 0]
    have hnone : ∀ j, o + 4 * i ≤ j → b'.getD j 0 = 0 := fun j hj => by
      rw [hkept j (.inr (by omega)), hzero j (by omega)]
    rw [long, word, word, hnone _ (by omega), hnone _ (by omega), hnone _ (by omega), hnone _ (by omega)]
    rfl

theorem splice_put {b new : List Byte} {o : Nat} (h : o + new.length ≤ b.length) :
    Put o new b (splice b o (o + new.length) new) :=
  ⟨length_splice h rfl, getD_splice h rfl⟩

/-- A block of an image file. -/
theorem splice_wrote {img new : List Byte} {b n : Nat} (hb : b < n) (hsize : n * BSIZE ≤ img.length)
    (hnew : new.length = BSIZE) :
    Image.Wrote b new ⟨img, 0⟩ ⟨splice img (b * BSIZE) ((b + 1) * BSIZE) new, 0⟩ := by
  have hhold : Image.Holds ⟨img, 0⟩ b := Image.holds_of_lt (d := ⟨img, 0⟩) hsize hb
  have hend : (b + 1) * BSIZE = b * BSIZE + new.length := by rw [Nat.add_mul, Nat.one_mul, hnew]
  refine ⟨rfl, ?_⟩
  show Put (b * BSIZE) new img _
  rw [hend]
  rw [Image.Holds, Image.start, Nat.add_zero] at hhold
  exact splice_put (by rwa [hnew])

theorem take_slice {l : List Byte} {a b k : Nat} (h : k ≤ b - a) : (slice l a b).take k = slice l a (a + k) := by
  rw [slice, slice, List.take_take, Nat.min_eq_left h, Nat.add_sub_cancel_left]

theorem slice_zeros (n a b : Nat) :
    slice (List.replicate n (0 : Byte)) a b = List.replicate (min (b - a) (n - a)) 0 := by
  rw [slice, List.drop_replicate, List.take_replicate]

theorem getD_zeros (n i : Nat) : (List.replicate n (0 : Byte)).getD i 0 = 0 := by
  rw [List.getD_eq_getElem?_getD, List.getElem?_replicate]
  split_ifs <;> rfl

/-- A link block, packed. -/
theorem linkTable_eq {lst : List Nat} (hlen : lst.length ≤ NICFREE) (hl : ∀ v ∈ lst, v < 2 ^ 32) :
    ∃ blk, linkTable lst = .ok blk ∧ blk.length = BSIZE ∧ word blk 0 = lst.length ∧
      ∀ i < lst.length, long blk (2 + 4 * i) = lst.getD i 0 := by
  have hcap : NICFREE = 64 := rfl
  have hzeros : (List.replicate BSIZE (0 : Byte)).length = 512 := List.length_replicate
  obtain ⟨n, hn, hpack, hshort⟩ := packh_ok (v := lst.length) (by omega)
  obtain ⟨b₁, e₁, p₁⟩ := packInto_put (bytes16 n) (b := List.replicate BSIZE 0) (o := 0)
    (by rw [hzeros, length_bytes16]; decide)
  obtain ⟨b₂, e₂, hlen₂, hkept, hslots⟩ :=
      putPdps_padded lst (o := 2) hlen (by rw [p₁.length, hzeros, hcap]; decide)
    (fun i hi => by rw [p₁.getD_of_apart (.inr hi), getD_zeros]) hl
  refine ⟨b₂, ?_, by rw [hlen₂, p₁.length, hzeros]; rfl, ?_, fun i hi => ?_⟩
  · rw [linkTable, bind_ok hpack, bind_ok e₁, e₂]
  · have hword : word b₂ 0 = word b₁ 0 := by
      rw [word, word, hkept _ (.inl (by decide)), hkept _ (.inl (by decide))]
    have hcount : word b₁ 0 = n := (p₁.word_at (k := 0) (length_bytes16 n).ge).trans (word_bytes16 hn)
    rw [hword, hcount]
    unfold short at hshort
    split_ifs at hshort <;> omega
  · rw [hslots i (hi.trans_le hlen), padded, List.getD_append _ _ _ _ hi]

/-- What the lists after `groups` begin with. -/
theorem freeLists_cons (link : Nat) (entries : List Nat) (groups : List (Nat × List Nat)) :
    freeLists ((link, entries) :: groups) = (link :: entries.reverse) :: freeLists groups := rfl

theorem freeLists_eq (groups : List (Nat × List Nat)) :
    freeLists groups = (freeLists groups).headD [] :: (freeLists groups).drop 1 := by
  cases groups <;> rfl

theorem links_subset (groups : List (Nat × List Nat)) : groups.map (·.1) ⊆ groupBlocks groups := fun b hb => by
  obtain ⟨g, hg, rfl⟩ := List.mem_map.mp hb
  exact List.mem_flatMap.mpr ⟨g, hg, by simp⟩

theorem headD_freeLists {groups : List (Nat × List Nat)} (hcap : ∀ g ∈ groups, g.2.length < NICFREE) :
    ((freeLists groups).headD []).length ≤ NICFREE ∧ (freeLists groups).headD [] ⊆ groupBlocks groups := by
  cases groups with
  | nil => exact ⟨Nat.zero_le _, List.nil_subset _⟩
  | cons g groups =>
      obtain ⟨link, entries⟩ := g
      rw [freeLists_cons, groupBlocks_cons, List.headD_cons, List.length_cons, List.length_reverse]
      refine ⟨hcap _ List.mem_cons_self, fun b hb => ?_⟩
      simp only [List.mem_cons, List.mem_reverse, List.mem_append] at hb ⊢
      exact hb.elim (fun h => .inr (.inl h)) .inl

/-- **The link blocks** of the groups make a pile of the blocks in them. -/
theorem putLinks_pile {isize n : Nat} : ∀ {groups : List (Nat × List Nat)} {img : List Byte},
    (groupBlocks groups).Nodup → (∀ b ∈ groupBlocks groups, isize ≤ b ∧ 0 < b ∧ b < n ∧ b < 2 ^ 32) →
    (∀ g ∈ groups, g.2.length < NICFREE) → n * BSIZE ≤ img.length →
    ∃ img', putLinks img ((groups.map (·.1)).zip ((freeLists groups).drop 1)) = .ok img' ∧
      img'.length = img.length ∧
      (∀ b, b ∉ groups.map (·.1) → Image.block ⟨img', 0⟩ b = Image.block ⟨img, 0⟩ b) ∧
      (∀ ino, Image.InTable isize ino → Image.iread ⟨img', 0⟩ ino = Image.iread ⟨img, 0⟩ ino) ∧
      Pile 0 NICFREE (Image.node ⟨img', 0⟩) ((freeLists groups).headD []).length
        (fun i => ((freeLists groups).headD []).getD i 0) (groupBlocks groups) := by
  intro groups
  induction groups with
  | nil => exact fun {img} _ _ _ _ => ⟨img, rfl, rfl, fun _ _ => rfl, fun _ _ => rfl, .empty⟩
  | cons g groups ih =>
      intro img hnodup hin hcap hsize
      obtain ⟨link, entries⟩ := g
      rw [groupBlocks_cons] at hnodup hin ⊢
      have hrest : groupBlocks groups ⊆ entries ++ link :: groupBlocks groups := fun b hb =>
        List.mem_append_right _ (List.mem_cons_of_mem _ hb)
      obtain ⟨hlow, hpos, hlt, -⟩ := hin link (List.mem_append_right _ List.mem_cons_self)
      obtain ⟨hnodup', -⟩ := List.nodup_cons.mp (List.nodup_append'.mp hnodup).2.1 |>.symm
      have hlink : link ∉ groupBlocks groups := (List.nodup_cons.mp (List.nodup_append'.mp hnodup).2.1).1
      have hcap' : ∀ g ∈ groups, g.2.length < NICFREE := fun g hg => hcap g (List.mem_cons_of_mem _ hg)
      obtain ⟨hlen, hsub⟩ := headD_freeLists hcap'
      obtain ⟨blk, hblk, hblksize, hcount, hslots⟩ :=
          linkTable_eq hlen fun v hv => (hin v (hrest (hsub hv))).2.2.2
      have hhold : Image.Holds ⟨img, 0⟩ link := Image.holds_of_lt (d := ⟨img, 0⟩) hsize hlt
      have hwrote := splice_wrote hlt hsize hblksize
      generalize hd : splice img (link * BSIZE) ((link + 1) * BSIZE) blk = img₁ at hwrote
      have hstep : (do return splice img (link * BSIZE) ((link + 1) * BSIZE) (← linkTable ((freeLists groups).headD [])) :
          Except Raise (List Byte)) = .ok img₁ := by
        rw [bind_ok hblk, hd]
        rfl
      have hsize₁ : img₁.length = img.length := hwrote.put.length
      obtain ⟨img', hrun, hsize', hblock, hiread, hpile⟩ := ih hnodup' (fun b hb => hin b (hrest hb)) hcap'
        (hsize.trans_eq hsize₁.symm)
      have hnode : Image.block ⟨img', 0⟩ link = blk :=
        (hblock link fun hmem => hlink (links_subset _ hmem)).trans (hwrote.block_self hhold hblksize)
      refine ⟨img', ?_, hsize'.trans hsize₁, fun b hb => ?_, fun ino hino => ?_, ?_⟩
      · rw [freeLists_cons, List.drop_one, List.tail_cons, freeLists_eq, List.map_cons,
          List.zip_cons_cons, putLinks,
          List.foldlM_cons]
        exact (bind_ok hstep _).trans hrun
      · rw [List.map_cons, List.mem_cons, not_or] at hb
        exact (hblock b hb.2).trans (hwrote.block_ne hblksize hb.1)
      · exact (hiread ino hino).trans (hwrote.iread hino hlow)
      · rw [freeLists_cons, List.headD_cons, List.length_cons, List.length_reverse]
        refine Pile.stack ?_ hpos.ne' (fun e he => (hin e (List.mem_append_left _ he)).2.1.ne')
          (hcap _ List.mem_cons_self)
        rw [Image.node, hnode, hcount]
        exact hpile.congr hslots

/-! ### The superblock -/

/-- The object of a new file system. -/
def newFsw (isize nblocks ninodes : Nat) (first : List Nat) (file : List Byte) : Fsw where
  file := file
  disk := { bytes := file, base := 0 }
  isize := isize
  fsize := nblocks
  nfree := first.length
  free := padded NICFREE first
  ninode := (newCache ninodes).length
  icache := padded NICINOD (newCache ninodes)
  tfree := (nblocks : Int) - isize - 1
  tinode := (ninodes : Int) - 2
  clock _ := 0
  ticks := 0

theorem mem_newCache {ninodes ino : Nat} (h : ino ∈ newCache ninodes) :
    ROOTINO < ino ∧ ino ≤ ninodes ∧ ino ≤ 102 := by
  have hmem := List.mem_range'_1.mp (List.mem_reverse.mp (List.mem_of_mem_take h))
  have hroot : ROOTINO = 2 := rfl
  have hmany : NICINOD = 100 := rfl
  omega

theorem length_newCache (ninodes : Nat) : (newCache ninodes).length ≤ NICINOD := by
  rw [newCache, List.length_take]
  exact Nat.min_le_left _ _

theorem length_padded {n : Nat} {l : List Nat} (h : l.length ≤ n) : (padded n l).length = n := by
  rw [padded, List.length_append, List.length_replicate]
  omega

theorem padded_lt {n m : Nat} {l : List Nat} (hm : 0 < m) (h : ∀ v ∈ l, v < m) :
    ∀ v ∈ padded n l, v < m := fun v hv =>
  (List.mem_append.mp hv).elim (h v) fun hzero => (List.eq_of_mem_replicate hzero).symm ▸ hm

/-- A new superblock is packed, exactly where the count of free inodes fits a word. -/
theorem newSuper_reads {isize nblocks ninodes : Nat} {first : List Nat} (t : Int) (hisize : isize < 65536)
    (hblocks : nblocks < 2 ^ 32) (hlen : first.length ≤ NICFREE) (hfirst : ∀ v ∈ first, v < 2 ^ 32) :
    (¬ (2 ≤ ninodes ∧ ninodes < 65538) → newSuper isize nblocks ninodes t first = .error .structError) ∧
    (2 ≤ ninodes → ninodes < 65538 → isize + 1 ≤ nblocks →
      ∃ sb, newSuper isize nblocks ninodes t first = .ok sb ∧ sb.length = BSIZE ∧
      ∀ file, Says sb (newFsw isize nblocks ninodes first file)) := by
  have hzeros : (List.replicate BSIZE (0 : Byte)).length = 512 := List.length_replicate
  have hcap : NICFREE = 64 := rfl
  have hmany : NICINOD = 100 := rfl
  have hcachelen := length_newCache ninodes
  obtain ⟨n, hn, hpackn, hshortn⟩ := packh_ok (v := first.length) (by omega)
  obtain ⟨m, hm, hpackm, hshortm⟩ := packh_ok (v := (newCache ninodes).length) (by omega)
  have hcachelt : ∀ v ∈ newCache ninodes, v < 65536 := fun v hv => by
    have hmem := mem_newCache hv
    omega
  obtain ⟨b₁, e₁, p₁⟩ := packInto_put (bytes16 isize) (b := List.replicate BSIZE 0) (o := SB_ISIZE)
    (by rw [hzeros, length_bytes16]; decide)
  obtain ⟨b₂, e₂, p₂⟩ := putpdp_put nblocks (b := b₁) (o := SB_FSIZE) (by rw [p₁.length, hzeros]; decide)
  obtain ⟨b₃, e₃, p₃⟩ := packInto_put (bytes16 n) (b := b₂) (o := SB_NFREE)
    (by rw [p₂.length, p₁.length, hzeros, length_bytes16]; decide)
  have hlen₃ : b₃.length = 512 := by rw [p₃.length, p₂.length, p₁.length, hzeros]
  have hzero₃ : ∀ i, SB_FREE ≤ i → b₃.getD i 0 = 0 := fun i hi => by
    have hfree : SB_FREE = 8 := rfl
    rw [p₃.getD_of_apart (.inr (by rw [length_bytes16]; exact hi)),
      p₂.getD_of_apart (.inr (by rw [length_pdp, show SB_FSIZE = 2 from rfl]; omega)),
      p₁.getD_of_apart (.inr (by rw [length_bytes16, show SB_ISIZE = 0 from rfl]; omega)), getD_zeros]
  obtain ⟨b₄, e₄, hlen₄, hkept₄, hslots₄⟩ := putPdps_padded first (o := SB_FREE) hlen
    (by rw [hlen₃]; decide) hzero₃ hfirst
  obtain ⟨b₅, e₅, p₅⟩ := packInto_put (bytes16 m) (b := b₄) (o := SB_NINODE)
    (by rw [hlen₄, hlen₃, length_bytes16]; decide)
  have hlen₅ : b₅.length = 512 := by rw [p₅.length, hlen₄, hlen₃]
  have hcache := length_flatten_bytes16 (newCache ninodes)
  obtain ⟨b₆, e₆, p₆⟩ := packInto_put ((newCache ninodes).map bytes16).flatten (b := b₅) (o := SB_INODE)
    (by rw [hcache, hlen₅, show SB_INODE = 266 from rfl]; omega)
  obtain ⟨b₇, e₇, p₇⟩ := putpdp_put t (b := b₆) (o := SB_TIME) (by rw [p₆.length, hlen₅]; decide)
  obtain ⟨b₈, e₈, p₈⟩ := putpdp_put ((nblocks : Int) - isize - 1) (b := b₇) (o := SB_TFREE)
    (by rw [p₇.length, p₆.length, hlen₅]; decide)
  have hlen₈ : b₈.length = 512 := by rw [p₈.length, p₇.length, p₆.length, hlen₅]
  have hrun : newSuper isize nblocks ninodes t first = (do
      let sb ← packInto b₈ SB_TINODE (← packH ((ninodes : Int) - 2))
      let sb ← packInto sb SB_M (bytes16 1 ++ bytes16 1)
      let sb := splice sb SB_FNAME (SB_FNAME + 6) [0x6E, 0x6F, 0x6E, 0x61, 0x6D, 0x65]
      return splice sb SB_FPACK (SB_FPACK + 6) [0x6E, 0x6F, 0x70, 0x61, 0x63, 0x6B]) := by
    rw [newSuper, bind_ok (packH_ok hisize), bind_ok e₁, bind_ok e₂, bind_ok hpackn, bind_ok e₃, bind_ok e₄,
      bind_ok hpackm, bind_ok e₅, bind_ok (mapM_packH hcachelt), bind_ok e₆, bind_ok e₇, bind_ok e₈]
  rw [hrun]
  refine ⟨fun hout => ?_, fun hlow hhigh hroom => ?_⟩
  · have herr : packH ((ninodes : Int) - 2) = .error .structError := by
      unfold packH
      rw [if_neg (by omega)]
    rw [herr]
    rfl
  · obtain ⟨tf, htf⟩ : ∃ tf : Nat, (nblocks : Int) - isize - 1 = tf := ⟨nblocks - isize - 1, by omega⟩
    obtain ⟨ti, hti⟩ : ∃ ti : Nat, (ninodes : Int) - 2 = ti := ⟨ninodes - 2, by omega⟩
    have hti' : ti < 65536 := by omega
    obtain ⟨b₉, e₉, p₉⟩ := packInto_put (bytes16 ti) (b := b₈) (o := SB_TINODE)
      (by rw [hlen₈, length_bytes16]; decide)
    have hlen₉ : b₉.length = 512 := p₉.length.trans hlen₈
    obtain ⟨b₁₀, e₁₀, p₁₀⟩ := packInto_put (bytes16 1 ++ bytes16 1) (b := b₉) (o := SB_M) (by rw [hlen₉]; decide)
    have hlen₁₀ : b₁₀.length = 512 := p₁₀.length.trans hlen₉
    obtain ⟨b₁₁, e₁₁, p₁₁⟩ : ∃ b, splice b₁₀ SB_FNAME (SB_FNAME + 6) [0x6E, 0x6F, 0x6E, 0x61, 0x6D, 0x65] = b ∧
        Put SB_FNAME [0x6E, 0x6F, 0x6E, 0x61, 0x6D, 0x65] b₁₀ b := ⟨_, rfl, splice_put (by rw [hlen₁₀]; decide)⟩
    obtain ⟨b₁₂, e₁₂, p₁₂⟩ : ∃ b, splice b₁₁ SB_FPACK (SB_FPACK + 6) [0x6E, 0x6F, 0x70, 0x61, 0x63, 0x6B] = b ∧
        Put SB_FPACK [0x6E, 0x6F, 0x70, 0x61, 0x63, 0x6B] b₁₁ b :=
      ⟨_, rfl, splice_put (by rw [p₁₁.length, hlen₁₀]; decide)⟩
    refine ⟨b₁₂, ?_, ?_, fun file => ?_⟩
    · rw [hti, bind_ok (packH_ok hti'), bind_ok e₉, bind_ok e₁₀]
      dsimp only
      rw [e₁₁, e₁₂]
      rfl
    · exact p₁₂.length.trans (p₁₁.length.trans hlen₁₀)
    -- each field lies before all that are put after it
    have a₉ : Above SB_M b₉ b₁₂ := p₁₀.above.trans (p₁₁.above.trans p₁₂.above (by decide)) (by decide)
    have a₈ : Above SB_TINODE b₈ b₁₂ := p₉.above.trans a₉ (by decide)
    have a₇ : Above SB_TFREE b₇ b₁₂ := p₈.above.trans a₈ (by decide)
    have a₆ : Above SB_TIME b₆ b₁₂ := p₇.above.trans a₇ (by decide)
    have a₅ : Above SB_INODE b₅ b₁₂ := p₆.above.trans a₆ (by decide)
    have a₄ : Above SB_NINODE b₄ b₁₂ := p₅.above.trans a₅ (by decide)
    have a₃ : Above SB_FREE b₃ b₁₂ := Above.trans (fun i hi => hkept₄ i (.inl hi)) a₄ (by decide)
    have a₂ : Above SB_NFREE b₂ b₁₂ := p₃.above.trans a₃ (by decide)
    have a₁ : Above SB_FSIZE b₁ b₁₂ := p₂.above.trans a₂ (by decide)
    exact
    { isize := by
        rw [a₁.word (p := SB_ISIZE) (by decide)]
        exact (p₁.word_at (k := 0) (by rw [length_bytes16])).trans (word_bytes16 hisize)
      fsize := by
        rw [a₂.long (p := SB_FSIZE) (by decide)]
        exact (p₂.long_at (k := 0) (length_pdp _).ge).trans (long_pdp hblocks)
      nfree := by
        rw [a₃.word (p := SB_NFREE) (by decide)]
        have hword := (p₃.word_at (k := 0) (by rw [length_bytes16])).trans (word_bytes16 hn)
        exact (congrArg short hword).trans hshortn
      free := fun i hi => by
        have hlt : SB_FREE + 4 * i + 4 ≤ SB_NINODE := by
          have hend : SB_NINODE = SB_FREE + 256 := rfl
          omega
        rw [a₄.long hlt]
        exact hslots₄ i hi
      ninode := by
        rw [a₅.word (p := SB_NINODE) (by decide)]
        have hword := (p₅.word_at (k := 0) (by rw [length_bytes16])).trans (word_bytes16 hm)
        exact (congrArg short hword).trans hshortm
      icache := fun i hi => by
        have hlt : SB_INODE + 2 * i + 2 ≤ SB_TIME := by
          have hend : SB_TIME = SB_INODE + 204 := rfl
          omega
        rw [a₆.word hlt]
        show _ = (padded NICINOD (newCache ninodes)).getD i 0
        rw [padded]
        by_cases hin : i < (newCache ninodes).length
        · rw [p₆.word_at (by omega), word_flatten_bytes16 hcachelt hin, List.getD_append _ _ _ _ hin]
        · -- past what is at hand the block is as it began
          have hzero : ∀ j, SB_INODE + 2 * i ≤ j → b₆.getD j 0 = 0 := fun j hj => by
            have hstart : SB_INODE = 266 := rfl
            rw [p₆.getD_of_apart (.inr (by omega)),
              p₅.getD_of_apart (.inr (by rw [length_bytes16, show SB_NINODE = 264 from rfl]; omega)),
              hkept₄ j (.inr (by rw [show SB_FREE = 8 from rfl]; omega)),
              hzero₃ j (by rw [show SB_FREE = 8 from rfl]; omega)]
          rw [word, hzero _ (by omega), hzero _ (by omega), List.getD_append_right _ _ _ _ (by omega),
            List.getD_replicate _ (by omega)]
          rfl
      tfree := by
        rw [a₈.long (p := SB_TFREE) (by decide)]
        have hlong := p₈.long_at (k := 0) (length_pdp _).ge
        rw [htf, long_pdp (by omega)] at hlong
        exact (congrArg Nat.cast hlong).trans htf.symm
      tinode := by
        rw [a₉.word (p := SB_TINODE) (by decide)]
        exact (congrArg Nat.cast ((p₉.word_at (k := 0) (by rw [length_bytes16])).trans
          (word_bytes16 hti'))).trans hti.symm }

/-! ### The image -/

theorem putInode_eq {img : List Byte} {t : Int} {ino size addr0 : Nat} {mode nlink : Int} (hino : 0 < ino)
    (hmode : 0 ≤ mode ∧ mode < 0x10000) (hnlink : -0x8000 ≤ nlink ∧ nlink < 0x8000) (hsize : size < 2 ^ 32)
    (haddr : addr0 < 2 ^ 24) (hroom : Image.HoldsInode ⟨img, 0⟩ ino) : ∃ raw img',
      putInode img t ino mode nlink size addr0 = .ok img' ∧ Image.WroteInode ino raw ⟨img, 0⟩ ⟨img', 0⟩ ∧
      raw.length = INOSZ ∧ unpackIp raw =
        .ok { mode, nlink, uid := 0, gid := 0, size, addr := addr0 :: List.replicate (NADDR - 1) 0 } := by
  obtain ⟨raw, hpack, hraw, hunpack⟩ := @packIp_padded { mode, nlink, uid := 0, gid := 0, size, addr := [addr0] }
    (Nat.le_add_left 1 12) ⟨hmode, hnlink, by simp, by simp, hsize, rfl, by
      simp only [List.singleton_append, List.mem_cons, List.mem_replicate]
      rintro a (rfl | ⟨-, rfl⟩)
      · exact haddr
      · decide⟩ t
  have hrun : putInode img t ino mode nlink size addr0 = (do
      let raw ← Fsw.packIp { mode, nlink, uid := 0, gid := 0, size, addr := [addr0] } t
      let o := 2 * BSIZE + (ino - 1) * INOSZ
      return splice img o (o + INOSZ) raw) := by
    simp only [putInode, Fsw.packIp, List.zipIdx_cons, List.zipIdx_nil, List.foldlM_cons,
      List.foldlM_nil, bind_assoc,
      bind_pure, Nat.mul_zero, Nat.add_zero]
  have hoff : 2 * BSIZE + (ino - 1) * INOSZ = Image.ioff ⟨img, 0⟩ ino := by
    rw [Image.ioff_eq _ hino]
    rfl
  rw [Image.HoldsInode, ← hoff] at hroom
  have hput := splice_put (b := img) (o := 2 * BSIZE + (ino - 1) * INOSZ) (by rw [hraw]; exact hroom)
  rw [hraw] at hput
  refine ⟨raw, splice img (2 * BSIZE + (ino - 1) * INOSZ) (2 * BSIZE + (ino - 1) * INOSZ + INOSZ) raw,
    by rw [hrun, bind_ok hpack]; rfl, ⟨rfl, ?_⟩, hraw, hunpack⟩
  rw [← hoff]
  exact hput

namespace Files

/-- The files of a new file system. -/
def fresh : Files := fun ino =>
  if ino = 1 then some { mode := S_IFREG, nlink := 0, uid := 0, gid := 0, content := .data [] }
  else if ino = ROOTINO then
    some
      { mode := (S_IFDIR ||| 0o777 : Nat), nlink := 3, uid := 0, gid := 0
        content := .names [(ROOTINO, [0x2E]), (ROOTINO, [0x2E, 0x2E])] }
  else none

end Files

/-- The blocks of the files of a new file system. -/
def newOwn (isize : Nat) : Nat → List Nat := Function.update (fun _ => []) ROOTINO [isize]


section New

variable {isize nblocks ninodes : Nat} {first file : List Nat}

theorem newFsw_inRange {file : List Byte} (hisize : isize < 65536) (hroom : isize + 1 ≤ nblocks)
    (hblocks : nblocks < 2 ^ 32) (hlen : first.length ≤ NICFREE) (hfirst : ∀ v ∈ first, v < 2 ^ 32)
    (hlow : 2 ≤ ninodes) (hhigh : ninodes < 65538) : (newFsw isize nblocks ninodes first file).InRange where
  isize := hisize
  fsize := hblocks
  nfree := by
    have hcap : NICFREE = 64 := rfl
    show -0x8000 ≤ (first.length : Int) ∧ (first.length : Int) < 0x8000
    omega
  length := length_padded hlen
  free := padded_lt (by decide) hfirst
  ninode := by
    have hlen := length_newCache ninodes
    have hmany : NICINOD = 100 := rfl
    show -0x8000 ≤ ((newCache ninodes).length : Int) ∧ ((newCache ninodes).length : Int) < 0x8000
    omega
  lengthI := length_padded (length_newCache ninodes)
  icache := padded_lt (by decide) fun v hv => by
    have hmem := mem_newCache hv
    omega
  tfree := by
    show 0 ≤ (nblocks : Int) - isize - 1 ∧ (nblocks : Int) - isize - 1 < 2 ^ 32
    omega
  tinode := by
    show 0 ≤ (ninodes : Int) - 2 ∧ (ninodes : Int) - 2 < 65536
    omega

/-- The inode of the bad blocks. -/
def badIp : Ip := { mode := S_IFREG, nlink := 0, uid := 0, gid := 0, size := 0, addr := List.replicate NADDR 0 }

/-- The inode of the root directory. -/
def rootIp (isize : Nat) : Ip :=
  { mode := (S_IFDIR ||| 0o777 : Nat), nlink := 3, uid := 0, gid := 0, size := 32
    addr := isize :: List.replicate (NADDR - 1) 0 }

theorem stored_bad (d : Image) : Stored d badIp [] (Files.fresh 1) :=
  @Stored.file d badIp [] [] [] (by decide) (by decide) (laidOut_none d) rfl rfl fun _ => Nat.dvd_zero 16

theorem stored_root {d : Image} (hisize : isize ≠ 0) (hlen : ((d.block isize).take 32).length = 32)
    (hdots : listing ((d.block isize).take 32) = [(ROOTINO, [0x2E]), (ROOTINO, [0x2E, 0x2E])]) :
    Stored d (rootIp isize) [isize] (Files.fresh ROOTINO) := by
  have hlaid : LaidOut d (rootIp isize).addr [isize] [] :=
    ⟨by simpa using hisize, Nat.le_add_left 1 16521, 0, 0, [], [], rfl, .none, .none, rfl⟩
  have hdir : (rootIp isize).ifmt = S_IFDIR := by
    show ((S_IFDIR ||| 0o777 : Nat) : Int).toNat &&& S_IFMT = S_IFDIR
    decide
  obtain ⟨hmode, hdev⟩ := Ip.mode_of_dir hdir
  have hcount : [isize].length = ((rootIp isize).size + BSIZE - 1) / BSIZE := by
    show 1 = (32 + 512 - 1) / 512
    decide
  have hfile := Stored.file hmode hdev hlaid hcount rfl fun _ => by
    rw [List.flatMap_singleton]
    show 16 ∣ ((d.block isize).take 32).length
    rw [hlen]
    decide
  rw [List.append_nil, Ip.content, if_pos hdir, List.flatMap_singleton] at hfile
  rw [show Files.fresh ROOTINO = some ((rootIp isize).file (.names (listing ((d.block isize).take 32)))) by
    rw [hdots]
    rfl]
  exact hfile

theorem fresh_names {ino : Nat} {names : Names} (h : Files.fresh.names ino = some names) :
    ∀ e ∈ names, e.1 = ROOTINO := by
  obtain ⟨f, hf, hcontent⟩ := Files.names_eq h
  rw [Files.fresh] at hf
  split_ifs at hf
  · cases hf
    cases hcontent
  · cases hf
    cases hcontent
    simp

/-- What the image of a new file system is, besides its superblock. -/
structure NewImage (isize nblocks : Nat) (first : List Nat) (d : Image) : Prop where
  base : d.base = 0
  size : nblocks * BSIZE ≤ d.bytes.length
  pile : Pile 0 NICFREE d.node first.length (fun i => first.getD i 0)
    (List.range' (isize + 1) (nblocks - (isize + 1)))
  bad : d.iread 1 = .ok badIp
  root : d.iread ROOTINO = .ok (rootIp isize)
  dots : listing ((d.block isize).take 32) = [(ROOTINO, [0x2E]), (ROOTINO, [0x2E, 0x2E])] ∧
    ((d.block isize).take 32).length = 32
  free : ∀ ino, Image.InTable isize ino → ROOTINO < ino → ∃ ip, d.iread ino = .ok ip ∧ ip.mode = 0

theorem newOwn_root (isize : Nat) : newOwn isize ROOTINO = [isize] := Function.update_self ..

theorem newOwn_ne {ino : Nat} (h : ino ≠ ROOTINO) : newOwn isize ino = [] := Function.update_of_ne h ..

/-- **A new image keeps** the files of a new file system. -/
theorem NewImage.keeps {d : Image} (h : NewImage isize nblocks first d) (hninodes : (isize - 2) * 8 = ninodes)
    (hlow : 3 ≤ isize) (hroom : isize + 1 ≤ nblocks) (hblocks : nblocks ≤ 2 ^ 24) (hlen : first.length ≤ NICFREE)
    (hfirst : ∀ v ∈ first, v < 2 ^ 32) :
    (newFsw isize nblocks ninodes first d.bytes).Keeps Files.fresh (newOwn isize)
      (List.range' (isize + 1) (nblocks - (isize + 1))) := by
  have hroot : ROOTINO = 2 := rfl
  have hinos : (newFsw isize nblocks ninodes first d.bytes).inos = List.range' 1 ((isize - 2) * 8) := rfl
  have hdisk : (newFsw isize nblocks ninodes first d.bytes).disk = d := by rw [newFsw, ← h.base]
  have hmem : ROOTINO ∈ List.range' 1 ((isize - 2) * 8) := List.mem_range'_1.mpr (by omega)
  have hlist : List.range' isize (nblocks - isize) =
      isize :: List.range' (isize + 1) (nblocks - (isize + 1)) := by
    rw [show nblocks - isize = nblocks - (isize + 1) + 1 by omega, List.range'_succ]
  exact
  { base := rfl
    pool :=
      { isize := Nat.le_of_succ_le hlow
        room := Nat.le_of_succ_le hroom
        fsize := hblocks.trans_lt (by decide)
        size := h.size
        pile := ⟨first.length, rfl, by
          rw [hdisk]
          exact h.pile.congr fun i hi => List.getD_append _ _ _ _ hi⟩
        length := length_padded hlen
        longs := padded_lt (by decide) hfirst
        nodup := List.nodup_range'
        range := fun b hb => by
          obtain ⟨hb, hb'⟩ := List.mem_range'_1.mp hb
          exact ⟨Nat.le_of_succ_le hb, by
            show b < nblocks
            omega⟩
        total := by
          rw [List.length_range']
          show (nblocks : Int) - isize - 1 = _
          omega }
    root := hlow
    addressed := hblocks
    stored := fun ino hino => by
      rw [hdisk]
      by_cases hone : ino = 1
      · subst hone
        rw [newOwn_ne (by decide)]
        exact ⟨badIp, h.bad, stored_bad d⟩
      by_cases htwo : ino = ROOTINO
      · subst htwo
        rw [newOwn_root]
        exact ⟨rootIp isize, h.root, stored_root (by omega) h.dots.2 h.dots.1⟩
      · rw [newOwn_ne htwo]
        obtain ⟨ip, hip, hmode⟩ := h.free ino hino (by
          have hpos := hino.1
          omega)
        refine ⟨ip, hip, ?_⟩
        rw [Files.fresh, if_neg hone, if_neg htwo]
        exact .free hmode
    parted := by
      obtain ⟨rest, hperm, hupdate, -⟩ := perm_flatMap_update (List.nodup_range' (s := 1) (n := (isize - 2) * 8))
        hmem fun _ => ([] : List Nat)
      have hnone : (List.range' 1 ((isize - 2) * 8)).flatMap (fun _ => ([] : List Nat)) = [] := by simp
      rw [hnone, List.nil_append] at hperm
      obtain rfl := hperm.nil_eq
      rw [hinos]
      show List.Perm _ (List.range' isize (nblocks - isize))
      rw [hlist]
      refine ((hupdate [isize]).append_left _).trans ?_
      rw [List.append_nil]
      exact List.perm_append_comm
    cache := fun i hi ino hino => by
      have hi' : i < (newCache ninodes).length := Int.ofNat_lt.mp hi
      have hmem : ino ∈ newCache ninodes := by
        have hget : (padded NICINOD (newCache ninodes))[i]? = some ino := hino
        rw [padded, List.getElem?_append_left hi'] at hget
        exact List.mem_of_getElem? hget
      obtain ⟨habove, hmost, -⟩ := mem_newCache hmem
      exact ⟨⟨by omega, hmost.trans_eq hninodes.symm⟩, habove⟩
    named := fun ino names hino hnames e he hne => by
      rw [fresh_names hnames e he]
      exact ⟨by decide, by
        show ROOTINO ≤ (isize - 2) * 8
        omega⟩ }

theorem holdsInode_of_lt {img : List Byte} {ino : Nat} (hlen : img.length = nblocks * BSIZE)
    (hroom : isize ≤ nblocks)
    (hino : Image.InTable isize ino) : Image.HoldsInode ⟨img, 0⟩ ino := by
  refine (Image.ioff_le hino le_rfl).trans ?_
  rw [Image.start]
  show (isize + 0) * BSIZE ≤ img.length
  rw [hlen, Nat.add_zero]
  exact Nat.mul_le_mul_right _ hroom

/-- The inodes and the root directory are put into an image that has the link blocks. -/
theorem putRoot_new {img : List Byte} (t : Int) (hlen : img.length = nblocks * BSIZE) (hthree : 3 ≤ isize)
    (hroom : isize + 1 ≤ nblocks) (hblocks : nblocks ≤ 2 ^ 24)
    (hpile : Pile 0 NICFREE (Image.node ⟨img, 0⟩) first.length (fun i => first.getD i 0)
      (List.range' (isize + 1) (nblocks - (isize + 1))))
    (hfree : ∀ ino, Image.InTable isize ino → ROOTINO < ino →
      ∃ ip, Image.iread ⟨img, 0⟩ ino = .ok ip ∧ ip.mode = 0) :
    ∃ img', (do
        let img ← putInode img t 1 S_IFREG 0 0 0
        let img ← putInode img t ROOTINO (S_IFDIR ||| 0o777 : Nat) 3 32 isize
        let d ← Fsw.dots ROOTINO ROOTINO
        return splice img (isize * BSIZE) (isize * BSIZE + d.length) d) = .ok img' ∧
      NewImage isize nblocks first ⟨img', 0⟩ ∧ Image.block ⟨img', 0⟩ 1 = Image.block ⟨img, 0⟩ 1 := by
  have hinTable : ∀ {ino}, 0 < ino → ino ≤ 2 → Image.InTable isize ino := fun hpos hino =>
    ⟨hpos, hino.trans (by show 2 ≤ (isize - 2) * 8; omega)⟩
  have hone := @hinTable 1 (by decide) (by decide)
  have htwo := @hinTable ROOTINO (by decide) (by decide)
  obtain ⟨raw₁, img₁, hbad, hwrote₁, hraw₁, hunpack₁⟩ := @putInode_eq _ t 1 0 0 S_IFREG 0
    (by decide) (by decide) (by decide) (by decide) (by decide)
    (holdsInode_of_lt hlen (Nat.le_of_succ_le hroom) hone)
  have hlen₁ : img₁.length = nblocks * BSIZE := hwrote₁.put.length.trans hlen
  obtain ⟨raw₂, img₂, hrootdir, hwrote₂, hraw₂, hunpack₂⟩ := @putInode_eq _ t ROOTINO 32
    isize (S_IFDIR ||| 0o777 : Nat) 3 (by decide) (by decide) (by decide) (by decide)
    (by omega) (holdsInode_of_lt hlen₁ (Nat.le_of_succ_le hroom) htwo)
  have hlen₂ : img₂.length = nblocks * BSIZE := hwrote₂.put.length.trans hlen₁
  obtain ⟨ents, hents, hentslen, hlisting⟩ := @dots_eq ROOTINO ROOTINO (by decide) (by decide)
  rw [bind_ok hbad, bind_ok hrootdir, bind_ok hents]
  have hend : isize * BSIZE + BSIZE ≤ img₂.length := by
    rw [hlen₂, ← Nat.succ_mul]
    exact Nat.mul_le_mul_right _ hroom
  have hsmall : ents.length ≤ BSIZE := by rw [hentslen]; decide
  have hput : Put (isize * BSIZE) ents img₂ (splice img₂ (isize * BSIZE) (isize * BSIZE + ents.length) ents) :=
    splice_put (by omega)
  refine ⟨_, rfl, ?_⟩
  generalize splice img₂ (isize * BSIZE) (isize * BSIZE + ents.length) ents = img₃ at hput
  have hlen₃ : img₃.length = nblocks * BSIZE := hput.length.trans hlen₂
  have hwrote₃ : Image.Wrote isize (Image.block ⟨img₃, 0⟩ isize) ⟨img₂, 0⟩ ⟨img₃, 0⟩ := by
    rw [Image.block_eq]
    exact ⟨rfl, hput.whole (o := 0) (by rw [hentslen]; decide) hend⟩
  have hblock : ∀ {b}, isize < b ∨ b < 2 → Image.block ⟨img₃, 0⟩ b = Image.block ⟨img, 0⟩ b := fun {b} hb =>
    (hwrote₃.block_ne (Image.length_block (Image.holds_of_lt (d := ⟨img₃, 0⟩) hlen₃.ge (by omega))) (by omega)).trans
      ((hwrote₂.block_eq hraw₂ htwo (hb.imp_left le_of_lt)).trans
        (hwrote₁.block_eq hraw₁ hone (hb.imp_left le_of_lt)))
  have hiread : ∀ {ino}, Image.InTable isize ino → Image.iread ⟨img₃, 0⟩ ino = Image.iread ⟨img₂, 0⟩ ino :=
    fun hino => hwrote₃.iread hino le_rfl
  refine ⟨?_, hblock (.inr (by decide))⟩
  exact
  { base := rfl
    size := hlen₃.ge
    pile := hpile.transfer fun b hb => Image.node_congr (hblock (.inl (List.mem_range'_1.mp hb).1))
    bad := by
      rw [hiread hone, hwrote₂.iread_ne hraw₂ (by decide) (by decide) (by decide),
        hwrote₁.iread_self hraw₁ (holdsInode_of_lt hlen (Nat.le_of_succ_le hroom) hone), hunpack₁]
      rfl
    root := by
      rw [hiread htwo, hwrote₂.iread_self hraw₂ (holdsInode_of_lt hlen₁ (Nat.le_of_succ_le hroom) htwo), hunpack₂]
      rfl
    dots := by
      have htake : (Image.block ⟨img₃, 0⟩ isize).take 32 = ents := by
        rw [Image.block_eq, Image.start]
        show (slice img₃ ((isize + 0) * BSIZE) ((isize + 0) * BSIZE + BSIZE)).take 32 = ents
        rw [Nat.add_zero, take_slice (by rw [Nat.add_sub_cancel_left]; decide), ← hentslen]
        exact hput.slice_self (by omega)
      rw [htake]
      exact ⟨hlisting, hentslen⟩
    free := fun ino hino hroot => by
      have hne : ino ≠ 1 := by
        have htwo' : ROOTINO = 2 := rfl
        omega
      rw [hiread hino, hwrote₂.iread_ne hraw₂ (by decide) hino.1 hroot.ne',
        hwrote₁.iread_ne hraw₁ (by decide) hino.1 hne]
      exact hfree ino hino hroot }

/-- What is loaded of a new file system, of a number of inodes that fills their blocks. -/
theorem mkfs_loaded (t : Int) (hdvd : 8 ∣ ninodes) (hlow : 8 ≤ ninodes) (hhigh : ninodes < 65538)
    (hroom : 2 + ninodes / 8 + 1 ≤ nblocks) (hblocks : nblocks ≤ 2 ^ 24) : ∃ file first,
    mkfs nblocks (some ninodes) t = .ok file ∧
      Fsw.loaded (fun _ => 0) 0 file = newFsw (2 + ninodes / 8) nblocks ninodes first file ∧
      (newFsw (2 + ninodes / 8) nblocks ninodes first file).Keeps Files.fresh (newOwn (2 + ninodes / 8))
        (List.range' (2 + ninodes / 8 + 1) (nblocks - (2 + ninodes / 8 + 1))) := by
  have hsize : 2 + ninodes * INOSZ / BSIZE = 2 + ninodes / 8 := by
    have hinosz : INOSZ = 64 := rfl
    have hbsize : BSIZE = 512 := rfl
    rw [hinosz, hbsize]
    omega
  have hninodes : (2 + ninodes / 8 - 2) * 8 = ninodes := by omega
  have hthree : 3 ≤ 2 + ninodes / 8 := by omega
  have hisize : 2 + ninodes / 8 < 65536 := by omega
  rw [mkfs]
  dsimp only [Option.getD_some]
  rw [hsize]
  generalize 2 + ninodes / 8 = isize at hroom hninodes hthree hisize
  obtain ⟨hblocksof, hcap⟩ := flatten_freeGroups (List.range' (isize + 1) (nblocks - (isize + 1)))
  generalize freeGroups (List.range' (isize + 1) (nblocks - (isize + 1))) = groups at hblocksof hcap
  obtain ⟨hlen, hsub⟩ := headD_freeLists hcap
  have hrange : ∀ b ∈ groupBlocks groups, isize + 1 ≤ b ∧ b < nblocks := fun b hb => by
    rw [hblocksof] at hb
    have hmem := List.mem_range'_1.mp hb
    omega
  have hfirst : ∀ v ∈ (freeLists groups).headD [], v < 2 ^ 32 := fun v hv => by
    have hv' := hrange v (hsub hv)
    omega
  obtain ⟨sb, hsb, hsblen, hsaid⟩ := (@newSuper_reads _ _ ninodes _ t hisize
    (hblocks.trans_lt (by decide)) hlen hfirst).2 (by omega) hhigh hroom
  rw [bind_ok hsb]
  -- the superblock, and the link blocks
  generalize hzeros : List.replicate (nblocks * BSIZE) (0 : Byte) = img₀
  have hlen₀ : img₀.length = nblocks * BSIZE := by rw [← hzeros, List.length_replicate]
  have hsuper : Image.Wrote 1 sb ⟨img₀, 0⟩ ⟨splice img₀ BSIZE (2 * BSIZE) sb, 0⟩ := by
    have hwrote := splice_wrote (b := 1) (by omega) hlen₀.ge hsblen
    rwa [Nat.one_mul] at hwrote
  generalize splice img₀ BSIZE (2 * BSIZE) sb = img₁ at hsuper ⊢
  have hlen₁ : img₁.length = nblocks * BSIZE := hsuper.put.length.trans hlen₀
  obtain ⟨img₂, hlinks, hlen₂, hblock₂, hiread₂, hpile⟩ := @putLinks_pile isize nblocks _ _
    (by rw [hblocksof]; exact List.nodup_range') (fun b hb => by
      have hb' := hrange b hb
      omega) hcap hlen₁.ge
  rw [hblocksof] at hpile
  have hfree : ∀ ino, Image.InTable isize ino → ROOTINO < ino →
      ∃ ip, Image.iread ⟨img₂, 0⟩ ino = .ok ip ∧ ip.mode = 0 := fun ino hino _ => by
    -- where nothing was written there are zeros
    rw [hiread₂ ino hino, hsuper.iread_low hsblen hino.1 (by decide),
      iread_eq (holdsInode_of_lt hlen₀ (Nat.le_of_succ_le hroom) hino)]
    refine ⟨_, rfl, ?_⟩
    show ((word (slice img₀ _ _) 0 : Nat) : Int) = 0
    rw [← hzeros, slice_zeros, word, getD_zeros, getD_zeros]
    rfl
  obtain ⟨img₃, hroot, hnew, hone₃⟩ := putRoot_new t (hlen₂.trans hlen₁) hthree hroom hblocks hpile hfree
  refine ⟨img₃, _, by rw [bind_ok hlinks]; exact hroot, ?_, hnew.keeps hninodes hthree hroom hblocks hlen hfirst⟩
  have hone : Image.block ⟨img₃, 0⟩ 1 = sb := by
    rw [hone₃, hblock₂ 1 fun hmem => by
      have hlow := (hrange 1 (links_subset _ hmem)).1
      omega]
    exact hsuper.block_self (Image.holds_of_lt (d := ⟨img₀, 0⟩) hlen₀.ge (by omega)) hsblen
  exact @loaded_said _ (newFsw_inRange hisize hroom (hblocks.trans_lt (by decide)) hlen hfirst
    (by omega) hhigh) 0 img₃ (by rw [hone]; exact hsaid img₃) fun _ => 0

/-- **A new file system** keeps its files. -/
theorem mkfs_new (t : Int) (hdvd : 8 ∣ ninodes) (hlow : 8 ≤ ninodes) (hhigh : ninodes < 65538)
    (hroom : 2 + ninodes / 8 + 1 ≤ nblocks) (hblocks : nblocks ≤ 2 ^ 24) :
    ∃ file, mkfs nblocks (some ninodes) t = .ok file ∧ Kept (2 + ninodes / 8) nblocks Files.fresh file := by
  obtain ⟨file, first, hfile, hloaded, hkeeps⟩ := mkfs_loaded t hdvd hlow hhigh hroom hblocks
  rw [← hloaded] at hkeeps
  refine ⟨file, hfile, ?_, ?_, _, _, hkeeps⟩
  · exact (congrArg Fsw.isize hloaded :)
  · exact (congrArg Fsw.fsize hloaded :)

theorem mkfs_raises (t : Int) (hcount : ¬ (2 ≤ ninodes ∧ ninodes < 65538))
    (hblocks : 2 + ninodes * INOSZ / BSIZE < 65536 → nblocks < 2 ^ 32) :
    mkfs nblocks (some ninodes) t = .error .structError := by
  rw [mkfs]
  dsimp only [Option.getD_some]
  generalize 2 + ninodes * INOSZ / BSIZE = isize at hblocks
  obtain ⟨hblocksof, hcap⟩ := flatten_freeGroups (List.range' (isize + 1) (nblocks - (isize + 1)))
  obtain ⟨hlen, hsub⟩ := headD_freeLists hcap
  have hsuper : newSuper isize nblocks ninodes t
      ((freeLists (freeGroups (List.range' (isize + 1) (nblocks - (isize + 1))))).headD []) = .error .structError := by
    by_cases hisize : isize < 65536
    · refine (newSuper_reads t hisize (hblocks hisize) hlen fun v hv => ?_).1 hcount
      have hmem := hsub hv
      rw [hblocksof] at hmem
      have hsmall := hblocks hisize
      have hrange := List.mem_range'_1.mp hmem
      omega
    · have herr : packH isize = .error .structError := by
        unfold packH
        rw [if_neg (by omega)]
      rw [newSuper, herr]
      rfl
  rw [hsuper]
  rfl

theorem mkfs_default (t : Int) (h : 7 ≤ nblocks ∧ nblocks ≤ 458758) :
    ∃ file, mkfs nblocks none t = .ok file ∧ Kept (2 + (nblocks / 7 + 7) / 8) nblocks Files.fresh file := by
  have hnew := @mkfs_new nblocks ((nblocks / 7 + 7) / 8 * 8) t (Nat.dvd_mul_left 8 _)
    (by omega) (by omega) (by omega) (by omega)
  rwa [Nat.mul_div_cancel _ (by decide)] at hnew

theorem mkfs_default_raises (t : Int) (h : ¬ (7 ≤ nblocks ∧ nblocks ≤ 458758)) :
    mkfs nblocks none t = .error .structError := by
  have hsome : mkfs nblocks none t = mkfs nblocks (some ((nblocks / 7 + 7) / 8 * 8)) t := rfl
  rw [hsome]
  refine mkfs_raises t (by omega) fun hisize => ?_
  rw [show INOSZ = 64 from rfl, show BSIZE = 512 from rfl] at hisize
  omega

/-- **`mkfs`** makes a file system that keeps an empty root directory, exactly where the number of its
inodes, one for seven blocks, is some and fits the superblock; everywhere else it raises. -/
theorem mkfs_kept (nblocks : Nat) (t : Int) : if 7 ≤ nblocks ∧ nblocks ≤ 458758 then
      ∃ file, mkfs nblocks none t = .ok file ∧ Kept (2 + (nblocks / 7 + 7) / 8) nblocks Files.fresh file
    else mkfs nblocks none t = .error .structError := by
  split_ifs with h
  · exact mkfs_default t h
  · exact mkfs_default_raises t h

theorem of_mkfs {t : Int} {file : List Byte} (h : mkfs nblocks none t = .ok file) :
    7 ≤ nblocks ∧ Kept (2 + (nblocks / 7 + 7) / 8) nblocks Files.fresh file := by
  by_cases hfits : 7 ≤ nblocks ∧ nblocks ≤ 458758
  · obtain ⟨file', hfile, hkept⟩ := mkfs_default t hfits
    obtain rfl : file' = file := Except.ok.inj (hfile.symm.trans h)
    exact ⟨hfits.1, hkept⟩
  · rw [mkfs_default_raises t hfits] at h
    cases h

/-! ### A small file system -/

/-- What `mkfs` makes of seven blocks. -/
def smallFile : List Byte := (mkfs 7 none 0).toOption.getD []

theorem small_loaded : ∃ first, Fsw.loaded (fun _ => 0) 0 smallFile = newFsw 3 7 8 first smallFile := by
  obtain ⟨file, first, hfile, hloaded, -⟩ := @mkfs_loaded 7 8 0 (by decide) (by decide) (by decide) (by decide) (by decide)
  have hsmall : mkfs 7 none 0 = .ok file := hfile
  rw [smallFile, hsmall]
  exact ⟨first, hloaded⟩

theorem small_kept : Kept 3 7 Files.fresh smallFile := by
  obtain ⟨file, hfile, hkept⟩ := @mkfs_default 7 0 (by decide)
  rw [smallFile, hfile]
  exact hkept

end New

end Sbc386Ex.Cohfs

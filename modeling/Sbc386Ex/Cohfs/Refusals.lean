import Sbc386Ex.Cohfs.Contents
import Sbc386Ex.Cohfs.UnderWay

/-!
# Sbc386Ex.Cohfs.Refusals

What an operation that raises has done. The checks come first, so a refusal changes
nothing that is seen of the file system: an inode taken from the cache is none taken
until its mode is written. What is raised once blocks have changed hands is not undone in
the object; the image file is only written by `save`, after the operations.
-/

namespace Sbc386Ex.Cohfs

open Raising

/-! ### What is seen of a file system -/

namespace Fsw

/-- The lists of free blocks: the superblock's, and the one in the block that the first
place of each links to. -/
inductive FreeList (fs : Fsw) : Int → List Nat → Prop
  | super : FreeList fs fs.nfree fs.free
  | link {n n' : Int} {l l' : List Nat} {bno : Nat} (here : FreeList fs n l) (more : 0 < n)
      (first : l[0]? = some bno) (linked : bno ≠ 0) (count : i16 (fs.disk.block bno) 0 = .ok n')
      (places : ((List.range NICFREE).mapM fun i => pdplong (fs.disk.block bno) (2 + 4 * i)) =
        .ok l') : FreeList fs n' l'

def FreeBlock (fs : Fsw) (bno : Nat) : Prop :=
  bno ≠ 0 ∧ ∃ (n : Int) (l : List Nat) (i : Nat), FreeList fs n l ∧ i < n ∧ l[i]? = some bno

def FreeInode (fs : Fsw) (ino : Nat) : Prop :=
  ROOTINO < ino ∧ ino ≤ fs.ninodes ∧ ∃ ip, fs.disk.iread ino = .ok ip ∧ ip.mode = 0

end Fsw

/-- The tree, every inode, every file's contents and what is free are the same. -/
structure SameFiles (fs fs' : Fsw) : Prop where
  lookup : ∀ path, fs'.disk.lookup path = fs.disk.lookup path
  inode : ∀ ino, fs'.disk.inode ino = fs.disk.inode ino
  data : ∀ ino, fs'.disk.inodeData ino = fs.disk.inodeData ino
  freeBlock : ∀ bno, fs'.FreeBlock bno ↔ fs.FreeBlock bno
  freeInode : ∀ ino, fs'.FreeInode ino ↔ fs.FreeInode ino

theorem SameFiles.trans {fs t u : Fsw} (h : SameFiles fs t) (h' : SameFiles t u) :
    SameFiles fs u where
  lookup path := (h'.lookup path).trans (h.lookup path)
  inode ino := (h'.inode ino).trans (h.inode ino)
  data ino := (h'.data ino).trans (h.data ino)
  freeBlock bno := (h'.freeBlock bno).trans (h.freeBlock bno)
  freeInode ino := (h'.freeInode ino).trans (h.freeInode ino)

/-- Only the inode cache, the counts and the clock are not what they were. -/
structure Untouched (fs fs' : Fsw) : Prop where
  file : fs'.file = fs.file
  disk : fs'.disk = fs.disk
  isize : fs'.isize = fs.isize
  nfree : fs'.nfree = fs.nfree
  free : fs'.free = fs.free

namespace Untouched

variable {fs fs' : Fsw}

theorem refl : Untouched fs fs := ⟨rfl, rfl, rfl, rfl, rfl⟩

theorem symm (h : Untouched fs fs') : Untouched fs' fs :=
  ⟨h.file.symm, h.disk.symm, h.isize.symm, h.nfree.symm, h.free.symm⟩

theorem freeList (h : Untouched fs fs') {n : Int} {l : List Nat} (hl : fs'.FreeList n l) :
    fs.FreeList n l := by
  induction hl with
  | super =>
      rw [h.nfree, h.free]
      exact .super
  | link _ more first linked count places ih =>
      rw [h.disk] at count places
      exact .link ih more first linked count places

theorem freeBlock (h : Untouched fs fs') {bno : Nat} (hb : fs'.FreeBlock bno) :
    fs.FreeBlock bno := by
  obtain ⟨hne, n, l, i, hl, hi⟩ := hb
  exact ⟨hne, n, l, i, h.freeList hl, hi⟩

theorem freeInode (h : Untouched fs fs') (ino : Nat) : fs'.FreeInode ino ↔ fs.FreeInode ino := by
  rw [Fsw.FreeInode, Fsw.FreeInode, Fsw.ninodes, Fsw.ninodes, h.isize, h.disk]

theorem sameFiles (h : Untouched fs fs') : SameFiles fs fs' where
  lookup path := by rw [h.disk]
  inode ino := by rw [h.disk]
  data ino := by rw [h.disk]
  freeBlock _ := ⟨h.freeBlock, h.symm.freeBlock⟩
  freeInode := h.freeInode

end Untouched

/-! ### Where an operation can end

Up to its first change an operation keeps everything seen; from it on it raises what is
raised under way. `rm` looks what it has removed the name of only then. -/

def Call.late : Call → Raise → Prop
  | .rm _, .isADirectory _ => True
  | _, e => Late e

/-- The image file is the same, and so is all that is seen unless `e` is of `late`. -/
def Ends (late : Raise → Prop) (fs : Fsw) (e : Raise) (t : Fsw) : Prop :=
  t.file = fs.file ∧ (late e ∨ Untouched fs t)

section Ends

variable {α : Type} {fs : Fsw} {late : Raise → Prop}

theorem early {p : Op α} (h : Within (fun _ => True) (Untouched fs) p) :
    Spec (Untouched fs) p (fun _ => Untouched fs) (Ends late fs) :=
  h.conseq (fun _ ht => ht) (fun _ _ ht => ht) fun _ _ ht => ⟨ht.2.file, .inr ht.2⟩

theorem early_reading (g : Fsw → Except Raise α) :
    Spec (Untouched fs) (reading g) (fun _ => Untouched fs) (Ends late fs) :=
  early (.reading fun _ _ _ => trivial)

theorem early_raiseIf (c : Prop) [Decidable c] (e : Raise) :
    Spec (Untouched fs) (raiseIf c e) (fun _ => Untouched fs) (Ends late fs) :=
  early (.raiseIf trivial)

/-- The rest of an operation, from its first change on. -/
theorem rest {P : Fsw → Prop} {p : Op α} (hP : ∀ t, P t → t.file = fs.file)
    (h : Within late (fun t => t.file = fs.file) p) :
    Spec P p (fun _ t => t.file = fs.file) (Ends late fs) :=
  h.conseq hP (fun _ _ ht => ht) fun _ _ ht => ⟨ht.2, .inl ht.1⟩

theorem untouched_fromCache (n : Nat) :
    Within (fun _ => True) (Untouched fs) (Fsw.fromCache n) := by
  induction n with
  | zero => exact .pure
  | succ n ih =>
      refine .bind (.modify fun t ht => ⟨ht.file, ht.disk, ht.isize, ht.nfree, ht.free⟩) fun _ => ?_
      refine .bind (.reading fun _ _ _ => trivial) fun ino => ?_
      refine .bind (.reading fun _ _ _ => trivial) fun ip => ?_
      exact .ite .pure ih

theorem untouched_ialloc : Within (fun _ => True) (Untouched fs) Fsw.ialloc := by
  have hscan : Within (fun _ => True) (Untouched fs) Fsw.fromScan := by
    refine .bind (.reading fun _ _ _ => trivial) fun found => ?_
    cases found with
    | none => exact .throw trivial
    | some ino => exact .pure
  have hfind : Within (fun _ => True) (Untouched fs) Fsw.findInode := by
    refine .bind .get fun t => (untouched_fromCache _).bind fun found => ?_
    cases found with
    | none => exact hscan
    | some ino => exact .pure
  refine hfind.bind fun ino => .bind (.modify fun t ht => ?_) fun _ => .pure
  exact ⟨ht.file, ht.disk, ht.isize, ht.nfree, ht.free⟩

theorem put_ends (path : Text) (data : List Byte) (mode uid gid : Int) :
    Spec (Untouched fs) (Fsw.put path data mode uid gid) (fun _ t => t.file = fs.file)
      (Ends Late fs) := by
  refine .bind (early_reading _) fun found => ?_
  cases found with
  | none =>
      refine .bind (early_reading _) fun ⟨parent, name⟩ => .bind (early untouched_ialloc) fun ino => ?_
      refine rest (fun _ ht => ht.file) ?_
      exact (underWay_setdata _ _).bind fun ip => (underWay_iwrite ino ip).bind fun _ =>
        (underWay_dirent parent name ino).bind fun _ => .pure
  | some ino =>
      refine .bind (early_reading _) fun ip => .bind (early_raiseIf _ _) fun _ => ?_
      refine rest (fun _ ht => ht.file) ?_
      exact (underWay_setdata ip data).bind fun ip => (underWay_iwrite ino ip).bind fun _ => .pure

theorem mkdir_ends (path : Text) (mode uid gid : Int) :
    Spec (Untouched fs) (Fsw.mkdir path mode uid gid) (fun _ t => t.file = fs.file)
      (Ends Late fs) := by
  refine .bind (early_reading _) fun ⟨parent, name⟩ => .bind (early_reading _) fun found => ?_
  refine .bind (early_raiseIf _ _) fun _ => .bind (early untouched_ialloc) fun ino => ?_
  refine rest (fun _ ht => ht.file) ?_
  refine .bind (.reading fun _ => late_dots ino parent) fun ents => ?_
  exact (underWay_setdata _ ents).bind fun ip => (underWay_iwrite ino ip).bind fun _ =>
    (underWay_dirent parent name ino).bind fun _ => (underWay_iread parent).bind fun pp =>
      (underWay_iwrite parent _).bind fun _ => .pure

theorem node_ends (path : Text) :
    Spec (Untouched fs) (Fsw.node path) (fun _ t => t.file = fs.file) (Ends Late fs) := by
  refine .bind (early_reading _) fun found => ?_
  cases found with
  | none =>
      refine .bind (early_reading _) fun ⟨parent, name⟩ => .bind (early untouched_ialloc) fun ino => ?_
      exact rest (fun _ ht => ht.file) ((underWay_dirent parent name ino).bind fun _ => .pure)
  | some ino =>
      refine .bind (early_reading _) fun ip => .bind (early_raiseIf _ _) fun _ => ?_
      exact .pure fun _ ht => ht.file

theorem mknod_ends (path : Text) (mode major minor uid gid : Int) :
    Spec (Untouched fs) (Fsw.mknod path mode major minor uid gid) (fun _ t => t.file = fs.file)
      (Ends Late fs) := by
  refine (node_ends path).bind fun ino => rest (fun _ ht => ht) ?_
  exact (underWay_iwrite ino _).bind fun _ => .bind .get fun _ =>
    (underWay_setByte _ minor).bind fun _ => (underWay_setByte _ major).bind fun _ => .pure

theorem late_of (path : Text) : ∀ e, Late e → (Call.rm path).late e
  | .isADirectory _, _ => trivial
  | .structError, h | .indexError, h | .unicodeError, h | .valueError _, h | .osError _, h => h

theorem undirent_ends (dino : Nat) (name path : Text) :
    Spec (Untouched fs) (Fsw.undirent dino name) (fun _ t => t.file = fs.file)
      (Ends (Call.rm path).late fs) := by
  refine .bind (early_reading _) fun ip => .bind (early_reading _) fun d => ?_
  refine .bind (early_reading _) fun found => ?_
  cases found with
  | none => exact .throw fun _ ht => ⟨ht.file, .inr ht⟩
  | some entry =>
      refine rest (fun _ ht => ht.file) (Within.mono (K := Late) ?_ (late_of path))
      exact (underWay_setdata _ _).bind fun ip => (underWay_iwrite dino ip).bind fun _ => .pure

theorem rm_ends (path : Text) :
    Spec (Untouched fs) (Fsw.rm path) (fun _ t => t.file = fs.file)
      (Ends (Call.rm path).late fs) := by
  refine .bind (early_reading _) fun ⟨parent, name⟩ => ?_
  refine (undirent_ends parent name path).bind fun ino => rest (fun _ ht => ht) ?_
  refine ((underWay_iread ino).mono (late_of path)).bind fun ip => .bind (.raiseIf trivial) fun _ => ?_
  exact Within.mono ((underWay_unlink ip).bind fun ip => underWay_iwrite ino ip) (late_of path)

theorem call_ends (call : Call) :
    Spec (Untouched fs) call.run (fun _ t => t.file = fs.file) (Ends call.late fs) := by
  cases call with
  | put path data mode uid gid => exact (put_ends path data mode uid gid).bind fun _ => .pure fun _ h => h
  | mkdir path mode uid gid => exact (mkdir_ends path mode uid gid).bind fun _ => .pure fun _ h => h
  | mknod path mode major minor uid gid =>
      exact (mknod_ends path mode major minor uid gid).bind fun _ => .pure fun _ h => h
  | rm path => exact rm_ends path

end Ends

/-! ### A file system without a free block -/

/-- `balloc` has none to give: the list has run out, or its last place is empty, as the
kernel leaves it in place of a link. -/
def Fsw.NoBlock (fs : Fsw) : Prop := fs.nfree ≤ 0 ∨ getItem fs.free (fs.nfree - 1) = .ok 0

theorem getItem_of_nat {α : Type} {l : List α} {i : Nat} {a : α} (h : getItem l i = .ok a) :
    l[i]? = some a := by
  unfold getItem position at h
  rw [if_pos (by omega)] at h
  split at h
  · next hb =>
      obtain rfl := Except.ok.inj h
      split at hb
      · simpa using hb
      · simp at hb
  · simp at h

section NoBlock

variable {fs t : Fsw} {k : Nat}

/-- Its lists are those there were but for the first, which is shorter. -/
theorem freeList_of_fewer {n : Int} {l : List Nat}
    (h : Fsw.FreeList { t with nfree := k } n l) (hn : t.nfree = k + 1) :
    t.FreeList n l ∨ n = k ∧ l = t.free := by
  induction h with
  | super => exact .inr ⟨rfl, rfl⟩
  | link _ more first linked count places ih =>
      obtain here | ⟨rfl, rfl⟩ := ih
      · exact .inl (.link here more first linked count places)
      · exact .inl (.link .super (by omega) first linked count places)

theorem fewer_of_freeList {n : Int} {l : List Nat} (h : t.FreeList n l) (hn : t.nfree = k + 1)
    (hlast : t.free[k]? = some 0) :
    Fsw.FreeList { t with nfree := k } n l ∨ n = k + 1 ∧ l = t.free := by
  induction h with
  | super => exact .inr ⟨hn, rfl⟩
  | link _ more first linked count places ih =>
      obtain here | ⟨rfl, rfl⟩ := ih
      · exact .inl (.link here more first linked count places)
      · -- the place counted out is empty, so it is not the one that links on
        have hk : k ≠ 0 := by
          rintro rfl
          exact linked (Option.some.inj (first.symm.trans hlast))
        have hpos : (0 : Int) < k := by omega
        have hsuper : Fsw.FreeList { t with nfree := k } k t.free := .super
        exact .inl (.link hsuper hpos first linked count places)

/-- Counting out an empty place loses no block. -/
theorem sameFiles_of_fewer (hn : t.nfree = k + 1) (hlast : t.free[k]? = some 0) :
    SameFiles t { t with nfree := k } where
  lookup _ := rfl
  inode _ := rfl
  data _ := rfl
  freeBlock bno := by
    constructor
    · rintro ⟨hne, n, l, i, hl, hi, hbno⟩
      obtain hl | ⟨rfl, rfl⟩ := freeList_of_fewer hl hn
      · exact ⟨hne, n, l, i, hl, hi, hbno⟩
      · exact ⟨hne, t.nfree, t.free, i, .super, by omega, hbno⟩
    · rintro ⟨hne, n, l, i, hl, hi, hbno⟩
      obtain hl | ⟨rfl, rfl⟩ := fewer_of_freeList hl hn hlast
      · exact ⟨hne, n, l, i, hl, hi, hbno⟩
      · have hik : i ≠ k := by
          rintro rfl
          exact hne (Option.some.inj (hbno.symm.trans hlast))
        have hsuper : Fsw.FreeList { t with nfree := k } k t.free := .super
        exact ⟨hne, k, t.free, i, hsuper, by omega, hbno⟩
  freeInode _ := Iff.rfl

theorem balloc_noBlock (h : fs.NoBlock) :
    Spec (Untouched fs) Fsw.balloc (fun _ _ => False) fun _ t => SameFiles fs t := by
  refine .bind (Q := fun a t => a = t ∧ Untouched fs t) (.get fun t ht => ⟨rfl, ht⟩) fun a => ?_
  refine .bind (Q := fun _ t => 0 < fs.nfree ∧ Untouched fs t) (.raiseIf ?_ ?_) fun _ => ?_
  · exact fun t _ ht => ht.2.sameFiles
  · rintro t hpos ⟨rfl, ht⟩
    rw [ht.nfree] at hpos
    exact ⟨by omega, ht⟩
  refine .and_pre fun hpos => ?_
  have hempty : getItem fs.free (fs.nfree - 1) = .ok 0 := h.resolve_left (by omega)
  obtain ⟨k, hk⟩ : ∃ k : Nat, fs.nfree = k + 1 := ⟨(fs.nfree - 1).toNat, by omega⟩
  have hless : fs.nfree - 1 = k := by omega
  rw [hless] at hempty
  refine .bind (Q := fun _ u => SameFiles fs u ∧ u.free = fs.free ∧ u.nfree = k)
    (.modify fun t ht => ?_) fun _ => ?_
  · have htk : t.nfree = k + 1 := ht.nfree.trans hk
    have hu : t.nfree - 1 = k := by omega
    rw [hu]
    refine ⟨ht.sameFiles.trans (sameFiles_of_fewer htk ?_), ht.free, rfl⟩
    rw [ht.free]
    exact getItem_of_nat hempty
  refine .bind (Q := fun bno u => bno = 0 ∧ SameFiles fs u) (.reading ?_ ?_) fun bno => ?_
  · rintro u bno ⟨hsame, hfree, hu⟩ hbno
    rw [hfree, hu, hempty] at hbno
    exact ⟨(Except.ok.inj hbno).symm, hsame⟩
  · exact fun u _ hsame _ => hsame.1
  · refine .and_pre fun hbno => .bind (.raiseIf (fun u _ hsame => hsame) ?_) fun _ => .never
    exact fun u hne _ => hne hbno

theorem blocks_fresh (d : Image) (mode nlink uid gid : Int) :
    Fsw.blocks d (Fsw.fresh mode nlink uid gid) = .ok [] := rfl

theorem chunks_of_ne_nil {α : Type} {n : Nat} {l : List α} (hn : 0 < n) (h : l ≠ []) :
    ∃ piece rest, Fsw.chunks n l = piece :: rest := by
  have hlen : 0 < l.length := List.length_pos_of_ne_nil h
  have hcount : 0 < (l.length + n - 1) / n := Nat.div_pos (by omega) hn
  obtain ⟨m, hm⟩ : ∃ m, (l.length + n - 1) / n = m + 1 := ⟨_, (Nat.succ_pred_eq_of_pos hcount).symm⟩
  rw [Fsw.chunks, hm, List.range_succ_eq_map, List.map_cons]
  exact ⟨_, _, rfl⟩

/-- A new file that is not empty is given up at its first block. -/
theorem setdata_noBlock (h : fs.NoBlock) {data : List Byte} (hdata : data ≠ [])
    (mode nlink uid gid : Int) :
    Spec (Untouched fs) (Fsw.setdata (Fsw.fresh mode nlink uid gid) data) (fun _ _ => False)
      fun _ t => SameFiles fs t := by
  have htrunc : Spec (Untouched fs) (Fsw.truncate (Fsw.fresh mode nlink uid gid))
      (fun _ => Untouched fs) fun _ t => SameFiles fs t := by
    refine .bind (Q := fun blocks t => blocks = [] ∧ Untouched fs t)
      (.reading ?_ fun t e ht _ => ht.sameFiles) fun blocks => ?_
    · intro t blocks ht hblocks
      rw [blocks_fresh] at hblocks
      exact ⟨(Except.ok.inj hblocks).symm, ht⟩
    · refine .and_pre fun hnil => ?_
      subst hnil
      exact .bind (Q := fun _ => Untouched fs) (.pure fun _ ht => ht) fun _ => .pure fun _ ht => ht
  obtain ⟨piece, pieces, hpieces⟩ := chunks_of_ne_nil (n := BSIZE) (by decide) hdata
  have hwrite : Spec (Untouched fs) ((Fsw.chunks BSIZE data).mapM Fsw.writeBlock)
      (fun _ _ => False) fun _ t => SameFiles fs t := by
    rw [hpieces, ← List.mapM'_eq_mapM, List.mapM'_cons]
    exact .bind ((balloc_noBlock h).bind fun _ => .never) fun _ => .never
  exact htrunc.bind fun _ => hwrite.bind fun _ => .never

/-- The steps before an allocation, as far as the tree is concerned. -/
theorem seen {α : Type} {p : Op α} (h : Within (fun _ => True) (Untouched fs) p) :
    Spec (Untouched fs) p (fun _ => Untouched fs) fun _ t => SameFiles fs t :=
  h.conseq (fun _ ht => ht) (fun _ _ ht => ht) fun _ _ ht => ht.2.sameFiles

/-- A look at the image sees what was there. -/
theorem look {α : Type} (g : Image → Except Raise α) :
    Spec (Untouched fs) (reading fun t => g t.disk)
      (fun a t => g fs.disk = .ok a ∧ Untouched fs t) fun _ t => SameFiles fs t :=
  .reading (fun t a ht ha => ⟨by rw [← ht.disk, ha], ht⟩) fun _ _ ht _ => ht.sameFiles

theorem put_noBlock (h : fs.NoBlock) {path : Text} (hnew : fs.disk.lookup path = .ok none)
    {data : List Byte} (hdata : data ≠ []) (mode uid gid : Int) :
    Spec (Untouched fs) (Fsw.put path data mode uid gid) (fun _ _ => False)
      fun _ t => SameFiles fs t := by
  refine .bind (look fun d => d.lookup path) fun found => .and_pre fun hfound => ?_
  obtain rfl : none = found := Except.ok.inj (hnew.symm.trans hfound)
  refine .bind (seen (.reading fun _ _ _ => trivial)) fun ⟨parent, name⟩ => ?_
  refine .bind (seen untouched_ialloc) fun ino => ?_
  exact (setdata_noBlock h hdata _ _ _ _).bind fun _ => .never

theorem dots_ne_nil {ino parent : Nat} {ents : List Byte} (h : Fsw.dots ino parent = .ok ents) :
    ents ≠ [] := by
  unfold Fsw.dots at h
  cases hino : packH ino with
  | error e =>
      rw [hino] at h
      cases h
  | ok a =>
      cases hparent : packH parent with
      | error e =>
          rw [hino, hparent] at h
          cases h
      | ok b =>
          rw [hino, hparent] at h
          obtain rfl := Except.ok.inj h
          simp [ljust]

theorem mkdir_noBlock (h : fs.NoBlock) (path : Text) (mode uid gid : Int) :
    Spec (Untouched fs) (Fsw.mkdir path mode uid gid) (fun _ _ => False)
      fun _ t => SameFiles fs t := by
  refine .bind (seen (.reading fun _ _ _ => trivial)) fun ⟨parent, name⟩ => ?_
  refine .bind (seen (.reading fun _ _ _ => trivial)) fun found => ?_
  refine .bind (seen (.raiseIf trivial)) fun _ => .bind (seen untouched_ialloc) fun ino => ?_
  refine .bind (Q := fun ents t => ents ≠ [] ∧ Untouched fs t) (.reading ?_ ?_) fun ents => ?_
  · exact fun t ents ht hents => ⟨dots_ne_nil hents, ht⟩
  · exact fun t _ ht _ => ht.sameFiles
  · exact .and_pre fun hne => (setdata_noBlock h hne _ _ _ _).bind fun _ => .never

end NoBlock

/-! ### A path that cannot be looked up -/

/-- The path of a call cannot be followed, or has no place for a new name. -/
def Call.Unread (d : Image) : Call → Prop
  | .put path .. | .mknod path .. =>
      (∃ e, d.lookup path = .error e) ∨ d.lookup path = .ok none ∧ ∃ e, Fsw.split d path = .error e
  | .mkdir path .. => (∃ e, Fsw.split d path = .error e) ∨ ∃ e, d.lookup path = .error e
  | .rm path => ∃ e, Fsw.split d path = .error e

section Unread

variable {α β : Type} {fs : Fsw}

/-- A look that fails is the end of it. -/
theorem look_error {g : Image → Except Raise α} {e : Raise} (h : g fs.disk = .error e)
    {f : α → Op β} :
    Spec (Untouched fs) (reading (fun t => g t.disk) >>= f) (fun _ _ => False)
      fun _ t => SameFiles fs t := by
  refine .bind (look g) fun a => .and_pre fun ha => ?_
  rw [h] at ha
  cases ha

/-- Looking for a file that is not there, and then for its place. -/
theorem look_new {path : Text} {p : Nat × Text → Op β} {q : Nat → Op β}
    (h : (∃ e, fs.disk.lookup path = .error e) ∨
      fs.disk.lookup path = .ok none ∧ ∃ e, Fsw.split fs.disk path = .error e) :
    Spec (Untouched fs) (do
      match ← reading fun t => t.disk.lookup path with
      | none => do p (← reading fun t => Fsw.split t.disk path)
      | some ino => q ino) (fun _ _ => False) fun _ t => SameFiles fs t := by
  obtain ⟨e, he⟩ | ⟨hnone, e, he⟩ := h
  · exact look_error (g := fun d => d.lookup path) he
  · refine .bind (look fun d => d.lookup path) fun found => .and_pre fun hfound => ?_
    obtain rfl : none = found := Except.ok.inj (hnone.symm.trans hfound)
    exact look_error (g := fun d => Fsw.split d path) he

theorem call_unread {call : Call} (h : call.Unread fs.disk) :
    Spec (Untouched fs) call.run (fun _ _ => False) fun _ t => SameFiles fs t := by
  cases call with
  | put path data mode uid gid => exact (look_new h).bind fun _ => .never
  | mknod path mode major minor uid gid =>
      exact .bind (.bind (look_new h) fun _ => .never) fun _ => .never
  | rm path =>
      obtain ⟨e, he⟩ := h
      exact look_error (g := fun d => Fsw.split d path) he
  | mkdir path mode uid gid =>
      refine .bind (Q := fun _ _ => False) ?_ fun _ => .never
      obtain ⟨e, he⟩ | ⟨e, he⟩ := h
      · exact look_error (g := fun d => Fsw.split d path) he
      · refine .bind (seen (.reading fun _ _ _ => trivial)) fun ⟨parent, name⟩ => ?_
        exact look_error (g := fun d => d.lookup path) he

end Unread

/-! ### Refusals -/

/-- A call that is refused: what is raised by its checks, and what is raised where its path
cannot be read or no block is free for it. -/
inductive Refused (fs : Fsw) : Call → Raise → Prop
  | notFound {call : Call} {msg : Text} : Refused fs call (.fileNotFound msg)
  | longName {call : Call} {name : Text} : Refused fs call (.valueError (longName name))
  | fileExists {call : Call} {path : Text} : Refused fs call (.fileExists path)
  | notRegular {path msg : Text} {data : List Byte} {mode uid gid : Int} :
      Refused fs (.put path data mode uid gid) (.isADirectory msg)
  | noInode {call : Call} : Refused fs call (.osError outOfInodes)
  | unread {call : Call} {e : Raise} (unread : call.Unread fs.disk) : Refused fs call e
  | noBlockPut {path : Text} {data : List Byte} {mode uid gid : Int} {e : Raise}
      (none : fs.NoBlock) (new : fs.disk.lookup path = .ok .none) (some : data ≠ []) :
      Refused fs (.put path data mode uid gid) e
  | noBlockMkdir {path : Text} {mode uid gid : Int} {e : Raise} (none : fs.NoBlock) :
      Refused fs (.mkdir path mode uid gid) e

theorem not_late_outOfInodes : ¬ Late (.osError outOfInodes) := by
  have hfull : outOfInodes ≠ full := by decide +kernel
  have hlarge : outOfInodes ≠ tooLarge := by decide +kernel
  exact not_or.mpr ⟨hfull, hlarge⟩

theorem not_late_longName (name : Text) : ¬ Late (.valueError (longName name)) := by
  intro h
  have hhead : (longName name).head? = notAByte.head? := congrArg List.head? h
  simp [longName, notAByte, text] at hhead

theorem sameFiles_of_refused {fs t : Fsw} {call : Call} {e : Raise} (hr : Refused fs call e)
    (h : outcome call.run fs = (.error e, t)) : SameFiles fs t := by
  have hends := (call_ends call).raised Untouched.refl h
  have hsame : ¬ call.late e → SameFiles fs t := fun hlate => (hends.2.resolve_left hlate).sameFiles
  cases hr with
  | notFound => exact hsame (by cases call <;> exact id)
  | fileExists => exact hsame (by cases call <;> exact id)
  | notRegular => exact hsame id
  | longName => exact hsame (by cases call <;> exact not_late_longName _)
  | noInode => exact hsame (by cases call <;> exact not_late_outOfInodes)
  | unread hunread => exact (call_unread hunread).raised Untouched.refl h
  | @noBlockPut path data mode uid gid _ hnone hnew hsome =>
      have hspec : Spec (Untouched fs) (Call.put path data mode uid gid).run (fun _ _ => False)
          fun _ t => SameFiles fs t :=
        (put_noBlock hnone hnew hsome mode uid gid).bind fun _ => .never
      exact hspec.raised .refl h
  | @noBlockMkdir path mode uid gid _ hnone =>
      have hspec : Spec (Untouched fs) (Call.mkdir path mode uid gid).run (fun _ _ => False)
          fun _ t => SameFiles fs t :=
        (mkdir_noBlock hnone path mode uid gid).bind fun _ => .never
      exact hspec.raised .refl h

/-! ### The image file -/

theorem call_file (call : Call) (file : List Byte) :
    Within (fun _ => True) (fun fs => fs.file = file) call.run := by
  intro fs hfs
  have hends := @call_ends fs call fs .refl
  split at hends
  · exact hends.trans hfs
  · exact ⟨trivial, hends.1.trans hfs⟩

/-- `save` raises before it opens the file. -/
theorem save_raised (file : List Byte) :
    Spec (fun fs => fs.file = file) Fsw.save (fun _ _ => True) fun _ fs => fs.file = file := by
  refine .bind (Q := fun _ fs => fs.file = file) ?_ fun t => ?_
  · exact (underWay_now (f := file)).conseq (fun _ h => h) (fun _ _ h => h) fun _ _ h => h.2
  · refine .bind (Q := fun _ _ => True) (.reading (fun _ _ _ _ => trivial) fun _ _ h _ => h) ?_
    exact fun sb => .bind (Q := fun _ _ => True) (.modify fun _ _ => trivial) fun _ =>
      .modify fun _ _ => trivial

theorem load_file (clock : Nat → Int) (base : Nat) (file : List Byte) :
    Gives (fun fs => fs.file = file) (Fsw.load clock base file) :=
  .bind fun _ => .bind fun _ => .bind fun _ => .bind fun _ => .bind fun _ => .bind fun _ =>
    .bind fun _ => .bind fun _ => .pure rfl

theorem session_raised {clock : Nat → Int} {base : Nat} {calls : List Call} {file : List Byte}
    {e : Raise} (h : (session clock base calls file).1 = .error e) :
    (session clock base calls file).2 = file := by
  unfold session at h ⊢
  cases hload : Fsw.load clock base file with
  | error e' => rfl
  | ok fs =>
      rw [hload] at h
      have hspec : Spec (fun fs => fs.file = file) (do calls.forM Call.run; Fsw.save)
          (fun _ _ => True) fun _ fs => fs.file = file :=
        .bind ((Within.forM (fun call => call_file call file) calls).conseq (fun _ h => h)
          (fun _ _ h => h) fun _ _ h => h.2) fun _ => save_raised file
      have hend := hspec fs (load_file clock base file fs hload)
      dsimp only at h ⊢
      split at hend
      · next hrun =>
          rw [hrun] at h
          cases h
      · next hrun =>
          rw [hrun]
          exact hend

/-- **What a refused operation leaves.** A call that is refused leaves the tree, every
file and what is free as they were; and whatever is raised in a session, the image file
is the one that was loaded. -/
theorem refused_unchanged :
    (∀ (fs : Fsw) (call : Call) (e : Raise) (fs' : Fsw), Refused fs call e →
      outcome call.run fs = (.error e, fs') → SameFiles fs fs') ∧
    ∀ (clock : Nat → Int) (base : Nat) (calls : List Call) (file : List Byte) (e : Raise),
      (session clock base calls file).1 = .error e →
        (session clock base calls file).2 = file :=
  ⟨fun _ _ _ _ hr h => sameFiles_of_refused hr h, fun _ _ _ _ _ h => session_raised h⟩

def mkdirDot : Call := .mkdir (text "/.".toList) 0o755 0 0

/-- A directory is not made where there is a file. -/
theorem mkdir_exists {fs : Fsw} {path : Text} {place : Nat × Text} {ino : Nat}
    (hsplit : Fsw.split fs.disk path = .ok place) (hfound : fs.disk.lookup path = .ok (some ino))
    (mode uid gid : Int) :
    outcome (Call.mkdir path mode uid gid).run fs = (.error (.fileExists path), fs) := by
  have hplace : outcome (reading fun fs : Fsw => Fsw.split fs.disk path) fs = (.ok place, fs) :=
    outcome_reading_ok hsplit
  have hlook : outcome (reading fun fs : Fsw => fs.disk.lookup path) fs = (.ok (some ino), fs) :=
    outcome_reading_ok hfound
  have hraised : outcome (Fsw.mkdir path mode uid gid) fs = (.error (.fileExists path), fs) := by
    rw [Fsw.mkdir, outcome_bind_ok hplace]
    dsimp only
    rw [outcome_bind_ok hlook]
    exact outcome_raiseIf_pos (Option.some_ne_none ino) _ _ _
  exact outcome_bind_error hraised _

theorem session_mkdir_exists {file : List Byte} {path : Text} {place : Nat × Text} {ino : Nat}
    (hold : Image.Holds { bytes := file, base := 0 } 1)
    (hsplit : Fsw.split { bytes := file, base := 0 } path = .ok place)
    (hfound : Image.lookup { bytes := file, base := 0 } path = .ok (some ino)) (clock : Nat → Int)
    (mode uid gid : Int) :
    (session clock 0 [.mkdir path mode uid gid] file).1 = .error (.fileExists path) := by
  have hcall := @mkdir_exists (Fsw.loaded clock 0 file) _ _ _ hsplit hfound mode uid gid
  have hcalls : outcome ([Call.mkdir path mode uid gid].forM Call.run) (Fsw.loaded clock 0 file) =
      (.error (.fileExists path), Fsw.loaded clock 0 file) := outcome_bind_error hcall fun _ => [].forM Call.run
  rw [session, load_eq clock (Image.length_block hold)]
  dsimp only
  rw [outcome_bind_error hcalls]

theorem tiny_dot : Fsw.split tiny.disk (text "/.".toList) = .ok (ROOTINO, text ".".toList) ∧
    tiny.disk.lookup (text "/.".toList) = .ok (some ROOTINO) := by
  decide +kernel

theorem mkdirDot_raises :
    (outcome mkdirDot.run tiny).1 = .error (.fileExists (text "/.".toList)) :=
  congrArg Prod.fst (mkdir_exists tiny_dot.1 tiny_dot.2 0o755 0 0)

theorem session_mkdirDot_raises :
    (session (fun _ => 0) 0 [mkdirDot] tinyFile).1 = .error (.fileExists (text "/.".toList)) :=
  session_mkdir_exists tiny_held tiny_dot.1 tiny_dot.2 _ 0o755 0 0

theorem refused_unchanged_mkdirDot :
    SameFiles tiny (outcome mkdirDot.run tiny).2 ∧
      (session (fun _ => 0) 0 [mkdirDot] tinyFile).2 = tinyFile :=
  ⟨refused_unchanged.1 tiny mkdirDot _ _ .fileExists (outcome_eq_of_error mkdirDot_raises),
    refused_unchanged.2 _ 0 [mkdirDot] tinyFile _ session_mkdirDot_raises⟩

theorem freeList_none {fs : Fsw} (h : fs.nfree ≤ 0) {n : Int} {l : List Nat}
    (hl : fs.FreeList n l) : n ≤ 0 := by
  induction hl with
  | super => exact h
  | link _ more _ _ _ _ ih => omega

theorem not_freeBlock_of_nfree {fs : Fsw} (h : fs.nfree ≤ 0) (bno : Nat) : ¬ fs.FreeBlock bno := by
  rintro ⟨-, n, l, i, hl, hi, -⟩
  have hnone := freeList_none h hl
  omega

def putBig : Call := .put (text "/f".toList) (List.replicate 1025 0) 0o644 0 0

/-- With no block free `balloc` finds the file system full, and no list to go on to. -/
theorem balloc_full {fs : Fsw} (h : fs.Pool []) :
    ∃ fs', outcome Fsw.balloc fs = (.error (.osError full), fs') ∧ fs'.nfree ≤ 0 := by
  obtain ⟨n, hn, hpile⟩ := h.pile
  obtain rfl | ⟨rfl, hlast⟩ := hpile.of_nil
  · exact ⟨fs, balloc_none hn.le, hn.le⟩
  · have hlen := h.length
    exact ⟨_, balloc_empty (k := 0) hn (by rw [hlen]; decide) hlast, le_rfl⟩

/-- With too few blocks free all of them are taken. -/
theorem writeBlocks_few : ∀ {pieces : List (List Byte)} {l : List Nat} {fs : Fsw},
    (∀ piece ∈ pieces, piece.length ≤ BSIZE) → fs.Pool l → l.length < pieces.length →
    ∃ fs', outcome (pieces.mapM Fsw.writeBlock) fs = (.error (.osError full), fs') ∧ fs'.nfree ≤ 0 := by
  intro pieces
  induction pieces with
  | nil => exact fun _ _ hlen => absurd hlen (Nat.not_lt_zero _)
  | cons piece pieces ih =>
      intro l fs hsmall h hlen
      rw [List.mapM_cons]
      obtain _ | ⟨b, l⟩ := l
      · obtain ⟨fs', hfull, hnone⟩ := balloc_full h
        exact ⟨fs', outcome_bind_error (outcome_bind_error hfull _) _, hnone⟩
      · obtain ⟨fs₁, hfirst, hpool, -⟩ := (writeBlock_takes (hsmall piece List.mem_cons_self)).some h
        obtain ⟨fs', hfull, hnone⟩ :=
          ih (fun p hp => hsmall p (List.mem_cons_of_mem _ hp)) hpool (Nat.lt_of_succ_lt_succ hlen)
        exact ⟨fs', by rw [outcome_bind_ok hfirst, outcome_bind_error hfull], hnone⟩

/-- The contents of a new file that has too few blocks. -/
theorem setdata_few {fs : Fsw} {l : List Nat} {ip : Ip} {data : List Byte} (haddr : ip.addr = List.replicate NADDR 0)
    (h : fs.Pool l) (hfew : l.length < (data.length + BSIZE - 1) / BSIZE) :
    ∃ fs', outcome (Fsw.setdata ip data) fs = (.error (.osError full), fs') ∧ fs'.nfree ≤ 0 := by
  have hlaid : LaidOut fs.disk ip.addr [] [] := haddr ▸ laidOut_none fs.disk
  obtain ⟨fs₁, l₁, htruncate, hperm, hpool, -⟩ :=
    truncate_pool hlaid h List.nodup_nil (List.disjoint_nil_left l) nofun (.inr rfl)
  obtain ⟨fs', hfull, hnone⟩ := @writeBlocks_few (Fsw.chunks BSIZE data) _ _
    (fun piece hp => (mem_chunks (by decide) hp).1) hpool (by rw [hperm.length_eq, length_chunks]; exact hfew)
  refine ⟨fs', ?_, hnone⟩
  rw [setdata_eq, outcome_bind_ok htruncate, Fsw.fill, outcome_bind_error hfull]

theorem tiny_f : tiny.disk.lookup (text "/f".toList) = .ok none ∧
    Fsw.split tiny.disk (text "/f".toList) = .ok (ROOTINO, text "f".toList) ∧
      Fsw.firstFree tiny.disk (List.range' (ROOTINO + 1) (tiny.ninodes - ROOTINO)) = .ok (some 3) := by
  decide +kernel

theorem putBig_ends : ∃ fs', outcome putBig.run tiny = (.error (.osError full), fs') ∧ fs'.nfree ≤ 0 := by
  obtain ⟨hnew, hsplit, hfree⟩ := tiny_f
  have hlook : outcome (reading fun fs : Fsw => fs.disk.lookup (text "/f".toList)) tiny = (.ok none, tiny) :=
    outcome_reading_ok hnew
  have hplace : outcome (reading fun fs : Fsw => Fsw.split fs.disk (text "/f".toList)) tiny =
      (.ok (ROOTINO, text "f".toList), tiny) := outcome_reading_ok hsplit
  have hscan : outcome Fsw.fromScan tiny = (.ok 3, tiny) := by
    have hread : outcome (reading fun fs : Fsw =>
        Fsw.firstFree fs.disk (List.range' (ROOTINO + 1) (fs.ninodes - ROOTINO))) tiny = (.ok (some 3), tiny) :=
      outcome_reading_ok hfree
    rw [Fsw.fromScan, outcome_bind_ok hread, outcome_pure]
  have hcache : outcome (Fsw.fromCache tiny.ninode.toNat) tiny = (.ok none, tiny) := rfl
  have halloc : outcome Fsw.ialloc tiny = (.ok 3, { tiny with tinode := tiny.tinode - 1 }) := by
    have hfind : outcome Fsw.findInode tiny = (.ok 3, tiny) := by
      rw [Fsw.findInode, outcome_bind_ok (outcome_get _), outcome_bind_ok hcache]
      exact hscan
    rw [Fsw.ialloc, outcome_bind_ok hfind, outcome_bind_ok (outcome_modify _ _), outcome_pure]
  have hpool : ({ tiny with tinode := tiny.tinode - 1 } : Fsw).Pool [4, 5] :=
    ⟨⟨tiny_pool.isize, tiny_pool.room, tiny_pool.fsize, tiny_pool.size⟩, tiny_pool.pile, tiny_pool.length,
      tiny_pool.longs, tiny_pool.nodup, tiny_pool.range, tiny_pool.total⟩
  generalize ({ tiny with tinode := tiny.tinode - 1 } : Fsw) = fs₁ at halloc hpool
  obtain ⟨fs', hfull, hnone⟩ := @setdata_few _ _ (Fsw.fresh (Int.lor S_IFREG 0o644) 1 0 0) (List.replicate 1025 0)
    rfl hpool (by rw [List.length_replicate]; decide)
  have hput : outcome (Fsw.put (text "/f".toList) (List.replicate 1025 0) 0o644 0 0) tiny =
      (.error (.osError full), fs') := by
    rw [Fsw.put, outcome_bind_ok hlook]
    dsimp only
    rw [outcome_bind_ok hplace]
    dsimp only
    rw [outcome_bind_ok halloc, outcome_bind_error hfull]
  exact ⟨fs', outcome_bind_error hput _, hnone⟩

/-- There are not three blocks left, and the two there are have been taken when that is
found. -/
theorem put_not_atomic :
    ¬ ∀ (fs : Fsw) (call : Call) (e : Raise) (fs' : Fsw),
        outcome call.run fs = (.error e, fs') → SameFiles fs fs' := by
  intro h
  obtain ⟨fs', hput, hnone⟩ := putBig_ends
  have hsame := h tiny putBig _ fs' hput
  have hfree : tiny.FreeBlock 4 := ⟨by decide, 2, tiny.free, 1, .super, by decide, rfl⟩
  exact not_freeBlock_of_nfree hnone 4 ((hsame.freeBlock 4).mpr hfree)

end Sbc386Ex.Cohfs

import Sbc386Ex.Cohfs.Kernel

/-!
# Sbc386Ex.Cohfs.KernelPool

The kernel's free blocks are the pile `cohfsw.py` has: `fsmount` finds it, `balloc` and `bfree`
take from its top and put there, and `msync` leaves it on the disk. Where the blocks are kept
sorted, `bfree` puts the block into its place instead, and the pile has the same blocks.
-/

namespace Sbc386Ex.Cohfs

/-! ### Memory -/

section Memory

variable {b new : List Byte} {o k : Nat}

theorem le16_toNat (b : List Byte) (o : Nat) : (le16 b o).toNat = word b o := by
  rw [le16, BitVec.toNat_ofNat, Nat.mod_eq_of_lt (word_lt b o)]

theorem canl_toNat (l : BitVec 32) : (canl l).toNat = l.toNat % 65536 * 65536 + l.toNat / 65536 := by
  have h := l.isLt
  have hhigh : l.toNat <<< 16 % 2 ^ 32 = (l.toNat % 65536) <<< 16 := by
    rw [Nat.shiftLeft_eq, Nat.shiftLeft_eq]
    omega
  have hlow : l.toNat >>> (32 - 16 % 32) = l.toNat / 65536 := Nat.shiftRight_eq_div_pow _ _
  rw [canl, BitVec.rotateLeft_def, BitVec.toNat_or, BitVec.toNat_shiftLeft, BitVec.toNat_ushiftRight,
    hhigh, hlow, ← Nat.shiftLeft_add_eq_or_of_lt (by omega), Nat.shiftLeft_eq]

/-- A long on the disk, made the machine's. -/
theorem canl_le32 (b : List Byte) (o : Nat) : (canl (le32 b o)).toNat = long b o := by
  have hlo := word_lt b o
  have hhi := word_lt b (o + 2)
  rw [canl_toNat, le32, BitVec.toNat_ofNat, long]
  omega

theorem word_bytesOf32 (l : BitVec 32) :
    word (bytesOf32 l) 0 = l.toNat % 65536 ∧ word (bytesOf32 l) 2 = l.toNat / 65536 := by
  have h := l.isLt
  have hlow : word (bytes16 (l.toNat % 65536)) 0 = l.toNat % 65536 := word_bytes16 (by omega)
  have hhigh : word (bytes16 (l.toNat / 65536)) 0 = l.toNat / 65536 := word_bytes16 (by omega)
  exact ⟨hlow, hhigh⟩

theorem word_bytesOf16 (s : BitVec 16) : word (bytesOf16 s) 0 = s.toNat := word_bytes16 s.isLt

/-- And back. -/
theorem long_bytesOf32 (l : BitVec 32) : long (bytesOf32 (canl l)) 0 = l.toNat := by
  have h := l.isLt
  obtain ⟨hlow, hhigh⟩ := word_bytesOf32 (canl l)
  rw [long, hlow, hhigh, canl_toNat]
  omega

/-- The bytes `new` are at `o`. -/
def At (b : List Byte) (o : Nat) (new : List Byte) : Prop :=
  ∀ i < new.length, b.getD (o + i) 0 = new.getD i 0

theorem At.word (h : At b o new) (hk : k + 2 ≤ new.length) : Cohfs.word b (o + k) = Cohfs.word new k := by
  rw [Cohfs.word, Cohfs.word, Nat.add_assoc, h _ (by omega), h _ (by omega)]

theorem At.long (h : At b o new) (hk : k + 4 ≤ new.length) : Cohfs.long b (o + k) = Cohfs.long new k := by
  rw [Cohfs.long, Cohfs.long, h.word (by omega), Nat.add_assoc, h.word (by omega)]

/-- The fields lie one after another from `o` on and end by `n`. -/
def Laid (n : Nat) : Nat → List (Nat × List Byte) → Prop
  | o, [] => o ≤ n
  | o, f :: rest => o ≤ f.1 ∧ Laid n (f.1 + f.2.length) rest

theorem Laid.le {n : Nat} : ∀ {o : Nat} {fields : List (Nat × List Byte)}, Laid n o fields → o ≤ n
  | _, [], h => h
  | _, _ :: _, ⟨ho, h⟩ => ho.trans ((Nat.le_add_right _ _).trans h.le)

/-- The fields of a `memcpy`, each in its place. -/
theorem pokes_at : ∀ {fields : List (Nat × List Byte)} {b : List Byte} {o : Nat},
    Laid b.length o fields → (pokes b fields).length = b.length ∧
      (∀ i < o, (pokes b fields).getD i 0 = b.getD i 0) ∧ ∀ f ∈ fields, At (pokes b fields) f.1 f.2
  | [], _, _, _ => ⟨rfl, fun _ _ => rfl, nofun⟩
  | f :: rest, b, o, ⟨ho, h⟩ => by
      have hsplice := @getD_splice _ 0 b f.2 _ _ h.le rfl
      have hlen : (splice b f.1 (f.1 + f.2.length) f.2).length = b.length := length_splice h.le rfl
      obtain ⟨hlen', hbefore, hfields⟩ := pokes_at (b := splice b f.1 (f.1 + f.2.length) f.2) (hlen ▸ h)
      refine ⟨hlen'.trans hlen, fun i hi => ?_, List.forall_mem_cons.mpr ⟨fun i hi => ?_, hfields⟩⟩
      · exact (hbefore i (by omega)).trans ((hsplice i).trans (if_neg (by omega)))
      · refine (hbefore _ (by omega)).trans ((hsplice _).trans ?_)
        rw [if_pos (by omega), Nat.add_sub_cancel_left]

/-- An array of longs, as the machine has them. -/
theorem length_flatMap_bytesOf32 (l : List (BitVec 32)) : (l.flatMap bytesOf32).length = 4 * l.length := by
  induction l with
  | nil => rfl
  | cons x l ih =>
      rw [List.flatMap_cons, List.length_append, ih, List.length_cons]
      show 4 + _ = _
      omega

theorem length_flatMap_bytesOf16 (l : List (BitVec 16)) : (l.flatMap bytesOf16).length = 2 * l.length := by
  induction l with
  | nil => rfl
  | cons x l ih =>
      rw [List.flatMap_cons, List.length_append, ih, List.length_cons]
      show 2 + _ = _
      omega

theorem long_flatMap_bytesOf32 (l : List (BitVec 32)) : ∀ {i : Nat}, i < l.length →
    long (l.flatMap bytesOf32) (4 * i) = long (bytesOf32 (l.getD i 0)) 0 := by
  induction l with
  | nil => exact fun hi => absurd hi (Nat.not_lt_zero _)
  | cons x l ih =>
      intro i hi
      rw [List.flatMap_cons]
      cases i with
      | zero => rfl
      | succ i =>
          rw [List.getD_cons_succ, ← ih (Nat.lt_of_succ_lt_succ hi)]
          rfl

theorem word_flatMap_bytesOf16 (l : List (BitVec 16)) : ∀ {i : Nat}, i < l.length →
    word (l.flatMap bytesOf16) (2 * i) = (l.getD i 0).toNat := by
  induction l with
  | nil => exact fun hi => absurd hi (Nat.not_lt_zero _)
  | cons x l ih =>
      intro i hi
      rw [List.flatMap_cons]
      cases i with
      | zero => exact word_bytesOf16 x
      | succ i =>
          rw [List.getD_cons_succ, ← ih (Nat.lt_of_succ_lt_succ hi)]
          rfl

theorem getD_map {α β : Type} (f : α → β) {l : List α} {i : Nat} (hi : i < l.length) (x : α) (y : β) :
    (l.map f).getD i y = f (l.getD i x) := by
  rw [List.getD_eq_getElem _ _ (by rwa [List.length_map]), List.getElem_map,
    List.getD_eq_getElem _ _ hi]

end Memory

/-! ### The pile -/

/-- The free blocks of a mounted file system, the one that is handed out next first. -/
structure Mount.Pool (l : List Nat) (mp : Mount) : Prop where
  isize : 2 ≤ mp.super.isize.toNat
  room : mp.super.isize.toNat ≤ mp.super.fsize.toNat
  fsize : mp.super.fsize.toNat < 2 ^ 31
  size : (mp.super.fsize.toNat + mp.disk.base) * BSIZE ≤ mp.disk.bytes.length
  pile : Pile 0 NICFREE mp.disk.node mp.super.nfree.toNat (fun i => (mp.super.free.getD i 0).toNat) l
  length : mp.super.free.length = NICFREE
  lengthI : mp.super.inode.length = NICINOD
  nodup : l.Nodup
  range : ∀ b ∈ l, mp.super.isize.toNat ≤ b ∧ b < mp.super.fsize.toNat
  total : mp.super.tfree.toNat = l.length

namespace Mount

variable {c : Canon} {mp : Mount} {l : List Nat} {b : BitVec 32}

/-- `b` is a file block's number. -/
def InFiles (mp : Mount) (b : BitVec 32) : Prop :=
  mp.super.isize.toNat ≤ b.toNat ∧ b.toNat < mp.super.fsize.toNat

theorem not_bad (hb : mp.InFiles b) (hfsize : mp.super.fsize.toNat < 2 ^ 31) : ¬ mp.Bad b := by
  obtain ⟨hlow, hhigh⟩ := hb
  have hsize := mp.super.isize.isLt
  have hzext : (mp.super.isize.zeroExtend 32).toNat = mp.super.isize.toNat := by
    show (BitVec.setWidth 32 mp.super.isize).toNat = _
    rw [BitVec.toNat_setWidth]
    omega
  have hb' := BitVec.toInt_eq_toNat_of_lt (x := b) (by omega)
  have hf' := BitVec.toInt_eq_toNat_of_lt (x := mp.super.fsize) (by omega)
  have hi' := BitVec.toInt_eq_toNat_of_lt (x := mp.super.isize.zeroExtend 32) (by omega)
  rw [Bad, BitVec.sle_iff_toInt_le, BitVec.slt_iff_toInt_lt, hb', hf', hi', hzext]
  omega

theorem Pool.holds (h : mp.Pool l) (hb : mp.InFiles b) : mp.disk.Holds b.toNat :=
  Image.holds_of_lt h.size hb.2

/-- What an operation on free blocks leaves of the rest: the fields it does not keep, and
every block but those named. -/
structure Spares (blocks : List Nat) (mp mp' : Mount) : Prop where
  fields : mp'.super = { mp.super with
    free := mp'.super.free, nfree := mp'.super.nfree, tfree := mp'.super.tfree, fmod := mp'.super.fmod }
  disk : mp'.disk = mp.disk ∨ ∃ b new, b ∈ blocks ∧ new.length = BSIZE ∧ mp.disk.Wrote b new mp'.disk
  fmod : mp'.super.fmod = false → mp'.super = mp.super ∧ mp'.disk = mp.disk

/-! ### Giving a block back -/

theorem laid_fblk {s : Filsys} (hlen : s.free.length = NICFREE) :
    Laid (List.replicate BSIZE (0 : Byte)).length 0 [(0, bytesOf16 (c.canshort s.nfree)),
      (2, (canndaddr c s.free s.nfree.toNat).flatMap bytesOf32)] := by
  have hndaddr : (canndaddr c s.free s.nfree.toNat).length = NICFREE := by
    rw [canndaddr, List.length_append, List.length_map, ← List.length_append, List.take_append_drop, hlen]
  refine ⟨le_rfl, ?_, ?_⟩
  · exact Nat.le_refl 2
  · show 2 + _ ≤ _
    rw [length_flatMap_bytesOf32, hndaddr, List.length_replicate]
    decide

/-- The list at hand, as the block it moves into has it. -/
theorem fblk_eq (hc : c.OnI386) {s : Filsys} (hlen : s.free.length = NICFREE) :
    (fblk c s).length = BSIZE ∧ word (fblk c s) 0 = s.nfree.toNat ∧
      ∀ i < s.nfree.toNat, i < NICFREE → long (fblk c s) (2 + 4 * i) = (s.free.getD i 0).toNat := by
  obtain ⟨hsize, -, hfields⟩ := pokes_at (laid_fblk (c := c) hlen)
  have hcount := hfields _ List.mem_cons_self
  have hplaces := hfields _ (List.mem_cons_of_mem _ List.mem_cons_self)
  refine ⟨hsize.trans List.length_replicate, ?_, fun i hi hcap => ?_⟩
  · have hword := hcount.word (k := 0) le_rfl
    rw [Nat.zero_add] at hword
    rw [fblk, hword]
    dsimp only
    rw [word_bytesOf16, hc.canshort]
  · have htake : i < (s.free.take s.nfree.toNat).length := by
      rw [List.length_take]
      omega
    have hget : (canndaddr c s.free s.nfree.toNat).getD i 0 = canl (s.free.getD i 0) := by
      rw [canndaddr, List.getD_append _ _ _ _ (by rwa [List.length_map]), getD_map _ htake 0,
        hc.canlong, List.getD_eq_getElem?_getD, List.getElem?_take_of_lt hi,
        ← List.getD_eq_getElem?_getD]
    have hndaddr : i < (canndaddr c s.free s.nfree.toNat).length := by
      rw [canndaddr, List.length_append, List.length_map]
      omega
    rw [fblk, hplaces.long (by rw [length_flatMap_bytesOf32]; omega)]
    dsimp only
    rw [long_flatMap_bytesOf32 _ hndaddr, hget, long_bytesOf32]

theorem Pool.total_succ (h : mp.Pool l) (hb : mp.InFiles b) (hout : b.toNat ∉ l) :
    (mp.super.tfree + 1).toNat = l.length + 1 := by
  have hlen : (b.toNat :: l).length ≤ mp.super.fsize.toNat :=
    length_le_of_nodup (List.nodup_cons.mpr ⟨hout, h.nodup⟩)
      (List.forall_mem_cons.mpr ⟨hb.2, fun x hx => (h.range x hx).2⟩)
  have hfsize := h.fsize
  have htotal := h.total
  rw [List.length_cons] at hlen
  rw [BitVec.toNat_add, htotal]
  show (l.length + 1) % 2 ^ 32 = _
  omega

theorem Pool.ne_zero (h : mp.Pool l) (hb : mp.InFiles b) : b.toNat ≠ 0 := by
  have hisize := h.isize
  have hlow := hb.1
  omega

/-- The pile with `b` put on it. -/
theorem Pool.placed (h : mp.Pool l) (hb : mp.InFiles b) (hout : b.toNat ∉ l) {d : Image} {n : BitVec 16}
    (hbase : d.base = mp.disk.base) (hlen : d.bytes.length = mp.disk.bytes.length)
    (hroom : n.toNat < NICFREE)
    (hpile : Pile 0 NICFREE d.node (n.toNat + 1)
      (fun i => ((mp.super.free.set n.toNat b).getD i 0).toNat) (b.toNat :: l)) :
    (mp.placed d n b).Pool (b.toNat :: l) where
  isize := h.isize
  room := h.room
  fsize := h.fsize
  size := by
    rw [Mount.placed, hlen, hbase]
    exact h.size
  pile := by
    have hnext : (n + 1).toNat = n.toNat + 1 := by
      have hsixty : NICFREE = 64 := rfl
      rw [BitVec.toNat_add]
      show (_ + 1) % 2 ^ 16 = _
      omega
    rw [Mount.placed, hnext]
    exact hpile
  length := (List.length_set ..).trans h.length
  lengthI := h.lengthI
  nodup := List.nodup_cons.mpr ⟨hout, h.nodup⟩
  range := List.forall_mem_cons.mpr ⟨hb, h.range⟩
  total := h.total_succ hb hout

theorem getD_set {α : Type} {l : List α} {n : Nat} (hn : n < l.length) (a z : α) :
    (l.set n a).getD n z = a := by
  rw [List.getD_eq_getElem _ _ (by rwa [List.length_set]), List.getElem_set_self]

/-- The list moves into `b`, which is the link in a new one. -/
theorem giveBack_moves (hc : c.OnI386) (h : mp.Pool l) (hb : mp.InFiles b) (hout : b.toNat ∉ l)
    (hmoves : mp.super.nfree = 0 ∨ mp.super.nfree.toNat = NICFREE) :
    (giveBack c mp b).Pool (b.toNat :: l) ∧ Spares [b.toNat] mp (giveBack c mp b) := by
  obtain ⟨hnew, hcount, hplaces⟩ := fblk_eq hc h.length
  have hhold := h.holds hb
  have hwrote := Image.wblock_wrote hhold hnew.le
  rw [ljust_self hnew] at hwrote
  have hblock := hwrote.block_self hhold hnew
  have hcap := h.pile.le_cap (by decide)
  rw [giveBack, if_pos hmoves]
  generalize mp.disk.wblock b.toNat (fblk c mp.super) = d at hwrote hblock
  refine ⟨h.placed hb hout hwrote.base hwrote.put.length (by decide) ?_, rfl,
    .inr ⟨b.toNat, _, List.mem_singleton.mpr rfl, hnew, hwrote⟩, nofun⟩
  refine Pile.spill (h.pile.transfer fun x hx => Image.node_congr
    (hwrote.block_ne hnew fun hxb => hout (hxb ▸ hx))) (h.ne_zero hb) ?_ (fun i hi => ?_) ?_
  · rw [Image.node, hblock, hcount]
  · rw [Image.node, hblock]
    exact hplaces i hi (hi.trans_le hcap)
  · exact congrArg BitVec.toNat (getD_set (by rw [h.length]; decide) b 0)

/-- `b` goes into the next place of the list. -/
theorem giveBack_stays (h : mp.Pool l) (hb : mp.InFiles b) (hout : b.toNat ∉ l)
    (hstays : ¬ (mp.super.nfree = 0 ∨ mp.super.nfree.toNat = NICFREE)) :
    (giveBack c mp b).Pool (b.toNat :: l) ∧ Spares [b.toNat] mp (giveBack c mp b) := by
  have hcap := h.pile.le_cap (by decide)
  have hn : mp.super.nfree.toNat ≠ 0 := fun hzero => hstays (.inl (BitVec.eq_of_toNat_eq hzero))
  have hroom : mp.super.nfree.toNat < NICFREE := by omega
  rw [giveBack, if_neg hstays]
  refine ⟨h.placed hb hout rfl rfl hroom ?_, rfl, .inl rfl, nofun⟩
  refine h.pile.push (by omega) hroom (h.ne_zero hb) (fun i hi => ?_) ?_
  · rw [List.getD_eq_getElem?_getD, List.getElem?_set_ne (by omega), ← List.getD_eq_getElem?_getD]
  · exact congrArg BitVec.toNat (getD_set (by rw [h.length]; exact hroom) b 0)

theorem giveBack_pool (hc : c.OnI386) (h : mp.Pool l) (hb : mp.InFiles b) (hout : b.toNat ∉ l) :
    (giveBack c mp b).Pool (b.toNat :: l) ∧ Spares [b.toNat] mp (giveBack c mp b) := by
  by_cases hmoves : mp.super.nfree = 0 ∨ mp.super.nfree.toNat = NICFREE
  · exact giveBack_moves hc h hb hout hmoves
  · exact giveBack_stays h hb hout hmoves

/-! ### Keeping them sorted -/

/-- A block that is not there goes in for the smallest. -/
theorem daddrAdd_perm {new : BitVec 32} : ∀ {list : List (BitVec 32)}, new ∉ list →
    (daddrAdd list new).1.length = list.length ∧
      ((daddrAdd list new).2 :: (daddrAdd list new).1).Perm (new :: list)
  | [], _ => ⟨rfl, .rfl⟩
  | x :: rest, hout => by
      have hne : new ≠ x := fun h => hout (h ▸ List.mem_cons_self)
      rw [daddrAdd, if_neg hne]
      by_cases hlt : x.slt new = true
      · have hlast : (x :: rest).getLastD 0 = (x :: rest).getLast (List.cons_ne_nil x rest) :=
          List.getLastD_cons.trans (List.getLast_eq_getLastD _).symm
        rw [if_pos hlt]
        refine ⟨by simp, ?_⟩
        rw [hlast]
        refine (List.Perm.swap ..).trans (.cons new ?_)
        exact (List.perm_append_singleton _ _).symm.trans
          (.of_eq (List.dropLast_append_getLast (List.cons_ne_nil x rest)))
      · obtain ⟨hlen, hperm⟩ := @daddrAdd_perm _ rest fun h => hout (List.mem_cons_of_mem _ h)
        rw [if_neg hlt]
        exact ⟨congrArg (· + 1) hlen, (List.Perm.swap ..).trans ((hperm.cons x).trans (.swap ..))⟩

/-- The places of a table from 1 on. -/
theorem upper_eq (free : List (BitVec 32)) {k : Nat} (hk : k + 1 ≤ free.length) :
    Pile.upper (fun i => (free.getD i 0).toNat) k = ((slice free 1 (k + 1)).map BitVec.toNat).reverse := by
  refine congrArg List.reverse (List.ext_getElem ?_ fun i hi hi' => ?_)
  · rw [List.length_map, List.length_map, List.length_range, length_slice _ (by omega) hk,
      Nat.add_sub_cancel]
  · rw [List.length_map, List.length_range] at hi
    rw [List.getElem_map, List.getElem_map, List.getElem_range]
    have hslice := getD_slice (z := (0 : BitVec 32)) free (a := 1) (b := k + 1) (i := i) (by omega)
    rw [Nat.add_comm 1, List.getD_eq_getElem _ _ (by rwa [List.length_map] at hi')] at hslice
    rw [hslice]

theorem slice_splice_self {α : Type} {l new : List α} {a n : Nat} (ha : a ≤ l.length)
    (hnew : new.length = n) : slice (splice l a (a + n) new) a (a + n) = new := by
  have htake : (l.take a).length = a := List.length_take_of_le ha
  rw [slice, splice, List.append_assoc, List.drop_left' htake, Nat.add_sub_cancel_left,
    List.take_left' hnew]

/-- The table with its upper places in another order, one block out and `b` in. -/
theorem Pool.sorted (h : mp.Pool l) (hout : b.toNat ∉ l) (hb : mp.InFiles b)
    {k : Nat} (hn : mp.super.nfree.toNat = k + 1) {list : List (BitVec 32)} {t : BitVec 32}
    (hlen : list.length = k) (hperm : (t :: list).Perm (b :: slice mp.super.free 1 (k + 1))) :
    ∃ l', (t.toNat :: l').Perm (b.toNat :: l) ∧
      ({ mp with super := { mp.super with free := splice mp.super.free 1 (k + 1) list } } : Mount).Pool l' := by
  have hpile := h.pile
  rw [hn] at hpile
  have hcap : k < NICFREE := hpile.le_cap (by decide)
  obtain ⟨base, hbase, hl, -⟩ := hpile.split
  rw [upper_eq _ (by rw [h.length]; exact hcap)] at hl
  have hfree : (splice mp.super.free 1 (k + 1) list).length = NICFREE :=
    (length_splice (by rw [h.length]; exact hcap) (by omega)).trans h.length
  have hupper : Pile.upper (fun i => ((splice mp.super.free 1 (k + 1) list).getD i 0).toNat) k =
      (list.map BitVec.toNat).reverse := by
    rw [upper_eq _ (by rw [hfree]; exact hcap), Nat.add_comm k,
      slice_splice_self (by rw [h.length]; decide) hlen]
  -- the same blocks, `t` among them for `b`
  have hsame : (t.toNat :: ((list.map BitVec.toNat).reverse ++ base)).Perm (b.toNat :: l) := by
    rw [hl]
    have hmap := (hperm.map BitVec.toNat).append_right base
    refine (((List.reverse_perm _).append_right base).cons t.toNat).trans (hmap.trans ?_)
    exact ((List.reverse_perm _).symm.append_right base).cons b.toNat
  have hnodup := hsame.nodup_iff.mpr (List.nodup_cons.mpr ⟨hout, h.nodup⟩)
  have hrange : ∀ x ∈ t.toNat :: ((list.map BitVec.toNat).reverse ++ base),
      mp.super.isize.toNat ≤ x ∧ x < mp.super.fsize.toNat := fun x hx =>
    (List.mem_cons.mp (hsame.mem_iff.mp hx)).elim (fun heq => heq ▸ hb) (h.range x)
  refine ⟨_, hsame, h.isize, h.room, h.fsize, h.size, ?_, hfree, h.lengthI,
    (List.nodup_cons.mp hnodup).2,
    fun x hx => hrange x (List.mem_cons_of_mem _ hx), ?_⟩
  · rw [← hupper]
    dsimp only
    rw [hn]
    refine Pile.join hbase ?_ hcap fun i hi => ?_
    · have hsplice := @getD_splice _ 0 mp.super.free list 1 (k + 1)
        (by rw [h.length]; exact hcap) (by omega) 0
      exact congrArg BitVec.toNat (hsplice.trans (if_neg (by omega)))
    · have hmem : ((splice mp.super.free 1 (k + 1) list).getD (i + 1) 0).toNat ∈
          Pile.upper (fun i => ((splice mp.super.free 1 (k + 1) list).getD i 0).toNat) k :=
        List.mem_reverse.mpr (List.mem_map.mpr ⟨i, List.mem_range.mpr hi, rfl⟩)
      rw [hupper] at hmem
      have hlow := (hrange _ (List.mem_cons_of_mem _ (List.mem_append_left _ hmem))).1
      have hisize := h.isize
      omega
  · have hlength := hsame.length_eq
    rw [List.length_cons, List.length_cons] at hlength
    exact h.total.trans (Nat.succ.inj hlength).symm

theorem bfree_pool (hc : c.OnI386) (sort : Bool) (h : mp.Pool l) (hb : mp.InFiles b) (hout : b.toNat ∉ l) :
    ∃ l', (bfree c sort mp b).Pool l' ∧ l'.Perm (b.toNat :: l) ∧ (sort = false → l' = b.toNat :: l) ∧
      Spares (b.toNat :: l) mp (bfree c sort mp b) := by
  have hsub : Spares [b.toNat] mp (giveBack c mp b) → Spares (b.toNat :: l) mp (giveBack c mp b) :=
    fun hs => ⟨hs.fields, hs.disk.imp_right fun ⟨x, new, hx, hnew⟩ =>
      ⟨x, new, List.mem_singleton.mp hx ▸ List.mem_cons_self, hnew⟩, hs.fmod⟩
  rw [bfree, if_neg (not_bad hb h.fsize)]
  by_cases hsort : sort = true ∧ 0 < mp.super.nfree.toInt
  · obtain ⟨hsort, hpos⟩ := hsort
    have hcap := h.pile.le_cap (by decide)
    have hsixty : NICFREE = 64 := rfl
    have hint := BitVec.toInt_eq_toNat_of_lt (x := mp.super.nfree) (by omega)
    obtain ⟨k, hk⟩ : ∃ k, mp.super.nfree.toNat = k + 1 := ⟨mp.super.nfree.toNat - 1, by omega⟩
    have hmem : b ∉ slice mp.super.free 1 (k + 1) := fun hmem => by
      have hpile := h.pile
      rw [hk] at hpile
      obtain ⟨base, -, hl, -⟩ := hpile.split
      rw [upper_eq _ (by rw [h.length]; omega)] at hl
      refine hout (hl ▸ List.mem_append_left _ (List.mem_reverse.mpr (List.mem_map_of_mem hmem)))
    obtain ⟨hlen, hperm⟩ := daddrAdd_perm hmem
    rw [length_slice _ (by omega) (by rw [h.length]; omega), Nat.add_sub_cancel] at hlen
    obtain ⟨l', hsame, hpool⟩ := h.sorted hout hb hk hlen hperm
    rw [if_pos ⟨hsort, hpos⟩]
    dsimp only
    rw [hk]
    generalize daddrAdd (slice mp.super.free 1 (k + 1)) b = added at hlen hperm hsame hpool
    obtain ⟨list, t⟩ := added
    dsimp only at hlen hperm hsame hpool ⊢
    have ht : mp.InFiles t := (List.mem_cons.mp (hsame.mem_iff.mp List.mem_cons_self)).elim
      (fun heq => by rw [InFiles, heq]; exact hb) (h.range _)
    have htne : t ≠ 0 := fun hzero => by
      have hisize := h.isize
      have hlow := ht.1
      rw [hzero] at hlow
      exact absurd (hisize.trans hlow) (by decide)
    have hnodup := hsame.nodup_iff.mpr (List.nodup_cons.mpr ⟨hout, h.nodup⟩)
    rw [if_neg htne]
    obtain ⟨hgave, hspares⟩ := giveBack_pool hc hpool ht (List.nodup_cons.mp hnodup).1
    refine ⟨_, hgave, hsame, fun hoff => absurd (hsort.symm.trans hoff) nofun, ?_, ?_, ?_⟩
    · exact hspares.fields
    · refine hspares.disk.imp_right fun ⟨x, new, hx, hnew⟩ => ⟨x, new, ?_, hnew⟩
      rw [List.mem_singleton.mp hx]
      exact hsame.mem_iff.mp List.mem_cons_self
    · exact fun hfmod => absurd hfmod (by
        unfold giveBack
        split_ifs <;> exact nofun)
  · obtain ⟨hgave, hspares⟩ := giveBack_pool hc h hb hout
    rw [if_neg hsort]
    exact ⟨_, hgave, .rfl, fun _ => rfl, hsub hspares⟩

/-! ### Taking one -/

/-- The mounted file system with the table `free` of `nfree` blocks, one block fewer in all. -/
def withTable (mp : Mount) (nfree : BitVec 16) (free : List (BitVec 32)) : Mount :=
  { mp with super := { mp.super with nfree, free, tfree := mp.super.tfree - 1, fmod := true } }

theorem getD_canndaddr (hc : c.OnI386) {free : List (BitVec 32)} {n i : Nat} (hi : i < n)
    (hlen : i < free.length) : (canndaddr c free n).getD i 0 = canl (free.getD i 0) := by
  have htake : i < (free.take n).length := by
    rw [List.length_take]
    omega
  rw [canndaddr, List.getD_append _ _ _ _ (by rwa [List.length_map]), getD_map _ htake 0, hc.canlong,
    List.getD_eq_getElem?_getD, List.getElem?_take_of_lt hi, ← List.getD_eq_getElem?_getD]

theorem length_canndaddr (c : Canon) (free : List (BitVec 32)) (n : Nat) :
    (canndaddr c free n).length = free.length := by
  rw [canndaddr, List.length_append, List.length_map, ← List.length_append, List.take_append_drop]

/-- What is left once the block on top is taken. -/
theorem Pool.withTable {n : Nat} (h : mp.Pool (n :: l)) {nfree : BitVec 16} {free : List (BitVec 32)}
    (hfree : free.length = NICFREE)
    (hpile : Pile 0 NICFREE mp.disk.node nfree.toNat (fun i => (free.getD i 0).toNat) l) :
    (mp.withTable nfree free).Pool l where
  isize := h.isize
  room := h.room
  fsize := h.fsize
  size := h.size
  pile := hpile
  length := hfree
  lengthI := h.lengthI
  nodup := (List.nodup_cons.mp h.nodup).2
  range := fun x hx => h.range x (List.mem_cons_of_mem _ hx)
  total := by
    have htotal := h.total
    have hlt := mp.super.tfree.isLt
    rw [List.length_cons] at htotal
    rw [Mount.withTable, BitVec.toNat_sub]
    show (2 ^ 32 - 1 + _) % 2 ^ 32 = _
    omega

theorem spares_withTable (mp : Mount) (nfree : BitVec 16) (free : List (BitVec 32)) :
    Spares [] mp (mp.withTable nfree free) := ⟨rfl, .inl rfl, nofun⟩

/-- A list that comes in from its block. -/
theorem nextList_eq (hc : c.OnI386) {mp : Mount} (hb : mp.InFiles b) (hfsize : mp.super.fsize.toNat < 2 ^ 31)
    (hcap : (mp.disk.node b.toNat).1 ≤ NICFREE) : ∃ nfree free,
      mp.nextList c b = .ok { mp with super := { mp.super with nfree, free } } ∧
      nfree.toNat = (mp.disk.node b.toNat).1 ∧ free.length = NICFREE ∧
      ∀ i < nfree.toNat, (free.getD i 0).toNat = (mp.disk.node b.toNat).2 i := by
  have hsixty : NICFREE = 64 := rfl
  have hcount : (c.canshort (le16 (mp.disk.block b.toNat) 0)).toNat = (mp.disk.node b.toNat).1 := by
    rw [hc.canshort, le16_toNat]
    rfl
  have hlen : ((List.range NICFREE).map fun i => le32 (mp.disk.block b.toNat) (2 + 4 * i)).length =
      NICFREE := by
    rw [List.length_map, List.length_range]
  rw [nextList, if_neg (not_bad hb hfsize)]
  dsimp only
  generalize hnfree : c.canshort (le16 (mp.disk.block b.toNat) 0) = nfree at hcount
  have hint := BitVec.toInt_eq_toNat_of_lt (x := nfree) (by omega)
  rw [if_neg (by omega)]
  refine ⟨nfree, _, rfl, hcount, (length_canndaddr ..).trans hlen, fun i hi => ?_⟩
  have hi' : i < NICFREE := by omega
  rw [getD_canndaddr hc hi (by rw [hlen]; exact hi'),
    List.getD_eq_getElem _ _ (by rw [hlen]; exact hi'), List.getElem_map, List.getElem_range, canl_le32]
  rfl

theorem balloc_pool (hc : c.OnI386) {n : Nat} (h : mp.Pool (n :: l)) : ∃ nfree free,
    balloc c mp = (BitVec.ofNat 32 n, mp.withTable nfree free) ∧ (mp.withTable nfree free).Pool l := by
  have hpile := h.pile
  have hcap := hpile.le_cap (by decide)
  have hsixty : NICFREE = 64 := rfl
  have hint := BitVec.toInt_eq_toNat_of_lt (x := mp.super.nfree) (by omega)
  obtain ⟨k, hk⟩ : ∃ k, mp.super.nfree.toNat = k + 1 := by
    refine ⟨mp.super.nfree.toNat - 1, ?_⟩
    by_contra hzero
    rw [show mp.super.nfree.toNat = 0 by omega] at hpile
    exact absurd hpile.eq_nil (List.cons_ne_nil n l)
  rw [hk] at hpile
  obtain ⟨htop, hne, hlink, hmore⟩ := hpile.pop
  have hpred : (mp.super.nfree - 1).toNat = k := by
    rw [BitVec.toNat_sub, hk]
    show (2 ^ 16 - 1 + _) % 2 ^ 16 = _
    omega
  have hstop : ¬ (mp.super.nfree = 0 ∨ (NICFREE : Int) < mp.super.nfree.toInt) := by
    rintro (hzero | hmany)
    · rw [hzero] at hk
      exact absurd hk (Nat.succ_ne_zero k).symm
    · omega
  have hfiles := h.range n List.mem_cons_self
  generalize hb : mp.super.free.getD k 0 = b at htop
  have hofNat : BitVec.ofNat 32 n = b := by rw [← htop, BitVec.ofNat_toNat, BitVec.setWidth_eq]
  have hbzero : b ≠ 0 := fun hzero => hne (by rw [← htop, hzero]; rfl)
  have hbfiles : mp.InFiles b := by
    rw [InFiles, htop]
    exact hfiles
  have hbad : ¬ mp.Bad b := not_bad hbfiles h.fsize
  rw [balloc, if_neg hstop]
  dsimp only
  rw [hpred, hb, if_neg hbzero, hofNat]
  by_cases hzero : k = 0
  · subst hzero
    have hnext := hlink rfl
    have hnfree : mp.super.nfree - 1 = 0 := BitVec.eq_of_toNat_eq hpred
    obtain ⟨nfree, free, hlist, hcount, hlen, hplaces⟩ := nextList_eq hc
      (show ({ mp with super := { mp.super with
        fmod := true, nfree := mp.super.nfree - 1, free := mp.super.free.set 0 0 } } : Mount).InFiles b from hbfiles)
      h.fsize (by rw [htop]; exact hnext.le_cap (by decide))
    rw [if_pos hnfree, hlist]
    refine ⟨nfree, free, if_neg hbad, h.withTable hlen ?_⟩
    rw [hcount]
    rw [htop] at hcount hplaces ⊢
    exact hnext.congr fun i hi => hplaces i (by rw [hcount]; exact hi)
  · have hnfree : mp.super.nfree - 1 ≠ 0 := fun hz => hzero (by rw [← hpred, hz]; rfl)
    rw [if_neg hnfree]
    refine ⟨_, _, if_neg hbad, h.withTable ((List.length_set ..).trans h.length) ?_⟩
    rw [hpred]
    refine (hmore hzero).congr fun i hi => ?_
    rw [List.getD_eq_getElem?_getD, List.getElem?_set_ne (by omega), ← List.getD_eq_getElem?_getD]

/-- With no block free it says so. -/
theorem balloc_pool_nil (c : Canon) (h : mp.Pool []) :
    (balloc c mp).1 = 0 ∧ (balloc c mp).2.Pool [] ∧ Spares [] mp (balloc c mp).2 ∧
      (balloc c mp).2.enospc = true := by
  have hnone : ∀ {mp' : Mount}, mp'.disk = mp.disk → mp'.super = { mp.super with nfree := 0, fmod := true } →
      mp'.Pool [] := fun hdisk hsuper => by
    refine ⟨?_, ?_, ?_, ?_, ?_, ?_, ?_, List.nodup_nil, nofun, ?_⟩ <;> rw [hsuper] <;> try rw [hdisk]
    · exact h.isize
    · exact h.room
    · exact h.fsize
    · exact h.size
    · exact .empty
    · exact h.length
    · exact h.lengthI
    · exact h.total
  obtain hzero | ⟨hone, hlast⟩ := h.pile.of_nil
  · -- nothing changes but the error and the console
    have hnfree : mp.super.nfree = 0 := BitVec.eq_of_toNat_eq hzero
    have hsuper : { mp.super with nfree := 0 } = mp.super := by rw [← hnfree]
    rw [balloc, if_pos (.inl hnfree), full, note]
    dsimp only
    rw [hsuper]
    exact ⟨rfl, ⟨h.isize, h.room, h.fsize, h.size, h.pile, h.length, h.lengthI, h.nodup, h.range, h.total⟩,
      ⟨rfl, .inl rfl, fun _ => ⟨rfl, rfl⟩⟩, rfl⟩
  · have hnfree : mp.super.nfree = 1 := BitVec.eq_of_toNat_eq hone
    have hfirst : mp.super.free.getD 0 0 = 0 := BitVec.eq_of_toNat_eq hlast
    have hstop : ¬ (mp.super.nfree = 0 ∨ (NICFREE : Int) < mp.super.nfree.toInt) := by
      rw [hnfree]
      decide
    have hpred : (mp.super.nfree - 1).toNat = 0 := by
      rw [hnfree]
      rfl
    rw [balloc, if_neg hstop]
    dsimp only
    rw [hpred, hfirst, if_pos rfl, full]
    exact ⟨rfl, hnone rfl rfl, ⟨rfl, .inl rfl, nofun⟩, rfl⟩

end Mount

end Sbc386Ex.Cohfs

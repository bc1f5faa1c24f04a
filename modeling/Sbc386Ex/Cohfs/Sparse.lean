import Sbc386Ex.Cohfs.Image
import Sbc386Ex.Lib.Holes
import Sbc386Ex.Lib.Raising

/-!
# Sbc386Ex.Cohfs.Sparse

What `data` makes of a file with holes. A zero pointer below an indirect block stands for
the blocks it would lead to; a zero pointer to an indirect block in the inode stands for
none at all, so the blocks behind it come too early.
-/

namespace Sbc386Ex.Cohfs

open Holes

/-! ### What a file is -/

namespace Image

variable (d : Image)

/-- The `i`th pointer in the block `a`. -/
def pointer (a i : Nat) : Nat :=
  match pdplong (d.block a) (4 * i) with
  | .ok p => p
  | .error _ => 0

/-- The block that the path of `j` leads to, in the tree of `a` with so many levels of
pointers; zero where the path goes through a zero pointer. -/
def leaf : Nat → Nat → Nat → Nat
  | 0, a, _ => a
  | level + 1, a, j =>
      if a = 0 then 0 else leaf level (d.pointer a (j / 128 ^ level)) (j % 128 ^ level)

def leaves (level a : Nat) : List Nat := (List.range (128 ^ level)).map (d.leaf level a)

/-- What a block holds, a hole being zeros. -/
def content (a : Nat) : List Byte := if a ≠ 0 then d.block a else List.replicate BSIZE 0

/-- The block of the `k`th 512 bytes of a file, zero for a hole. -/
def mapped (ip : Ip) (k : Nat) : Nat :=
  if k < ND then ip.addr.getD k 0
  else if k < ND + 128 then d.leaf 1 (ip.addr.getD ND 0) (k - ND)
  else if k < ND + 128 + 128 ^ 2 then d.leaf 2 (ip.addr.getD (ND + 1) 0) (k - ND - 128)
  else if k < ND + 128 + 128 ^ 2 + 128 ^ 3 then
    d.leaf 3 (ip.addr.getD (ND + 2) 0) (k - ND - 128 - 128 ^ 2)
  else 0

/-- The `i`th byte of a file. -/
def fileByte (ip : Ip) (i : Nat) : Byte :=
  (d.content (d.mapped ip (i / BSIZE))).getD (i % BSIZE) 0

/-- All blocks of the tree of `a` are in the image. -/
def Whole : Nat → Nat → Prop
  | 0, a => a ≠ 0 → (d.block a).length = BSIZE
  | level + 1, a => a ≠ 0 → (d.block a).length = BSIZE ∧ ∀ i < 128, Whole level (d.pointer a i)

/-- An inode whose address area is a block tree, as those of files and directories are,
with all its blocks in the image. -/
structure Tree (ip : Ip) : Prop where
  notChr : ip.ifmt ≠ S_IFCHR
  notBlk : ip.ifmt ≠ S_IFBLK
  length : ip.addr.length = NADDR
  direct : ∀ k < ND, d.Whole 0 (ip.addr.getD k 0)
  trees : ∀ k < 3, d.Whole (k + 1) (ip.addr.getD (ND + k) 0)

/-- The bytes of the trees of `as`, those of zero pointers left out. -/
def found : List (Nat × Nat) → List Byte
  | [] => []
  | (a, level) :: rest =>
      if a = 0 then found rest else (d.leaves level a).flatMap d.content ++ found rest

/-- Where `s` bytes of a file are still to come and the trees of `as` are left for them,
they do come: no zero pointer is reached with some to come, or what is found behind it is
enough and is all zero. -/
def Comes : List (Nat × Nat) → Nat → Prop
  | [], s => s = 0
  | (a, level) :: rest, s =>
      if a ≠ 0 then Comes rest (s - BSIZE * 128 ^ level)
      else s = 0 ∨ Run 0 (d.found rest) s

end Image

/-! ### The trees -/

section Trees

variable {d : Image}

/-- A list by rows. -/
theorem flatten_rows {α : Type} (f : Nat → Nat → α) (m n : Nat) :
    ((List.range m).map fun i => (List.range n).map (f i)).flatten =
      (List.range (m * n)).map fun j => f (j / n) (j % n) := by
  induction m with
  | zero => simp
  | succ m ih =>
      rw [List.range_succ, List.map_append, List.flatten_append, ih, Nat.succ_mul, List.range_add,
        List.map_append, List.map_map]
      congr 1
      simp only [List.map_cons, List.map_nil, List.flatten_cons, List.flatten_nil, List.append_nil]
      refine List.map_congr_left fun j hj => ?_
      have hjn : j < n := List.mem_range.mp hj
      rw [Function.comp_apply, Nat.mul_comm, Nat.mul_add_div (by omega), Nat.mul_add_mod,
        Nat.div_eq_of_lt hjn, Nat.mod_eq_of_lt hjn, Nat.add_zero]

theorem leaves_zero (level : Nat) : d.leaves level 0 = List.replicate (128 ^ level) 0 := by
  have hleaf : ∀ j, d.leaf level 0 j = 0 := fun j => by
    cases level with
    | zero => rfl
    | succ level => exact if_pos rfl
  rw [Image.leaves, List.map_congr_left fun j _ => hleaf j, List.map_const', List.length_range]

theorem leaves_succ (level : Nat) {a : Nat} (ha : a ≠ 0) :
    d.leaves (level + 1) a =
      ((List.range 128).map fun i => d.leaves level (d.pointer a i)).flatten := by
  unfold Image.leaves
  rw [flatten_rows (fun i => d.leaf level (d.pointer a i)), Nat.pow_succ, Nat.mul_comm]
  exact List.map_congr_left fun j _ => if_neg ha

theorem u16_of_le {b : List Byte} {o : Nat} (h : o + 2 ≤ b.length) : ∃ n, u16 b o = .ok n := by
  unfold u16
  match hb : b.drop o with
  | lo :: hi :: _ => exact ⟨_, rfl⟩
  | [_] | [] =>
      have hlen := congrArg List.length hb
      simp at hlen
      omega

theorem pdplong_of_le {b : List Byte} {o : Nat} (h : o + 4 ≤ b.length) :
    ∃ n, pdplong b o = .ok n := by
  obtain ⟨hi, hhi⟩ := u16_of_le (b := b) (o := o) (by omega)
  obtain ⟨lo, hlo⟩ := u16_of_le (b := b) (o := o + 2) (by omega)
  exact ⟨hi <<< 16 ||| lo, by rw [pdplong, hhi, hlo]; rfl⟩

theorem pointers_eq {a : Nat} (h : (d.block a).length = BSIZE) :
    ((List.range (BSIZE / 4)).mapM fun i => pdplong (d.block a) (4 * i)) =
      .ok ((List.range 128).map (d.pointer a)) := by
  refine Raising.mapM_eq_ok fun i hi => ?_
  have hi' : i < BSIZE / 4 := List.mem_range.mp hi
  have hsize : BSIZE = 512 := rfl
  obtain ⟨p, hp⟩ := pdplong_of_le (b := d.block a) (o := 4 * i) (by omega)
  rw [Image.pointer, hp]

/-- Below the inode a zero pointer stands for its holes. -/
theorem indirect_eq (level : Nat) : ∀ {a : Nat}, d.Whole (level + 1) a → a ≠ 0 →
    d.indirect a (level + 1) = .ok (d.leaves (level + 1) a) := by
  induction level with
  | zero =>
      intro a hw ha
      rw [Image.indirect, if_neg ha, pointers_eq (hw ha).1, leaves_succ 0 ha]
      simp only [bind, Except.bind, pure, Except.pure, reduceIte, Image.leaves, Image.leaf,
        Nat.pow_zero, List.range_one, List.map_cons, List.map_nil]
      rw [← List.flatMap_def, ← List.map_eq_flatMap]
  | succ level ih =>
      intro a hw ha
      rw [Image.indirect, if_neg ha, pointers_eq (hw ha).1, leaves_succ _ ha]
      have hbelow : ((List.range 128).map (d.pointer a)).mapM (fun p =>
          if p ≠ 0 then d.indirect p (level + 1)
          else .ok (List.replicate (128 ^ (level + 1)) 0)) =
            .ok (((List.range 128).map (d.pointer a)).map (d.leaves (level + 1))) := by
        refine Raising.mapM_eq_ok fun p hp => ?_
        obtain ⟨i, hi, rfl⟩ := List.mem_map.mp hp
        by_cases hz : d.pointer a i = 0
        · rw [if_neg (by simpa using hz), hz, leaves_zero]
        · rw [if_pos hz]
          exact ih ((hw ha).2 i (List.mem_range.mp hi)) hz
      simp only [bind, Except.bind, pure, Except.pure] at hbelow ⊢
      rw [if_neg (Nat.succ_ne_zero level), hbelow, List.map_map]
      rfl

/-! ### The contents -/

theorem content_zero : d.content 0 = List.replicate BSIZE 0 := if_neg (by simp)

theorem length_content {a : Nat} (h : d.Whole 0 a) : (d.content a).length = BSIZE := by
  unfold Image.content
  by_cases ha : a ≠ 0
  · rw [if_pos ha, h ha]
  · rw [if_neg ha, List.length_replicate]

theorem whole_leaf (level : Nat) : ∀ {a : Nat}, d.Whole level a → ∀ j < 128 ^ level,
    d.Whole 0 (d.leaf level a j) := by
  induction level with
  | zero => exact fun h _ _ => h
  | succ level ih =>
      intro a h j hj
      rw [Image.leaf]
      by_cases ha : a = 0
      · rw [if_pos ha]
        exact fun h0 => absurd rfl h0
      · rw [if_neg ha]
        have hpos : 0 < 128 ^ level := Nat.pow_pos (by decide)
        have hrow : j / 128 ^ level < 128 :=
          Nat.div_lt_of_lt_mul (by rwa [Nat.pow_succ] at hj)
        exact ih ((h ha).2 _ hrow) _ (Nat.mod_lt _ hpos)

theorem length_flatMap_content {as : List Nat} (h : ∀ a ∈ as, d.Whole 0 a) :
    (as.flatMap d.content).length = BSIZE * as.length := by
  induction as with
  | nil => rfl
  | cons a rest ih =>
      rw [List.flatMap_cons, List.length_append, length_content (h a List.mem_cons_self),
        ih fun b hb => h b (List.mem_cons_of_mem a hb), List.length_cons, Nat.mul_succ, Nat.add_comm]

/-- A byte of some blocks in a row. -/
theorem getD_flatMap_content {as : List Nat} (h : ∀ a ∈ as, d.Whole 0 a) : ∀ i,
    (as.flatMap d.content).getD i 0 = (d.content (as.getD (i / BSIZE) 0)).getD (i % BSIZE) 0 := by
  have hsize : BSIZE = 512 := rfl
  induction as with
  | nil =>
      intro i
      rw [List.flatMap_nil, List.getD_nil, List.getD_nil, content_zero,
        List.getD_replicate _ (Nat.mod_lt _ (by omega))]
  | cons a rest ih =>
      intro i
      have hlen := length_content (h a List.mem_cons_self)
      rw [List.flatMap_cons]
      by_cases hi : i < BSIZE
      · rw [getD_append_lt (by omega), Nat.div_eq_of_lt hi, Nat.mod_eq_of_lt hi, List.getD_cons_zero]
      · obtain ⟨j, rfl⟩ := Nat.exists_eq_add_of_le' (Nat.le_of_not_lt hi)
        rw [getD_append_ge (by omega), hlen, Nat.add_sub_cancel,
          ih (fun b hb => h b (List.mem_cons_of_mem a hb)), Nat.add_div_right _ (by omega),
          Nat.add_mod_right, List.getD_cons_succ]

/-- Cutting whole blocks off loses no byte before the cut. -/
theorem take_take_content {as : List Nat} (h : ∀ a ∈ as, d.Whole 0 a) {n s : Nat}
    (hs : s ≤ BSIZE * n) :
    ((as.take n).flatMap d.content).take s = (as.flatMap d.content).take s := by
  by_cases hn : as.length ≤ n
  · rw [List.take_of_length_le hn]
  · have htake : ∀ a ∈ as.take n, d.Whole 0 a := fun a ha => h a (List.mem_of_mem_take ha)
    have hlen := length_flatMap_content htake
    rw [List.length_take, Nat.min_eq_left (by omega)] at hlen
    conv_rhs => rw [← List.take_append_drop n as, List.flatMap_append]
    rw [List.take_append_of_le_length (by omega)]

/-! ### The trees as pieces -/

theorem bytes_pos (level : Nat) : 0 < BSIZE * 128 ^ level :=
  Nat.mul_pos (by decide) (Nat.pow_pos (by decide))

def piece (d : Image) (a level : Nat) : Piece Byte :=
  if a = 0 then .hole (BSIZE * 128 ^ level) (bytes_pos level)
  else .kept ((d.leaves level a).flatMap d.content)

def pieces (d : Image) (as : List (Nat × Nat)) : List (Piece Byte) := as.map fun p => piece d p.1 p.2

theorem mem_leaves {level a b : Nat} (h : d.Whole level a) (hb : b ∈ d.leaves level a) :
    d.Whole 0 b := by
  obtain ⟨j, hj, rfl⟩ := List.mem_map.mp hb
  exact whole_leaf level h j (List.mem_range.mp hj)

theorem length_leaves (level a : Nat) : (d.leaves level a).length = 128 ^ level := by
  rw [Image.leaves, List.length_map, List.length_range]

theorem dropped_pieces (as : List (Nat × Nat)) : dropped (pieces d as) = d.found as := by
  induction as with
  | nil => rfl
  | cons p rest ih =>
      obtain ⟨a, level⟩ := p
      rw [pieces, List.map_cons, Image.found, piece]
      by_cases ha : a = 0
      · rw [if_pos ha, if_pos ha]
        exact ih
      · rw [if_neg ha, if_neg ha]
        exact congrArg _ ih

theorem fits_pieces {as : List (Nat × Nat)} (h : ∀ p ∈ as, d.Whole p.2 p.1) :
    ∀ s, Fits 0 (pieces d as) s ↔ d.Comes as s := by
  induction as with
  | nil => exact fun s => Iff.rfl
  | cons p rest ih =>
      obtain ⟨a, level⟩ := p
      intro s
      have hrest := ih fun q hq => h q (List.mem_cons_of_mem _ hq)
      rw [pieces, List.map_cons, Image.Comes, piece]
      by_cases ha : a = 0
      · rw [if_pos ha, if_neg (not_not_intro ha), Fits, ← dropped_pieces]
        rfl
      · have hlen := length_flatMap_content fun b => mem_leaves (h _ List.mem_cons_self) (b := b)
        rw [length_leaves] at hlen
        rw [if_neg ha, if_pos ha, Fits, hlen]
        exact hrest _

theorem filled_piece (a level : Nat) (rest : List (Piece Byte)) :
    filled 0 (piece d a level :: rest) =
      (d.leaves level a).flatMap d.content ++ filled 0 rest := by
  rw [piece]
  by_cases ha : a = 0
  · have hholes : ∀ n, (List.replicate n 0).flatMap d.content =
        List.replicate (BSIZE * n) (0 : Byte) := fun n => by
      induction n with
      | zero => rfl
      | succ n ihn =>
          rw [List.replicate_succ, List.flatMap_cons, ihn, content_zero, Nat.mul_succ,
            Nat.add_comm, List.replicate_add]
    rw [if_pos ha, filled, ha, leaves_zero, hholes]
  · rw [if_neg ha, filled]

theorem filled_pieces (as : List (Nat × Nat)) :
    filled 0 (pieces d as) = (as.flatMap fun p => d.leaves p.2 p.1).flatMap d.content := by
  induction as with
  | nil => rfl
  | cons p rest ih =>
      rw [List.flatMap_cons, List.flatMap_append, ← ih]
      exact filled_piece p.1 p.2 (pieces d rest)

end Trees

/-! ### Reading a file -/

section Data

variable {d : Image} {ip : Ip}

/-- The pointers to the trees, each with its levels. -/
def trees (ip : Ip) : List (Nat × Nat) := (ip.addr.drop ND).zipIdx 1

theorem trees_eq (h : d.Tree ip) : trees ip =
    [(ip.addr.getD ND 0, 1), (ip.addr.getD (ND + 1) 0, 2), (ip.addr.getD (ND + 2) 0, 3)] := by
  have hnd : ND = 10 := rfl
  have hlen : ip.addr.length = 13 := h.length
  have hdrop : ip.addr.drop ND =
      [ip.addr.getD ND 0, ip.addr.getD (ND + 1) 0, ip.addr.getD (ND + 2) 0] := by
    refine List.ext_getElem (by simp only [List.length_drop, List.length_cons, List.length_nil]; omega)
      fun i hi hi' => ?_
    simp only [List.length_cons, List.length_nil] at hi'
    rw [List.getElem_drop, ← List.getD_eq_getElem _ 0]
    match i, hi' with
    | 0, _ | 1, _ | 2, _ => rfl
  rw [trees, hdrop]
  rfl

theorem whole_trees (h : d.Tree ip) : ∀ p ∈ trees ip, d.Whole p.2 p.1 := by
  rw [trees_eq h]
  intro p hp
  simp only [List.mem_cons, List.not_mem_nil, or_false] at hp
  rcases hp with rfl | rfl | rfl
  · exact h.trees 0 (by decide)
  · exact h.trees 1 (by decide)
  · exact h.trees 2 (by decide)

theorem getD_leaves {level a j : Nat} (hj : j < 128 ^ level) :
    (d.leaves level a).getD j 0 = d.leaf level a j := by
  have hget : (d.leaves level a)[j]? = some (d.leaf level a j) := by
    rw [Image.leaves, List.getElem?_map, List.getElem?_range hj]
    rfl
  rw [List.getD_eq_getElem?_getD, hget]
  rfl

/-- All blocks of a file, in order, the holes as zeros. -/
def allBlocks (d : Image) (ip : Ip) : List Nat :=
  ip.addr.take ND ++ (trees ip).flatMap fun p => d.leaves p.2 p.1

theorem getD_allBlocks (h : d.Tree ip) (k : Nat) : (allBlocks d ip).getD k 0 = d.mapped ip k := by
  have hnd : ND = 10 := rfl
  have hdirect : (ip.addr.take ND).length = ND := by
    rw [List.length_take, h.length]
    rfl
  have hl := fun level a => length_leaves (d := d) level a
  rw [allBlocks, trees_eq h, Image.mapped]
  simp only [List.flatMap_cons, List.flatMap_nil, List.append_nil]
  by_cases h0 : k < ND
  · rw [if_pos h0, getD_append_lt (by omega), List.getD_eq_getElem?_getD,
      List.getElem?_take_of_lt h0, ← List.getD_eq_getElem?_getD]
  rw [if_neg h0, getD_append_ge (by omega), hdirect]
  by_cases h1 : k < ND + 128
  · rw [if_pos h1, getD_append_lt (by rw [hl]; omega), getD_leaves (by omega)]
  rw [if_neg h1, getD_append_ge (by rw [hl]; omega), hl, Nat.pow_one]
  by_cases h2 : k < ND + 128 + 128 ^ 2
  · rw [if_pos h2, getD_append_lt (by rw [hl]; omega), getD_leaves (by omega)]
  rw [if_neg h2, getD_append_ge (by rw [hl]; omega), hl]
  by_cases h3 : k < ND + 128 + 128 ^ 2 + 128 ^ 3
  · rw [if_pos h3, getD_leaves (by omega)]
  · rw [if_neg h3, List.getD_eq_default _ _ (by rw [hl]; omega)]

theorem whole_allBlocks (h : d.Tree ip) : ∀ a ∈ allBlocks d ip, d.Whole 0 a := by
  intro a ha
  obtain ha | ha := List.mem_append.mp ha
  · obtain ⟨k, hk, rfl⟩ := List.mem_iff_getElem.mp ha
    rw [List.length_take] at hk
    rw [List.getElem_take, ← List.getD_eq_getElem _ 0]
    exact h.direct k (by omega)
  · obtain ⟨p, hp, hap⟩ := List.mem_flatMap.mp ha
    exact mem_leaves (whole_trees h p hp) hap

/-- A file as pieces: its direct blocks, and its trees. -/
def filePieces (d : Image) (ip : Ip) : List (Piece Byte) :=
  .kept ((ip.addr.take ND).flatMap d.content) :: pieces d (trees ip)

theorem filled_filePieces (h : d.Tree ip) (i : Nat) :
    (filled 0 (filePieces d ip)).getD i 0 = d.fileByte ip i := by
  rw [filePieces, filled, filled_pieces, ← List.flatMap_append, ← allBlocks,
    getD_flatMap_content (whole_allBlocks h), getD_allBlocks h, Image.fileByte]

theorem blocks_eq (h : d.Tree ip) : d.blocks ip =
    .ok ((ip.addr.take ND ++ (trees ip).flatMap fun p =>
      if p.1 = 0 then [] else d.leaves p.2 p.1).take ((ip.size + BSIZE - 1) / BSIZE)) := by
  have hbelow : (trees ip).mapM (fun p => d.indirect p.1 p.2) =
      .ok ((trees ip).map fun p => if p.1 = 0 then [] else d.leaves p.2 p.1) := by
    refine Raising.mapM_eq_ok fun p hp => ?_
    have hlevel : ∃ level, p.2 = level + 1 := by
      rw [trees_eq h] at hp
      simp only [List.mem_cons, List.not_mem_nil, or_false] at hp
      rcases hp with rfl | rfl | rfl
      · exact ⟨0, rfl⟩
      · exact ⟨1, rfl⟩
      · exact ⟨2, rfl⟩
    obtain ⟨level, hlevel⟩ := hlevel
    by_cases ha : p.1 = 0
    · rw [if_pos ha, ha, hlevel, Image.indirect, if_pos rfl]
    · have hw := whole_trees h p hp
      rw [if_neg ha, hlevel] at *
      exact indirect_eq level hw ha
  change (trees ip).mapM (fun p => d.indirect p.1 p.2) >>= _ = _
  rw [hbelow, List.flatMap_def]
  rfl

theorem flatMap_kept (as : List (Nat × Nat)) :
    (as.flatMap fun p => if p.1 = 0 then [] else d.leaves p.2 p.1).flatMap d.content =
      d.found as := by
  induction as with
  | nil => rfl
  | cons p rest ih =>
      rw [List.flatMap_cons, List.flatMap_append, ih, Image.found]
      by_cases ha : p.1 = 0
      · rw [if_pos ha, if_pos ha, List.flatMap_nil, List.nil_append]
      · rw [if_neg ha, if_neg ha]

theorem data_eq (h : d.Tree ip) :
    d.data ip = .ok ((dropped (filePieces d ip)).take ip.size) := by
  have hsize : BSIZE = 512 := rfl
  have hwhole : ∀ a ∈ ip.addr.take ND ++ (trees ip).flatMap (fun p =>
      if p.1 = 0 then [] else d.leaves p.2 p.1), d.Whole 0 a := by
    intro a ha
    refine whole_allBlocks h a (List.mem_append.mpr ((List.mem_append.mp ha).imp_right fun ha => ?_))
    obtain ⟨p, hp, hap⟩ := List.mem_flatMap.mp ha
    split at hap
    · simp at hap
    · exact List.mem_flatMap.mpr ⟨p, hp, hap⟩
  have hcut : ip.size ≤ BSIZE * ((ip.size + BSIZE - 1) / BSIZE) := by
    rw [hsize]
    omega
  rw [Image.data, if_neg (not_or.mpr ⟨h.notChr, h.notBlk⟩), blocks_eq h]
  have htake := take_take_content hwhole hcut
  rw [List.flatMap_append, flatMap_kept] at htake
  rw [filePieces, dropped, dropped_pieces, ← htake]
  rfl

end Data

/-- **Reading a file with holes.** What `data` returns is the file exactly where none of
its bytes are still to come when a zero pointer to an indirect block is reached, or what
is found behind it happens to be the zeros that belong there. -/
theorem data_sparse_iff (d : Image) (ip : Ip) (h : d.Tree ip) :
    d.data ip = .ok ((List.range ip.size).map (d.fileByte ip)) ↔
      d.Comes ((ip.addr.drop ND).zipIdx 1) (ip.size - BSIZE * ND) := by
  have hdirect : ((ip.addr.take ND).flatMap d.content).length = BSIZE * ND := by
    rw [length_flatMap_content fun a ha =>
      whole_allBlocks h a (List.mem_append_left _ ha), List.length_take, h.length]
    rfl
  have hfits : Fits 0 (filePieces d ip) ip.size ↔ d.Comes (trees ip) (ip.size - BSIZE * ND) := by
    rw [filePieces, Fits, hdirect]
    exact fits_pieces (whole_trees h) _
  have hbytes : (List.range ip.size).map (d.fileByte ip) =
      (List.range ip.size).map fun i => (filled 0 (filePieces d ip)).getD i 0 :=
    List.map_congr_left fun i _ => (filled_filePieces h i).symm
  rw [data_eq h, hbytes, ← trees, ← hfits, ← take_dropped_iff]
  exact ⟨fun heq => Except.ok.inj heq, congrArg _⟩

/-- A block whose first pointer is `a`, and no other. -/
def pointing (a : Byte) : List Byte := [0, 0, a, 0] ++ List.replicate 508 0

/-- Block 3 leads to block 4 and that to block 5, which begins with an X. -/
def xDisk : Image where
  bytes := List.replicate 1536 0 ++ pointing 4 ++ pointing 5 ++ [0x58] ++ List.replicate 511 0
  base := 0

/-- A file that was written at its byte 70656 only. -/
def xIp : Ip where
  mode := S_IFREG
  nlink := 1
  uid := 0
  gid := 0
  size := 70657
  addr := [0, 0, 0, 0, 0, 0, 0, 0, 0, 0, 0, 3, 0]

theorem length_pointing (a : Byte) : (pointing a).length = BSIZE := by
  rw [pointing, List.length_append, List.length_replicate]
  rfl

theorem pointer_pointing {d : Image} {a : Nat} {b : Byte} (h : d.block a = pointing b) :
    ∀ i < 128, d.pointer a i = 0 ∨ d.pointer a i = b.toNat := by
  intro i hi
  rw [Image.pointer, h]
  by_cases hi0 : i = 0
  · subst hi0
    have hhi : u16 (pointing b) (4 * 0) = .ok 0 := rfl
    have hlo : u16 (pointing b) (4 * 0 + 2) = .ok (0 <<< 8 ||| b.toNat) := rfl
    have hpointer : pdplong (pointing b) (4 * 0) = .ok (0 <<< 16 ||| (0 <<< 8 ||| b.toNat)) := by
      rw [pdplong, hhi, hlo]
      rfl
    rw [hpointer, Nat.zero_shiftLeft, Nat.zero_shiftLeft, Nat.zero_or, Nat.zero_or]
    exact .inr rfl
  · have hzeros : ∀ o, 4 ≤ o → (pointing b).drop o = List.replicate (512 - o) 0 := by
      intro o ho
      rw [pointing, List.drop_append, List.drop_eq_nil_of_le (by simpa using ho), List.nil_append,
        List.drop_replicate]
      congr 1
      simp only [List.length_cons, List.length_nil]
      omega
    have hhi : u16 (pointing b) (4 * i) = .ok 0 :=
      u16_zeros (n := 510 - 4 * i) (by rw [hzeros _ (by omega)]; congr 1; omega)
    have hlo : u16 (pointing b) (4 * i + 2) = .ok 0 :=
      u16_zeros (n := 508 - 4 * i) (by rw [hzeros _ (by omega)]; congr 1; omega)
    exact .inl (by rw [pdplong, hhi, hlo]; rfl)

theorem block_between {a b c : List Byte} {n : Nat} (ha : a.length = n * BSIZE) (hb : b.length = BSIZE) :
    Image.block ⟨a ++ b ++ c, 0⟩ n = b := by
  rw [Image.block, Nat.add_zero, slice, ← ha, List.append_assoc, List.drop_left, Nat.add_mul, ha,
    Nat.one_mul, Nat.add_sub_cancel_left, ← hb, List.take_left]

theorem xDisk_bytes : xDisk = ⟨List.replicate (3 * BSIZE) 0 ++ pointing 4 ++ pointing 5 ++
    (0x58 :: List.replicate 511 0), 0⟩ := by
  rw [xDisk, List.append_assoc, List.singleton_append]
  rfl

theorem length_last : (0x58 :: List.replicate 511 (0 : Byte)).length = BSIZE := by
  rw [List.length_cons, List.length_replicate, BSIZE]

theorem xDisk_blocks : xDisk.block 3 = pointing 4 ∧ xDisk.block 4 = pointing 5 ∧
    xDisk.block 5 = 0x58 :: List.replicate 511 0 := by
  have hthree : (List.replicate (3 * BSIZE) (0 : Byte)).length = 3 * BSIZE := List.length_replicate
  have hfour : (List.replicate (3 * BSIZE) (0 : Byte) ++ pointing 4).length = 4 * BSIZE := by
    rw [List.length_append, hthree, length_pointing, ← Nat.succ_mul]
  have hfive : (List.replicate (3 * BSIZE) (0 : Byte) ++ pointing 4 ++ pointing 5).length = 5 * BSIZE := by
    rw [List.length_append, hfour, length_pointing, ← Nat.succ_mul]
  rw [xDisk_bytes]
  refine ⟨?_, block_between hfour (length_pointing 5), ?_⟩
  · rw [List.append_assoc]
    exact block_between hthree (length_pointing 4)
  · rw [← List.append_nil (_ ++ 0x58 :: List.replicate 511 0)]
    exact block_between hfive length_last

theorem xIp_tree : xDisk.Tree xIp where
  notChr := by decide
  notBlk := by decide
  length := rfl
  direct := by
    have hzero : ∀ k < ND, xIp.addr.getD k 0 = 0 := by decide
    exact fun k hk hne => absurd (hzero k hk) hne
  trees := by
    obtain ⟨h3, h4, hlast⟩ := xDisk_blocks
    have h5 : xDisk.Whole 0 5 := fun _ => by
      rw [hlast, List.length_cons, List.length_replicate]
      rfl
    have hwhole4 : xDisk.Whole 1 4 := by
      refine fun _ => ⟨by rw [h4, length_pointing], fun i hi => ?_⟩
      obtain hz | hp := pointer_pointing h4 i hi
      · exact fun hne => absurd hz hne
      · rwa [hp]
    have hwhole3 : xDisk.Whole 2 3 := by
      refine fun _ => ⟨by rw [h3, length_pointing], fun i hi => ?_⟩
      obtain hz | hp := pointer_pointing h3 i hi
      · exact fun hne => absurd hz hne
      · rwa [hp]
    intro k hk
    match k, hk with
    | 0, _ => exact fun hne => absurd rfl hne
    | 1, _ => exact hwhole3
    | 2, _ => exact fun hne => absurd rfl hne

theorem data_sparse_iff_xIp :
    xDisk.data xIp = .ok ((List.range 70657).map (xDisk.fileByte xIp)) ↔
      xDisk.Comes [(0, 1), (3, 2), (0, 3)] (70657 - BSIZE * ND) :=
  data_sparse_iff xDisk xIp xIp_tree

/-- Its one byte is read 65536 bytes too early. -/
theorem data_sparse_shifted :
    ¬ ∀ (d : Image) (ip : Ip), d.Tree ip →
        d.data ip = .ok ((List.range ip.size).map (d.fileByte ip)) := by
  intro h
  have hbyte : xDisk.fileByte xIp 5120 = 0 := by decide +kernel
  obtain ⟨h3, h4, hlast⟩ := xDisk_blocks
  have hfirst3 : xDisk.pointer 3 0 = 4 := by
    rw [Image.pointer, h3]
    rfl
  have hfirst4 : xDisk.pointer 4 0 = 5 := by
    rw [Image.pointer, h4]
    rfl
  have hx : (xDisk.content (xDisk.leaf 2 3 0)).getD 0 0 = 0x58 := by
    rw [show xDisk.leaf 2 3 0 = 5 by simp [Image.leaf, hfirst3, hfirst4], Image.content,
      if_pos (by decide), hlast]
    rfl
  have hfound : (xDisk.found (trees xIp)).getD 0 0 = 0x58 := by
    have hleaf : ∀ a ∈ xDisk.leaves 2 3, xDisk.Whole 0 a :=
      fun a => mem_leaves (whole_trees xIp_tree (3, 2) (by decide))
    have hlen := length_flatMap_content hleaf
    rw [length_leaves] at hlen
    have hfirst := getD_flatMap_content hleaf 0
    rw [Nat.zero_div, Nat.zero_mod, getD_leaves (by decide), hx] at hfirst
    change (xDisk.found [(0, 1), (3, 2), (0, 3)]).getD 0 0 = 0x58
    rw [Image.found, if_pos rfl, Image.found, if_neg (by decide), getD_append_lt (by rw [hlen]; decide),
      hfirst]
  have hread := data_eq xIp_tree
  rw [h xDisk xIp xIp_tree, filePieces, dropped, dropped_pieces] at hread
  obtain ⟨hlen, hall⟩ := take_eq_map_range_iff.mp (Except.ok.inj hread).symm
  have hdirect : ((xIp.addr.take ND).flatMap xDisk.content).length = 5120 :=
    length_flatMap_content (d := xDisk) fun a ha =>
      whole_allBlocks xIp_tree a (List.mem_append_left _ ha)
  have hgot := hall 5120 (by decide)
  rw [getD_append_ge (by omega), hdirect, Nat.sub_self, hfound, hbyte] at hgot
  exact absurd hgot (by decide)

end Sbc386Ex.Cohfs

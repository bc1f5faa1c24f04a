import Sbc386Ex.Cohfs.Pool

/-!
# Sbc386Ex.Cohfs.Layout

Where a file without holes is: its blocks in order, the first ten in the inode, the next 128 in
a block of pointers and the others in as many as it takes, which a block of pointers has in
turn. Both readers of such a file find the same blocks: `cohfs.py` the data in order, and
`cohfsw.py`, which is to free them, these and the blocks of pointers.
-/

namespace Sbc386Ex.Cohfs

open Raising

/-! ### Pieces -/

section Chunks

variable {α : Type} {n : Nat}

theorem chunks_nil : Fsw.chunks n ([] : List α) = [] := by
  obtain _ | n := n
  · simp [Fsw.chunks]
  · rw [Fsw.chunks, List.length_nil, Nat.zero_add, Nat.add_sub_cancel, Nat.div_eq_of_lt (Nat.lt_succ_self n)]
    rfl

theorem chunks_cons (hn : 0 < n) {l : List α} (h : l ≠ []) :
    Fsw.chunks n l = l.take n :: Fsw.chunks n (l.drop n) := by
  have hpos := List.length_pos_iff.mpr h
  have hcount : (l.length + n - 1) / n = ((l.drop n).length + n - 1) / n + 1 := by
    rw [List.length_drop]
    by_cases hle : l.length ≤ n
    · rw [Nat.sub_eq_zero_of_le hle, Nat.zero_add, Nat.div_eq_of_lt (by omega : n - 1 < n)]
      exact Nat.div_eq_of_lt_le (by omega) (by omega)
    · rw [← Nat.add_div_right _ hn]
      congr 1
      omega
  rw [Fsw.chunks, hcount, List.range_succ_eq_map, List.map_cons, List.map_map, Fsw.chunks]
  refine congrArg₂ _ ?_ (List.map_congr_left fun i _ => ?_)
  · rw [slice, Nat.zero_mul, List.drop_zero, Nat.zero_add, Nat.one_mul, Nat.sub_zero]
  · rw [Function.comp_apply, slice, slice, List.drop_drop]
    congr 1
    · simp only [Nat.succ_mul]
      omega
    · rw [Nat.succ_mul, Nat.add_comm]

/-- The pieces, each filled up with `z`, are the list with some at its end. -/
theorem flatten_chunks (hn : 0 < n) (z : α) (l : List α) : ∃ m,
    ((Fsw.chunks n l).map fun p => p ++ List.replicate (n - p.length) z).flatten =
      l ++ List.replicate m z := by
  induction hlen : l.length using Nat.strong_induction_on generalizing l with
  | _ k ih =>
      by_cases h : l = []
      · exact ⟨0, by rw [h, chunks_nil]; rfl⟩
      · have hpos := List.length_pos_iff.mpr h
        obtain ⟨m, hm⟩ := ih (l.drop n).length (by rw [List.length_drop]; omega) (l.drop n) rfl
        rw [chunks_cons hn h, List.map_cons, List.flatten_cons, hm]
        by_cases hle : l.length ≤ n
        · -- the last piece, and nothing behind it
          rw [List.drop_eq_nil_of_le hle, List.take_of_length_le hle, List.nil_append, List.append_assoc,
            ← List.replicate_add]
          exact ⟨_, rfl⟩
        · refine ⟨m, ?_⟩
          rw [List.length_take, Nat.min_eq_left (by omega), Nat.sub_self, List.replicate_zero,
            List.append_nil, ← List.append_assoc, List.take_append_drop]

theorem mem_chunks (hn : 0 < n) {l p : List α} (h : p ∈ Fsw.chunks n l) :
    p.length ≤ n ∧ p ≠ [] ∧ p ⊆ l := by
  obtain ⟨i, hi, rfl⟩ := List.mem_map.mp h
  have hlt : i < (l.length + n - 1) / n := List.mem_range.mp hi
  have hstart : i * n < l.length := by
    have hmul := (Nat.lt_div_iff_mul_lt hn).mp hlt
    omega
  refine ⟨?_, fun hnil => ?_, fun x hx => List.mem_of_mem_drop (List.mem_of_mem_take hx)⟩
  · rw [slice, List.length_take, Nat.succ_mul]
    omega
  · have hlen := congrArg List.length hnil
    rw [slice, List.length_take, List.length_drop, Nat.succ_mul, List.length_nil] at hlen
    omega

theorem length_chunks (n : Nat) (l : List α) : (Fsw.chunks n l).length = (l.length + n - 1) / n := by
  rw [Fsw.chunks, List.length_map, List.length_range]

theorem flatten_chunks_eq (hn : 0 < n) (l : List α) : (Fsw.chunks n l).flatten = l := by
  induction hlen : l.length using Nat.strong_induction_on generalizing l with
  | _ k ih =>
      by_cases h : l = []
      · rw [h, chunks_nil]
        rfl
      · have hpos := List.length_pos_iff.mpr h
        rw [chunks_cons hn h, List.flatten_cons,
          ih (l.drop n).length (by rw [List.length_drop]; omega) (l.drop n) rfl, List.take_append_drop]

end Chunks

/-! ### Where the blocks are -/

/-- The pointers in a block. -/
def ptrs (blk : List Byte) : List Nat := (List.range NIND).map fun i => long blk (4 * i)

/-- The block is `ps` as block numbers, and zeros. -/
structure Table (blk : List Byte) (ps : List Nat) : Prop where
  length : blk.length = BSIZE
  ptrs : ptrs blk = ps ++ List.replicate (NIND - ps.length) 0
  nonzero : ∀ p ∈ ps, p ≠ 0

/-- The block `a` points to `ps`; where these are none, there is none. With the block itself. -/
inductive One (d : Image) : Nat → List Nat → List Nat → Prop
  | none : One d 0 [] []
  | some {a : Nat} {ps : List Nat} (ha : a ≠ 0) (hps : ps ≠ []) (table : Table (d.block a) ps) : One d a ps [a]

/-- The block `a` points to blocks that point to `ps`. With these, and itself last. -/
inductive Two (d : Image) : Nat → List Nat → List Nat → Prop
  | none : Two d 0 [] []
  | some {a : Nat} {ps firsts : List Nat} (ha : a ≠ 0) (hps : ps ≠ []) (table : Table (d.block a) firsts)
      (below : List.Forall₂ (fun first piece => Table (d.block first) piece) firsts (Fsw.chunks NIND ps)) :
      Two d a ps (firsts ++ [a])

/-- The block numbers in an inode lead to the blocks `bs` in order, by way of the blocks `ins`. -/
structure LaidOut (d : Image) (addr bs ins : List Nat) : Prop where
  nonzero : ∀ b ∈ bs, b ≠ 0
  room : bs.length ≤ ND + NIND + NIND * NIND
  trees : ∃ s t sins tins, addr = (bs.take ND ++ List.replicate (ND - bs.length) 0) ++ [s, t, 0] ∧
    One d s ((bs.drop ND).take NIND) sins ∧ Two d t (bs.drop (ND + NIND)) tins ∧ ins = sins ++ tins

variable {d d' : Image} {addr bs ins : List Nat}

theorem One.frame {a : Nat} {ps sins : List Nat} (h : One d a ps sins)
    (hblock : ∀ b ∈ sins, d'.block b = d.block b) : One d' a ps sins := by
  cases h with
  | none => exact .none
  | some ha hps table => exact .some ha hps (by rwa [hblock a List.mem_cons_self])

theorem Two.frame {a : Nat} {ps tins : List Nat} (h : Two d a ps tins)
    (hblock : ∀ b ∈ tins, d'.block b = d.block b) : Two d' a ps tins := by
  cases h with
  | none => exact .none
  | @some a ps firsts ha hps table below =>
      refine .some ha hps (by rwa [hblock a (by simp)]) ?_
      refine (List.forall₂_iff_zip.mpr ⟨below.length_eq, fun {f p} hfp => ?_⟩)
      have htable := List.forall₂_zip below hfp
      rwa [hblock f (List.mem_append_left _ (List.of_mem_zip hfp).1)]

/-- **The frame**: where a file is, its own blocks of pointers settle. -/
theorem LaidOut.frame (h : LaidOut d addr bs ins) (hblock : ∀ b ∈ ins, d'.block b = d.block b) :
    LaidOut d' addr bs ins := by
  obtain ⟨s, t, sins, tins, haddr, hone, htwo, rfl⟩ := h.trees
  exact ⟨h.nonzero, h.room, s, t, sins, tins, haddr,
    hone.frame fun b hb => hblock b (List.mem_append_left _ hb),
    htwo.frame fun b hb => hblock b (List.mem_append_right _ hb), rfl⟩

theorem LaidOut.length (h : LaidOut d addr bs ins) : addr.length = NADDR := by
  obtain ⟨s, t, sins, tins, rfl, -⟩ := h.trees
  have hten : ND = 10 := rfl
  rw [List.length_append, List.length_append, List.length_take, List.length_replicate]
  show _ + 3 = 13
  omega

/-- An inode without blocks. -/
theorem laidOut_none (d : Image) : LaidOut d (List.replicate NADDR 0) [] [] :=
  ⟨nofun, Nat.zero_le _, 0, 0, [], [], rfl, .none, .none, rfl⟩

/-! ### Reading the pointers -/

theorem mapM_pdplong {blk : List Byte} (h : blk.length = BSIZE) :
    ((List.range (BSIZE / 4)).mapM fun i => pdplong blk (4 * i)) = .ok (ptrs blk) := by
  refine mapM_eq_ok fun i hi => pdplong_eq ?_
  have hi' : i < 128 := List.mem_range.mp hi
  have hsize : BSIZE = 512 := rfl
  omega

theorem indirect_one {a : Nat} (ha : a ≠ 0) (h : (d.block a).length = BSIZE) :
    d.indirect a 1 = .ok (ptrs (d.block a)) := by
  rw [Image.indirect, if_neg ha, bind_ok (mapM_pdplong h), if_pos rfl]
  rfl

/-- The pointers a table's block stands for, filled up. -/
def padded (n : Nat) (ps : List Nat) : List Nat := ps ++ List.replicate (n - ps.length) 0

theorem One.indirect {a : Nat} {ps sins : List Nat} (h : One d a ps sins) :
    d.indirect a 1 = .ok (if ps = [] then [] else padded NIND ps) := by
  cases h with
  | none => rw [Image.indirect, if_pos rfl, if_pos rfl]
  | some ha hps table => rw [indirect_one ha table.length, table.ptrs, if_neg hps, padded]

theorem forall₂_mapM {firsts : List Nat} {pieces : List (List Nat)}
    (h : List.Forall₂ (fun first piece => Table (d.block first) piece) firsts pieces)
    (hne : ∀ f ∈ firsts, f ≠ 0) :
    (firsts.mapM fun p => if p ≠ 0 then d.indirect p 1 else .ok (List.replicate (128 ^ 1) 0)) =
      .ok (pieces.map (padded NIND)) := by
  induction h with
  | nil => rfl
  | @cons f piece firsts pieces table _ ih =>
      have hf := hne f List.mem_cons_self
      rw [List.mapM_cons, if_pos hf, bind_ok (indirect_one hf table.length),
        bind_ok (ih fun x hx => hne x (List.mem_cons_of_mem _ hx)), table.ptrs]
      rfl


/-- The blocks below a double indirect block, with as many zeros after them as fill it. -/
theorem Two.indirect {a : Nat} {ps tins : List Nat} (h : Two d a ps tins) :
    ∃ m, d.indirect a 2 = .ok (ps ++ List.replicate m 0) := by
  cases h with
  | none => exact ⟨0, rfl⟩
  | @some a ps firsts ha hps table below =>
      have hrest : (List.replicate (NIND - firsts.length) 0).mapM
          (fun p => if p ≠ 0 then d.indirect p 1 else .ok (List.replicate (128 ^ 1) 0)) =
          (.ok ((List.replicate (NIND - firsts.length) 0).map fun _ => List.replicate NIND 0) :
            Except Raise _) := mapM_eq_ok fun p hp => by
        rw [List.eq_of_mem_replicate hp, if_neg (by simp)]
        rfl
      obtain ⟨m, hm⟩ := flatten_chunks (n := NIND) (by decide) 0 ps
      refine ⟨m + (NIND - firsts.length) * NIND, ?_⟩
      rw [Image.indirect, if_neg ha, bind_ok (mapM_pdplong table.length), if_neg (by decide), table.ptrs,
        bind_ok (mapM_append_ok (forall₂_mapM below table.nonzero) hrest), List.flatten_append,
        List.map_const', List.length_replicate, List.flatten_replicate_replicate, List.replicate_add,
        ← List.append_assoc]
      exact congrArg (fun l => Except.ok (l ++ _)) hm

/-- The blocks of pointers of an inode. -/
theorem mapM_trees {α : Type} {f : Nat → Nat → Except Raise α} {A : List Nat} {s t u : Nat} {x y z : α}
    (hA : A.length = ND) (hs : f s 1 = .ok x) (ht : f t 2 = .ok y) (hu : f u 3 = .ok z) :
    (((A ++ [s, t, u]).drop ND).zipIdx 1).mapM (fun (a, level) => f a level) = .ok [x, y, z] := by
  rw [List.drop_left' hA]
  exact mapM_cons_ok hs (mapM_cons_ok ht (mapM_cons_ok hu rfl))

theorem length_direct (bs : List Nat) : (bs.take ND ++ List.replicate (ND - bs.length) 0).length = ND := by
  rw [List.length_append, List.length_take, List.length_replicate]
  omega

/-- What the inode, its single and its double indirect block have between them begins with the blocks. -/
theorem gathered (bs : List Nat) (m : Nat) : ∃ l,
    bs.take ND ++ List.replicate (ND - bs.length) 0 ++
      [if (bs.drop ND).take NIND = [] then [] else padded NIND ((bs.drop ND).take NIND),
        bs.drop (ND + NIND) ++ List.replicate m 0, []].flatten = bs ++ l := by
  simp only [List.flatten_cons, List.flatten_nil, List.append_nil]
  rcases Nat.le_total bs.length ND with hfew | hmore
  · rw [List.take_of_length_le hfew, List.append_assoc]
    exact ⟨_, rfl⟩
  have hzeros : ND - bs.length = 0 := Nat.sub_eq_zero_of_le hmore
  rw [hzeros, List.replicate_zero, List.append_nil]
  rcases Nat.le_total bs.length (ND + NIND) with hsome | hmany
  · have hrest : bs.drop (ND + NIND) = [] := List.drop_eq_nil_of_le hsome
    have hps : (bs.drop ND).take NIND = bs.drop ND := List.take_of_length_le (by
      rw [List.length_drop]
      omega)
    rw [hrest, hps]
    by_cases hnil : bs.drop ND = []
    · rw [if_pos hnil, List.take_of_length_le (List.drop_eq_nil_iff.mp hnil)]
      exact ⟨_, rfl⟩
    · rw [if_neg hnil, padded, ← List.append_assoc, ← List.append_assoc, ← List.append_assoc,
        List.take_append_drop, List.append_assoc, List.append_assoc]
      exact ⟨_, rfl⟩
  · -- the single indirect block is full
    have hlen : ((bs.drop ND).take NIND).length = NIND := by
      rw [List.length_take, List.length_drop]
      omega
    have hne : (bs.drop ND).take NIND ≠ [] := fun hnil => by
      rw [hnil] at hlen
      exact absurd hlen (by decide)
    rw [if_neg hne, padded, hlen, Nat.sub_self, List.replicate_zero, List.append_nil, ← List.drop_drop,
      ← List.append_assoc ((bs.drop ND).take NIND), List.take_append_drop, ← List.append_assoc,
      List.take_append_drop]
    exact ⟨_, rfl⟩

/-- **The blocks of a file**, as `cohfs.py` finds them. -/
theorem blocks_laidOut {ip : Ip} (h : LaidOut d ip.addr bs ins)
    (hsize : bs.length = (ip.size + BSIZE - 1) / BSIZE) : d.blocks ip = .ok bs := by
  obtain ⟨s, t, sins, tins, haddr, hone, htwo, -⟩ := h.trees
  obtain ⟨m, hm⟩ := htwo.indirect
  obtain ⟨l, hl⟩ := gathered bs m
  rw [Image.blocks, haddr, bind_ok (mapM_trees (length_direct bs) hone.indirect hm rfl),
    List.take_left' (length_direct bs), ← hsize, hl, List.take_left]
  rfl

/-- And its contents. -/
theorem data_laidOut {ip : Ip} (h : LaidOut d ip.addr bs ins)
    (hsize : bs.length = (ip.size + BSIZE - 1) / BSIZE) (hdev : ¬ (ip.ifmt = S_IFCHR ∨ ip.ifmt = S_IFBLK)) :
    d.data ip = .ok ((bs.flatMap d.block).take ip.size) := by
  rw [Image.data, if_neg hdev, bind_ok (blocks_laidOut h hsize)]
  refine congrArg (fun l => Except.ok (List.take _ l)) ?_
  rw [List.flatMap_congr fun b hb => if_pos (h.nonzero b hb)]

/-! ### All of a file's blocks -/

theorem flatten_pointed (l : List Nat) :
    (l.map fun p => if p ≠ 0 then [p] else []).flatten = l.filter (· ≠ 0) := by
  induction l with
  | nil => rfl
  | cons p l ih =>
      rw [List.map_cons, List.flatten_cons, ih, List.filter_cons]
      by_cases hp : p = 0 <;> simp [hp]

theorem Table.filter_ptrs {blk : List Byte} {ps : List Nat} (h : Table blk ps) :
    (Cohfs.ptrs blk).filter (· ≠ 0) = ps := by
  rw [h.ptrs, List.filter_append, List.filter_eq_self.mpr fun p hp => decide_eq_true (h.nonzero p hp),
    List.filter_eq_nil_iff.mpr fun p hp => by simp [List.eq_of_mem_replicate hp], List.append_nil]

/-- The pointers of a block in turn, each with what is done for it. -/
theorem mapM_ptrs {α : Type} {blk : List Byte} (h : blk.length = BSIZE) (f : Nat → Except Raise α) :
    ((List.range NIND).mapM fun i => do f (← pdplong blk (4 * i))) = (ptrs blk).mapM f := by
  rw [ptrs, List.mapM_map]
  refine mapM_congr fun i hi => bind_ok (pdplong_eq ?_) f
  have hi' : i < 128 := List.mem_range.mp hi
  have hsize : BSIZE = 512 := rfl
  omega

theorem ind_one {a : Nat} {ps : List Nat} (ha : a ≠ 0) (h : Table (d.block a) ps) :
    Fsw.ind d a 1 = .ok (ps ++ [a]) := by
  have hbelow : ((List.range NIND).mapM fun i => do
      let p ← pdplong (d.block a) (4 * i)
      if 0 ≠ 0 then Fsw.ind d p 0 else return if p ≠ 0 then [p] else []) =
        .ok ((ptrs (d.block a)).map fun p => if p ≠ 0 then [p] else []) :=
    (mapM_ptrs h.length fun p => .ok (if p ≠ 0 then [p] else [])).trans (mapM_eq_ok fun _ _ => rfl)
  rw [Fsw.ind, if_neg ha, bind_ok hbelow, flatten_pointed, h.filter_ptrs]
  rfl

theorem One.ind {a : Nat} {ps sins : List Nat} (h : One d a ps sins) : Fsw.ind d a 1 = .ok (ps ++ sins) := by
  cases h with
  | none => rfl
  | some ha hps table => exact ind_one ha table

theorem forall₂_ind {firsts : List Nat} {pieces : List (List Nat)}
    (h : List.Forall₂ (fun first piece => Table (d.block first) piece) firsts pieces)
    (hne : ∀ f ∈ firsts, f ≠ 0) :
    ∃ r, (firsts.mapM fun p => Fsw.ind d p 1) = .ok r ∧ r.flatten.Perm (pieces.flatten ++ firsts) := by
  induction h with
  | nil => exact ⟨[], rfl, .refl _⟩
  | @cons f piece firsts pieces table _ ih =>
      obtain ⟨r, hr, hperm⟩ := ih fun x hx => hne x (List.mem_cons_of_mem _ hx)
      refine ⟨_, mapM_cons_ok (ind_one (hne f List.mem_cons_self) table) hr, ?_⟩
      rw [List.flatten_cons, List.flatten_cons, List.append_assoc, List.append_assoc]
      exact (((hperm.cons f).trans List.perm_middle.symm).append_left piece)

theorem Two.ind {a : Nat} {ps tins : List Nat} (h : Two d a ps tins) :
    ∃ own, Fsw.ind d a 2 = .ok own ∧ own.Perm (ps ++ tins) := by
  cases h with
  | none => exact ⟨[], rfl, .refl _⟩
  | @some a ps firsts ha hps table below =>
      have hrest : (List.replicate (NIND - firsts.length) 0).mapM (fun p => Fsw.ind d p 1) =
          .ok ((List.replicate (NIND - firsts.length) 0).map fun _ => []) := mapM_eq_ok fun p hp => by
        rw [List.eq_of_mem_replicate hp]
        rfl
      obtain ⟨r, hr, hperm⟩ := forall₂_ind below table.nonzero
      have hbelow : ((List.range NIND).mapM fun i => do
          let p ← pdplong (d.block a) (4 * i)
          if 1 ≠ 0 then Fsw.ind d p 1 else return if p ≠ 0 then [p] else []) =
            .ok (r ++ (List.replicate (NIND - firsts.length) 0).map fun _ => []) :=
        (mapM_ptrs table.length fun p => Fsw.ind d p 1).trans (table.ptrs ▸ mapM_append_ok hr hrest)
      refine ⟨_, by rw [Fsw.ind, if_neg ha, bind_ok hbelow]; rfl, ?_⟩
      rw [List.flatten_append, List.map_const', List.flatten_replicate_nil, List.append_nil,
        ← List.append_assoc]
      rw [flatten_chunks_eq (by decide)] at hperm
      exact hperm.append_right [a]

/-- **All of a file's blocks**, as `cohfsw.py` finds them: those with its contents and those with
pointers, each once. -/
theorem blocks_perm {ip : Ip} (h : LaidOut d ip.addr bs ins) :
    ∃ own, Fsw.blocks d ip = .ok own ∧ own.Perm (bs ++ ins) := by
  obtain ⟨s, t, sins, tins, haddr, hone, htwo, rfl⟩ := h.trees
  obtain ⟨r, hr, hperm⟩ := htwo.ind
  have hdirect : (bs.take ND ++ List.replicate (ND - bs.length) 0).filter (· ≠ 0) = bs.take ND := by
    rw [List.filter_append, List.filter_eq_self.mpr fun b hb =>
      decide_eq_true (h.nonzero b (List.mem_of_mem_take hb)),
      List.filter_eq_nil_iff.mpr fun b hb => by simp [List.eq_of_mem_replicate hb], List.append_nil]
  refine ⟨bs.take ND ++ [(bs.drop ND).take NIND ++ sins, r, []].flatten, ?_, ?_⟩
  · rw [Fsw.blocks, haddr, bind_ok (mapM_trees (length_direct bs) hone.ind hr rfl),
      List.take_left' (length_direct bs), hdirect]
    rfl
  · have hsplit : bs = bs.take ND ++ ((bs.drop ND).take NIND ++ bs.drop (ND + NIND)) := by
      rw [← List.drop_drop, List.take_append_drop, List.take_append_drop]
    simp only [List.flatten_cons, List.flatten_nil, List.append_nil]
    conv_rhs => rw [hsplit]
    generalize bs.take ND = direct, (bs.drop ND).take NIND = single at hperm ⊢
    rw [List.append_assoc, List.append_assoc, List.append_assoc]
    refine .append_left direct (.append_left single ?_)
    -- the single indirect block moves past what the double one leads to
    refine (hperm.append_left sins).trans ?_
    rw [← List.append_assoc, ← List.append_assoc]
    exact List.perm_append_comm.append_right tins

/-! ### How many there are -/

/-- The blocks of a file with `k` blocks of contents, those with pointers among them. -/
def treeBlocks (k : Nat) : Nat :=
  k + (if k ≤ ND then 0 else 1) +
    if k ≤ ND + NIND then 0 else (k - (ND + NIND) + NIND - 1) / NIND + 1

/-- The blocks of a file of so many bytes. -/
def blocksFor (size : Nat) : Nat := treeBlocks ((size + BSIZE - 1) / BSIZE)

theorem length_flatMap_block {bs : List Nat} (h : ∀ b ∈ bs, (d.block b).length = BSIZE) :
    (bs.flatMap d.block).length = bs.length * BSIZE := by
  rw [List.length_flatMap, List.map_congr_left h, List.map_const', List.sum_replicate_nat]

/-- A file has as many bytes as its inode says. -/
theorem length_contents {bs : List Nat} {size : Nat} (h : ∀ b ∈ bs, (d.block b).length = BSIZE)
    (hcount : bs.length = (size + BSIZE - 1) / BSIZE) : ((bs.flatMap d.block).take size).length = size := by
  have hsize : BSIZE = 512 := rfl
  rw [List.length_take, length_flatMap_block h, hcount, hsize]
  omega

theorem One.length_eq {a : Nat} {ps sins : List Nat} (h : One d a ps sins) :
    sins.length = if ps = [] then 0 else 1 := by
  cases h with
  | none => rfl
  | some ha hps => rw [if_neg hps]; rfl

theorem Two.length_eq {a : Nat} {ps tins : List Nat} (h : Two d a ps tins) :
    tins.length = if ps = [] then 0 else (ps.length + NIND - 1) / NIND + 1 := by
  cases h with
  | none => rfl
  | some ha hps table below =>
      rw [if_neg hps, List.length_append, below.length_eq, length_chunks]
      rfl

theorem LaidOut.count (h : LaidOut d addr bs ins) : (bs ++ ins).length = treeBlocks bs.length := by
  obtain ⟨s, t, sins, tins, -, hone, htwo, rfl⟩ := h.trees
  have hsingle : ((bs.drop ND).take NIND = []) ↔ bs.length ≤ ND := by
    rw [List.take_eq_nil_iff, List.drop_eq_nil_iff]
    exact or_iff_right (by decide)
  rw [treeBlocks, List.length_append, List.length_append, hone.length_eq, htwo.length_eq, List.length_drop,
    Nat.add_assoc]
  simp only [hsingle, List.drop_eq_nil_iff]

theorem One.lt {a n : Nat} {ps sins : List Nat} (h : One d a ps sins) (hn : 0 < n) (hlt : ∀ b ∈ sins, b < n) :
    a < n := by
  cases h with
  | none => exact hn
  | some => exact hlt a List.mem_cons_self

theorem Two.lt {a n : Nat} {ps tins : List Nat} (h : Two d a ps tins) (hn : 0 < n) (hlt : ∀ b ∈ tins, b < n) :
    a < n := by
  cases h with
  | none => exact hn
  | some => exact hlt a (List.mem_append_right _ List.mem_cons_self)

/-- The numbers in the inode are of its blocks, or none. -/
theorem LaidOut.addr_lt (h : LaidOut d addr bs ins) {n : Nat} (hn : 0 < n) (hlt : ∀ b ∈ bs ++ ins, b < n) :
    ∀ a ∈ addr, a < n := by
  obtain ⟨s, t, sins, tins, rfl, hone, htwo, rfl⟩ := h.trees
  have hs : s < n := hone.lt hn fun b hb => hlt b (List.mem_append_right _ (List.mem_append_left _ hb))
  have ht : t < n := htwo.lt hn fun b hb => hlt b (List.mem_append_right _ (List.mem_append_right _ hb))
  intro a ha
  rw [List.mem_append, List.mem_append] at ha
  rcases ha with (ha | ha) | ha
  · exact hlt a (List.mem_append_left _ (List.mem_of_mem_take ha))
  · rwa [List.eq_of_mem_replicate ha]
  · simp only [List.mem_cons, List.not_mem_nil, or_false] at ha
    rcases ha with rfl | rfl | rfl <;> assumption

end Sbc386Ex.Cohfs

import Sbc386Ex.Cohfs.Fsw

/-!
# Sbc386Ex.Cohfs.Zerofree

`zerofree` on a well-formed free list: what it zeroes, and that nothing that reads the file
system or takes blocks from it can tell.
-/

namespace Sbc386Ex.Cohfs

open Raising

/-! ### Bytes -/

theorem getElem?_of_getD {α : Type} {z : α} {l m : List α} {i : Nat} (hlen : l.length = m.length)
    (h : l.getD i z = m.getD i z) : l[i]? = m[i]? := by
  by_cases hi : i < l.length
  · rw [List.getD_eq_getElem _ _ hi, List.getD_eq_getElem _ _ (hlen ▸ hi)] at h
    rw [List.getElem?_eq_getElem hi, List.getElem?_eq_getElem (hlen ▸ hi), h]
  · rw [List.getElem?_eq_none (by omega), List.getElem?_eq_none (by omega)]

theorem ext_getD {α : Type} {z : α} {l m : List α} (hlen : l.length = m.length)
    (h : ∀ i, l.getD i z = m.getD i z) : l = m :=
  List.ext_getElem? fun i => getElem?_of_getD hlen (h i)

theorem getD_slice {α : Type} {z : α} (l : List α) {a b i : Nat} (hi : a + i < b) :
    (slice l a b).getD i z = l.getD (a + i) z := by
  rw [slice, List.getD_eq_getElem?_getD, List.getElem?_take_of_lt (by omega), List.getElem?_drop,
    ← List.getD_eq_getElem?_getD]

theorem length_slice {α : Type} (l : List α) {a b : Nat} (hab : a ≤ b) (hb : b ≤ l.length) :
    (slice l a b).length = b - a := by
  rw [slice, List.length_take, List.length_drop]
  omega

theorem length_splice {α : Type} {l new : List α} {a b : Nat} (hb : b ≤ l.length)
    (hnew : a + new.length = b) : (splice l a b new).length = l.length := by
  rw [splice, List.length_append, List.length_append, List.length_take, List.length_drop]
  omega

theorem getD_splice {α : Type} {z : α} {l new : List α} {a b : Nat} (hb : b ≤ l.length)
    (hnew : a + new.length = b) (i : Nat) :
    (splice l a b new).getD i z =
      if a ≤ i ∧ i < b then new.getD (i - a) z else l.getD i z := by
  have htake : (l.take a).length = a := by
    rw [List.length_take]
    omega
  rw [splice, Nat.max_eq_right (by omega)]
  by_cases hlow : i < a
  · rw [if_neg (by omega), List.append_assoc, List.getD_append _ _ _ _ (by omega),
      List.getD_eq_getElem?_getD, List.getElem?_take_of_lt hlow, ← List.getD_eq_getElem?_getD]
  by_cases hhigh : i < b
  · rw [if_pos (by omega), List.getD_append _ _ _ _ (by rw [List.length_append]; omega),
      List.getD_append_right _ _ _ _ (by omega), htake]
  · rw [if_neg (by omega), List.getD_append_right _ _ _ _ (by rw [List.length_append]; omega),
      List.length_append, htake, List.getD_eq_getElem?_getD, List.getElem?_drop,
      ← List.getD_eq_getElem?_getD]
    congr 1
    omega

namespace Image

variable {d d' d'' : Image} {b : Nat} {Z Z' : Nat → Prop}

/-- Where a block starts. -/
def start (d : Image) (b : Nat) : Nat := (b + d.base) * BSIZE

/-- The block is in the image. -/
def Holds (d : Image) (b : Nat) : Prop := d.start b + BSIZE ≤ d.bytes.length

/-- The places of a block from its `n`th on. -/
def InBlock (d : Image) (n b i : Nat) : Prop := d.start b + n ≤ i ∧ i < d.start b + BSIZE

/-- The bytes of `Z` are zeroed, and no other has changed. -/
structure Zeroed (Z : Nat → Prop) (d d' : Image) : Prop where
  base : d'.base = d.base
  length : d'.bytes.length = d.bytes.length
  zero : ∀ i, Z i → d'.bytes.getD i 0 = 0
  kept : ∀ i, ¬ Z i → d'.bytes.getD i 0 = d.bytes.getD i 0

namespace Zeroed

theorem refl (h : ∀ i, ¬ Z i) : Zeroed Z d d := ⟨rfl, rfl, fun i hi => absurd hi (h i), fun _ _ => rfl⟩

theorem trans (h : Zeroed Z d d') (h' : Zeroed Z' d' d'') :
    Zeroed (fun i => Z i ∨ Z' i) d d'' where
  base := h'.base.trans h.base
  length := h'.length.trans h.length
  zero i hi := by
    by_cases hz : Z' i
    · exact h'.zero i hz
    · exact (h'.kept i hz).trans (h.zero i (hi.resolve_right hz))
  kept i hi := (h'.kept i fun hz => hi (.inr hz)).trans (h.kept i fun hz => hi (.inl hz))

theorem congr (h : Zeroed Z d d') (hZ : ∀ i, Z i ↔ Z' i) : Zeroed Z' d d' :=
  ⟨h.base, h.length, fun i hi => h.zero i ((hZ i).mpr hi),
    fun i hi => h.kept i fun hz => hi ((hZ i).mp hz)⟩

/-- Zeroing what is zeroed changes nothing. -/
theorem again (h : Zeroed Z d d') (h' : Zeroed Z d' d'') : d'' = d' := by
  have hbytes : d''.bytes = d'.bytes := by
    refine ext_getD (z := 0) h'.length fun i => ?_
    by_cases hz : Z i
    · rw [h'.zero i hz, h.zero i hz]
    · exact h'.kept i hz
  have hbase : d''.base = d'.base := h'.base
  cases d''
  cases d'
  congr

theorem start (h : Zeroed Z d d') (b : Nat) : d'.start b = d.start b := by
  rw [Image.start, Image.start, h.base]

theorem holds (h : Zeroed Z d d') : d'.Holds b ↔ d.Holds b := by
  rw [Holds, Holds, h.start, h.length]

end Zeroed

theorem block_eq (d : Image) (b : Nat) : d.block b = slice d.bytes (d.start b) (d.start b + BSIZE) := by
  rw [block, start, Nat.add_mul (b + d.base) 1, Nat.one_mul]

theorem length_block (h : d.Holds b) : (d.block b).length = BSIZE := by
  rw [block_eq, length_slice _ (by omega) h]
  omega

/-- Writing a block whose bytes from `n` on are zeros and whose bytes before are its own. -/
theorem wblock_zeroed {n : Nat} (h : d.Holds b) (hn : n ≤ BSIZE) :
    Zeroed (d.InBlock n b) d (d.wblock b ((d.block b).take n)) := by
  have hblock := length_block h
  have hjust : (ljust ((d.block b).take n) BSIZE).length = BSIZE := by
    rw [ljust, List.length_append, List.length_replicate, List.length_take]
    omega
  have hend : d.start b + (ljust ((d.block b).take n) BSIZE).length = d.start b + BSIZE := by
    rw [hjust]
  have hget := getD_splice (z := 0) h hend
  have hown : ∀ i, i < n → (ljust ((d.block b).take n) BSIZE).getD i 0 = d.bytes.getD (d.start b + i) 0 := by
    intro i hi
    rw [ljust, List.getD_append _ _ _ _ (by rw [List.length_take]; omega), List.getD_eq_getElem?_getD,
      List.getElem?_take_of_lt hi, ← List.getD_eq_getElem?_getD, block_eq, getD_slice _ (by omega)]
  refine ⟨rfl, length_splice h hend, fun i hi => ?_, fun i hi => ?_⟩
  · unfold InBlock at hi
    refine (hget i).trans ?_
    rw [if_pos (by omega), ljust, List.getD_append_right _ _ _ _ (by rw [List.length_take]; omega)]
    by_cases hlen : i - d.start b - ((d.block b).take n).length < BSIZE - ((d.block b).take n).length
    · exact List.getD_replicate _ hlen
    · exact List.getD_eq_default _ _ (by rw [List.length_replicate]; omega)
  · unfold InBlock at hi
    refine (hget i).trans ?_
    by_cases hin : d.start b ≤ i ∧ i < d.start b + BSIZE
    · rw [if_pos hin, hown _ (by omega), Nat.add_sub_cancel' hin.1]
    · rw [if_neg hin]

theorem wblock_nil_zeroed (h : d.Holds b) : Zeroed (d.InBlock 0 b) d (d.wblock b []) := by
  have hz := wblock_zeroed (n := 0) h (Nat.zero_le _)
  rwa [List.take_zero] at hz

/-! ### The lists -/

/-- As much of a block as a list takes. -/
def head (d : Image) (b : Nat) : List Byte := (d.block b).take (2 + 4 * NICFREE)

/-- A well-formed free list, from the list `free` of `nfree` blocks on: its links in order,
and the other blocks that are free. -/
inductive Chain (d : Image) : Int → List Nat → List Nat → List Nat → Prop
  | stop {nfree : Int} {free : List Nat} (none : nfree ≤ 0) : Chain d nfree free [] []
  | last {k : Nat} {free : List Nat} (length : free.length = NICFREE) (count : k < NICFREE)
      (unlinked : free.getD 0 0 = 0) : Chain d (k + 1 : Nat) free [] (slice free 1 (k + 1))
  | link {k : Nat} {nfree : Int} {free free' links blocks : List Nat}
      (length : free.length = NICFREE) (count : k < NICFREE) (linked : free.getD 0 0 ≠ 0)
      (loaded : i16 (d.head (free.getD 0 0)) 0 = .ok nfree)
      (places : ((List.range NICFREE).mapM fun i => pdplong (d.head (free.getD 0 0)) (2 + 4 * i)) =
        .ok free') (next : Chain d nfree free' links blocks) :
      Chain d (k + 1 : Nat) free (free.getD 0 0 :: links) (slice free 1 (k + 1) ++ blocks)

theorem Chain.transfer {nfree : Int} {free links blocks : List Nat}
    (h : Chain d nfree free links blocks) (hheads : ∀ l ∈ links, d'.head l = d.head l) :
    Chain d' nfree free links blocks := by
  induction h with
  | stop none => exact .stop none
  | last length count unlinked => exact .last length count unlinked
  | link length count linked loaded places _ ih =>
      have hhead := hheads _ List.mem_cons_self
      rw [← hhead] at loaded places
      exact .link length count linked loaded places
        (ih fun l hl => hheads l (List.mem_cons_of_mem _ hl))

/-- A list read from a block is read from its head. -/
theorem u16_take (b : List Byte) {n o : Nat} (h : o + 2 ≤ n) : u16 (b.take n) o = u16 b o := by
  obtain ⟨m, hm⟩ : ∃ m, n - o = m + 2 := ⟨n - o - 2, by omega⟩
  unfold u16
  rw [List.drop_take, hm]
  match b.drop o with
  | [] | [_] | _ :: _ :: _ => rfl

theorem i16_head (d : Image) (b : Nat) : i16 (d.head b) 0 = i16 (d.block b) 0 := by
  rw [i16, i16, head, u16_take _ (by decide)]

theorem places_head (d : Image) (b : Nat) :
    ((List.range NICFREE).mapM fun i => pdplong (d.head b) (2 + 4 * i)) =
      (List.range NICFREE).mapM fun i => pdplong (d.block b) (2 + 4 * i) := by
  refine mapM_congr fun i hi => ?_
  have hi' : i < NICFREE := List.mem_range.mp hi
  rw [pdplong, pdplong, head, u16_take _ (by omega), u16_take _ (by omega)]

/-- A head whose bytes are not among those zeroed is what it was. -/
theorem Zeroed.head_eq (h : Zeroed Z d d') (hb : d.Holds b)
    (hZ : ∀ i, d.start b ≤ i → i < d.start b + (2 + 4 * NICFREE) → ¬ Z i) :
    d'.head b = d.head b := by
  have hlen := length_block hb
  have hlen' := length_block (h.holds.mpr hb)
  refine ext_getD (z := 0) (by rw [head, head, List.length_take, List.length_take, hlen, hlen']) ?_
  intro i
  by_cases hi : i < 2 + 4 * NICFREE
  · have hsize : 2 + 4 * NICFREE < BSIZE := by decide
    simp only [head, List.getD_eq_getElem?_getD, List.getElem?_take_of_lt hi]
    simp only [← List.getD_eq_getElem?_getD]
    rw [block_eq, block_eq, getD_slice _ (by omega), getD_slice _ (by omega), h.start,
      h.kept _ (hZ _ (by omega) (by omega))]
  · rw [head, head, List.getD_eq_default _ _ (by rw [List.length_take]; omega),
      List.getD_eq_default _ _ (by rw [List.length_take]; omega)]

/-- The bytes that are to be zeroed: the blocks that are no links, and what follows the
list in those that are. -/
def FreeBytes (d : Image) (blocks links : List Nat) (i : Nat) : Prop :=
  (∃ b ∈ blocks, d.InBlock 0 b i) ∨ ∃ l ∈ links, d.InBlock (2 + 4 * NICFREE) l i

theorem inBlock_unique {n c i : Nat} (h : d.InBlock n b i) (hlow : d.start c ≤ i)
    (hhigh : i < d.start c + BSIZE) : b = c := by
  have hsize : BSIZE = 512 := rfl
  unfold InBlock start at h
  unfold start at hlow hhigh
  rw [hsize] at h hlow hhigh
  omega

theorem inBlock_base (h : d'.base = d.base) {n i : Nat} : d'.InBlock n b i ↔ d.InBlock n b i := by
  rw [InBlock, InBlock, start, start, h]

theorem Zeroed.head_of_ne {n c l : Nat} (h : Zeroed (d.InBlock n c) d d') (hl : d.Holds l)
    (hne : c ≠ l) : d'.head l = d.head l := by
  have hsize : 2 + 4 * NICFREE < BSIZE := by decide
  exact h.head_eq hl fun i hlow hhigh hi => hne (inBlock_unique hi hlow (by omega))

/-- The heads of links are not among the bytes of other blocks. -/
theorem Zeroed.head_of_not_mem {blocks : List Nat} {l : Nat}
    (h : Zeroed (fun i => ∃ b ∈ blocks, d.InBlock 0 b i) d d') (hl : d.Holds l)
    (hmem : l ∉ blocks) : d'.head l = d.head l := by
  refine h.head_eq hl fun i hlow hhigh ⟨b, hb, hbi⟩ => hmem ?_
  have hsize : 2 + 4 * NICFREE < BSIZE := by decide
  rwa [← inBlock_unique hbi hlow (by omega)]

theorem Zeroed.head_of_tail {l c : Nat} (h : Zeroed (d.InBlock (2 + 4 * NICFREE) c) d d')
    (hl : d.Holds l) : d'.head l = d.head l := by
  refine h.head_eq hl fun i hlow hhigh hi => ?_
  have hsize : 2 + 4 * NICFREE < BSIZE := by decide
  obtain rfl := inBlock_unique hi hlow (by omega)
  exact absurd hi.1 (by omega)

end Image

/-! ### The run -/

/-- The object with another image in it. -/
def Fsw.withDisk (fs : Fsw) (d : Image) : Fsw := { fs with disk := d }

@[simp] theorem Fsw.withDisk_disk (fs : Fsw) (d : Image) : (fs.withDisk d).disk = d := rfl

@[simp] theorem Fsw.withDisk_withDisk (fs : Fsw) (d d' : Image) :
    (fs.withDisk d).withDisk d' = fs.withDisk d' := rfl

theorem outcome_wblock (n : Nat) (data : List Byte) (fs : Fsw) :
    outcome (Fsw.wblock n data) fs = (.ok (), fs.withDisk (fs.disk.wblock n data)) := rfl

section Run

open Image

variable {d : Image}

theorem forM_zeroed (blocks : List Nat) : ∀ {fs : Fsw}, (∀ b ∈ blocks, fs.disk.Holds b) →
    ∃ d', outcome (blocks.forM fun bno => Fsw.wblock bno []) fs = (.ok (), fs.withDisk d') ∧
      Zeroed (fun i => ∃ b ∈ blocks, fs.disk.InBlock 0 b i) fs.disk d' := by
  induction blocks with
  | nil => exact fun _ => ⟨_, rfl, .refl fun i hi => by simp at hi⟩
  | cons b rest ih =>
      intro fs hholds
      have hfirst := wblock_nil_zeroed (hholds b List.mem_cons_self)
      have hrest : ∀ c ∈ rest, (fs.withDisk (fs.disk.wblock b [])).disk.Holds c := fun c hc =>
        hfirst.holds.mpr (hholds c (List.mem_cons_of_mem b hc))
      obtain ⟨d', hrun, hz⟩ := ih hrest
      refine ⟨d', ?_, (hfirst.trans hz).congr fun i => ?_⟩
      · change outcome (Fsw.wblock b [] >>= fun _ => rest.forM fun bno => Fsw.wblock bno []) fs = _
        rw [outcome_bind, outcome_wblock]
        exact hrun
      · have hbase := fun c => inBlock_base (b := c) hfirst.base (n := 0) (i := i)
        simp only [Fsw.withDisk_disk, hbase, List.mem_cons, exists_eq_or_imp]

theorem getItem_zero {free : List Nat} (h : free.length = NICFREE) :
    getItem free 0 = .ok (free.getD 0 0) := by
  match free, h with
  | a :: rest, _ => simp [getItem, position]

/-- One list: its blocks are zeroed, its link keeps its list, and the next list is the one
that was there before. -/
theorem zeroLists_round {fs : Fsw} {k : Nat} {nfree : Int} {free free' links : List Nat}
    (length : free.length = NICFREE) (linked : free.getD 0 0 ≠ 0)
    (loaded : i16 (fs.disk.head (free.getD 0 0)) 0 = .ok nfree)
    (places : ((List.range NICFREE).mapM fun i =>
      pdplong (fs.disk.head (free.getD 0 0)) (2 + 4 * i)) = .ok free')
    (hblocks : ∀ b ∈ slice free 1 (k + 1), fs.disk.Holds b)
    (hlinks : ∀ c ∈ free.getD 0 0 :: links, fs.disk.Holds c)
    (hapart : ∀ c ∈ free.getD 0 0 :: links, c ∉ slice free 1 (k + 1)) :
    ∃ d', (∀ fuel n, outcome (Fsw.zeroLists (fuel + 1) (k + 1 : Nat) free n) fs =
        outcome (Fsw.zeroLists fuel nfree free' (n + (slice free 1 (k + 1)).length + 1))
          (fs.withDisk d')) ∧
      Zeroed (fun i => (∃ b ∈ slice free 1 (k + 1), fs.disk.InBlock 0 b i) ∨
        fs.disk.InBlock (2 + 4 * NICFREE) (free.getD 0 0) i) fs.disk d' ∧
      ∀ c ∈ links, d'.head c = fs.disk.head c := by
  obtain ⟨d₁, hrun, hz₁⟩ := forM_zeroed (slice free 1 (k + 1)) hblocks
  have hheads : ∀ c ∈ free.getD 0 0 :: links, d₁.head c = fs.disk.head c := fun c hc =>
    hz₁.head_of_not_mem (hlinks c hc) (hapart c hc)
  have hz₂ := wblock_zeroed (n := 2 + 4 * NICFREE)
    (hz₁.holds.mpr (hlinks _ List.mem_cons_self)) (by decide)
  have hplaces : (List.range NICFREE).mapM (fun i => pdplong (d₁.block (free.getD 0 0)) (2 + 4 * i)) =
      .ok free' := by
    rw [← places_head, hheads _ List.mem_cons_self, places]
  have hcount : i16 (d₁.block (free.getD 0 0)) 0 = .ok nfree := by
    rw [← i16_head, hheads _ List.mem_cons_self, loaded]
  refine ⟨_, fun fuel n => ?_, (hz₁.trans hz₂).congr fun i => ?_, fun c hc => ?_⟩
  · rw [Fsw.zeroLists, if_neg (by omega), Int.toNat_natCast, outcome_bind, hrun]
    dsimp only
    rw [outcome_bind, outcome_reading, getItem_zero length]
    dsimp only
    rw [if_neg linked, outcome_bind, outcome_reading]
    dsimp only [Fsw.withDisk_disk]
    rw [outcome_bind, outcome_reading, hcount]
    dsimp only
    rw [outcome_bind, outcome_reading, hplaces]
    dsimp only
    rw [outcome_bind, outcome_wblock]
    dsimp only [Fsw.withDisk_disk, Fsw.withDisk_withDisk]
  · rw [inBlock_base hz₁.base]
  · exact (hz₂.head_of_tail (hz₁.holds.mpr (hlinks c (List.mem_cons_of_mem _ hc)))).trans
      (hheads c (List.mem_cons_of_mem _ hc))

theorem zeroLists_zeroed {nfree : Int} {free links blocks : List Nat}
    (hc : Chain d nfree free links blocks) : ∀ {fs : Fsw} {fuel : Nat} (n : Nat),
    links.length < fuel → (blocks ++ links).Nodup → (∀ b ∈ blocks ++ links, fs.disk.Holds b) →
    (∀ l ∈ links, fs.disk.head l = d.head l) →
    ∃ d', outcome (Fsw.zeroLists fuel nfree free n) fs =
        (.ok (some (n + (blocks.length + links.length))), fs.withDisk d') ∧
      Zeroed (fs.disk.FreeBytes blocks links) fs.disk d' := by
  induction hc with
  | stop none =>
      intro fs fuel n hfuel _ _ _
      obtain ⟨fuel, rfl⟩ : ∃ f, fuel = f + 1 := ⟨fuel - 1, by omega⟩
      refine ⟨fs.disk, ?_, .refl fun i hi => by simp [FreeBytes] at hi⟩
      rw [Fsw.zeroLists, if_pos none]
      rfl
  | @last k free length count unlinked =>
      intro fs fuel n hfuel _ hholds _
      obtain ⟨fuel, rfl⟩ : ∃ f, fuel = f + 1 := ⟨fuel - 1, by omega⟩
      obtain ⟨d', hrun, hz⟩ := forM_zeroed (slice free 1 (k + 1)) fun b hb =>
        hholds b (List.mem_append_left _ hb)
      refine ⟨d', ?_, hz.congr fun i => by simp [FreeBytes]⟩
      rw [Fsw.zeroLists, if_neg (by omega), Int.toNat_natCast, outcome_bind, hrun]
      dsimp only
      rw [outcome_bind, outcome_reading, getItem_zero length, unlinked]
      rfl
  | @link k nfree free free' links blocks length count linked loaded places next ih =>
      intro fs fuel n hfuel hnodup hholds hheads
      obtain ⟨fuel, rfl⟩ : ∃ f, fuel = f + 1 := ⟨fuel - 1, by omega⟩
      have hapart := List.disjoint_of_nodup_append hnodup
      have hhead := hheads _ List.mem_cons_self
      rw [← hhead] at loaded places
      obtain ⟨d', hround, hz, hheads'⟩ := zeroLists_round (k := k) length linked loaded places
        (fun b hb => hholds b (List.mem_append_left _ (List.mem_append_left _ hb)))
        (fun c hc => hholds c (List.mem_append_right _ hc))
        (fun c hc he => hapart (List.mem_append_left _ he) hc)
      have hrest : (blocks ++ links).Sublist
          (slice free 1 (k + 1) ++ blocks ++ free.getD 0 0 :: links) :=
        (List.sublist_append_right _ _).append (List.sublist_cons_self _ _)
      obtain ⟨d'', hrun, hz'⟩ := @ih (fs.withDisk d') fuel
        (n + (slice free 1 (k + 1)).length + 1) (Nat.lt_of_succ_lt_succ hfuel)
        (hnodup.sublist hrest) (fun b hb => hz.holds.mpr (hholds b (hrest.subset hb)))
        (fun c hc => (hheads' c hc).trans (hheads c (List.mem_cons_of_mem _ hc)))
      refine ⟨d'', ?_, (hz.trans hz').congr fun i => ?_⟩
      · have hcount : n + (slice free 1 (k + 1)).length + 1 + (blocks.length + links.length) =
            n + ((slice free 1 (k + 1) ++ blocks).length + (free.getD 0 0 :: links).length) := by
          rw [List.length_append, List.length_cons]
          omega
        rw [hround, hrun, hcount, Fsw.withDisk_withDisk]
      · have hbase := fun (m c : Nat) => inBlock_base (b := c) hz.base (n := m) (i := i)
        simp only [FreeBytes, Fsw.withDisk_disk, hbase, List.mem_append, List.mem_cons,
          or_and_right, exists_or, exists_eq_left]
        exact or_or_or_comm

end Run

/-! ### Taking blocks -/

section Balloc

open Image

variable {fs : Fsw} {k : Nat}

theorem balloc_none (h : fs.nfree ≤ 0) : outcome Fsw.balloc fs = (.error (.osError full), fs) := by
  rw [Fsw.balloc, outcome_bind, outcome_get]
  exact outcome_raiseIf_pos h _ _ _

/-- The place that is counted out. -/
theorem getItem_last {free : List Nat} (hk : k < free.length) :
    getItem free k = .ok (free.getD k 0) := by
  rw [getItem, position, if_pos (by omega), if_pos (by omega), List.getD_eq_getElem _ _ hk]
  simp [List.getElem?_eq_getElem hk]

/-- What `balloc` does with the block it finds. -/
def Fsw.handOut (bno : Nat) : Op Nat := do
  raiseIf (bno = 0) (.osError full)
  let fs ← get
  onlyIf (fs.nfree = 0) (Fsw.loadList bno)
  modify fun fs => { fs with tfree := fs.tfree - 1 }
  Fsw.wblock bno []
  return bno

theorem balloc_eq (h : fs.nfree = (k + 1 : Nat)) (hk : k < fs.free.length) :
    outcome Fsw.balloc fs = outcome (Fsw.handOut (fs.free.getD k 0)) { fs with nfree := k } := by
  have hless : fs.nfree - 1 = k := by omega
  have hballoc : Fsw.balloc = (do
      let fs ← get
      raiseIf (fs.nfree ≤ 0) (.osError full)
      modify fun fs => { fs with nfree := fs.nfree - 1 }
      Fsw.handOut (← reading fun fs => getItem fs.free fs.nfree)) := rfl
  rw [hballoc, outcome_bind, outcome_get]
  dsimp only
  rw [outcome_raiseIf_neg (by omega), outcome_bind, outcome_modify, hless]
  dsimp only
  rw [outcome_bind, outcome_reading, getItem_last hk]

theorem balloc_empty (h : fs.nfree = (k + 1 : Nat)) (hk : k < fs.free.length)
    (hempty : fs.free.getD k 0 = 0) :
    outcome Fsw.balloc fs = (.error (.osError full), { fs with nfree := k }) :=
  (balloc_eq h hk).trans (outcome_raiseIf_pos hempty _ _ _)

/-- The object once the block `bno` is taken. -/
def Fsw.took (fs : Fsw) (nfree : Int) (free : List Nat) (bno : Nat) : Fsw :=
  { fs with nfree, free, tfree := fs.tfree - 1, disk := fs.disk.wblock bno [] }

theorem balloc_block (h : fs.nfree = (k + 1 : Nat)) (hk : k < fs.free.length) (hmore : k ≠ 0)
    (hblock : fs.free.getD k 0 ≠ 0) :
    outcome Fsw.balloc fs = (.ok (fs.free.getD k 0), fs.took k fs.free (fs.free.getD k 0)) := by
  rw [balloc_eq h hk, Fsw.handOut, outcome_raiseIf_neg hblock, outcome_bind, outcome_get]
  dsimp only
  rw [outcome_bind, onlyIf, if_neg (by omega), outcome_pure]
  rfl

theorem balloc_link {nfree : Int} {free : List Nat} (h : fs.nfree = (0 + 1 : Nat))
    (hk : 0 < fs.free.length) (hlink : fs.free.getD 0 0 ≠ 0)
    (loaded : i16 (fs.disk.block (fs.free.getD 0 0)) 0 = .ok nfree)
    (places : ((List.range NICFREE).mapM fun i =>
      pdplong (fs.disk.block (fs.free.getD 0 0)) (2 + 4 * i)) = .ok free) :
    outcome Fsw.balloc fs = (.ok (fs.free.getD 0 0), fs.took nfree free (fs.free.getD 0 0)) := by
  rw [balloc_eq h hk, Fsw.handOut, outcome_raiseIf_neg hlink, outcome_bind, outcome_get]
  dsimp only
  rw [outcome_bind, onlyIf, if_pos Nat.cast_zero, Fsw.loadList, outcome_bind, outcome_reading, loaded]
  dsimp only
  rw [outcome_bind, outcome_modify]
  dsimp only
  rw [outcome_bind, outcome_reading, places]
  rfl

/-- Two objects whose next allocations are the same: one list of free blocks, and in both
images the links hold the same lists. -/
structure Alike (links blocks : List Nat) (s t : Fsw) : Prop where
  nfree : t.nfree = s.nfree
  free : t.free = s.free
  chain : s.disk.Chain s.nfree s.free links blocks
  nodup : (blocks ++ links).Nodup
  nonzero : ∀ b ∈ blocks ++ links, b ≠ 0
  held : ∀ b ∈ blocks ++ links, s.disk.Holds b
  held' : ∀ b ∈ blocks ++ links, t.disk.Holds b
  heads : ∀ l ∈ links, t.disk.head l = s.disk.head l

/-- A block that is taken from a list leaves the rest of the lists. -/
theorem Alike.took {links blocks links' blocks' : List Nat} {s t : Fsw} (h : Alike links blocks s t)
    {nfree : Int} {free : List Nat} {bno : Nat} (hbno : bno ∈ blocks ++ links)
    (hchain : s.disk.Chain nfree free links' blocks') (hout : bno ∉ links')
    (hlinks : links' ⊆ links) (hsub : (blocks' ++ links').Sublist (blocks ++ links)) :
    Alike links' blocks' (s.took nfree free bno) (t.took nfree free bno) := by
  have hz := wblock_nil_zeroed (h.held bno hbno)
  have hz' := wblock_nil_zeroed (h.held' bno hbno)
  have hmem : ∀ l ∈ links', l ∈ blocks ++ links := fun l hl => List.mem_append_right _ (hlinks hl)
  have hne : ∀ l ∈ links', bno ≠ l := fun l hl heq => hout (heq ▸ hl)
  have hhead : ∀ l ∈ links', (s.disk.wblock bno []).head l = s.disk.head l := fun l hl =>
    hz.head_of_ne (h.held l (hmem l hl)) (hne l hl)
  refine ⟨rfl, rfl, hchain.transfer hhead, h.nodup.sublist hsub, fun b hb => h.nonzero b (hsub.subset hb),
    fun b hb => hz.holds.mpr (h.held b (hsub.subset hb)),
    fun b hb => hz'.holds.mpr (h.held' b (hsub.subset hb)), fun l hl => ?_⟩
  exact (hz'.head_of_ne (h.held' l (hmem l hl)) (hne l hl)).trans
    ((h.heads l (hlinks hl)).trans (hhead l hl).symm)

theorem slice_succ {l : List Nat} {k : Nat} (hk : k + 1 < l.length) :
    slice l 1 (k + 1 + 1) = slice l 1 (k + 1) ++ [l.getD (k + 1) 0] := by
  rw [slice, slice, Nat.add_sub_cancel, Nat.add_sub_cancel, List.take_add_one, List.getElem?_drop,
    Nat.add_comm 1 k, List.getElem?_eq_getElem hk, List.getD_eq_getElem _ _ hk]
  rfl

/-- The next block of a list that has more than its first. -/
theorem balloc_alike_block {links blocks rest : List Nat} {s t : Fsw} {j : Nat}
    (h : Alike links blocks s t) (hn : s.nfree = (j + 1 + 1 : Nat)) (hlen : s.free.length = NICFREE)
    (hcount : j + 1 < NICFREE) (hblocks : blocks = slice s.free 1 (j + 1 + 1) ++ rest)
    (hchain : s.disk.Chain (j + 1 : Nat) s.free links (slice s.free 1 (j + 1) ++ rest)) :
    (outcome Fsw.balloc t).1 = (outcome Fsw.balloc s).1 ∧ ∃ links' blocks',
      Alike links' blocks' (outcome Fsw.balloc s).2 (outcome Fsw.balloc t).2 := by
  have hslice := slice_succ (l := s.free) (k := j) (by omega)
  have hmem : s.free.getD (j + 1) 0 ∈ blocks := by
    rw [hblocks, hslice]
    simp
  have hne := h.nonzero _ (List.mem_append_left _ hmem)
  have hout : s.free.getD (j + 1) 0 ∉ links := fun hl =>
    List.disjoint_of_nodup_append h.nodup hmem hl
  have hsub : (slice s.free 1 (j + 1) ++ rest ++ links).Sublist (blocks ++ links) := by
    rw [hblocks, hslice]
    exact ((List.sublist_append_left _ _).append (List.Sublist.refl _)).append (List.Sublist.refl _)
  have hs := balloc_block hn (by omega) (Nat.succ_ne_zero j) hne
  have ht := balloc_block (h.nfree.trans hn) (by rw [h.free]; omega) (Nat.succ_ne_zero j)
    (by rwa [h.free])
  rw [h.free] at ht
  rw [hs, ht]
  exact ⟨rfl, links, _, h.took (List.mem_append_left _ hmem) hchain hout (fun _ hl => hl) hsub⟩

/-- One allocation: the same end in both, and they are alike again. -/
theorem balloc_alike {links blocks : List Nat} {s t : Fsw} (h : Alike links blocks s t) :
    (outcome Fsw.balloc t).1 = (outcome Fsw.balloc s).1 ∧ ∃ links' blocks',
      Alike links' blocks' (outcome Fsw.balloc s).2 (outcome Fsw.balloc t).2 := by
  have hchain := h.chain
  generalize hn : s.nfree = nfree, hf : s.free = free at hchain
  have hn' : t.nfree = nfree := h.nfree.trans hn
  have hf' : t.free = free := h.free.trans hf
  cases hchain with
  | stop none =>
      have hs := balloc_none (hn.le.trans none)
      have ht := balloc_none (hn'.le.trans none)
      rw [hs, ht]
      exact ⟨rfl, _, _, h⟩
  | @last k _ length count unlinked =>
      subst hf
      cases k with
      | zero =>
          have hs := balloc_empty hn (by omega) unlinked
          have ht := balloc_empty hn' (by rw [hf']; omega) (by rwa [hf'])
          rw [hs, ht]
          exact ⟨rfl, [], [], rfl, hf', .stop le_rfl, List.nodup_nil, nofun, nofun, nofun, nofun⟩
      | succ j =>
          have hnext : s.disk.Chain (j + 1 : Nat) s.free [] (slice s.free 1 (j + 1) ++ []) := by
            rw [List.append_nil]
            exact .last length (by omega) unlinked
          exact balloc_alike_block h hn length count (List.append_nil _).symm hnext
  | @link k nfree free free' links blocks length count linked loaded places next =>
      subst hf
      cases k with
      | zero =>
          have hhead := h.heads _ List.mem_cons_self
          have hs := balloc_link hn (by omega) linked (by rwa [← i16_head]) (by rwa [← places_head])
          have ht := @balloc_link t nfree free' hn' (by rw [hf']; omega)
            (by rwa [hf']) (by rwa [hf', ← i16_head, hhead]) (by rwa [hf', ← places_head, hhead])
          rw [hf'] at ht
          rw [hs, ht]
          have hnodup := h.nodup
          refine ⟨rfl, links, blocks, h.took (List.mem_append_right _ List.mem_cons_self) next ?_
            (fun c hc => List.mem_cons_of_mem _ hc) ?_⟩
          · exact (List.nodup_cons.mp (List.nodup_append.mp hnodup).2.1).1
          · exact (List.sublist_append_right _ _).append (List.sublist_cons_self _ _)
      | succ j =>
          exact balloc_alike_block h hn length count rfl (.link length (by omega) linked loaded places next)

end Balloc

/-- What `k` allocations in a row end with. -/
def ballocs : Nat → Fsw → List (Except Raise Nat)
  | 0, _ => []
  | k + 1, fs => (outcome Fsw.balloc fs).1 :: ballocs k (outcome Fsw.balloc fs).2

theorem ballocs_alike (k : Nat) : ∀ {links blocks : List Nat} {s t : Fsw},
    Alike links blocks s t → ballocs k t = ballocs k s := by
  induction k with
  | zero => exact fun _ => rfl
  | succ k ih =>
      intro links blocks s t h
      obtain ⟨hend, links', blocks', h'⟩ := balloc_alike h
      rw [ballocs, ballocs, hend, ih h']

/-! ### zerofree -/

/-- A file system with a well-formed free list: `links` are its link blocks, `blocks` the
other free ones. -/
structure FreeWell (links blocks : List Nat) (fs : Fsw) : Prop where
  chain : fs.disk.Chain fs.nfree fs.free links blocks
  nodup : (blocks ++ links).Nodup
  isize : 2 ≤ fs.isize
  range : ∀ b ∈ blocks ++ links, fs.isize ≤ b ∧ b < fs.fsize
  size : (fs.fsize + fs.disk.base) * BSIZE ≤ fs.disk.bytes.length

/-- `fs'` is `fs` with its free blocks cleaned. -/
structure Cleaned (links blocks : List Nat) (fs fs' : Fsw) : Prop where
  fields : fs' = fs.withDisk fs'.disk
  bytes : ∀ i, (∀ b ∈ blocks ++ links, ¬ fs.disk.InBlock 0 b i) →
    fs'.disk.bytes[i]? = fs.disk.bytes[i]?
  block : ∀ b, b ∉ blocks ++ links → fs'.disk.block b = fs.disk.block b
  super : fs'.disk.block 1 = fs.disk.block 1
  inode : ∀ ino, 0 < ino → ino ≤ fs.ninodes → fs'.disk.iread ino = fs.disk.iread ino
  zero : ∀ b ∈ blocks, fs'.disk.block b = List.replicate BSIZE 0
  ballocs : ∀ k, ballocs k fs' = ballocs k fs

section Cleaned

open Image

variable {links blocks : List Nat} {fs : Fsw}

theorem FreeWell.holds (h : FreeWell links blocks fs) {b : Nat} (hb : b ∈ blocks ++ links) :
    fs.disk.Holds b := by
  have hrange := h.range b hb
  have hsize := h.size
  have hmul : (b + 1 + fs.disk.base) * BSIZE ≤ (fs.fsize + fs.disk.base) * BSIZE :=
    Nat.mul_le_mul_right _ (by omega)
  unfold Holds start
  rw [Nat.add_right_comm, Nat.add_mul _ 1, Nat.one_mul] at hmul
  omega

theorem freeBytes_inBlock {d : Image} {i : Nat} (h : d.FreeBytes blocks links i) :
    ∃ b ∈ blocks ++ links, d.InBlock 0 b i := by
  obtain ⟨b, hb, hi⟩ | ⟨b, hb, hi⟩ := h
  · exact ⟨b, List.mem_append_left _ hb, hi⟩
  · exact ⟨b, List.mem_append_right _ hb, Nat.le_trans (Nat.add_le_add_left (Nat.zero_le _) _) hi.1, hi.2⟩

/-- Bytes that are not zeroed, as slices. -/
theorem Image.Zeroed.slice_eq {Z : Nat → Prop} {d d' : Image} (h : Zeroed Z d d') {a b : Nat}
    (hZ : ∀ i, a ≤ i → i < b → ¬ Z i) : slice d'.bytes a b = slice d.bytes a b := by
  refine ext_getD (z := 0) ?_ fun i => ?_
  · simp only [slice, List.length_take, List.length_drop, h.length]
  · by_cases hi : a + i < b
    · rw [getD_slice _ hi, getD_slice _ hi, h.kept _ (hZ _ (by omega) hi)]
    · rw [List.getD_eq_default _ _ (by simp only [slice, List.length_take]; omega),
        List.getD_eq_default _ _ (by simp only [slice, List.length_take]; omega)]

theorem head_kept (h : FreeWell links blocks fs) {d : Image}
    (hz : Zeroed (fs.disk.FreeBytes blocks links) fs.disk d) {l : Nat} (hl : l ∈ links) :
    d.head l = fs.disk.head l := by
  have hsize : 2 + 4 * NICFREE < BSIZE := by decide
  refine hz.head_eq (h.holds (List.mem_append_right _ hl)) fun i hlow hhigh hfree => ?_
  obtain ⟨b, hb, hi⟩ | ⟨b, hb, hi⟩ := hfree
  · obtain rfl := inBlock_unique hi hlow (by omega)
    exact List.disjoint_of_nodup_append h.nodup hb hl
  · obtain rfl := inBlock_unique hi hlow (by omega)
    exact absurd hi.1 (by omega)

theorem block_kept {d : Image}
    (h : Zeroed (fs.disk.FreeBytes blocks links) fs.disk d) {b : Nat}
    (hb : b ∉ blocks ++ links) : d.block b = fs.disk.block b := by
  rw [block_eq, block_eq, h.start]
  refine h.slice_eq fun i hlow hhigh hfree => ?_
  obtain ⟨c, hc, hci⟩ := freeBytes_inBlock hfree
  exact hb (inBlock_unique hci hlow hhigh ▸ hc)

theorem cleaned_of_zeroed (h : FreeWell links blocks fs) {d : Image}
    (hz : Zeroed (fs.disk.FreeBytes blocks links) fs.disk d) :
    Cleaned links blocks fs (fs.withDisk d) where
  fields := rfl
  bytes i hi := by
    have hfree : ¬ fs.disk.FreeBytes blocks links i := fun hfree =>
      have ⟨b, hb, hbi⟩ := freeBytes_inBlock hfree
      hi b hb hbi
    exact getElem?_of_getD hz.length (hz.kept i hfree)
  block _ hb := block_kept hz hb
  super := block_kept hz fun hmem => by
    have hrange := (h.range 1 hmem).1
    have hisize := h.isize
    omega
  inode ino hpos hino := by
    have hioff : d.ioff ino = fs.disk.ioff ino := by rw [ioff, ioff, hz.base]
    rw [Fsw.withDisk_disk, iread, iread, hioff]
    refine congrArg unpackIp (hz.slice_eq fun i hlow hhigh hfree => ?_)
    obtain ⟨b, hb, hbi⟩ := freeBytes_inBlock hfree
    have hisize := (h.range b hb).1
    have hi := hbi.1
    have hino' : ino ≤ (fs.isize - 2) * 8 := hino
    have hsize : BSIZE = 512 := rfl
    have hinosz : INOSZ = 64 := rfl
    unfold start at hi
    unfold ioff at hhigh
    rw [hsize, hinosz] at hhigh
    rw [hsize] at hi
    have hmore := h.isize
    omega
  zero b hb := by
    have hmem : b ∈ blocks ++ links := List.mem_append_left _ hb
    have hlen := length_block (hz.holds.mpr (h.holds hmem))
    rw [Fsw.withDisk_disk]
    refine ext_getD (z := 0) (by rw [hlen, List.length_replicate]) fun i => ?_
    by_cases hi : i < BSIZE
    · rw [block_eq, getD_slice _ (by omega), List.getD_replicate _ hi, hz.start]
      exact hz.zero _ (.inl ⟨b, hb, by omega, by omega⟩)
    · rw [List.getD_eq_default _ _ (by omega),
        List.getD_eq_default _ _ (by rw [List.length_replicate]; omega)]
  ballocs k := by
    refine @ballocs_alike k links blocks _ _ ⟨rfl, rfl, h.chain, h.nodup, ?_,
      fun b hb => h.holds hb, fun b hb => hz.holds.mpr (h.holds hb), fun l hl => ?_⟩
    · intro b hb
      have hrange := h.range b hb
      have hisize := h.isize
      omega
    · exact head_kept h hz hl

theorem FreeWell.again (h : FreeWell links blocks fs) {d : Image}
    (hz : Zeroed (fs.disk.FreeBytes blocks links) fs.disk d) :
    FreeWell links blocks (fs.withDisk d) where
  chain := h.chain.transfer fun _ hl => head_kept h hz hl
  nodup := h.nodup
  isize := h.isize
  range := h.range
  size := by
    rw [Fsw.withDisk_disk, hz.length, hz.base]
    exact h.size

theorem zerofree_zeroed (h : FreeWell links blocks fs) {fuel : Nat} (hfuel : links.length < fuel) :
    ∃ d, outcome (Fsw.zerofree fuel) fs =
        (.ok (some (blocks.length + links.length)), fs.withDisk d) ∧
      Zeroed (fs.disk.FreeBytes blocks links) fs.disk d := by
  obtain ⟨d, hrun, hz⟩ := zeroLists_zeroed h.chain 0 hfuel h.nodup (fun _ hb => h.holds hb)
    fun _ _ => rfl
  rw [Nat.zero_add] at hrun
  refine ⟨d, ?_, hz⟩
  rw [Fsw.zerofree, outcome_bind, outcome_get]
  exact hrun

end Cleaned

/-- **zerofree cannot be seen.** On a well-formed free list it ends after as many rounds as
there are links and one; it zeroes every free block that is no link, and changes no byte
outside the free blocks and no allocation to come; and a second run changes nothing. -/
theorem zerofree_invisible (fs : Fsw) (links blocks : List Nat) (h : FreeWell links blocks fs)
    (fuel : Nat) (hfuel : links.length < fuel) :
    ∃ fs', outcome (Fsw.zerofree fuel) fs = (.ok (some (blocks.length + links.length)), fs') ∧
      Cleaned links blocks fs fs' ∧
      outcome (Fsw.zerofree fuel) fs' = (.ok (some (blocks.length + links.length)), fs') := by
  obtain ⟨d, hrun, hz⟩ := zerofree_zeroed h hfuel
  obtain ⟨d', hrun', hz'⟩ := zerofree_zeroed (h.again hz) hfuel
  have hsame : d' = d := hz.again (hz'.congr fun i => ?_)
  · rw [hsame] at hrun'
    exact ⟨fs.withDisk d, hrun, cleaned_of_zeroed h hz, hrun'⟩
  · have hbase := fun (m c : Nat) => Image.inBlock_base (b := c) hz.base (n := m) (i := i)
    simp only [Image.FreeBytes, Fsw.withDisk_disk, hbase]

theorem tiny_freeWell : FreeWell [5] [4] tiny where
  chain := by
    have hhead : tiny.disk.head 5 = List.replicate (2 + 4 * NICFREE) 0 := by
      rw [Image.head, tiny_block (by decide) (by decide), List.take_replicate]
      rfl
    have hloaded : i16 (tiny.disk.head 5) 0 = .ok 0 := by
      rw [hhead]
      rfl
    have hplaces : ((List.range NICFREE).mapM fun i => pdplong (tiny.disk.head 5) (2 + 4 * i)) =
        .ok (List.replicate 64 0) := by
      rw [hhead]
      exact mapM_eq_ok (g := fun _ => 0) fun i hi => pdplong_zeros (by have hlt := List.mem_range.mp hi; omega)
    exact .link (k := 1) rfl (by decide) (by decide) hloaded hplaces (.stop le_rfl)
  nodup := by decide
  isize := by decide
  range := by decide
  size := length_tinyFile.ge

theorem zerofree_invisible_tiny :
    ∃ fs', outcome (Fsw.zerofree 2) tiny = (.ok (some 2), fs') ∧ Cleaned [5] [4] tiny fs' ∧
      outcome (Fsw.zerofree 2) fs' = (.ok (some 2), fs') :=
  zerofree_invisible tiny [5] [4] tiny_freeWell 2 (by decide)

end Sbc386Ex.Cohfs

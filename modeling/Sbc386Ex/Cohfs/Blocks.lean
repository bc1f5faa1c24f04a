import Sbc386Ex.Cohfs.Words

/-!
# Sbc386Ex.Cohfs.Blocks

Writes to the image, by blocks and by inodes: what is written is what is read there, and
every other block and inode is as it was. The inodes are in the blocks from the third to the
`isize`th, the files in those that follow.
-/

namespace Sbc386Ex.Cohfs

/-! ### Slices -/

section Slices

variable {b b' new : List Byte} {o p q : Nat}

/-- A slice that lies apart from what was written. -/
theorem Put.slice_of_apart (h : Put o new b b') (hp : q ≤ o ∨ o + new.length ≤ p) :
    slice b' p q = slice b p q := by
  refine ext_getD (z := 0) ?_ fun i => ?_
  · simp only [slice, List.length_take, List.length_drop, h.length]
  · by_cases hi : p + i < q
    · rw [getD_slice _ hi, getD_slice _ hi, h.getD_of_apart (by omega)]
    · rw [List.getD_eq_default _ _ (by simp only [slice, List.length_take]; omega),
        List.getD_eq_default _ _ (by simp only [slice, List.length_take]; omega)]

/-- And the one that was written. -/
theorem Put.slice_self (h : Put o new b b') (ho : o + new.length ≤ b.length) :
    slice b' o (o + new.length) = new := by
  have hlen : (slice b' o (o + new.length)).length = new.length := by
    rw [length_slice _ (by omega) (by rw [h.length]; exact ho)]
    omega
  refine ext_getD (z := 0) hlen fun i => ?_
  by_cases hi : i < new.length
  · rw [getD_slice _ (by omega), h.bytes, if_pos (by omega), Nat.add_sub_cancel_left]
  · rw [List.getD_eq_default _ _ (by omega), List.getD_eq_default _ _ (by omega)]

theorem length_ljust {n : Nat} (h : b.length ≤ n) : (ljust b n).length = n := by
  rw [ljust, List.length_append, List.length_replicate]
  omega

theorem ljust_self {n : Nat} (h : b.length = n) : ljust b n = b := by
  rw [ljust, h, Nat.sub_self, List.replicate_zero, List.append_nil]

end Slices

namespace Image

variable {d d' : Image} {b n ino : Nat} {new raw : List Byte}

/-! ### Blocks -/

/-- `d'` is `d` with `new` in the block `n`. -/
structure Wrote (n : Nat) (new : List Byte) (d d' : Image) : Prop where
  base : d'.base = d.base
  put : Put (d.start n) new d.bytes d'.bytes

theorem wblock_wrote (h : d.Holds n) (hnew : new.length ≤ BSIZE) :
    Wrote n (ljust new BSIZE) d (d.wblock n new) := by
  have hend : d.start n + (ljust new BSIZE).length = d.start n + BSIZE := by rw [length_ljust hnew]
  refine ⟨rfl, length_splice h hend, fun i => ?_⟩
  rw [hend]
  exact getD_splice h hend i

theorem start_le (h : b < n) : d.start b + BSIZE ≤ d.start n := by
  have hmul : (b + 1 + d.base) * BSIZE ≤ (n + d.base) * BSIZE := Nat.mul_le_mul_right _ (by omega)
  rw [Nat.add_right_comm, Nat.add_mul _ 1, Nat.one_mul] at hmul
  exact hmul

/-- The blocks below `n` are in an image that has as many. -/
theorem holds_of_lt (hsize : (n + d.base) * BSIZE ≤ d.bytes.length) (hb : b < n) : d.Holds b := by
  have hmul : (b + 1 + d.base) * BSIZE ≤ (n + d.base) * BSIZE := Nat.mul_le_mul_right _ (by omega)
  rw [Nat.add_right_comm, Nat.add_mul _ 1, Nat.one_mul] at hmul
  exact hmul.trans hsize

namespace Wrote

theorem start (h : Wrote n new d d') (b : Nat) : d'.start b = d.start b := by
  rw [Image.start, Image.start, h.base]

theorem holds (h : Wrote n new d d') : d'.Holds b ↔ d.Holds b := by
  rw [Holds, Holds, h.start, h.put.length]

theorem block_self (h : Wrote n new d d') (hn : d.Holds n) (hnew : new.length = BSIZE) :
    d'.block n = new := by
  rw [block_eq, h.start, ← hnew]
  exact h.put.slice_self (by rw [hnew]; exact hn)

theorem block_ne (h : Wrote n new d d') (hnew : new.length = BSIZE) (hne : b ≠ n) :
    d'.block b = d.block b := by
  rw [block_eq, block_eq, h.start]
  refine h.put.slice_of_apart ?_
  rw [hnew]
  exact (Nat.lt_or_gt_of_ne hne).imp start_le start_le

end Wrote

/-! ### Inodes -/

/-- `d'` is `d` with the inode `ino` as `raw` has it. -/
structure WroteInode (ino : Nat) (raw : List Byte) (d d' : Image) : Prop where
  base : d'.base = d.base
  put : Put (d.ioff ino) raw d.bytes d'.bytes

/-- The inode is one of those that are in blocks below `isize`. -/
def InTable (isize ino : Nat) : Prop := 0 < ino ∧ ino ≤ (isize - 2) * (BSIZE / INOSZ)

theorem ioff_eq (d : Image) (h : 0 < ino) : d.ioff ino = d.start 2 + (ino - 1) * INOSZ := by
  obtain ⟨k, rfl⟩ : ∃ k, ino = k + 1 := ⟨ino - 1, by omega⟩
  rw [ioff, start, Nat.add_comm d.base, Nat.add_mul k, Nat.one_mul, ← Nat.add_assoc,
    Nat.add_sub_cancel, Nat.add_sub_cancel]

/-- The inode area lies before the file blocks. -/
theorem ioff_le {isize : Nat} (h : InTable isize ino) (hb : isize ≤ b) :
    d.ioff ino + INOSZ ≤ d.start b := by
  obtain ⟨hpos, hino⟩ := h
  have hsize : BSIZE = 512 := rfl
  have hinosz : INOSZ = 64 := rfl
  have hcount : ino ≤ (isize - 2) * 8 := hino
  rw [ioff_eq d hpos, start, start, hsize, hinosz]
  omega

theorem start_le_ioff (h : 0 < ino) (hb : b < 2) : d.start b + BSIZE ≤ d.ioff ino := by
  have hlow : d.start b + BSIZE ≤ d.start 2 := start_le hb
  rw [ioff_eq d h]
  omega

theorem ioff_apart {ino' : Nat} (h : 0 < ino) (h' : 0 < ino') (hne : ino ≠ ino') :
    d.ioff ino + INOSZ ≤ d.ioff ino' ∨ d.ioff ino' + INOSZ ≤ d.ioff ino := by
  have hinosz : INOSZ = 64 := rfl
  rw [ioff_eq d h, ioff_eq d h', hinosz]
  omega

theorem ioff_base (h : d'.base = d.base) (ino : Nat) : d'.ioff ino = d.ioff ino := by
  rw [ioff, ioff, h]

theorem Wrote.iread (h : Wrote n new d d') {isize : Nat} (hino : InTable isize ino) (hn : isize ≤ n) :
    d'.iread ino = d.iread ino := by
  rw [Image.iread, Image.iread, ioff_base h.base]
  exact congrArg unpackIp (h.put.slice_of_apart (.inl (ioff_le hino hn)))

/-- The blocks before the inodes hold none of them. -/
theorem Wrote.iread_low (h : Wrote n new d d') (hnew : new.length = BSIZE) (hino : 0 < ino)
    (hn : n < 2) : d'.iread ino = d.iread ino := by
  rw [Image.iread, Image.iread, ioff_base h.base]
  refine congrArg unpackIp (h.put.slice_of_apart (.inr ?_))
  rw [hnew]
  exact start_le_ioff hino hn

namespace WroteInode

theorem start (h : WroteInode ino raw d d') (b : Nat) : d'.start b = d.start b := by
  rw [Image.start, Image.start, h.base]

theorem holds (h : WroteInode ino raw d d') : d'.Holds b ↔ d.Holds b := by
  rw [Holds, Holds, h.start, h.put.length]

theorem block_eq (h : WroteInode ino raw d d') (hraw : raw.length = INOSZ) {isize : Nat}
    (hino : InTable isize ino) (hb : isize ≤ b ∨ b < 2) : d'.block b = d.block b := by
  rw [Image.block_eq, Image.block_eq, h.start]
  refine h.put.slice_of_apart ?_
  rw [hraw]
  exact hb.symm.imp (start_le_ioff hino.1) (ioff_le hino)

theorem iread_self (h : WroteInode ino raw d d') (hraw : raw.length = INOSZ)
    (hroom : d.ioff ino + INOSZ ≤ d.bytes.length) : d'.iread ino = unpackIp raw := by
  rw [Image.iread, ioff_base h.base, ← hraw]
  exact congrArg unpackIp (h.put.slice_self (by rw [hraw]; exact hroom))

theorem iread_ne (h : WroteInode ino raw d d') (hraw : raw.length = INOSZ) {ino' : Nat}
    (hpos : 0 < ino) (hpos' : 0 < ino') (hne : ino' ≠ ino) : d'.iread ino' = d.iread ino' := by
  rw [Image.iread, Image.iread, ioff_base h.base]
  refine congrArg unpackIp (h.put.slice_of_apart ?_)
  rw [hraw]
  exact ioff_apart hpos' hpos hne

end WroteInode

end Image

end Sbc386Ex.Cohfs

import Sbc386Ex.Cohfs.Blocks

/-!
# Sbc386Ex.Cohfs.Super

The superblock: what `_store_super` puts into it `_load_super` takes out of it again, and the
rest of the block stays.
-/

namespace Sbc386Ex.Cohfs

open Raising

/-! ### Fields in a row -/

/-- The bytes before `o` are the same. -/
def Above (o : Nat) (b b' : List Byte) : Prop := ∀ i < o, b'.getD i 0 = b.getD i 0

namespace Above

variable {b b' b'' : List Byte} {o o' p : Nat}

theorem refl (o : Nat) (b : List Byte) : Above o b b := fun _ _ => rfl

theorem trans (h : Above o b b') (h' : Above o' b' b'') (ho : o ≤ o') : Above o b b'' := fun i hi =>
  (h' i (hi.trans_le ho)).trans (h i hi)

theorem word (h : Above o b b') (hp : p + 2 ≤ o) : Cohfs.word b' p = Cohfs.word b p := by
  rw [Cohfs.word, Cohfs.word, h _ (by omega), h _ (by omega)]

theorem long (h : Above o b b') (hp : p + 4 ≤ o) : Cohfs.long b' p = Cohfs.long b p := by
  rw [Cohfs.long, Cohfs.long, h.word (by omega), h.word (by omega)]

end Above

theorem Put.above {o : Nat} {new b b' : List Byte} (h : Put o new b b') : Above o b b' := fun _ hi =>
  h.getD_of_apart (.inl hi)

theorem packH_ok {v : Nat} (h : v < 65536) : packH v = .ok (bytes16 v) := by
  unfold packH
  rw [if_pos (by omega), Int.toNat_natCast]

theorem short_lt {n : Nat} (h : n < 65536) : -0x8000 ≤ short n ∧ short n < 0x8000 := by
  unfold short
  split_ifs <;> omega

theorem toNat_mod_lt (v : Int) : (v % 0x10000).toNat < 65536 := by omega

theorem packh_eq {v : Int} (h : -0x8000 ≤ v ∧ v < 0x8000) :
    packh v = .ok (bytes16 (v % 0x10000).toNat) := by
  unfold packh
  rw [if_pos h]

theorem short_mod {v : Int} (h : -0x8000 ≤ v ∧ v < 0x8000) : short (v % 0x10000).toNat = v := by
  unfold short
  split_ifs <;> omega

theorem packh_ok {v : Int} (h : -0x8000 ≤ v ∧ v < 0x8000) :
    ∃ n < 65536, packh v = .ok (bytes16 n) ∧ short n = v :=
  ⟨(v % 0x10000).toNat, toNat_mod_lt v, packh_eq h, short_mod h⟩

/-- The words of the inode cache, packed. -/
theorem mapM_packH {l : List Nat} (h : ∀ v ∈ l, v < 65536) :
    l.mapM (fun i : Nat => packH i) = .ok (l.map bytes16) :=
  mapM_eq_ok fun v hv => packH_ok (h v hv)

theorem length_flatten_bytes16 (l : List Nat) : (l.map bytes16).flatten.length = 2 * l.length := by
  induction l with
  | nil => rfl
  | cons v l ih =>
      rw [List.map_cons, List.flatten_cons, List.length_append, ih, List.length_cons]
      show 2 + _ = _
      omega

theorem word_flatten_bytes16 {l : List Nat} (h : ∀ v ∈ l, v < 65536) : ∀ {i : Nat}, i < l.length →
    word (l.map bytes16).flatten (2 * i) = l.getD i 0 := by
  induction l with
  | nil => exact fun hi => absurd hi (Nat.not_lt_zero _)
  | cons v l ih =>
      intro i hi
      rw [List.map_cons, List.flatten_cons]
      cases i with
      | zero => exact word_bytes16 (h v List.mem_cons_self)
      | succ i =>
          rw [List.getD_cons_succ, ← ih (fun v hv => h v (List.mem_cons_of_mem _ hv))
            (Nat.lt_of_succ_lt_succ hi)]
          rfl

/-! ### The block -/

/-- What the fields of the superblock can hold. -/
structure Fsw.InRange (fs : Fsw) : Prop where
  isize : fs.isize < 65536
  fsize : fs.fsize < 2 ^ 32
  nfree : -0x8000 ≤ fs.nfree ∧ fs.nfree < 0x8000
  length : fs.free.length = NICFREE
  free : ∀ b ∈ fs.free, b < 2 ^ 32
  ninode : -0x8000 ≤ fs.ninode ∧ fs.ninode < 0x8000
  lengthI : fs.icache.length = NICINOD
  icache : ∀ ino ∈ fs.icache, ino < 65536
  tfree : 0 ≤ fs.tfree ∧ fs.tfree < 2 ^ 32
  tinode : 0 ≤ fs.tinode ∧ fs.tinode < 65536

/-- The superblock `sb` says what `fs` does. -/
structure Says (sb : List Byte) (fs : Fsw) : Prop where
  isize : word sb SB_ISIZE = fs.isize
  fsize : long sb SB_FSIZE = fs.fsize
  nfree : short (word sb SB_NFREE) = fs.nfree
  free : ∀ i < NICFREE, long sb (SB_FREE + 4 * i) = fs.free.getD i 0
  ninode : short (word sb SB_NINODE) = fs.ninode
  icache : ∀ i < NICINOD, word sb (SB_INODE + 2 * i) = fs.icache.getD i 0
  tfree : (long sb SB_TFREE : Int) = fs.tfree
  tinode : (word sb SB_TINODE : Int) = fs.tinode

theorem getD_lt {l : List Nat} {m : Nat} (hm : 0 < m) (h : ∀ b ∈ l, b < m) (i : Nat) :
    l.getD i 0 < m := by
  by_cases hi : i < l.length
  · rw [List.getD_eq_getElem _ _ hi]
    exact h _ (List.getElem_mem hi)
  · rwa [List.getD_eq_default _ _ (Nat.le_of_not_lt hi)]

variable {fs : Fsw}

theorem superBlock_said (h : fs.InRange) (hblock : (fs.disk.block 1).length = BSIZE) (t : Int) :
    ∃ sb, fs.superBlock t = .ok sb ∧ sb.length = BSIZE ∧ Says sb fs := by
  have hsize : BSIZE = 512 := rfl
  obtain ⟨n, hn, hpackn, hshortn⟩ := packh_ok h.nfree
  obtain ⟨m, hm, hpackm, hshortm⟩ := packh_ok h.ninode
  obtain ⟨tf, htf⟩ := Int.eq_ofNat_of_zero_le h.tfree.1
  obtain ⟨ti, hti⟩ := Int.eq_ofNat_of_zero_le h.tinode.1
  have htf' := h.tfree.2
  have hti' := h.tinode.2
  have hfree : fs.free.length = 64 := h.length
  have hicache : fs.icache.length = 100 := h.lengthI
  have hcache := length_flatten_bytes16 fs.icache
  obtain ⟨b₁, e₁, p₁⟩ := packInto_put (bytes16 fs.isize) (b := fs.disk.block 1) (o := SB_ISIZE)
    (by rw [hblock, length_bytes16]; decide)
  obtain ⟨b₂, e₂, p₂⟩ := putpdp_put fs.fsize (b := b₁) (o := SB_FSIZE)
    (by rw [p₁.length, hblock]; decide)
  obtain ⟨b₃, e₃, p₃⟩ := packInto_put (bytes16 n) (b := b₂) (o := SB_NFREE)
    (by rw [p₂.length, p₁.length, hblock, length_bytes16]; decide)
  have hlen₃ : b₃.length = 512 := by rw [p₃.length, p₂.length, p₁.length, hblock, hsize]
  obtain ⟨b₄, e₄, hlen₄, hkept₄, hslots₄⟩ := putLongs fs.free (b := b₃) (o := SB_FREE) NICFREE
    h.length.ge (by rw [hlen₃]; decide)
  obtain ⟨b₅, e₅, p₅⟩ := packInto_put (bytes16 m) (b := b₄) (o := SB_NINODE)
    (by rw [hlen₄, hlen₃, length_bytes16]; decide)
  have hlen₅ : b₅.length = 512 := by rw [p₅.length, hlen₄, hlen₃]
  obtain ⟨b₆, e₆, p₆⟩ := packInto_put (fs.icache.map bytes16).flatten (b := b₅) (o := SB_INODE)
    (by rw [hcache, hlen₅, hicache]; decide)
  obtain ⟨b₇, e₇, p₇⟩ := putpdp_put t (b := b₆) (o := SB_TIME) (by rw [p₆.length, hlen₅]; decide)
  obtain ⟨b₈, e₈, p₈⟩ := putpdp_put fs.tfree (b := b₇) (o := SB_TFREE)
    (by rw [p₇.length, p₆.length, hlen₅]; decide)
  obtain ⟨b₉, e₉, p₉⟩ := packInto_put (bytes16 ti) (b := b₈) (o := SB_TINODE)
    (by rw [p₈.length, p₇.length, p₆.length, hlen₅, length_bytes16]; decide)
  -- each field lies before all that are put after it
  have a₈ : Above SB_TINODE b₈ b₉ := p₉.above
  have a₇ : Above SB_TFREE b₇ b₉ := p₈.above.trans a₈ (by decide)
  have a₆ : Above SB_TIME b₆ b₉ := p₇.above.trans a₇ (by decide)
  have a₅ : Above SB_INODE b₅ b₉ := p₆.above.trans a₆ (by decide)
  have a₄ : Above SB_NINODE b₄ b₉ := p₅.above.trans a₅ (by decide)
  have a₃ : Above SB_FREE b₃ b₉ :=
    Above.trans (fun i hi => hkept₄ i (.inl hi)) a₄ (by decide)
  have a₂ : Above SB_NFREE b₂ b₉ := p₃.above.trans a₃ (by decide)
  have a₁ : Above SB_FSIZE b₁ b₉ := p₂.above.trans a₂ (by decide)
  have hmap : (do let a ← fs.icache; pure (a : Int) : List Int).mapM (fun i => packH i) =
      .ok (fs.icache.map bytes16) := by
    rw [← mapM_packH h.icache]
    simp only [List.bind_eq_flatMap, List.pure_def, ← List.map_eq_flatMap, List.mapM_map]
    rfl
  have htinode : packH fs.tinode = .ok (bytes16 ti) := by
    rw [hti]
    exact packH_ok (by omega)
  refine ⟨b₉, ?_, by rw [p₉.length, p₈.length, p₇.length, p₆.length, hlen₅, hsize], ?_⟩
  · rw [Fsw.superBlock, bind_ok (packH_ok h.isize), bind_ok e₁, bind_ok e₂, bind_ok hpackn, bind_ok e₃,
      bind_ok e₄, bind_ok hpackm, bind_ok e₅, bind_ok hmap, bind_ok e₆, bind_ok e₇, bind_ok e₈, bind_ok htinode, e₉]
  · exact
    { isize := by
        rw [a₁.word (p := SB_ISIZE) (by decide)]
        exact (p₁.word_at (k := 0) (by rw [length_bytes16])).trans (word_bytes16 h.isize)
      fsize := by
        rw [a₂.long (p := SB_FSIZE) (by decide)]
        exact (p₂.long_at (k := 0) (length_pdp _).ge).trans (long_pdp h.fsize)
      nfree := by
        rw [a₃.word (p := SB_NFREE) (by decide), ← hshortn]
        exact congrArg short ((p₃.word_at (k := 0) (by rw [length_bytes16])).trans (word_bytes16 hn))
      free := fun i hi => by
        have hlt : SB_FREE + 4 * i + 4 ≤ SB_NINODE := by
          have hcount : i < 64 := hi
          have hend : SB_NINODE = SB_FREE + 256 := rfl
          omega
        rw [a₄.long hlt]
        exact hslots₄ i hi (getD_lt (by decide) h.free i)
      ninode := by
        rw [a₅.word (p := SB_NINODE) (by decide), ← hshortm]
        exact congrArg short ((p₅.word_at (k := 0) (by rw [length_bytes16])).trans (word_bytes16 hm))
      icache := fun i hi => by
        have hcount : i < 100 := hi
        have hlt : SB_INODE + 2 * i + 2 ≤ SB_TIME := by
          have hend : SB_TIME = SB_INODE + 204 := rfl
          omega
        rw [a₆.word hlt, p₆.word_at (by omega), word_flatten_bytes16 h.icache (by omega)]
      tfree := by
        rw [a₈.long (p := SB_TFREE) (by decide), htf]
        have hlong := p₈.long_at (k := 0) (length_pdp _).ge
        rw [htf, long_pdp (by omega)] at hlong
        exact congrArg Nat.cast hlong
      tinode := by
        rw [hti]
        exact congrArg Nat.cast ((p₉.word_at (k := 0) (by rw [length_bytes16])).trans
          (word_bytes16 (by omega))) }

/-! ### Saving and loading -/

/-- The object of an image file, as its superblock has it. -/
def Fsw.loaded (clock : Nat → Int) (base : Nat) (file : List Byte) : Fsw :=
  let disk : Image := { bytes := file, base }
  let sb := disk.block 1
  { file, disk, clock
    isize := word sb SB_ISIZE
    fsize := long sb SB_FSIZE
    nfree := short (word sb SB_NFREE)
    free := (List.range NICFREE).map fun i => long sb (SB_FREE + 4 * i)
    ninode := short (word sb SB_NINODE)
    icache := (List.range NICINOD).map fun i => word sb (SB_INODE + 2 * i)
    tfree := long sb SB_TFREE
    tinode := word sb SB_TINODE
    ticks := 0 }

theorem slots_le {i n w o : Nat} (hi : i < n) (h : o + w * n ≤ BSIZE) : o + w * i + w ≤ BSIZE := by
  have hmul : w * (i + 1) ≤ w * n := Nat.mul_le_mul_left _ hi
  rw [Nat.mul_add, Nat.mul_one] at hmul
  omega

theorem load_eq (clock : Nat → Int) {base : Nat} {file : List Byte}
    (h : (Image.block { bytes := file, base } 1).length = BSIZE) :
    Fsw.load clock base file = .ok (Fsw.loaded clock base file) := by
  rw [Fsw.load, Fsw.loaded]
  generalize Image.block { bytes := file, base } 1 = sb at h
  have hfree : ((List.range NICFREE).mapM fun i => pdplong sb (SB_FREE + 4 * i)) =
      .ok ((List.range NICFREE).map fun i => long sb (SB_FREE + 4 * i)) := mapM_eq_ok fun i hi =>
    pdplong_eq ((slots_le (List.mem_range.mp hi) (by decide)).trans h.ge)
  have hicache : ((List.range NICINOD).mapM fun i => u16 sb (SB_INODE + 2 * i)) =
      .ok ((List.range NICINOD).map fun i => word sb (SB_INODE + 2 * i)) := mapM_eq_ok fun i hi =>
    u16_eq ((slots_le (List.mem_range.mp hi) (by decide)).trans h.ge)
  have hfield : ∀ {n}, n ≤ SB_TINODE + 2 → n ≤ sb.length := fun hn =>
    (hn.trans (by decide)).trans h.ge
  rw [bind_ok (u16_eq (o := SB_ISIZE) (hfield (by decide))),
    bind_ok (pdplong_eq (o := SB_FSIZE) (hfield (by decide))),
    bind_ok (i16_eq (o := SB_NFREE) (hfield (by decide))), bind_ok hfree,
    bind_ok (i16_eq (o := SB_NINODE) (hfield (by decide))), bind_ok hicache,
    bind_ok (pdplong_eq (o := SB_TFREE) (hfield (by decide))),
    bind_ok (u16_eq (o := SB_TINODE) (hfield (by decide)))]
  rfl

theorem map_getD_range {l : List Nat} {n : Nat} (h : l.length = n) {f : Nat → Nat}
    (hf : ∀ i < n, f i = l.getD i 0) : (List.range n).map f = l := by
  refine List.ext_getElem (by rw [List.length_map, List.length_range, h]) fun i hi hi' => ?_
  rw [List.getElem_map, List.getElem_range, hf i (by omega), List.getD_eq_getElem _ _ hi']

/-- The object once the time is asked for. -/
def Fsw.ticked (fs : Fsw) : Fsw := { fs with ticks := fs.ticks + 1 }

theorem now_eq (fs : Fsw) : outcome Fsw.now fs = (.ok (fs.clock fs.ticks), fs.ticked) := rfl

/-- The object once it is saved. -/
def Fsw.saved (fs : Fsw) (d : Image) : Fsw := { fs with disk := d, file := d.bytes, ticks := fs.ticks + 1 }

theorem save_said (h : fs.InRange) (hold : fs.disk.Holds 1) :
    ∃ d sb, outcome Fsw.save fs = (.ok (), fs.saved d) ∧ fs.disk.Wrote 1 sb d ∧ sb.length = BSIZE ∧
      Says sb fs := by
  obtain ⟨sb, hsb, hlen, hsaid⟩ := superBlock_said h (Image.length_block hold) (fs.clock fs.ticks)
  have hwrote := @Image.wblock_wrote _ _ sb hold hlen.le
  rw [ljust_self hlen] at hwrote
  generalize hd : fs.disk.wblock 1 sb = d at hwrote
  have hticked : fs.ticked.superBlock (fs.clock fs.ticks) = .ok sb := by
    rw [← hsb]
    simp only [Fsw.superBlock, Fsw.ticked]
  have hreads : outcome (reading fun t : Fsw => t.superBlock (fs.clock fs.ticks)) fs.ticked =
      (.ok sb, fs.ticked) := outcome_reading_ok hticked
  refine ⟨d, sb, ?_, hwrote, hlen, hsaid⟩
  rw [Fsw.save, outcome_bind_ok (now_eq fs), outcome_bind_ok hreads,
    outcome_bind_ok (outcome_modify _ _), outcome_modify, Fsw.saved, Fsw.ticked, hd]

/-- What is loaded from an image whose superblock says what `fs` does. -/
theorem loaded_said {fs : Fsw} (h : fs.InRange) {base : Nat} {file : List Byte}
    (hsaid : Says (Image.block { bytes := file, base } 1) fs) (clock : Nat → Int) :
    Fsw.loaded clock base file =
      { fs with file, disk := { bytes := file, base }, clock, ticks := 0 } := by
  have hfree := map_getD_range h.length hsaid.free
  have hicache := map_getD_range h.lengthI hsaid.icache
  rw [Fsw.loaded]
  simp only [hsaid.isize, hsaid.fsize, hsaid.nfree, hsaid.ninode, hsaid.tfree, hsaid.tinode, hfree,
    hicache]

/-- **The superblock round trip.** An object whose fields fit the superblock is saved; no other
block of the image changes; and what is loaded from the file is the object again, its clock
apart. -/
theorem save_load (fs : Fsw) (h : fs.InRange) (hold : fs.disk.Holds 1) :
    ∃ fs', outcome Fsw.save fs = (.ok (), fs') ∧
      fs' = { fs with file := fs'.file, disk := fs'.disk, ticks := fs.ticks + 1 } ∧
      (∀ b, b ≠ 1 → fs'.disk.block b = fs.disk.block b) ∧
      (∀ ino, 0 < ino → fs'.disk.iread ino = fs.disk.iread ino) ∧
      ∀ clock, Fsw.load clock fs.disk.base fs'.file = .ok { fs' with clock, ticks := 0 } := by
  obtain ⟨d, sb, hsave, hwrote, hlen, hsaid⟩ := save_said h hold
  have hblock : d.block 1 = sb := hwrote.block_self hold hlen
  have himage : (⟨d.bytes, fs.disk.base⟩ : Image) = d := by
    rw [← hwrote.base]
  refine ⟨_, hsave, rfl, fun b hb => hwrote.block_ne hlen hb, fun ino hino =>
    hwrote.iread_low hlen hino (by decide), fun clock => ?_⟩
  have hloaded := @loaded_said _ h fs.disk.base d.bytes (by rwa [himage, hblock]) clock
  rw [load_eq clock (by rw [← hlen, ← hblock]; exact congrArg (fun d => (Image.block d 1).length) himage)]
  rw [himage] at hloaded
  exact congrArg Except.ok hloaded

theorem tiny_held : tiny.disk.Holds 1 := Image.holds_of_lt (n := 6) length_tinyFile.ge (by decide)

theorem save_load_tiny : ∃ fs', outcome Fsw.save tiny = (.ok (), fs') ∧
    fs' = { tiny with file := fs'.file, disk := fs'.disk, ticks := tiny.ticks + 1 } ∧
    (∀ b, b ≠ 1 → fs'.disk.block b = tiny.disk.block b) ∧
    (∀ ino, 0 < ino → fs'.disk.iread ino = tiny.disk.iread ino) ∧
    ∀ clock, Fsw.load clock tiny.disk.base fs'.file = .ok { fs' with clock, ticks := 0 } :=
  save_load tiny ⟨by decide, by decide, by decide, rfl, by decide, by decide, rfl, by decide, by decide, by decide⟩
    tiny_held

end Sbc386Ex.Cohfs

import Sbc386Ex.Cohfs.Refines

/-!
# Sbc386Ex.Cohfs.Sessions

Whole sessions of `cohfsw.py`, from image file to image file: the file is loaded, the calls are run, the
result is saved.
-/

namespace Sbc386Ex.Cohfs

open Raising

variable {fs fs' : Fsw} {F : Files} {own : Nat → List Nat} {l : List Nat}

/-- An image file that keeps the files `F`. The inodes are in the blocks before `isize`, the file system
ends at `fsize`. -/
structure Kept (isize fsize : Nat) (F : Files) (file : List Byte) : Prop where
  isize : (Fsw.loaded (fun _ => 0) 0 file).isize = isize
  fsize : (Fsw.loaded (fun _ => 0) 0 file).fsize = fsize
  keeps : ∃ own l, (Fsw.loaded (fun _ => 0) 0 file).Keeps F own l

/-- The inodes of a file system whose files start at the block `isize`. -/
def inosOf (isize : Nat) : List Nat := List.range' 1 ((isize - 2) * (BSIZE / INOSZ))

namespace Fsw.Keeps

/-- The files are where no inode is, and no superblock. -/
theorem withDisk (h : fs.Keeps F own l) {d : Image} (hbase : d.base = fs.disk.base)
    (hlen : d.bytes.length = fs.disk.bytes.length) (hblock : ∀ b, fs.isize ≤ b → d.block b = fs.disk.block b)
    (hiread : ∀ ino, Image.InTable fs.isize ino → d.iread ino = fs.disk.iread ino) :
    (fs.withDisk d).Keeps F own l where
  base := hbase.trans h.base
  pool := h.pool.withDisk hbase hlen fun b hb => hblock b (h.pool.range b hb).1
  root := h.root
  addressed := h.addressed
  stored ino hino := by
    obtain ⟨ip, hip, hstored⟩ := h.stored ino hino
    exact ⟨ip, (hiread ino hino).trans hip, hstored.frame fun b hb => hblock b ((h.own_inFiles hino).2 b hb).1⟩
  parted := h.parted
  cache := h.cache
  named := h.named

/-- What else the object has says nothing of the files. -/
theorem aside (h : fs.Keeps F own l) (file : List Byte) (clock : Nat → Int) (ticks : Nat) :
    ({ fs with file, clock, ticks } : Fsw).Keeps F own l where
  base := h.base
  pool := ⟨⟨h.pool.isize, h.pool.room, h.pool.fsize, h.pool.size⟩, h.pool.pile, h.pool.length, h.pool.longs,
    h.pool.nodup, h.pool.range, h.pool.total⟩
  root := h.root
  addressed := h.addressed
  stored := h.stored
  parted := h.parted
  cache := h.cache
  named := h.named

theorem holds_super (h : fs.Keeps F own l) : fs.disk.Holds 1 :=
  h.pool.holds (by
    have hroot := h.root
    have hroom := h.pool.room
    omega)

end Fsw.Keeps

/-! ### Saving -/

/-- The counts of inodes that are saved fit into the superblock. -/
theorem of_superBlock {t : Int} {sb : List Byte} (h : fs.superBlock t = .ok sb) :
    (-0x8000 ≤ fs.ninode ∧ fs.ninode < 0x8000) ∧ 0 ≤ fs.tinode ∧ fs.tinode < 0x10000 := by
  obtain ⟨_, -, h₁⟩ := of_bind_ok h
  obtain ⟨_, -, h₂⟩ := of_bind_ok h₁
  obtain ⟨_, -, h₃⟩ := of_bind_ok h₂
  obtain ⟨_, -, h₄⟩ := of_bind_ok h₃
  obtain ⟨_, -, h₅⟩ := of_bind_ok h₄
  obtain ⟨_, -, h₆⟩ := of_bind_ok h₅
  obtain ⟨_, hninode, h₇⟩ := of_bind_ok h₆
  obtain ⟨_, -, h₈⟩ := of_bind_ok h₇
  obtain ⟨_, -, h₉⟩ := of_bind_ok h₈
  obtain ⟨_, -, h₁₀⟩ := of_bind_ok h₉
  obtain ⟨_, -, h₁₁⟩ := of_bind_ok h₁₀
  obtain ⟨_, -, h₁₂⟩ := of_bind_ok h₁₁
  obtain ⟨_, htinode, -⟩ := of_bind_ok h₁₂
  exact ⟨of_packh hninode, of_packH htinode⟩

theorem of_save (hrun : outcome Fsw.save fs = (.ok (), fs')) :
    (-0x8000 ≤ fs.ninode ∧ fs.ninode < 0x8000) ∧ 0 ≤ fs.tinode ∧ fs.tinode < 0x10000 := by
  obtain ⟨t, fs₁, hnow, hthen⟩ := of_outcome_bind hrun
  obtain ⟨sb, fs₂, hread, -⟩ := of_outcome_bind hthen
  cases hnow
  obtain ⟨hsb, -⟩ := of_reading hread
  exact @of_superBlock fs.ticked _ _ hsb

/-- What of the inode cache was loaded can be saved. -/
structure Fsw.Cached (fs : Fsw) : Prop where
  isize : fs.isize < 65536
  length : fs.icache.length = NICINOD
  icache : ∀ ino ∈ fs.icache, ino < 65536

theorem cached_loaded (clock : Nat → Int) (base : Nat) (file : List Byte) :
    (Fsw.loaded clock base file).Cached where
  isize := word_lt (Image.block { bytes := file, base } 1) SB_ISIZE
  length := by rw [Fsw.loaded, List.length_map, List.length_range]
  icache ino hmem := by
    obtain ⟨i, -, rfl⟩ := List.mem_map.mp hmem
    exact word_lt (Image.block { bytes := file, base } 1) (SB_INODE + 2 * i)

theorem Fsw.Steps.cached (h : fs.Steps fs') (hcached : fs.Cached) : fs'.Cached :=
  ⟨h.isize ▸ hcached.isize, h.icache ▸ hcached.length, h.icache ▸ hcached.icache⟩

/-- **What is saved is kept.** -/
theorem save_kept (h : fs.Keeps F own l) (hcached : fs.Cached) (hrun : outcome Fsw.save fs = (.ok (), fs')) :
    Kept fs.isize fs.fsize F fs'.file := by
  obtain ⟨hninode, htinode⟩ := of_save hrun
  have hrange : fs.InRange := h.pool.inRange
    ⟨hninode, hcached.length, hcached.icache, htinode, hcached.isize⟩
  obtain ⟨d, sb, hsave, hwrote, hlen, hsaid⟩ := save_said hrange h.holds_super
  obtain rfl : fs.saved d = fs' := (Prod.mk.inj (hsave.symm.trans hrun)).2
  have himage : (⟨d.bytes, 0⟩ : Image) = d := by rw [← h.base, ← hwrote.base]
  have hloaded := @loaded_said _ hrange 0 d.bytes
    (by rwa [himage, hwrote.block_self h.holds_super hlen]) fun _ => 0
  have hroot := h.root
  have hkeeps := (h.withDisk hwrote.base hwrote.put.length
    (fun b hb => hwrote.block_ne hlen (by omega))
    (fun ino hino => hwrote.iread_low hlen hino.1 (by decide))).aside d.bytes (fun _ => 0) 0
  rw [himage] at hloaded
  refine ⟨?_, ?_, own, l, ?_⟩
  · exact (congrArg Fsw.isize hloaded :)
  · exact (congrArg Fsw.fsize hloaded :)
  · exact hloaded.symm ▸ hkeeps

/-! ### Sessions -/

variable {file file' : List Byte} {isize fsize : Nat} {clock : Nat → Int}

theorem loaded_clock (clock : Nat → Int) (file : List Byte) : Fsw.loaded clock 0 file =
    { Fsw.loaded (fun _ => 0) 0 file with file, clock, ticks := 0 } := by
  simp only [Fsw.loaded]

theorem Kept.load (h : Kept isize fsize F file) (clock : Nat → Int) : ∃ fs own l,
    Fsw.load clock 0 file = .ok fs ∧ fs.Keeps F own l ∧ fs.Cached ∧ fs.isize = isize ∧ fs.fsize = fsize := by
  obtain ⟨own, l, hkeeps⟩ := h.keeps
  have hblock : (Image.block { bytes := file, base := 0 } 1).length = BSIZE :=
    Image.length_block hkeeps.holds_super
  have haside := hkeeps.aside file clock 0
  rw [← loaded_clock] at haside
  exact ⟨Fsw.loaded clock 0 file, own, l, load_eq clock hblock, haside, cached_loaded clock 0 file, h.isize, h.fsize⟩

/-- **Every session refines.** A session that ends well, of calls that are safe to make, leaves an image
file that keeps the files which the calls make of those it kept. -/
theorem session_run {calls : List Call} (h : Kept isize fsize F file)
    (hsafe : F.Safe (inosOf isize) (fsize - isize) calls)
    (hrun : session clock 0 calls file = (.ok (), file')) : ∃ F', F.Run (inosOf isize) calls F' ∧
    Kept isize fsize F' file' := by
  obtain ⟨fs, own, l, hload, hkeeps, hcached, rfl, rfl⟩ := h.load clock
  rw [session, hload] at hrun
  dsimp only at hrun
  obtain ⟨r, fs', hdone⟩ : ∃ r fs', outcome (do calls.forM Call.run; Fsw.save) fs = (r, fs') := ⟨_, _, rfl⟩
  rw [hdone] at hrun
  cases hrun
  obtain ⟨_, fs₁, hcalls, hsave⟩ := of_outcome_bind hdone
  obtain ⟨F', own', l', hwhole, hkeeps', hsteps⟩ := run_refines hkeeps hsafe hcalls
  have hkept := save_kept hkeeps' (hsteps.cached hcached) hsave
  rw [hsteps.isize, hsteps.fsize] at hkept
  exact ⟨F', hwhole, hkept⟩

end Sbc386Ex.Cohfs

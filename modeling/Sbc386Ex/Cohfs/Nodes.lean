import Sbc386Ex.Cohfs.Meaning
import Sbc386Ex.Cohfs.Writing

/-!
# Sbc386Ex.Cohfs.Nodes

The number of a device node: two bytes that are put into its inode where a file has its first
block number.
-/

namespace Sbc386Ex.Cohfs

open Raising

variable {fs fs' : Fsw} {F : Files} {own : Nat → List Nat} {l : List Nat} {ino : Nat}
  {b b' new : List Byte} {o p n : Nat}

/-- What is put into a part of a list is put into the list. -/
theorem Put.slice_within (h : Put (p + o) new b b') (hin : o + new.length ≤ n) (hn : p + n ≤ b.length) :
    Put o new (slice b p (p + n)) (slice b' p (p + n)) := by
  have hlen : (slice b p (p + n)).length = n := by
    rw [length_slice _ (by omega) hn]
    omega
  have hlen' : (slice b' p (p + n)).length = n := by
    rw [length_slice _ (by omega) (by rw [h.length]; exact hn)]
    omega
  refine ⟨hlen'.trans hlen.symm, fun i => ?_⟩
  by_cases hi : i < n
  · rw [getD_slice _ (by omega), getD_slice _ (by omega), h.bytes]
    by_cases hput : o ≤ i ∧ i < o + new.length
    · rw [if_pos hput, if_pos (by omega)]
      congr 1
      omega
    · rw [if_neg hput, if_neg (by omega)]
  · rw [if_neg (by omega), List.getD_eq_default _ _ (by omega), List.getD_eq_default _ _ (by omega)]

/-- The part of the list that it was put into. -/
theorem Put.whole (h : Put (p + o) new b b') (hin : o + new.length ≤ n) (hn : p + n ≤ b.length) :
    Put p (slice b' p (p + n)) b b' := by
  have hlen : (slice b' p (p + n)).length = n := by
    rw [length_slice _ (by omega) (by rw [h.length]; exact hn)]
    omega
  refine ⟨h.length, fun i => ?_⟩
  rw [hlen]
  by_cases hi : p ≤ i ∧ i < p + n
  · rw [if_pos hi, getD_slice _ (by omega)]
    congr 1
    omega
  · rw [if_neg hi, h.getD_of_apart (by omega)]

theorem set_set_put (b : List Byte) {o : Nat} (ho : o + 2 ≤ b.length) (x y : Byte) :
    Put o [x, y] b ((b.set o x).set (o + 1) y) := by
  refine ⟨by rw [List.length_set, List.length_set], fun i => ?_⟩
  simp only [List.getD_eq_getElem?_getD, List.getElem?_set, List.length_set, List.length_cons, List.length_nil]
  by_cases h₀ : o = i
  · subst h₀
    simp [show o < b.length by omega]
  · by_cases h₁ : o + 1 = i
    · subst h₁
      simp [show o + 1 < b.length by omega]
    · rw [if_neg h₁, if_neg h₀, if_neg (by omega)]

theorem of_setByte {v : Int} (hrun : outcome (Fsw.setByte o v) fs = (.ok (), fs')) : 0 ≤ v ∧ v < 256 ∧
    o < fs.disk.bytes.length ∧
    fs' = fs.withDisk { fs.disk with bytes := fs.disk.bytes.set o (BitVec.ofInt 8 v) } := by
  rw [Fsw.setByte] at hrun
  obtain ⟨bytes, fs₁, hread, hmodify⟩ := of_outcome_bind hrun
  obtain ⟨hset, rfl⟩ := of_reading hread
  cases hmodify
  split_ifs at hset with hv
  by_cases ho : o < fs₁.disk.bytes.length
  · rw [setItem_nat ho] at hset
    cases hset
    exact ⟨hv.1, hv.2, ho, rfl⟩
  · rw [setItem, position, if_pos (by omega), if_neg (by omega)] at hset
    cases hset

/-- The inode with two bytes of the first block number in it. -/
theorem ipOf_put {raw raw' : List Byte} {x y : Byte} (h : Put 12 [x, y] raw raw')
    (haddr : (ipOf raw).addr = List.replicate NADDR 0) :
    ipOf raw' = { ipOf raw with addr := (ipOf raw').addr } ∧
      (ipOf raw').addr.getD 0 0 = x.toNat * 65536 + y.toNat := by
  have hzero : tri raw 12 = 0 := by
    have hfirst : (ipOf raw).addr.getD 0 0 = tri raw 12 := rfl
    rw [← hfirst, haddr]
    rfl
  have hlast : (raw.getD 14 0).toNat * 256 = 0 :=
    (Nat.add_eq_zero_iff.mp (Nat.add_eq_zero_iff.mp hzero).1).2
  have hword : ∀ {k}, k + 2 ≤ 12 → word raw' k = word raw k := fun hk => h.word_of_apart (.inl hk)
  have hx : raw'.getD 12 0 = x := by
    rw [h.bytes, if_pos (by simp)]
    rfl
  have hy : raw'.getD 13 0 = y := by
    rw [h.bytes, if_pos (by simp)]
    rfl
  have hz : raw'.getD 14 0 = raw.getD 14 0 := h.getD_of_apart (by simp)
  refine ⟨?_, ?_⟩
  · show Ip.mk (word raw' 0) (short (word raw' 2)) (word raw' 4) (word raw' 6) (long raw' 8) _ =
      Ip.mk (word raw 0) (short (word raw 2)) (word raw 4) (word raw 6) (long raw 8) _
    rw [long, long, hword (k := 0) (by decide), hword (k := 2) (by decide), hword (k := 4) (by decide),
      hword (k := 6) (by decide), hword (k := 8) (by decide), hword (k := 8 + 2) (by decide)]
    rfl
  · show tri raw' 12 = _
    rw [tri, hx, hy, hz, hlast, Nat.add_zero]

/-- **The number of a node** is set. -/
theorem of_number {ip : Ip} {f : File} {minor major : Int} (h : fs.Keeps F own l)
    (hino : Image.InTable fs.isize ino)
    (hip : fs.disk.iread ino = .ok ip) (hdevice : ip.Device) (haddr : ip.addr = List.replicate NADDR 0)
    (hf : F ino = some f)
    (hrun : outcome (do
      Fsw.setByte (fs.disk.ioff ino + 12) minor
      Fsw.setByte (fs.disk.ioff ino + 13) major) fs = (.ok (), fs')) :
    fs'.Keeps (F.set ino (some { f with content := .device (minor * 65536 + major).toNat })) own l ∧ fs.Steps fs' := by
  obtain ⟨_, fs₁, hfirst, hsecond⟩ := of_outcome_bind hrun
  obtain ⟨hminor, hminor', ho, rfl⟩ := of_setByte hfirst
  obtain ⟨hmajor, hmajor', ho', hfs'⟩ := of_setByte hsecond
  have hdone : fs' = fs.withDisk ⟨(fs.disk.bytes.set (fs.disk.ioff ino + 12) (BitVec.ofInt 8 minor)).set
    (fs.disk.ioff ino + 13) (BitVec.ofInt 8 major), fs.disk.base⟩ := hfs'
  have hroom := h.holdsInode hino
  have hsize : INOSZ = 64 := rfl
  rw [Image.HoldsInode, hsize] at hroom
  have hput := set_set_put fs.disk.bytes (o := fs.disk.ioff ino + 12) (by omega) (BitVec.ofInt 8 minor)
    (BitVec.ofInt 8 major)
  have hip' : ipOf (slice fs.disk.bytes (fs.disk.ioff ino) (fs.disk.ioff ino + INOSZ)) = ip := by
    rw [iread_eq (h.holdsInode hino)] at hip
    exact Except.ok.inj hip
  obtain ⟨hsame, hnumber⟩ := ipOf_put (hput.slice_within (n := INOSZ) (by simp [INOSZ]) hroom)
    (by rw [hip', haddr])
  have hwhole := hput.whole (n := INOSZ) (by simp [INOSZ]) hroom
  generalize (fs.disk.bytes.set (fs.disk.ioff ino + 12) (BitVec.ofInt 8 minor)).set (fs.disk.ioff ino + 13)
    (BitVec.ofInt 8 major) = bytes at hwhole hsame hnumber hdone
  have hraw : (slice bytes (fs.disk.ioff ino) (fs.disk.ioff ino + INOSZ)).length = INOSZ := by
    rw [length_slice _ (Nat.le_add_right _ _) (by rw [hwhole.length]; exact hroom), Nat.add_sub_cancel_left]
  generalize slice bytes (fs.disk.ioff ino) (fs.disk.ioff ino + INOSZ) = raw at hwhole hsame hnumber hraw
  have hwrote : fs.disk.WroteInode ino raw ⟨bytes, fs.disk.base⟩ := ⟨rfl, hwhole⟩
  generalize (⟨bytes, fs.disk.base⟩ : Image) = d at hwrote hdone
  subst hdone
  obtain ⟨ip₀, hip₀, hstored⟩ := h.stored ino hino
  obtain rfl : ip₀ = ip := Except.ok.inj (hip₀.symm.trans hip)
  have hvalue : (ipOf raw).addr.getD 0 0 = (minor * 65536 + major).toNat := by
    rw [hnumber, BitVec.toNat_ofInt, BitVec.toNat_ofInt]
    omega
  rw [hip'] at hsame
  have hself : Stored d (ipOf raw) (own ino)
      (some { f with content := .device (minor * 65536 + major).toNat }) := by
    rw [hf] at hstored
    rw [← hvalue]
    generalize own ino = blocks at hstored
    generalize hg : some f = g at hstored
    cases hstored with
    | free => cases hg
    | device =>
        cases hg
        generalize hnew : ipOf raw = new at hsame
        rw [hsame]
        exact .device hdevice
    | file _ device => exact absurd hdevice device
  have hblock : ∀ b, fs.isize ≤ b → d.block b = fs.disk.block b := fun b hb =>
    hwrote.block_eq hraw hino (.inl hb)
  have hsteps : fs.Steps (fs.withDisk d) := ⟨rfl, rfl, rfl, le_rfl, hwrote.base⟩
  have hkeeps := @Fsw.Keeps.update _ _ _ _ _ _ h hino hsteps (own ino) l _
    (h.pool.withDisk hwrote.base hwrote.put.length fun b hb => hblock b (h.pool.range b hb).1) (.refl _)
    (fun b hb _ => hblock b hb) (fun i hi hne => hwrote.iread_ne hraw hino.1 hi.1 hne)
    ⟨ipOf raw, (hwrote.iread_self hraw hroom).trans (unpackIp_eq hraw), hself⟩ (by
      intro names g hg hcontent
      cases hg
      cases hcontent)
  rw [Function.update_eq_self] at hkeeps
  exact ⟨hkeeps, hsteps⟩

theorem iread_of_iwrite {ip : Ip} (h : fs.Pool l) (hino : Image.InTable fs.isize ino) (hfits : ip.Writable)
    (hrun : outcome (Fsw.iwrite ino ip) fs = (.ok (), fs')) : fs'.disk.iread ino = .ok ip := by
  obtain ⟨-, d, raw, rfl, hwrote, hraw, hunpack⟩ :=
    of_iwrite (h.holdsInode hino) hfits.size hfits.length hfits.addr hrun
  exact (hwrote.iread_self hraw (h.holdsInode hino)).trans hunpack

theorem Files.set_set (F : Files) (ino : Nat) (f g : Option File) : (F.set ino f).set ino g = F.set ino g :=
  Function.update_idem ..

/-- **A device node** is written to an inode without blocks. -/
theorem of_devnode {mode major minor uid gid : Int} (h : fs.Keeps F own l) (hino : Image.InTable fs.isize ino)
    (hown : own ino = []) (hdevice : (Fsw.fresh mode 1 uid gid).Device)
    (hrun : outcome (do
      Fsw.iwrite ino (Fsw.fresh mode 1 uid gid)
      let fs ← get
      Fsw.setByte (fs.disk.ioff ino + 12) minor
      Fsw.setByte (fs.disk.ioff ino + 13) major) fs = (.ok (), fs')) :
    fs'.Keeps (F.set ino (some (Files.node mode major minor uid gid))) own l ∧ fs.Steps fs' := by
  obtain ⟨_, fs₁, hwrite, hnumber⟩ := of_outcome_bind hrun
  rw [outcome_bind_ok (outcome_get _)] at hnumber
  have hfits : (Fsw.fresh mode 1 uid gid).Writable := ⟨by simp [Fsw.fresh], List.length_replicate, fun a ha => by
    rw [List.eq_of_mem_replicate ha]
    decide⟩
  have hstored : Stored fs.disk (Fsw.fresh mode 1 uid gid) (own ino)
      (some ((Fsw.fresh mode 1 uid gid).file (.device 0))) := by
    rw [hown]
    exact .device hdevice
  have hnamed : ∀ names g, some ((Fsw.fresh mode 1 uid gid).file (.device 0)) = some g →
      g.content = .names names → ∀ e ∈ names, e.1 ≠ 0 → Image.InTable fs.isize e.1 := fun names g hg hcontent => by
    cases hg
    cases hcontent
  obtain ⟨h₁, hsteps₁, -⟩ := h.of_iwrite hino (.refl fs) h.pool (.refl _) (fun _ _ _ => rfl) (fun _ _ _ => rfl)
    hstored hfits hnamed hwrite
  rw [Function.update_eq_self] at h₁
  obtain ⟨h₂, hsteps₂⟩ := of_number h₁ (hsteps₁.isize.symm ▸ hino) (iread_of_iwrite h.pool hino hfits hwrite)
    hdevice rfl (Files.set_self ..) hnumber
  rw [Files.set_set] at h₂
  exact ⟨h₂, hsteps₁.trans hsteps₂⟩

end Sbc386Ex.Cohfs

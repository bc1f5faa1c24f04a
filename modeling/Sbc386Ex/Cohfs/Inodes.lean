import Sbc386Ex.Cohfs.Super

/-!
# Sbc386Ex.Cohfs.Inodes

An inode on the disk: what `iwrite` packs `iread` unpacks, and `iwrite` changes no other inode
and no block of a file.
-/

namespace Sbc386Ex.Cohfs

open Raising

/-- The three bytes of a block number at a place. -/
def tri (b : List Byte) (o : Nat) : Nat :=
  (b.getD o 0).toNat * 65536 + (b.getD (o + 2) 0).toNat * 256 + (b.getD (o + 1) 0).toNat

/-- The fields have room for what they hold. -/
structure Ip.Fits (ip : Ip) : Prop where
  mode : 0 ≤ ip.mode ∧ ip.mode < 0x10000
  nlink : -0x8000 ≤ ip.nlink ∧ ip.nlink < 0x8000
  uid : 0 ≤ ip.uid ∧ ip.uid < 0x10000
  gid : 0 ≤ ip.gid ∧ ip.gid < 0x10000
  size : ip.size < 2 ^ 32
  length : ip.addr.length = NADDR
  addr : ∀ a ∈ ip.addr, a < 2 ^ 24

section Pack

variable {b b' b'' new : List Byte} {o p : Nat}

theorem Above.tri (h : Above o b b') (hp : p + 3 ≤ o) : Cohfs.tri b' p = Cohfs.tri b p := by
  rw [Cohfs.tri, Cohfs.tri, h _ (by omega), h _ (by omega), h _ (by omega)]

/-- The bytes of a block number. -/
def bytes24 (v : Nat) : List Byte := [BitVec.ofNat 8 (v >>> 16), BitVec.ofNat 8 v, BitVec.ofNat 8 (v >>> 8)]

theorem putl3_put (v : Nat) (h : o + 3 ≤ b.length) :
    ∃ b', putl3 b o v = .ok b' ∧ Put o (bytes24 v) b b' :=
  ⟨_, if_pos h, length_splice h rfl, getD_splice h rfl⟩

theorem tri_bytes24 {v : Nat} (hv : v < 2 ^ 24) (h : Put o (bytes24 v) b b') : tri b' o = v := by
  have h₀ := h.bytes o
  have h₁ := h.bytes (o + 1)
  have h₂ := h.bytes (o + 2)
  have hlen : (bytes24 v).length = 3 := rfl
  rw [hlen, if_pos (by omega), Nat.sub_self] at h₀
  rw [hlen, if_pos (by omega), Nat.add_sub_cancel_left] at h₁ h₂
  rw [tri, h₀, h₁, h₂]
  show (BitVec.ofNat 8 (v >>> 16)).toNat * 65536 + (BitVec.ofNat 8 (v >>> 8)).toNat * 256 +
    (BitVec.ofNat 8 v).toNat = v
  rw [BitVec.toNat_ofNat, BitVec.toNat_ofNat, BitVec.toNat_ofNat, Nat.shiftRight_eq_div_pow,
    Nat.shiftRight_eq_div_pow]
  omega

theorem tri_congr (h : ∀ i, o ≤ i → i < o + 3 → b'.getD i 0 = b.getD i 0) : tri b' o = tri b o := by
  rw [tri, tri, h o (by omega) (by omega), h (o + 1) (by omega) (by omega), h (o + 2) (by omega) (by omega)]

/-- The loop that puts block numbers into their places. -/
theorem putAddrs (addr : List Nat) {raw : List Byte} (h : o + 3 * addr.length ≤ raw.length) : ∃ raw',
    addr.zipIdx.foldlM (fun raw (a, i) => putl3 raw (o + 3 * i) a) raw = .ok raw' ∧
      raw'.length = raw.length ∧ (∀ i, i < o ∨ o + 3 * addr.length ≤ i → raw'.getD i 0 = raw.getD i 0) ∧
      ∀ i < addr.length, addr.getD i 0 < 2 ^ 24 → tri raw' (o + 3 * i) = addr.getD i 0 := by
  obtain ⟨raw', hfold, hlen, hkept, hplaces⟩ := @putEach o 3 (2 ^ 24) putl3 tri
    (fun {_ _} v hroom => by
      obtain ⟨b', hput, p⟩ := putl3_put v hroom
      exact ⟨b', bytes24 v, hput, p, rfl, fun hv => tri_bytes24 hv p⟩)
    (fun {_ _ _} hi => tri_congr hi) addr 0 raw (by rwa [Nat.zero_add])
  rw [Nat.zero_add, Nat.mul_zero, Nat.add_zero] at hkept
  exact ⟨raw', hfold, hlen, hkept, fun i hi hlt => by simpa only [Nat.zero_add] using hplaces i hi hlt⟩

end Pack

/-! ### A whole inode -/

/-- The bytes of an inode, unpacked. -/
def ipOf (raw : List Byte) : Ip where
  mode := word raw 0
  nlink := short (word raw 2)
  uid := word raw 4
  gid := word raw 6
  size := long raw 8
  addr := (List.range NADDR).map fun i => tri raw (12 + 3 * i)

theorem unpackIp_eq {raw : List Byte} (h : raw.length = INOSZ) : unpackIp raw = .ok (ipOf raw) := by
  have hlen : ∀ {n}, n ≤ 64 → n ≤ raw.length := fun hn => hn.trans h.ge
  have haddr : ((List.range NADDR).mapM fun i => l3 raw (12 + 3 * i)) =
      .ok ((List.range NADDR).map fun i => tri raw (12 + 3 * i)) := mapM_eq_ok fun i hi => by
    have hi' : i < 13 := List.mem_range.mp hi
    exact l3_eq (hlen (by omega))
  rw [unpackIp, bind_ok (u16_eq (hlen (by decide))), bind_ok (i16_eq (hlen (by decide))),
    bind_ok (u16_eq (hlen (by decide))), bind_ok (u16_eq (hlen (by decide))),
    bind_ok (pdplong_eq (hlen (by decide))), bind_ok haddr]
  rfl

theorem packH_int {v : Int} (h : 0 ≤ v ∧ v < 0x10000) : ∃ n < 65536,
    packH v = .ok (bytes16 n) ∧ v = (n : Int) := by
  obtain ⟨n, hn⟩ := Int.eq_ofNat_of_zero_le h.1
  have hlt : n < 65536 := by
    have hv := h.2
    omega
  exact ⟨n, hlt, hn ▸ packH_ok hlt, hn⟩

theorem tri_zeros (n o : Nat) : tri (List.replicate n (0 : Byte)) o = 0 := by
  have hzero : ∀ i, (List.replicate n (0 : Byte)).getD i 0 = 0 := fun i => by
    rw [List.getD_eq_getElem?_getD, List.getElem?_replicate]
    split_ifs <;> rfl
  rw [tri, hzero, hzero, hzero]
  rfl

/-- An inode is packed with fewer block numbers than it has room for: the others are zeros. -/
theorem packIp_padded {ip : Ip} (hlen : ip.addr.length ≤ NADDR)
    (h : ({ ip with addr := ip.addr ++ List.replicate (NADDR - ip.addr.length) 0 } : Ip).Fits) (t : Int) :
    ∃ raw, Fsw.packIp ip t = .ok raw ∧ raw.length = INOSZ ∧
      unpackIp raw = .ok { ip with addr := ip.addr ++ List.replicate (NADDR - ip.addr.length) 0 } := by
  obtain ⟨m, hm, hpackm, hmode⟩ := packH_int h.mode
  obtain ⟨n, hn, hpackn, hnlink⟩ := packh_ok h.nlink
  obtain ⟨u, hu, hpacku, huid⟩ := packH_int h.uid
  obtain ⟨g, hg, hpackg, hgid⟩ := packH_int h.gid
  dsimp only at hpackm hpackn hpacku hpackg hmode huid hgid hnlink
  have hzeros : (List.replicate INOSZ (0 : Byte)).length = 64 := List.length_replicate
  have haddrs : ip.addr.length ≤ 13 := hlen
  obtain ⟨r₁, e₁, p₁⟩ := packInto_put (bytes16 m ++ bytes16 n ++ bytes16 u ++ bytes16 g)
    (b := List.replicate INOSZ 0) (o := 0) (by
      rw [hzeros, List.length_append, List.length_append, List.length_append]
      simp only [length_bytes16]
      decide)
  obtain ⟨r₂, e₂, p₂⟩ := putpdp_put ip.size (b := r₁) (o := 8) (by rw [p₁.length, hzeros]; decide)
  have hlen₂ : r₂.length = 64 := by rw [p₂.length, p₁.length, hzeros]
  obtain ⟨r₃, e₃, hlen₃, hkept₃, hplaces₃⟩ := @putAddrs 12 ip.addr r₂ (by omega)
  obtain ⟨r₄, e₄, p₄⟩ := putpdp_put t (b := r₃) (o := 52) (by rw [hlen₃, hlen₂]; decide)
  obtain ⟨r₅, e₅, p₅⟩ := putpdp_put t (b := r₄) (o := 56) (by rw [p₄.length, hlen₃, hlen₂]; decide)
  obtain ⟨r₆, e₆, p₆⟩ := putpdp_put t (b := r₅) (o := 60)
    (by rw [p₅.length, p₄.length, hlen₃, hlen₂])
  have hlen₆ : r₆.length = INOSZ := by
    rw [p₆.length, p₅.length, p₄.length, hlen₃, hlen₂, INOSZ]
  -- what comes before the block numbers, and they, lie before all that follows
  have a₃ : Above 52 r₃ r₆ := p₄.above.trans (p₅.above.trans p₆.above (by decide)) (by decide)
  have a₂ : Above 12 r₂ r₆ := Above.trans (fun i hi => hkept₃ i (.inl hi)) a₃ (by decide)
  have a₁ : Above 8 r₁ r₆ := p₂.above.trans a₂ (by decide)
  refine ⟨r₆, ?_, hlen₆, ?_⟩
  · rw [Fsw.packIp, bind_ok hpackm, bind_ok hpackn, bind_ok hpacku, bind_ok hpackg, bind_ok e₁,
      bind_ok e₂, bind_ok e₃, bind_ok e₄, bind_ok e₅, e₆]
  · have hword : ∀ {k v}, k + 2 ≤ 8 → word (bytes16 m ++ bytes16 n ++ bytes16 u ++ bytes16 g) k = v →
        word r₆ k = v := fun {k v} hk hv => by
      have hput := p₁.word_at (k := k) (by
        simp only [List.length_append, length_bytes16]
        exact hk)
      rw [Nat.zero_add] at hput
      rw [a₁.word hk, hput, hv]
    have hm' : word r₆ 0 = m := hword (by decide) (word_bytes16 hm)
    have hn' : word r₆ 2 = n := hword (by decide) (word_bytes16 hn)
    have hu' : word r₆ 4 = u := hword (by decide) (word_bytes16 hu)
    have hg' : word r₆ 6 = g := hword (by decide) (word_bytes16 hg)
    have hsize : long r₆ 8 = ip.size := by
      rw [a₂.long (p := 8) (by decide)]
      exact (p₂.long_at (k := 0) (length_pdp _).ge).trans (long_pdp h.size)
    have haddr : ((List.range NADDR).map fun i => tri r₆ (12 + 3 * i)) =
        ip.addr ++ List.replicate (NADDR - ip.addr.length) 0 :=
      map_getD_range h.length fun i hi => by
        have hi' : i < 13 := hi
        rw [a₃.tri (by omega)]
        by_cases hput : i < ip.addr.length
        · rw [List.getD_append _ _ _ _ hput]
          refine hplaces₃ i hput ?_
          rw [List.getD_eq_getElem _ _ hput]
          exact h.addr _ (List.mem_append_left _ (List.getElem_mem hput))
        · -- nothing is put there
          have hsame : tri r₃ (12 + 3 * i) = 0 := by
            rw [tri_congr (b := List.replicate INOSZ 0) fun j hj _ => ?_, tri_zeros]
            rw [hkept₃ j (.inr (by omega)), p₂.getD_of_apart (.inr (by rw [length_pdp]; omega)),
              p₁.getD_of_apart (.inr (by simp only [List.length_append, length_bytes16]; omega))]
          rw [hsame, List.getD_append_right _ _ _ _ (by omega), List.getD_replicate _ (by
            have hcount : NADDR = 13 := rfl
            omega)]
    rw [unpackIp_eq hlen₆, ipOf, hm', hn', hu', hg', hsize, haddr, ← hmode, ← huid, ← hgid, hnlink]

/-- **The inode round trip.** -/
theorem packIp_ok {ip : Ip} (h : ip.Fits) (t : Int) :
    ∃ raw, Fsw.packIp ip t = .ok raw ∧ raw.length = INOSZ ∧ unpackIp raw = .ok ip := by
  have hpadded : ({ ip with addr := ip.addr ++ List.replicate (NADDR - ip.addr.length) 0 } : Ip) = ip := by
    rw [h.length, Nat.sub_self, List.replicate_zero, List.append_nil]
  have hpack := packIp_padded h.length.le (by rwa [hpadded]) t
  rwa [hpadded] at hpack

theorem of_packH {v : Int} {b : List Byte} (h : packH v = .ok b) : 0 ≤ v ∧ v < 0x10000 := by
  unfold packH at h
  split_ifs at h with hv
  exact hv

theorem of_packh {v : Int} {b : List Byte} (h : packh v = .ok b) : -0x8000 ≤ v ∧ v < 0x8000 := by
  unfold packh at h
  split_ifs at h with hv
  exact hv

/-- What does not fit is not packed. -/
theorem fits_of_packIp {ip : Ip} {t : Int} {raw : List Byte} (h : Fsw.packIp ip t = .ok raw)
    (hsize : ip.size < 2 ^ 32) (hlen : ip.addr.length = NADDR) (haddr : ∀ a ∈ ip.addr, a < 2 ^ 24) :
    ip.Fits := by
  rw [Fsw.packIp] at h
  obtain ⟨_, hm, h⟩ := of_bind_ok h
  obtain ⟨_, hn, h⟩ := of_bind_ok h
  obtain ⟨_, hu, h⟩ := of_bind_ok h
  obtain ⟨_, hg, h⟩ := of_bind_ok h
  exact ⟨of_packH hm, of_packh hn, of_packH hu, of_packH hg, hsize, hlen, haddr⟩

/-- What is unpacked fits. -/
theorem fits_ipOf (raw : List Byte) : (ipOf raw).Fits where
  mode := ⟨Int.natCast_nonneg _, Int.ofNat_lt.mpr (word_lt _ _)⟩
  nlink := short_lt (word_lt _ _)
  uid := ⟨Int.natCast_nonneg _, Int.ofNat_lt.mpr (word_lt _ _)⟩
  gid := ⟨Int.natCast_nonneg _, Int.ofNat_lt.mpr (word_lt _ _)⟩
  size := long_lt _ _
  length := (List.length_map ..).trans List.length_range
  addr := fun a ha => by
    obtain ⟨i, -, rfl⟩ := List.mem_map.mp ha
    have h₀ := (raw.getD (12 + 3 * i) 0).isLt
    have h₁ := (raw.getD (12 + 3 * i + 1) 0).isLt
    have h₂ := (raw.getD (12 + 3 * i + 2) 0).isLt
    unfold tri
    omega

/-! ### On the disk -/

section Disk

variable {fs : Fsw} {ino : Nat} {ip : Ip}

/-- The inode is in the image. -/
def Image.HoldsInode (d : Image) (ino : Nat) : Prop := d.ioff ino + INOSZ ≤ d.bytes.length

theorem iread_eq {d : Image} (h : d.HoldsInode ino) :
    d.iread ino = .ok (ipOf (slice d.bytes (d.ioff ino) (d.ioff ino + INOSZ))) := by
  rw [Image.iread, unpackIp_eq]
  rw [length_slice _ (by omega) h]
  omega

theorem fits_of_iread {d : Image} (h : d.HoldsInode ino) (hip : d.iread ino = .ok ip) : ip.Fits := by
  rw [iread_eq h] at hip
  rw [← Except.ok.inj hip]
  exact fits_ipOf _

/-- The object once an inode is written and the disk is `d`. -/
def Fsw.inodeWritten (fs : Fsw) (d : Image) : Fsw := { fs with disk := d, ticks := fs.ticks + 1 }

/-- `iwrite` writes what fits, and where it returns what it wrote does. -/
theorem of_iwrite (hroom : fs.disk.HoldsInode ino) (hsize : ip.size < 2 ^ 32)
    (hlen : ip.addr.length = NADDR) (haddr : ∀ a ∈ ip.addr, a < 2 ^ 24) {fs' : Fsw}
    (h : outcome (Fsw.iwrite ino ip) fs = (.ok (), fs')) :
    ip.Fits ∧ ∃ d raw, fs' = fs.inodeWritten d ∧ fs.disk.WroteInode ino raw d ∧ raw.length = INOSZ ∧
      unpackIp raw = .ok ip := by
  rw [Fsw.iwrite, outcome_bind_ok (now_eq fs)] at h
  obtain ⟨raw, t, hraw, h⟩ := of_outcome_bind h
  rw [outcome_reading] at hraw
  obtain ⟨hpack, rfl⟩ := Prod.mk.inj hraw
  have hfits := fits_of_packIp hpack hsize hlen haddr
  obtain ⟨raw', hpack', hlen', hunpack⟩ := packIp_ok hfits (fs.clock fs.ticks)
  obtain rfl : raw' = raw := Except.ok.inj (hpack'.symm.trans hpack)
  rw [outcome_modify] at h
  have hend : fs.disk.ioff ino + raw'.length = fs.disk.ioff ino + INOSZ := by rw [hlen']
  refine ⟨hfits, _, raw', (Prod.mk.inj h).2.symm, ⟨rfl, ?_⟩, hlen', hunpack⟩
  refine ⟨length_splice hroom hend, fun i => ?_⟩
  rw [hend]
  exact getD_splice hroom hend i

end Disk

end Sbc386Ex.Cohfs

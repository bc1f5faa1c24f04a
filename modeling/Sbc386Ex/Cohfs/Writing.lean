import Sbc386Ex.Cohfs.Files

/-!
# Sbc386Ex.Cohfs.Writing

What the writer does to the files of an image. Each of its steps leaves an image that keeps files:
those there were but for the one whose inode is written.
-/

namespace Sbc386Ex.Cohfs

open Raising

variable {fs fs' : Fsw} {F : Files} {own : Nat → List Nat} {l : List Nat} {ino : Nat}

/-- What a step that writes an inode does to the object besides: the free list, the inode cache, the time. -/
structure Fsw.Steps (fs fs' : Fsw) : Prop where
  isize : fs'.isize = fs.isize
  fsize : fs'.fsize = fs.fsize
  icache : fs'.icache = fs.icache
  ninode : fs'.ninode ≤ fs.ninode
  base : fs'.disk.base = fs.disk.base

theorem Fsw.Steps.refl (fs : Fsw) : fs.Steps fs := ⟨rfl, rfl, rfl, le_rfl, rfl⟩

theorem Fsw.Steps.trans {fs'' : Fsw} (h : fs.Steps fs') (h' : fs'.Steps fs'') : fs.Steps fs'' :=
  ⟨h'.isize.trans h.isize, h'.fsize.trans h.fsize, h'.icache.trans h.icache, h'.ninode.trans h.ninode,
    h'.base.trans h.base⟩

theorem Fsw.Steps.inos (h : fs.Steps fs') : fs'.inos = fs.inos := by
  rw [Fsw.inos, Fsw.inos, Fsw.ninodes, Fsw.ninodes, h.isize]

theorem Fsw.Changes.steps {ts : List Nat} (h : fs.Changes ts fs') : fs.Steps fs' :=
  ⟨by rw [h.fields], by rw [h.fields], by rw [h.fields], by rw [h.fields], h.base⟩

/-- **One file changes.** Its former blocks and the free ones are its new blocks and the free ones; no
other block is written, and no other inode. -/
theorem Fsw.Keeps.update (h : fs.Keeps F own l) (hino : Image.InTable fs.isize ino) (hsteps : fs.Steps fs')
    {x l' : List Nat} {f : Option File} (hpool : fs'.Pool l') (hperm : (x ++ l').Perm (own ino ++ l))
    (hblock : ∀ b, fs.isize ≤ b → b ∉ own ino ++ l → fs'.disk.block b = fs.disk.block b)
    (hiread : ∀ i, Image.InTable fs.isize i → i ≠ ino → fs'.disk.iread i = fs.disk.iread i)
    (hself : ∃ ip, fs'.disk.iread ino = .ok ip ∧ Stored fs'.disk ip x f)
    (hnamed : ∀ names g, f = some g → g.content = .names names →
      ∀ e ∈ names, e.1 ≠ 0 → Image.InTable fs.isize e.1) :
    fs'.Keeps (F.set ino f) (Function.update own ino x) l' where
  base := hsteps.base.trans h.base
  pool := hpool
  root := hsteps.isize.symm ▸ h.root
  addressed := hsteps.fsize.symm ▸ h.addressed
  stored i hi := by
    rw [hsteps.isize] at hi
    by_cases hne : i = ino
    · subst hne
      rw [Function.update_self, Files.set_self]
      exact hself
    · obtain ⟨ip, hip, hstored⟩ := h.stored i hi
      obtain ⟨rest, hall, -, hrest⟩ := h.others hino
      have hnodup := List.nodup_append'.mp (hall.nodup_iff.mpr List.nodup_range')
      rw [Function.update_of_ne hne, Files.set_ne hne]
      refine ⟨ip, (hiread i hi hne).trans hip, hstored.frame fun b hb => hblock b ((h.own_inFiles hi).2 b hb).1 ?_⟩
      exact fun hmem => hnodup.2.2 hmem (hrest i hi hne hb)
  parted := by
    obtain ⟨rest, -, hparted, -⟩ := h.others hino
    rw [hsteps.inos, hsteps.isize, hsteps.fsize]
    exact hparted x l' hperm
  cache i hi i' hi' := by
    rw [hsteps.isize]
    rw [hsteps.icache] at hi'
    exact h.cache i (hi.trans_le hsteps.ninode) i' hi'
  named i names hi hnames := by
    rw [hsteps.isize] at hi ⊢
    by_cases hne : i = ino
    · subst hne
      obtain ⟨g, hg, hcontent⟩ := Files.names_eq hnames
      rw [Files.set_self] at hg
      exact hnamed names g hg hcontent
    · rw [Files.names_congr (Files.set_ne hne)] at hnames
      exact h.named i names hi hnames

theorem Fsw.Pool.inodeWritten {d : Image} {raw : List Byte} (h : fs.Pool l) (hino : Image.InTable fs.isize ino)
    (hraw : raw.length = INOSZ) (hwrote : fs.disk.WroteInode ino raw d) : (fs.inodeWritten d).Pool l :=
  have hpool := h.withDisk hwrote.base hwrote.put.length fun b hb =>
    hwrote.block_eq hraw hino (.inl (h.range b hb).1)
  ⟨⟨hpool.isize, hpool.room, hpool.fsize, hpool.size⟩, hpool.pile, hpool.length, hpool.longs, hpool.nodup,
    hpool.range, hpool.total⟩

/-- What an inode has is small enough to be written. -/
structure Ip.Writable (ip : Ip) : Prop where
  size : ip.size < 2 ^ 32
  length : ip.addr.length = NADDR
  addr : ∀ a ∈ ip.addr, a < 2 ^ 24

/-- **The inode is written**, the blocks before it: once it is, the image keeps the file it has. -/
theorem Fsw.Keeps.of_iwrite {fs₁ : Fsw} {x l' : List Nat} {f : Option File} {ip : Ip} (h : fs.Keeps F own l)
    (hino : Image.InTable fs.isize ino) (hsteps : fs.Steps fs₁) (hpool : fs₁.Pool l')
    (hperm : (x ++ l').Perm (own ino ++ l))
    (hblock : ∀ b, fs.isize ≤ b → b ∉ own ino ++ l → fs₁.disk.block b = fs.disk.block b)
    (hiread : ∀ i, Image.InTable fs.isize i → i ≠ ino → fs₁.disk.iread i = fs.disk.iread i)
    (hstored : Stored fs₁.disk ip x f) (hfits : ip.Writable)
    (hnamed : ∀ names g, f = some g → g.content = .names names →
      ∀ e ∈ names, e.1 ≠ 0 → Image.InTable fs.isize e.1)
    (hrun : outcome (Fsw.iwrite ino ip) fs₁ = (.ok (), fs')) :
    fs'.Keeps (F.set ino f) (Function.update own ino x) l' ∧ fs.Steps fs' ∧ ip.Fits ∧
    fs'.tinode = fs₁.tinode := by
  have hino' : Image.InTable fs₁.isize ino := hsteps.isize.symm ▸ hino
  obtain ⟨hip, d, raw, rfl, hwrote, hraw, hunpack⟩ :=
    Cohfs.of_iwrite (hpool.holdsInode hino') hfits.size hfits.length hfits.addr hrun
  have hdone : fs.Steps (fs₁.inodeWritten d) :=
    hsteps.trans ⟨rfl, rfl, rfl, le_rfl, hwrote.base⟩
  have hkept : ∀ b, fs.isize ≤ b → d.block b = fs₁.disk.block b := fun b hb =>
    hwrote.block_eq hraw hino' (.inl (hsteps.isize.symm ▸ hb))
  have hx : ∀ b ∈ x, fs.isize ≤ b := fun b hb => by
    obtain ⟨-, hown⟩ := h.own_inFiles hino
    rcases List.mem_append.mp (hperm.subset (List.mem_append_left _ hb)) with hmem | hmem
    · exact (hown b hmem).1
    · exact (h.pool.range b hmem).1
  refine ⟨h.update hino hdone (hpool.inodeWritten hino' hraw hwrote) hperm (fun b hb hout => ?_)
    (fun i hi hne => ?_) ⟨ip, ?_, hstored.frame fun b hb => hkept b (hx b hb)⟩ hnamed, hdone, hip, rfl⟩
  · exact (hkept b hb).trans (hblock b hb hout)
  · exact (hwrote.iread_ne hraw hino.1 hi.1 hne).trans (hiread i hi hne)
  · exact (hwrote.iread_self hraw (hpool.holdsInode hino')).trans hunpack

theorem LaidOut.size_lt {d : Image} {addr bs ins : List Nat} (h : LaidOut d addr bs ins) {size : Nat}
    (hcount : bs.length = (size + BSIZE - 1) / BSIZE) : size < 2 ^ 32 := by
  have hroom := h.room
  have hmost : ND + NIND + NIND * NIND = 16522 := rfl
  have hsize : BSIZE = 512 := rfl
  rw [hcount, hmost, hsize] at hroom
  omega

/-- The numbers of the blocks that an inode has or may get fit into it. -/
theorem Fsw.Keeps.addressed_own (h : fs.Keeps F own l) (hino : Image.InTable fs.isize ino) :
    ∀ b ∈ own ino ++ l, b < 2 ^ 24 := fun b hb => by
  rcases List.mem_append.mp hb with hmem | hmem
  · exact ((h.own_inFiles hino).2 b hmem).2.trans_le h.addressed
  · exact (h.pool.range b hmem).2.trans_le h.addressed

/-- **A file is rewritten**: `setdata` and `iwrite`. -/
theorem Fsw.Keeps.of_rewrite {ip : Ip} {bs ins : List Nat} {data : List Byte} (h : fs.Keeps F own l)
    (hino : Image.InTable fs.isize ino) (hown : own ino = bs ++ ins) (hlaid : LaidOut fs.disk ip.addr bs ins)
    (hsome : l ≠ [] ∨ own ino = []) (hmode : ip.mode ≠ 0) (hdev : ¬ ip.Device)
    (hdir : ip.ifmt = S_IFDIR → 16 ∣ data.length ∧ ∀ e ∈ listing data, e.1 ≠ 0 → Image.InTable fs.isize e.1)
    (hrun : outcome (do Fsw.iwrite ino (← Fsw.setdata ip data)) fs = (.ok (), fs')) : ∃ x l',
      fs'.Keeps (F.set ino (some (ip.file (ip.content data)))) (Function.update own ino x) l' ∧ fs.Steps fs' ∧
      fs'.tinode = fs.tinode ∧ l'.length + blocksFor data.length = l.length + (own ino).length := by
  obtain ⟨ip', fs₁, hset, hwrite⟩ := of_outcome_bind hrun
  obtain ⟨hnodup, hin⟩ := h.own_inFiles hino
  rw [hown] at hnodup hin
  obtain ⟨hnodup₁, -, hdisjoint⟩ := List.nodup_append'.mp hnodup
  obtain ⟨bs', ins', l', addr, hperm, hpool, hchanges, rfl, hlaid', hcount, hdata⟩ :=
    of_setdata hlaid h.pool hnodup₁ hdisjoint hin (hown ▸ hsome) hset
  have hperm' : (bs' ++ ins' ++ l').Perm (own ino ++ l) := hown ▸ hperm
  have hsmall : ∀ b ∈ bs' ++ ins', b < 2 ^ 24 := fun b hb =>
    h.addressed_own hino b (hperm'.subset (List.mem_append_left _ hb))
  have hstored : Stored fs₁.disk { ip with addr, size := data.length } (bs' ++ ins')
      (some (ip.file (ip.content data))) :=
    .file hmode hdev hlaid' hcount hdata fun hd => (hdir hd).1
  have hblock : ∀ b, fs.isize ≤ b → b ∉ own ino ++ l → fs₁.disk.block b = fs.disk.block b := fun b _ hout =>
    hchanges.block b fun hmem => hout <| by
      -- what is written was the file's own, or free
      rw [hown]
      rcases List.mem_append.mp hmem with hmem | hmem
      · exact List.mem_append_left _ hmem
      · exact hperm.subset (List.mem_append_left _ hmem)
  have hnamed : ∀ names g, some (ip.file (ip.content data)) = some g → g.content = .names names →
      ∀ e ∈ names, e.1 ≠ 0 → Image.InTable fs.isize e.1 := fun names g hg hcontent => by
    cases hg
    obtain ⟨hd, rfl⟩ := Ip.content_names hcontent
    exact (hdir hd).2
  obtain ⟨hkeeps, hsteps, -, htinode⟩ := h.of_iwrite hino hchanges.steps hpool hperm' hblock
    (fun i hi _ => hchanges.iread i hi) hstored
    ⟨hlaid'.size_lt hcount, hlaid'.length, hlaid'.addr_lt (by decide) hsmall⟩ hnamed hwrite
  refine ⟨_, l', hkeeps, hsteps, htinode.trans (by rw [hchanges.fields]), ?_⟩
  have hlen := hperm'.length_eq
  have hnew := hlaid'.count
  rw [hcount] at hnew
  rw [blocksFor, ← hnew]
  simp only [List.length_append] at hlen ⊢
  omega

/-- A file with another count of links, in the same blocks. -/
theorem Stored.relinked {d : Image} {ip : Ip} {blocks : List Nat} {f : File}
    (h : Stored d ip blocks (some f)) (k : Int) :
    Stored d { ip with nlink := k } blocks (some { f with nlink := k }) := by
  generalize hf : some f = g at h
  cases h with
  | free => cases hf
  | device device =>
      cases hf
      exact .device device
  | file mode device laid count data dir =>
      cases hf
      exact .file mode device laid count data dir

theorem Stored.nlink_eq {d : Image} {ip : Ip} {blocks : List Nat} {f : File} (h : Stored d ip blocks (some f)) :
    ip.nlink = f.nlink := by
  generalize hg : some f = g at h
  cases h with
  | free => cases hg
  | device => cases hg; rfl
  | file => cases hg; rfl

theorem Fsw.Keeps.nlink_eq {ip : Ip} {f : File} (h : fs.Keeps F own l) (hino : Image.InTable fs.isize ino)
    (hip : fs.disk.iread ino = .ok ip) (hf : F ino = some f) : ip.nlink = f.nlink := by
  obtain ⟨ip', hip', hstored⟩ := h.stored ino hino
  obtain rfl : ip' = ip := Except.ok.inj (hip'.symm.trans hip)
  exact (hf ▸ hstored).nlink_eq

/-- **The links of a file are counted anew.** -/
theorem Fsw.Keeps.of_relink {ip : Ip} {f : File} {k : Int} (h : fs.Keeps F own l)
    (hino : Image.InTable fs.isize ino)
    (hip : fs.disk.iread ino = .ok ip) (hf : F ino = some f)
    (hrun : outcome (Fsw.iwrite ino { ip with nlink := k }) fs = (.ok (), fs')) :
    fs'.Keeps (F.set ino (some { f with nlink := k })) own l ∧ fs.Steps fs' ∧ fs'.tinode = fs.tinode := by
  obtain ⟨ip', hip', hstored⟩ := h.stored ino hino
  obtain rfl : ip' = ip := Except.ok.inj (hip'.symm.trans hip)
  rw [hf] at hstored
  have hfits := fits_of_iread (h.holdsInode hino) hip
  have hnamed : ∀ names g, some { f with nlink := k } = some g → g.content = .names names →
      ∀ e ∈ names, e.1 ≠ 0 → Image.InTable fs.isize e.1 := fun names g hg hcontent => by
    cases hg
    refine h.named ino names hino ?_
    rw [Files.names, hf]
    obtain ⟨mode, nlink, uid, gid, content⟩ := f
    cases hcontent
    rfl
  obtain ⟨hkeeps, hsteps, -, htinode⟩ := h.of_iwrite hino (.refl fs) h.pool (.refl _) (fun _ _ _ => rfl)
    (fun _ _ _ => rfl) (hstored.relinked k) ⟨hfits.size, hfits.length, hfits.addr⟩ hnamed hrun
  rw [Function.update_eq_self] at hkeeps
  exact ⟨hkeeps, hsteps, htinode⟩

/-! ### Inodes -/

/-- The object with other counts of inodes. -/
def Fsw.counted (fs : Fsw) (ninode tinode : Int) : Fsw := { fs with ninode, tinode }

theorem Fsw.Pool.counted (h : fs.Pool l) (m k : Int) : (fs.counted m k).Pool l :=
  ⟨⟨h.isize, h.room, h.fsize, h.size⟩, h.pile, h.length, h.longs, h.nodup, h.range, h.total⟩

theorem Fsw.Keeps.counted (h : fs.Keeps F own l) {m : Int} (hm : m ≤ fs.ninode) (k : Int) :
    (fs.counted m k).Keeps F own l where
  base := h.base
  pool := h.pool.counted m k
  root := h.root
  addressed := h.addressed
  stored := h.stored
  parted := h.parted
  cache i hi := h.cache i (hi.trans_le hm)
  named := h.named

/-- An inode there is that is not in use, and may be handed out. -/
def Fsw.Spare (F : Files) (fs : Fsw) (ino : Nat) : Prop :=
  Image.InTable fs.isize ino ∧ ROOTINO < ino ∧ F ino = none

theorem Fsw.Keeps.none_of_mode (h : fs.Keeps F own l) (hino : Image.InTable fs.isize ino) {ip : Ip}
    (hip : fs.disk.iread ino = .ok ip) (hmode : ip.mode = 0) : F ino = none := by
  obtain ⟨ip', hip', hstored⟩ := h.stored ino hino
  obtain rfl : ip' = ip := Except.ok.inj (hip'.symm.trans hip)
  exact hstored.none_iff.mpr hmode

theorem of_getItem {α : Type} {m : List α} {n : Nat} {a : α} (h : getItem m n = .ok a) : m[n]? = some a := by
  by_cases hn : n < m.length
  · rw [getItem, position, if_pos (by omega), if_pos (by omega), Option.bind_some, Int.toNat_natCast,
      List.getElem?_eq_getElem hn] at h
    rw [List.getElem?_eq_getElem hn, ← Except.ok.inj h]
  · rw [getItem, position, if_pos (by omega), if_neg (by omega)] at h
    cases h

theorem of_fromCache : ∀ {n : Nat} {fs fs' : Fsw} {r : Option Nat}, fs.Keeps F own l →
    (0 < n → (n : Int) ≤ fs.ninode) →
    outcome (Fsw.fromCache n) fs = (.ok r, fs') →
    ∃ k ≤ fs.ninode, fs' = fs.counted k fs.tinode ∧ ∀ ino, r = some ino → fs.Spare F ino := by
  intro n
  induction n with
  | zero =>
      intro fs fs' r _ _ hrun
      cases hrun
      exact ⟨fs.ninode, le_rfl, rfl, nofun⟩
  | succ n ih =>
      intro fs fs' r h hn hrun
      have hmodify : outcome (modify fun fs : Fsw => { fs with ninode := n } : Op Unit) fs =
          (.ok (), fs.counted n fs.tinode) := outcome_modify _ _
      have hless : (n : Int) ≤ fs.ninode := by
        have hn' := hn n.succ_pos
        omega
      have h₁ := h.counted hless fs.tinode
      rw [Fsw.fromCache, outcome_bind_ok hmodify] at hrun
      generalize hfs₁ : fs.counted n fs.tinode = fs₁ at hrun h₁
      have hicache : fs₁.icache = fs.icache := by rw [← hfs₁, Fsw.counted]
      have hdisk : fs₁.disk = fs.disk := by rw [← hfs₁, Fsw.counted]
      obtain ⟨ino, fs₂, hget, hthen⟩ := of_outcome_bind hrun
      obtain ⟨hitem, rfl⟩ := of_reading hget
      obtain ⟨ip, fs₃, hlook, hlast⟩ := of_outcome_bind hthen
      obtain ⟨hread, rfl⟩ := of_reading hlook
      rw [hicache] at hitem
      rw [hdisk] at hread
      obtain ⟨hino, hroot⟩ := h.cache n (by have hn' := hn n.succ_pos; omega) ino (of_getItem hitem)
      split_ifs at hlast with hmode
      · cases hlast
        refine ⟨n, hless, hfs₁.symm, fun i hi => ?_⟩
        cases hi
        exact ⟨hino, hroot, h.none_of_mode hino hread hmode⟩
      · subst hfs₁
        obtain ⟨k, hk, rfl, hspare⟩ := ih h₁ (fun _ => le_rfl) hlast
        exact ⟨k, hk.trans hless, rfl, hspare⟩

theorem of_firstFree {d : Image} : ∀ {inos : List Nat} {ino : Nat}, Fsw.firstFree d inos = .ok (some ino) →
    ino ∈ inos ∧ ∃ ip, d.iread ino = .ok ip ∧ ip.mode = 0 := by
  intro inos
  induction inos with
  | nil => exact nofun
  | cons i inos ih =>
      intro ino h
      rw [Fsw.firstFree] at h
      obtain ⟨ip, hip, hrest⟩ := of_bind_ok h
      split_ifs at hrest with hmode
      · cases hrest
        exact ⟨List.mem_cons_self, ip, hip, hmode⟩
      · exact (ih hrest).imp_left (List.mem_cons_of_mem _)

/-- **A free inode**, where `ialloc` returns. -/
theorem of_ialloc (h : fs.Keeps F own l) (hrun : outcome Fsw.ialloc fs = (.ok ino, fs')) :
    fs'.Keeps F own l ∧ fs.Steps fs' ∧ fs'.tinode = fs.tinode - 1 ∧ fs.Spare F ino := by
  rw [Fsw.ialloc] at hrun
  obtain ⟨i, fs₁, hfind, hlast⟩ := of_outcome_bind hrun
  cases hlast
  rw [Fsw.findInode, outcome_bind_ok (outcome_get _)] at hfind
  obtain ⟨r, fs₂, hcache, hscan⟩ := of_outcome_bind hfind
  obtain ⟨k, hk, rfl, hspare⟩ := of_fromCache h (fun hpos => by omega) hcache
  have hcounted : ∀ m, fs.Steps (fs.counted k m) := fun m => ⟨rfl, rfl, rfl, hk, rfl⟩
  obtain _ | i' := r
  · -- none is left in the cache
    rw [Fsw.fromScan] at hscan
    obtain ⟨r, fs₃, hread, hfound⟩ := of_outcome_bind hscan
    obtain ⟨hscanned, rfl⟩ := of_reading hread
    obtain _ | i' := r
    · cases hfound
    · cases hfound
      obtain ⟨hmem, ip, hip, hmode⟩ := of_firstFree hscanned
      have hrange := List.mem_range'_1.mp hmem
      have hino : Image.InTable fs.isize ino := by
        have hcount : (fs.counted k fs.tinode).ninodes = (fs.isize - 2) * (BSIZE / INOSZ) := rfl
        rw [hcount] at hrange
        exact ⟨by omega, by omega⟩
      exact ⟨h.counted hk _, hcounted _, rfl, hino, by omega, h.none_of_mode hino hip hmode⟩
  · cases hscan
    exact ⟨h.counted hk _, hcounted _, rfl, hspare _ rfl⟩

/-! ### Directories -/

theorem lt_of_dirEntry {name : Text} {ent : List Byte} (h : Fsw.dirEntry name ino = .ok ent) : ino < 65536 := by
  obtain ⟨b, hb, -⟩ := of_bind_ok h
  have hrange := (of_packH hb).2
  omega

/-- A directory is rewritten with other entries. -/
theorem Fsw.Keeps.of_renamed {ip : Ip} {bs ins : List Nat} {names names' : Names} {data : List Byte}
    (h : fs.Keeps F own l) (hino : Image.InTable fs.isize ino) (hdir : ip.ifmt = S_IFDIR)
    (hf : F ino = some (ip.file (.names names))) (hown : own ino = bs ++ ins)
    (hlaid : LaidOut fs.disk ip.addr bs ins) (hsome : l ≠ []) (hdvd : 16 ∣ data.length)
    (hlisting : listing data = names') (hnamed : ∀ e ∈ names', e.1 ≠ 0 → Image.InTable fs.isize e.1)
    (hrun : outcome (do Fsw.iwrite ino (← Fsw.setdata ip data)) fs = (.ok (), fs')) : ∃ own' l',
      fs'.Keeps (F.withNames ino names') own' l' ∧ fs.Steps fs' ∧ fs'.tinode = fs.tinode ∧
      l'.length + blocksFor data.length = l.length + (own ino).length := by
  obtain ⟨hmode, hdev⟩ := Ip.mode_of_dir hdir
  obtain ⟨x, l', hkeeps, hsteps, htinode, hlen⟩ := h.of_rewrite hino hown hlaid (.inl hsome) hmode hdev
    (fun _ => ⟨hdvd, hlisting ▸ hnamed⟩) hrun
  rw [Ip.content, if_pos hdir, hlisting] at hkeeps
  have hsame : F.withNames ino names' = F.set ino (some (ip.file (.names names'))) := by
    rw [Files.withNames, hf]
    rfl
  rw [hsame]
  exact ⟨_, l', hkeeps, hsteps, htinode, hlen⟩

/-- **A name is entered.** -/
theorem of_dirent {dino : Nat} {name : Text} {names : Names} (h : fs.Keeps F own l)
    (hd : Image.InTable fs.isize dino) (hnames : F.names dino = some names) (hname : Plain name)
    (hino : Image.InTable fs.isize ino) (hsome : l ≠ [])
    (hrun : outcome (Fsw.dirent dino name ino) fs = (.ok (), fs')) : ∃ own' l',
      fs'.Keeps (F.withNames dino (names.enter ino name)) own' l' ∧ fs.Steps fs' ∧ fs'.tinode = fs.tinode := by
  obtain ⟨ip, bs, ins, bytes, hip, hdir, hf, hown, hlaid, hdata, hlisting, hdvd, hlen⟩ := h.directory hd hnames
  have hread : outcome (Fsw.iread dino) fs = (.ok ip, fs) := outcome_reading_ok hip
  have hbytes : outcome (reading fun fs : Fsw => fs.disk.inodeData dino) fs = (.ok bytes, fs) := by
    rw [outcome_reading, hdata]
  rw [Fsw.dirent, outcome_bind_ok hread, outcome_bind_ok hbytes] at hrun
  obtain ⟨ent, fs₁, hpack, hthen⟩ := of_outcome_bind hrun
  obtain ⟨hent, rfl⟩ := of_reading hpack
  obtain ⟨ent', hent', hlen', hentry⟩ := dirEntry_eq (lt_of_dirEntry hent) hname
  obtain rfl : ent' = ent := Except.ok.inj (hent'.symm.trans hent)
  obtain ⟨bytes', hentered, hdvd', hlisting'⟩ := entered_eq hdvd hlen' hentry
  have hnew : outcome (reading fun _ : Fsw => Fsw.entered bytes ent') fs₁ = (.ok bytes', fs₁) := by
    rw [outcome_reading, hentered]
  rw [outcome_bind_ok hnew] at hthen
  rw [hlisting] at hlisting'
  obtain ⟨own', l', hkeeps, hsteps, htinode, -⟩ := h.of_renamed hd hdir hf hown hlaid hsome hdvd' hlisting'
    (fun e he hne => (Names.mem_enter he).elim (fun hmem => h.named dino names hd hnames e hmem hne)
      fun heq => by rwa [heq]) hthen
  exact ⟨own', l', hkeeps, hsteps, htinode⟩

/-- **A name is erased.** -/
theorem of_undirent {dino : Nat} {name : Text} {names : Names} (h : fs.Keeps F own l)
    (hd : Image.InTable fs.isize dino) (hnames : F.names dino = some names) (hsome : l ≠ [])
    (hrun : outcome (Fsw.undirent dino name) fs = (.ok ino, fs')) : names.find name = some ino ∧ ∃ own' l',
      fs'.Keeps (F.withNames dino (names.erase name)) own' l' ∧ fs.Steps fs' ∧ fs'.tinode = fs.tinode ∧
      l'.length = l.length := by
  obtain ⟨ip, bs, ins, bytes, hip, hdir, hf, hown, hlaid, hdata, hlisting, hdvd, hlen⟩ := h.directory hd hnames
  have hread : outcome (Fsw.iread dino) fs = (.ok ip, fs) := outcome_reading_ok hip
  have hbytes : outcome (reading fun fs : Fsw => fs.disk.inodeData dino) fs = (.ok bytes, fs) := by
    rw [outcome_reading, hdata]
  obtain ⟨r, hr, hfind, herased⟩ := findEntry_listing hdvd name
  have hplace : outcome (reading fun _ : Fsw => findEntry bytes name (entries bytes)) fs = (.ok r, fs) := by
    rw [outcome_reading, hr]
  rw [hlisting] at hfind herased
  rw [Fsw.undirent, outcome_bind_ok hread, outcome_bind_ok hbytes, outcome_bind_ok hplace] at hrun
  obtain _ | ⟨o, i⟩ := r
  · cases hrun
  · obtain ⟨ip', fs₁, hset, hthen⟩ := of_outcome_bind hrun
    obtain ⟨_, fs₂, hwrite, hlast⟩ := of_outcome_bind hthen
    cases hlast
    obtain ⟨hlisting', hdvd', hsame⟩ := herased o _ rfl
    obtain ⟨own', l', hkeeps, hsteps, htinode, hcount⟩ := h.of_renamed hd hdir hf hown hlaid hsome hdvd' hlisting'
      (fun e he hne => (Names.mem_erase he).elim (fun hmem => h.named dino names hd hnames e hmem hne)
        fun heq => absurd (by rw [heq]) hne) (by rw [outcome_bind_ok hset, hwrite])
    -- the directory is as long as it was, and takes as many blocks
    rw [hsame, hlen] at hcount
    exact ⟨hfind, own', l', hkeeps, hsteps, htinode, Nat.add_right_cancel hcount⟩

/-! ### Removal -/

/-- A file that is neither a directory nor a device. -/
theorem Fsw.Keeps.dataFile (h : fs.Keeps F own l) (hino : Image.InTable fs.isize ino) {ip : Ip}
    (hip : fs.disk.iread ino = .ok ip) (hmode : ip.mode ≠ 0) (hdev : ¬ ip.Device) (hdir : ip.ifmt ≠ S_IFDIR) :
    ∃ bs ins bytes, F ino = some (ip.file (.data bytes)) ∧ own ino = bs ++ ins ∧
      LaidOut fs.disk ip.addr bs ins := by
  obtain ⟨ip', hip', hstored⟩ := h.stored ino hino
  obtain rfl : ip' = ip := Except.ok.inj (hip'.symm.trans hip)
  generalize hf : F ino = f at hstored
  generalize hown : own ino = blocks at hstored
  cases hstored with
  | free mode => exact absurd mode hmode
  | device device => exact absurd device hdev
  | @file bs ins bytes mode device laid =>
      refine ⟨bs, ins, bytes, ?_, rfl, laid⟩
      rw [Ip.content, if_neg hdir]

/-- What the file says of its inode. -/
theorem Fsw.Keeps.kind (h : fs.Keeps F own l) (hino : Image.InTable fs.isize ino) {ip : Ip} {f : File}
    (hip : fs.disk.iread ino = .ok ip) (hf : F ino = some f) :
    ip.mode ≠ 0 ∧ ip.ifmt = f.ifmt ∧ (ip.Device → ∃ n, f.content = .device n) := by
  obtain ⟨ip', hip', hstored⟩ := h.stored ino hino
  obtain rfl : ip' = ip := Except.ok.inj (hip'.symm.trans hip)
  rw [hf] at hstored
  have hmode : ip'.mode ≠ 0 := fun hzero => by
    have hnone := hstored.none_iff.mpr hzero
    cases hnone
  generalize hg : some f = g at hstored
  generalize own ino = blocks at hstored
  cases hstored with
  | free => cases hg
  | device => cases hg; exact ⟨hmode, rfl, fun _ => ⟨_, rfl⟩⟩
  | file _ device => cases hg; exact ⟨hmode, rfl, fun hdev => absurd hdev device⟩

/-- **The last link of a file is gone**: its blocks are free, and its inode. -/
theorem of_removed {ip : Ip} {bs ins : List Nat} (h : fs.Keeps F own l) (hino : Image.InTable fs.isize ino)
    (hlaid : LaidOut fs.disk ip.addr bs ins) (hown : own ino = bs ++ ins) (hsome : l ≠ [])
    (hlast : ip.nlink - 1 ≤ 0)
    (hrun : outcome (do Fsw.iwrite ino (← Fsw.unlink ip)) fs = (.ok (), fs')) : ∃ l',
      fs'.Keeps (F.set ino none) (Function.update own ino []) l' ∧ fs.Steps fs' ∧ fs'.tinode = fs.tinode + 1 := by
  obtain ⟨hnodup, hin⟩ := h.own_inFiles hino
  rw [hown] at hnodup hin
  obtain ⟨hnodup₁, -, hdisjoint⟩ := List.nodup_append'.mp hnodup
  obtain ⟨fs₁, l', htruncate, hperm, hpool, hchanges⟩ := @truncate_pool _ _ { ip with nlink := ip.nlink - 1 } _ _
    hlaid h.pool hnodup₁ hdisjoint hin (.inl hsome)
  have hunlink : outcome (Fsw.unlink ip) fs =
      (.ok (Fsw.fresh 0 0 0 0), fs₁.counted fs₁.ninode (fs₁.tinode + 1)) := by
    rw [Fsw.unlink]
    dsimp only
    rw [if_pos hlast, outcome_bind_ok htruncate, outcome_bind_ok (outcome_modify _ _), outcome_pure]
    rfl
  rw [outcome_bind_ok hunlink] at hrun
  have hsteps : fs.Steps (fs₁.counted fs₁.ninode (fs₁.tinode + 1)) :=
    hchanges.steps.trans ⟨rfl, rfl, rfl, le_rfl, rfl⟩
  have hmost : ∀ a ∈ List.replicate NADDR 0, a < 2 ^ 24 := fun a ha => by
    rw [List.eq_of_mem_replicate ha]
    decide
  obtain ⟨hkeeps, hsteps', -, htinode⟩ := @Fsw.Keeps.of_iwrite _ _ _ _ _ _ _ [] l' none _ h hino hsteps
    (hpool.counted _ _) (by rw [List.nil_append, hown]; exact hperm)
    (fun b _ hout => hchanges.block b fun hmem => hout (hown ▸ List.mem_append_left _ hmem))
    (fun i hi _ => hchanges.iread i hi) (.free rfl) ⟨by decide, List.length_replicate, hmost⟩ nofun hrun
  refine ⟨l', hkeeps, hsteps', htinode.trans ?_⟩
  rw [hchanges.fields]
  rfl

end Sbc386Ex.Cohfs

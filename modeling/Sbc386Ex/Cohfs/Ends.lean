import Sbc386Ex.Cohfs.Mkfs

/-!
# Sbc386Ex.Cohfs.Ends

Where `put` of a new file ends well. There are blocks for what it writes, an inode is spare, and the
numbers fit: then no step on the way raises.
-/

namespace Sbc386Ex.Cohfs

open Raising

variable {fs fs' : Fsw} {F : Files} {own : Nat → List Nat} {l : List Nat} {ino : Nat} {path name : Text}

/-! ### Contents -/

/-- What the direct blocks hold takes as many blocks as there are pieces of it. -/
theorem blocksFor_direct {size : Nat} (h : size ≤ ND * BSIZE) :
    blocksFor size = (size + BSIZE - 1) / BSIZE ∧ blocksFor size ≤ ND := by
  have hten : ND = 10 := rfl
  have hsize : BSIZE = 512 := rfl
  rw [hten, hsize] at h
  have hfew : (size + BSIZE - 1) / BSIZE ≤ ND := by
    rw [hten, hsize]
    omega
  have hsame : blocksFor size = (size + BSIZE - 1) / BSIZE := by
    rw [blocksFor, treeBlocks, if_pos hfew, if_pos (hfew.trans (Nat.le_add_right ..))]
    rfl
  exact ⟨hsame, hsame ▸ hfew⟩

theorem fill_ends (ip : Ip) {data : List Byte} (h : fs.Pool l) (hdirect : data.length ≤ ND * BSIZE)
    (hroom : blocksFor data.length ≤ l.length) : ∃ ip' fs', outcome (Fsw.fill ip data) fs = (.ok ip', fs') := by
  obtain ⟨hcount, hfew⟩ := blocksFor_direct hdirect
  have hlen : (l.take (blocksFor data.length)).length = (Fsw.chunks BSIZE data).length := by
    rw [length_chunks, List.length_take, Nat.min_eq_left hroom, hcount]
  rw [← List.take_append_drop (blocksFor data.length) l] at h
  obtain ⟨fs₁, hblocks, -⟩ :=
    mapM_takes (fun piece hp => writeBlock_takes (mem_chunks (by decide) hp).1) h hlen
  have hdrop : (l.take (blocksFor data.length)).drop ND = [] :=
    List.drop_eq_nil_iff.mpr ((List.length_take_le _ _).trans hfew)
  rw [Fsw.fill, outcome_bind_ok hblocks, hdrop]
  exact ⟨_, _, rfl⟩

theorem setdata_ends {ip : Ip} {bs ins : List Nat} {data : List Byte} (hlaid : LaidOut fs.disk ip.addr bs ins)
    (h : fs.Pool l) (hnodup : (bs ++ ins).Nodup) (hout : (bs ++ ins).Disjoint l)
    (hin : ∀ b ∈ bs ++ ins, fs.InFiles b) (hsome : l ≠ [] ∨ bs ++ ins = []) (hdirect : data.length ≤ ND * BSIZE)
    (hroom : blocksFor data.length ≤ (bs ++ ins).length + l.length) :
    ∃ ip' fs', outcome (Fsw.setdata ip data) fs = (.ok ip', fs') := by
  obtain ⟨fs₁, l₁, htruncate, hperm, hpool, -⟩ := truncate_pool hlaid h hnodup hout hin hsome
  rw [setdata_eq, outcome_bind_ok htruncate]
  refine fill_ends _ hpool hdirect ?_
  rw [hperm.length_eq, List.length_append]
  exact hroom

/-- What fits is written. -/
theorem iwrite_ends {ip : Ip} (h : ip.Fits) (ino : Nat) (fs : Fsw) :
    ∃ d, outcome (Fsw.iwrite ino ip) fs = (.ok (), fs.inodeWritten d) := by
  obtain ⟨raw, hpack, -⟩ := packIp_ok h (fs.clock fs.ticks)
  have hread : outcome (reading fun _ : Fsw => Fsw.packIp ip (fs.clock fs.ticks)) fs.ticked = (.ok raw, fs.ticked) :=
    outcome_reading_ok hpack
  rw [Fsw.iwrite, outcome_bind_ok (now_eq fs), outcome_bind_ok hread, outcome_modify]
  exact ⟨_, rfl⟩

/-- **A file is rewritten**, where there are blocks for its new contents. -/
theorem rewrite_ends {ip : Ip} {bs ins : List Nat} {data : List Byte} (h : fs.Keeps F own l)
    (hino : Image.InTable fs.isize ino) (hown : own ino = bs ++ ins) (hlaid : LaidOut fs.disk ip.addr bs ins)
    (hsome : l ≠ [] ∨ own ino = []) (hfits : ip.Fits) (hdirect : data.length ≤ ND * BSIZE)
    (hroom : blocksFor data.length ≤ (own ino).length + l.length) : ∃ ip' fs₁ fs',
      outcome (Fsw.setdata ip data) fs = (.ok ip', fs₁) ∧ outcome (Fsw.iwrite ino ip') fs₁ = (.ok (), fs') ∧
        fs'.ninode = fs.ninode := by
  obtain ⟨hnodup, hin⟩ := h.own_inFiles hino
  have hsmall := h.addressed_own hino
  rw [hown] at hnodup hin hsome hroom hsmall
  obtain ⟨hnodup₁, -, hdisjoint⟩ := List.nodup_append'.mp hnodup
  obtain ⟨ip', fs₁, hset⟩ := setdata_ends hlaid h.pool hnodup₁ hdisjoint hin hsome hdirect hroom
  obtain ⟨bs', ins', l', addr, hperm, -, hchanges, rfl, hlaid', hcount, -⟩ :=
    of_setdata hlaid h.pool hnodup₁ hdisjoint hin hsome hset
  have hfits' : ({ ip with addr, size := data.length } : Ip).Fits :=
    ⟨hfits.mode, hfits.nlink, hfits.uid, hfits.gid, hlaid'.size_lt hcount, hlaid'.length,
      hlaid'.addr_lt (by decide) fun b hb => hsmall b (hperm.subset (List.mem_append_left _ hb))⟩
  obtain ⟨d, hwrite⟩ := iwrite_ends hfits' ino fs₁
  refine ⟨_, _, _, hset, hwrite, ?_⟩
  rw [Fsw.inodeWritten, hchanges.fields]

/-! ### Inodes -/

/-- The cache is searched to its end. -/
theorem fromCache_ends : ∀ {n : Nat} {fs : Fsw}, fs.Keeps F own l → (0 < n → (n : Int) ≤ fs.ninode) →
    n ≤ fs.icache.length → ∃ r k, outcome (Fsw.fromCache n) fs = (.ok r, fs.counted k fs.tinode) ∧
      (0 ≤ k ∨ k = fs.ninode) := by
  intro n
  induction n with
  | zero => exact fun {fs} _ _ _ => ⟨none, fs.ninode, rfl, .inr rfl⟩
  | succ n ih =>
      intro fs h hn hlen
      have hmodify : outcome (modify fun fs : Fsw => { fs with ninode := n } : Op Unit) fs =
          (.ok (), fs.counted n fs.tinode) := outcome_modify _ _
      have hless : (n : Int) < fs.ninode := by
        have hn' := hn n.succ_pos
        omega
      have hlast : getItem fs.icache n = .ok (fs.icache.getD n 0) := getItem_last hlen
      generalize fs.icache.getD n 0 = i at hlast
      obtain ⟨hino, -⟩ := h.cache n hless i (of_getItem hlast)
      obtain ⟨ip, hip, -⟩ := h.stored _ hino
      have hitem : outcome (reading fun fs : Fsw => getItem fs.icache n) (fs.counted n fs.tinode) =
          (.ok i, fs.counted n fs.tinode) := outcome_reading_ok hlast
      have hread : outcome (Fsw.iread i) (fs.counted n fs.tinode) = (.ok ip, fs.counted n fs.tinode) :=
        outcome_reading_ok hip
      rw [Fsw.fromCache, outcome_bind_ok hmodify, outcome_bind_ok hitem, outcome_bind_ok hread]
      split_ifs with hmode
      · exact ⟨_, n, rfl, .inl (Int.natCast_nonneg n)⟩
      · obtain ⟨r, k, hrun, hk⟩ := ih (h.counted hless.le fs.tinode) (fun _ => le_rfl) (Nat.le_of_succ_le hlen)
        exact ⟨r, k, hrun, .inl (hk.elim id fun heq => heq ▸ Int.natCast_nonneg n)⟩

theorem firstFree_ends {d : Image} : ∀ {inos : List Nat}, (∀ i ∈ inos, ∃ ip, d.iread i = .ok ip) →
    (∃ i ∈ inos, ∃ ip, d.iread i = .ok ip ∧ ip.mode = 0) → ∃ i, Fsw.firstFree d inos = .ok (some i) := by
  intro inos
  induction inos with
  | nil => exact fun _ ⟨i, hi, _⟩ => absurd hi List.not_mem_nil
  | cons i inos ih =>
      rintro hread ⟨j, hj, ip, hip, hmode⟩
      obtain ⟨ip', hip'⟩ := hread i List.mem_cons_self
      rw [Fsw.firstFree, bind_ok hip']
      split_ifs with hfree
      · exact ⟨i, rfl⟩
      · refine ih (fun k hk => hread k (List.mem_cons_of_mem _ hk)) ⟨j, ?_, ip, hip, hmode⟩
        refine (List.mem_cons.mp hj).resolve_left fun heq => hfree ?_
        rw [heq, hip'] at hip
        rw [Except.ok.inj hip, hmode]

/-- **An inode is handed out**, where one is spare. -/
theorem ialloc_ends (h : fs.Keeps F own l) (hcache : fs.ninode ≤ fs.icache.length) (hspare : fs.Spare F ino) :
    ∃ i fs', outcome Fsw.ialloc fs = (.ok i, fs') ∧ (0 ≤ fs'.ninode ∨ fs'.ninode = fs.ninode) := by
  obtain ⟨r, k, hrun, hk⟩ := fromCache_ends h (n := fs.ninode.toNat) (fun hpos => by omega) (by omega)
  have hfind : ∃ i, outcome Fsw.findInode fs = (.ok i, fs.counted k fs.tinode) := by
    rw [Fsw.findInode, outcome_bind_ok (outcome_get _), outcome_bind_ok hrun]
    obtain _ | i := r
    · -- none is left in the cache
      obtain ⟨hino, hroot, hnone⟩ := hspare
      have hmem : ∀ i, i ∈ List.range' (ROOTINO + 1) (fs.ninodes - ROOTINO) ↔
          ROOTINO < i ∧ Image.InTable fs.isize i := fun i => by
        have hcount : fs.ninodes = (fs.isize - 2) * (BSIZE / INOSZ) := rfl
        rw [List.mem_range'_1, Image.InTable, ← hcount]
        omega
      obtain ⟨ip, hip, hstored⟩ := h.stored ino hino
      obtain ⟨i, hi⟩ := @firstFree_ends fs.disk (List.range' (ROOTINO + 1) (fs.ninodes - ROOTINO))
        (fun i hi => by
          obtain ⟨ip, hip, -⟩ := h.stored i ((hmem i).mp hi).2
          exact ⟨ip, hip⟩)
        ⟨ino, (hmem ino).mpr ⟨hroot, hino⟩, ip, hip, hstored.none_iff.mp hnone⟩
      have hscan : outcome (reading fun fs : Fsw => Fsw.firstFree fs.disk
          (List.range' (ROOTINO + 1) (fs.ninodes - ROOTINO))) (fs.counted k fs.tinode) =
          (.ok (some i), fs.counted k fs.tinode) := outcome_reading_ok hi
      exact ⟨i, by rw [Fsw.fromScan, outcome_bind_ok hscan, outcome_pure]⟩
    · exact ⟨i, outcome_pure _ _⟩
  obtain ⟨i, hi⟩ := hfind
  refine ⟨i, fs.counted k (fs.tinode - 1), ?_, hk⟩
  rw [Fsw.ialloc, outcome_bind_ok hi, outcome_bind_ok (outcome_modify _ _), outcome_pure]
  rfl

/-! ### Names -/

/-- **A name is entered** into a directory of fewer entries than its direct blocks have room for. -/
theorem dirent_ends {dino : Nat} {names : Names} (h : fs.Keeps F own l) (hd : Image.InTable fs.isize dino)
    (hnames : F.names dino = some names) (hname : Plain name) (hino : ino < 65536) (hsome : l ≠ [])
    (hdirect : 16 * (names.length + 1) ≤ ND * BSIZE) :
    ∃ fs', outcome (Fsw.dirent dino name ino) fs = (.ok (), fs') ∧ fs'.ninode = fs.ninode := by
  obtain ⟨ip, bs, ins, bytes, hip, hdir, hf, hown, hlaid, hdata, rfl, hdvd, hlen⟩ := h.directory hd hnames
  obtain ⟨ent, hent, hlen', hentry⟩ := dirEntry_eq hino hname
  obtain ⟨bytes', hentered, hdvd', hlisting'⟩ := entered_eq hdvd hlen' hentry
  have hread : outcome (Fsw.iread dino) fs = (.ok ip, fs) := outcome_reading_ok hip
  have hbytes : outcome (reading fun fs : Fsw => fs.disk.inodeData dino) fs = (.ok bytes, fs) :=
    outcome_reading_ok hdata
  have hpack : outcome (reading fun _ : Fsw => Fsw.dirEntry name ino) fs = (.ok ent, fs) := outcome_reading_ok hent
  have hnew : outcome (reading fun _ : Fsw => Fsw.entered bytes ent) fs = (.ok bytes', fs) :=
    outcome_reading_ok hentered
  -- there is one entry more at most, and so one block more
  have hgrown : bytes'.length ≤ bytes.length + 16 := by
    have hcount := congrArg List.length hlisting'
    rw [length_listing hdvd'] at hcount
    have hmore := Names.length_enter_le ino name (listing bytes)
    rw [← hcount, length_listing hdvd] at hmore
    omega
  rw [length_listing hdvd] at hdirect
  have hfits : bytes.length + 16 ≤ ND * BSIZE := by omega
  have hroom : blocksFor bytes'.length ≤ (own dino).length + l.length := by
    have hpos := List.length_pos_iff.mpr hsome
    rw [hlen, (blocksFor_direct (hgrown.trans hfits)).1, (blocksFor_direct ((Nat.le_add_right _ 16).trans hfits)).1,
      show BSIZE = 512 from rfl]
    omega
  obtain ⟨ip', fs₁, fs', hset, hwrite, hninode⟩ := rewrite_ends h hd hown hlaid (.inl hsome)
    (fits_of_iread (h.holdsInode hd) hip) (hgrown.trans hfits) hroom
  refine ⟨fs', ?_, hninode⟩
  rw [Fsw.dirent, outcome_bind_ok hread, outcome_bind_ok hbytes, outcome_bind_ok hpack, outcome_bind_ok hnew,
    outcome_bind_ok hset, hwrite]

/-- A path that leads to a directory, and one name on. -/
theorem split_ends {parent : Nat} {names : Names} (h : fs.Keeps F own l) (hpath : F.Straight (parts path) ROOTINO)
    (hleads : F.Leads path parent name names) (hname : Plain name) :
    Fsw.split fs.disk path = .ok (parent, name) := by
  obtain ⟨dir, hparts, hwalk⟩ := hleads.parts
  rw [hparts] at hpath
  obtain ⟨hfound, -⟩ := h.lookupFrom (Files.straight_take hpath) h.root_inTable
  have hlookup : fs.disk.lookup (join (parts path).dropLast) = .ok (some parent) := by
    rw [Image.lookup, parts_dirname, hparts, List.dropLast_concat, hfound, hwalk]
  rw [Fsw.split, bind_ok hlookup, hparts, List.getLast?_concat]
  exact if_neg (Nat.not_lt.mpr hname.1)

/-! ### New files -/

/-- What a new file wants to be stored: its numbers fit, and it has direct blocks only. -/
structure Ip.Storable (mode uid gid : Int) (data : List Byte) : Prop where
  mode : 0 ≤ mode ∧ mode < 0o10000
  uid : 0 ≤ uid ∧ uid < 0x10000
  gid : 0 ≤ gid ∧ gid < 0x10000
  direct : data.length ≤ ND * BSIZE

theorem fits_fresh {mode uid gid : Int} {data : List Byte} (h : Ip.Storable mode uid gid data) :
    (Fsw.fresh (Int.lor S_IFREG mode) 1 uid gid).Fits where
  mode := by
    obtain ⟨m, rfl⟩ := Int.eq_ofNat_of_zero_le h.mode.1
    have hm : m < 2 ^ 16 := (Int.ofNat_lt.mp h.mode.2).trans (by decide)
    exact ⟨Int.natCast_nonneg _, Int.ofNat_lt.mpr (Nat.or_lt_two_pow (by decide : S_IFREG < 2 ^ 16) hm)⟩
  nlink := (by decide : -0x8000 ≤ (1 : Int) ∧ (1 : Int) < 0x8000)
  uid := h.uid
  gid := h.gid
  size := (by decide : 0 < 2 ^ 32)
  length := List.length_replicate
  addr a ha := by
    rw [List.eq_of_mem_replicate ha]
    decide

variable {parent : Nat} {names : Names} {data : List Byte} {mode uid gid : Int}

/-- **`put` of a new file ends well**, where there are blocks for the file and one for its directory, and an
inode is spare. -/
theorem put_new_ends (h : fs.Keeps F own l) (hleads : F.Leads path parent name names) (habsent : names.find name = none)
    (hpath : F.Straight (parts path) ROOTINO) (hparent : Image.InTable fs.isize parent) (hname : Plain name)
    (hstorable : Ip.Storable mode uid gid data) (hdirect : 16 * (names.length + 1) ≤ ND * BSIZE)
    (hroom : blocksFor data.length < l.length) (hcache : fs.ninode ≤ fs.icache.length)
    (hinos : fs.ninodes < 65536) (hspare : fs.Spare F ino) :
    ∃ i fs', outcome (Fsw.put path data mode uid gid) fs = (.ok i, fs') ∧
      (0 ≤ fs'.ninode ∨ fs'.ninode = fs.ninode) ∧ fs'.tinode = fs.tinode - 1 := by
  have hwalk : F.walk (parts path) ROOTINO = none := hleads.walk.trans habsent
  have hread : outcome (reading fun fs : Fsw => fs.disk.lookup path) fs = (.ok none, fs) := by
    rw [outcome_reading, (h.lookup hpath).1, hwalk]
  have hsplit : outcome (reading fun fs : Fsw => Fsw.split fs.disk path) fs = (.ok (parent, name), fs) :=
    outcome_reading_ok (split_ends h hpath hleads hname)
  obtain ⟨i, fs₁, halloc, hninode₁⟩ := ialloc_ends h hcache hspare
  obtain ⟨h₁, hsteps₁, htinode₁, hi, -, hnone⟩ := of_ialloc h halloc
  have hi₁ : Image.InTable fs₁.isize i := hsteps₁.isize.symm ▸ hi
  have hown := h₁.own_unused hi₁ hnone
  -- the file
  obtain ⟨ip, fs₂, fs₃, hset, hwrite, hninode₃⟩ := @rewrite_ends _ _ _ _ _ _ [] [] data h₁ hi₁ hown
    (laidOut_none fs₁.disk) (.inr hown) (fits_fresh hstorable) hstorable.direct (by omega)
  obtain ⟨own₃, l₃, h₃, hsteps₃, htinode₃, hlen⟩ := h₁.of_fresh hi₁ hnone (.inl ⟨rfl, rfl⟩) hstorable.mode
    (by rw [outcome_bind_ok hset, hwrite])
  -- and its name
  have hparent₃ : Image.InTable fs₃.isize parent := by rwa [hsteps₃.isize, hsteps₁.isize]
  have hnames₃ : (F.set i (some (Files.regular mode uid gid data))).names parent = some names :=
    (Files.names_congr (Files.set_ne (hleads.parent_ne hnone))).trans hleads.names
  have hsome : l₃ ≠ [] := ne_nil_of_room hlen hroom rfl
  have hlt : i < 65536 := by
    have hmost : i ≤ fs.ninodes := hi.2
    omega
  obtain ⟨fs', henter, hninode⟩ := dirent_ends h₃ hparent₃ hnames₃ hname hlt hsome hdirect
  obtain ⟨-, -, -, -, htinode⟩ := of_dirent h₃ hparent₃ hnames₃ hname
    (by rwa [hsteps₃.isize, hsteps₁.isize]) hsome henter
  refine ⟨i, fs', ?_, ?_, ?_⟩
  · rw [Fsw.put, outcome_bind_ok hread]
    dsimp only
    rw [outcome_bind_ok hsplit]
    dsimp only
    rw [outcome_bind_ok halloc, outcome_bind_ok hset, outcome_bind_ok hwrite, outcome_bind_ok henter, outcome_pure]
  · rw [hninode, hninode₃]
    exact hninode₁
  · rw [htinode, htinode₃, htinode₁]

/-! ### Sessions -/

/-- What is in range is saved. -/
theorem save_ends (h : fs.Keeps F own l) (hcached : fs.Cached) (hninode : -0x8000 ≤ fs.ninode ∧ fs.ninode < 0x8000)
    (htinode : 0 ≤ fs.tinode ∧ fs.tinode < 0x10000) : ∃ fs', outcome Fsw.save fs = (.ok (), fs') := by
  obtain ⟨d, -, hsave, -⟩ := save_said
    (h.pool.inRange ⟨hninode, hcached.length, hcached.icache, htinode, hcached.isize⟩) h.holds_super
  exact ⟨_, hsave⟩

/-- **A session that puts a new file ends well.** -/
theorem session_put_ends {isize fsize : Nat} {file : List Byte} {clock : Nat → Int} (h : Kept isize fsize F file)
    (hload : Fsw.load clock 0 file = .ok fs) (hleads : F.Leads path parent name names)
    (habsent : names.find name = none) (hpath : F.Straight (parts path) ROOTINO)
    (hparent : Image.InTable isize parent) (hname : Plain name) (hstorable : Ip.Storable mode uid gid data)
    (hdirect : 16 * (names.length + 1) ≤ ND * BSIZE)
    (hroom : F.used (inosOf isize) + blocksFor data.length < fsize - isize)
    (hninode : 0 ≤ fs.ninode ∧ fs.ninode ≤ NICINOD) (htinode : 0 < fs.tinode ∧ fs.tinode < 65536)
    (hinos : (isize - 2) * (BSIZE / INOSZ) < 65536)
    (hspare : Image.InTable isize ino ∧ ROOTINO < ino ∧ F ino = none) :
    (session clock 0 [.put path data mode uid gid] file).1 = .ok () := by
  obtain ⟨fs₀, own, l, hload₀, hkeeps, hcached, rfl, rfl⟩ := h.load clock
  obtain rfl : fs₀ = fs := Except.ok.inj (hload₀.symm.trans hload)
  have hfree : l.length + F.used (inosOf fs₀.isize) = fs₀.fsize - fs₀.isize := hkeeps.free_add
  have hblocks : blocksFor data.length < l.length := by omega
  obtain ⟨i, fs₁, hput, hninode₁, htinode₁⟩ := put_new_ends hkeeps hleads habsent hpath hparent hname hstorable hdirect
    hblocks (by rw [hcached.length]; exact hninode.2) hinos hspare
  have hlegal : F.Legal (.put path data mode uid gid) := by
    obtain ⟨dir, hparts, -⟩ := hleads.parts
    refine ⟨hpath, fun name' hname' => ?_, hstorable.mode⟩
    rw [hparts, List.getLast?_concat] at hname'
    rwa [← Option.some.inj hname']
  obtain ⟨F', own', l', -, hkeeps', hsteps⟩ := put_refines hkeeps hlegal
    (by rw [Files.room, if_pos (hleads.walk.trans habsent)]; exact hblocks) hput
  have hmost : NICINOD = 100 := rfl
  have hless := hsteps.ninode
  obtain ⟨fs', hsave⟩ := save_ends hkeeps' (hsteps.cached hcached) (by omega) (by omega)
  have hcall : outcome (Call.put path data mode uid gid).run fs₀ = (.ok (), fs₁) := by
    rw [Call.run, outcome_bind_ok hput, outcome_pure]
  have hcalls : outcome ([Call.put path data mode uid gid].forM Call.run) fs₀ = (.ok (), fs₁) :=
    outcome_bind_ok hcall fun _ => [].forM Call.run
  rw [session, hload]
  dsimp only
  rw [outcome_bind_ok hcalls, hsave]

end Sbc386Ex.Cohfs

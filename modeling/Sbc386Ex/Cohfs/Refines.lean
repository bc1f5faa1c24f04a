import Sbc386Ex.Cohfs.Nodes

/-!
# Sbc386Ex.Cohfs.Refines

`cohfsw.py` does what its calls are for: a call that returns leaves an image that keeps the files its
meaning says, and so does a run of them. A call wants directories before its last name, a name it can
read back, and more free blocks than its contents take.
-/

namespace Sbc386Ex.Cohfs

open Raising

variable {fs fs' : Fsw} {F : Files} {own : Nat → List Nat} {l : List Nat} {ino : Nat} {path : Text}

theorem Files.straight_of_walk {ps qs : List Text} : ∀ {ino i : Nat}, F.Straight (ps ++ qs) ino →
    F.walk ps ino = some i → F.Straight qs i := by
  induction ps with
  | nil =>
      intro ino i h hwalk
      rw [← Option.some.inj hwalk]
      exact h
  | cons p ps ih =>
      rintro ino i ⟨l, hl, hrest⟩ hwalk
      rw [Files.walk, hl, Option.bind_some] at hwalk
      obtain ⟨j, hj, hwalk'⟩ := Option.bind_eq_some_iff.mp hwalk
      exact ih (hrest j hj) hwalk'

/-- **`_split`**: the directory of a path, and its last name. -/
theorem of_split {parent : Nat} {name : Text} (h : fs.Keeps F own l) (hpath : F.Straight (parts path) ROOTINO)
    (hsplit : Fsw.split fs.disk path = .ok (parent, name)) : ∃ names, F.Leads path parent name names ∧
      Image.InTable fs.isize parent ∧ F.walk (parts path) ROOTINO = names.find name ∧
      (parts path).getLast? = some name := by
  rw [Fsw.split] at hsplit
  obtain ⟨r, hlookup, hrest⟩ := of_bind_ok hsplit
  obtain _ | i := r
  · cases hrest
  cases hlast : (parts path).getLast? with
  | none =>
      rw [hlast] at hrest
      cases hrest
  | some last =>
      rw [hlast] at hrest
      dsimp only at hrest
      split_ifs at hrest with hlong
      · cases hrest
        have hparts : parts path = (parts path).dropLast ++ [name] :=
          (List.dropLast_append_getLast? name hlast).symm
        have hstraight := hparts ▸ hpath
        obtain ⟨hfound, hin⟩ := h.lookupFrom (Files.straight_take hstraight) h.root_inTable
        rw [Image.lookup, parts_dirname, hfound] at hlookup
        have hwalk : F.walk (parts path).dropLast ROOTINO = some parent := Except.ok.inj hlookup
        obtain ⟨names, hnames, -⟩ := Files.straight_of_walk hstraight hwalk
        refine ⟨names, ⟨⟨_, hparts, hwalk⟩, hnames⟩, hin parent hwalk, ?_, rfl⟩
        rw [hparts, Files.walk_append, hwalk, Option.bind_some, Files.walk, hnames, Option.bind_some]
        exact Option.bind_fun_some _

/-! ### New files -/

/-- Permission bits do not change what kind of file a mode is of. -/
theorem ifmt_lor {t : Nat} {mode : Int} (ht : t &&& S_IFMT = t) (hmode : 0 ≤ mode ∧ mode < 0o10000) :
    (Int.lor t mode).toNat &&& S_IFMT = t := by
  obtain ⟨m, rfl⟩ := Int.eq_ofNat_of_zero_le hmode.1
  have hm : m < 2 ^ 12 := Int.ofNat_lt.mp hmode.2
  have hperm : m &&& S_IFMT = 0 := by
    rw [← Nat.mod_eq_of_lt hm, ← Nat.and_two_pow_sub_one_eq_mod, Nat.and_assoc]
    exact Nat.and_zero m
  show (t ||| m) &&& S_IFMT = t
  rw [Nat.and_or_distrib_right, ht, hperm, Nat.or_zero]

theorem Fsw.Keeps.own_unused (h : fs.Keeps F own l) (hino : Image.InTable fs.isize ino) (hnone : F ino = none) :
    own ino = [] := by
  obtain ⟨ip, -, hstored⟩ := h.stored ino hino
  rw [hnone] at hstored
  generalize own ino = blocks at hstored
  cases hstored
  rfl

/-- **A new file's contents** are written to an inode that is not in use. -/
theorem Fsw.Keeps.of_fresh {t : Nat} {mode nlink uid gid : Int} {data : List Byte} {content : Content}
    (h : fs.Keeps F own l) (hino : Image.InTable fs.isize ino) (hnone : F ino = none)
    (ht : t = S_IFREG ∧ content = .data data ∨ t = S_IFDIR ∧ content = .names (listing data) ∧ 16 ∣ data.length ∧
      ∀ e ∈ listing data, e.1 ≠ 0 → Image.InTable fs.isize e.1)
    (hmode : 0 ≤ mode ∧ mode < 0o10000)
    (hrun : outcome (do Fsw.iwrite ino (← Fsw.setdata (Fsw.fresh (Int.lor t mode) nlink uid gid) data)) fs =
      (.ok (), fs')) : ∃ own' l', fs'.Keeps (F.set ino (some ⟨Int.lor t mode, nlink, uid, gid, content⟩)) own' l' ∧
      fs.Steps fs' ∧ fs'.tinode = fs.tinode ∧ l'.length + blocksFor data.length = l.length := by
  have hown := h.own_unused hino hnone
  have hifmt : (Fsw.fresh (Int.lor t mode) nlink uid gid).ifmt = t :=
    ifmt_lor (by rcases ht with ⟨rfl, -⟩ | ⟨rfl, -⟩ <;> decide) hmode
  have hkind : (Fsw.fresh (Int.lor t mode) nlink uid gid).mode ≠ 0 ∧
      ¬ (Fsw.fresh (Int.lor t mode) nlink uid gid).Device := by
    refine ⟨fun hzero => ?_, fun hdevice => ?_⟩
    · rw [Ip.ifmt, hzero] at hifmt
      rcases ht with ⟨rfl, -⟩ | ⟨rfl, -⟩ <;> exact absurd hifmt (by decide)
    · rw [Ip.Device, hifmt] at hdevice
      rcases ht with ⟨rfl, -⟩ | ⟨rfl, -⟩ <;> exact absurd hdevice (by decide)
  have hcontent : (Fsw.fresh (Int.lor t mode) nlink uid gid).content data = content := by
    rw [Ip.content, hifmt]
    rcases ht with ⟨rfl, rfl⟩ | ⟨rfl, rfl, -⟩
    · exact if_neg (by decide)
    · exact if_pos rfl
  have hdir : (Fsw.fresh (Int.lor t mode) nlink uid gid).ifmt = S_IFDIR →
      16 ∣ data.length ∧ ∀ e ∈ listing data, e.1 ≠ 0 → Image.InTable fs.isize e.1 := fun hdir => by
    rw [hifmt] at hdir
    rcases ht with ⟨rfl, -⟩ | ⟨-, -, hdvd⟩
    · exact absurd hdir (by decide)
    · exact hdvd
  obtain ⟨x, l', hkeeps, hsteps, htinode, hlen⟩ := @Fsw.Keeps.of_rewrite _ _ _ _ _ _ _ [] [] _ h hino hown
    (laidOut_none fs.disk) (.inr hown) hkind.1 hkind.2 hdir hrun
  rw [hcontent] at hkeeps
  rw [hown, List.length_nil, Nat.add_zero] at hlen
  exact ⟨_, l', hkeeps, hsteps, htinode, hlen⟩

/-! ### Calls -/

theorem Ip.mode_of_reg {ip : Ip} (h : ip.ifmt = S_IFREG) : ip.mode ≠ 0 ∧ ¬ ip.Device ∧ ip.ifmt ≠ S_IFDIR := by
  refine ⟨fun hmode => ?_, fun hdevice => ?_, by rw [h]; decide⟩
  · rw [Ip.ifmt, hmode] at h
    exact absurd h (by decide)
  · rw [Ip.Device, h] at hdevice
    exact absurd hdevice (by decide)

/-- What a call that returns has done. -/
def Fsw.Refines (F : Files) (call : Call) (fs fs' : Fsw) : Prop :=
  ∃ F' own' l', F.Step fs.inos call F' ∧ fs'.Keeps F' own' l' ∧ fs.Steps fs'

theorem ne_nil_of_room {n k : Nat} {l l' : List Nat} (hlen : l'.length + n = l.length) (hroom : k < l.length)
    (hk : k = n) : l' ≠ [] := by
  intro hnil
  rw [hnil, List.length_nil] at hlen
  omega

theorem Files.Leads.parent_ne {parent : Nat} {name : Text} {names : Names} (h : F.Leads path parent name names)
    (hnone : F ino = none) : parent ≠ ino := fun heq => by
  obtain ⟨f, hf, -⟩ := Files.names_eq h.names
  rw [heq, hnone] at hf
  cases hf

theorem put_refines {data : List Byte} {mode uid gid : Int} (h : fs.Keeps F own l)
    (hlegal : F.Legal (.put path data mode uid gid))
    (hroom : F.room (.put path data mode uid gid) < l.length) {r : Nat}
    (hrun : outcome (Fsw.put path data mode uid gid) fs = (.ok r, fs')) :
    fs.Refines F (.put path data mode uid gid) fs' := by
  obtain ⟨hpath, hplain, hmode⟩ := hlegal
  obtain ⟨hlookup, hin⟩ := h.lookup hpath
  have hread : outcome (reading fun fs : Fsw => fs.disk.lookup path) fs =
      (.ok (F.walk (parts path) ROOTINO), fs) := by
    rw [outcome_reading, hlookup]
  rw [Fsw.put, outcome_bind_ok hread] at hrun
  cases hwalk : F.walk (parts path) ROOTINO with
  | none =>
      rw [hwalk] at hrun
      obtain ⟨⟨parent, name⟩, fs₀, hsplit, hrest⟩ := of_outcome_bind hrun
      obtain ⟨hdir, rfl⟩ := of_reading hsplit
      obtain ⟨names, hleads, hparent, habsent, hlast⟩ := of_split h hpath hdir
      obtain ⟨ino, fs₁, halloc, hfill⟩ := of_outcome_bind hrest
      obtain ⟨h₁, hsteps₁, -, hino, hroot, hnone⟩ := of_ialloc h halloc
      obtain ⟨ip, fs₂, hset, hwrite⟩ := of_outcome_bind hfill
      obtain ⟨_, fs₃, hiwrite, henter⟩ := of_outcome_bind hwrite
      obtain ⟨_, fs₄, hdirent, hreturn⟩ := of_outcome_bind henter
      cases hreturn
      obtain ⟨own₂, l₂, h₂, hsteps₂, -, hlen⟩ :=
          h₁.of_fresh (hsteps₁.isize.symm ▸ hino) hnone (.inl ⟨rfl, rfl⟩) hmode
        (by rw [outcome_bind_ok hset, hiwrite])
      have hne := hleads.parent_ne hnone
      obtain ⟨own', l', h', hsteps', -⟩ := of_dirent h₂ (by rwa [hsteps₂.isize, hsteps₁.isize])
        ((Files.names_congr (Files.set_ne hne)).trans hleads.names) (hplain name hlast)
        (by rwa [hsteps₂.isize, hsteps₁.isize]) (ne_nil_of_room hlen hroom (if_pos hwalk)) hdirent
      exact ⟨_, own', l', .create hleads (habsent.symm.trans hwalk) ⟨Fsw.mem_inos.mpr hino, hnone, hroot⟩, h',
        (hsteps₁.trans hsteps₂).trans hsteps'⟩
  | some ino =>
      rw [hwalk] at hrun
      obtain ⟨ip, fs₀, hiread, hrest⟩ := of_outcome_bind hrun
      obtain ⟨hip, rfl⟩ := of_reading hiread
      obtain ⟨_, fs₁, hcheck, hthen⟩ := of_outcome_bind hrest
      obtain ⟨hregular, rfl⟩ := of_raiseIf hcheck
      obtain ⟨ip', fs₂, hset, hwrite⟩ := of_outcome_bind hthen
      obtain ⟨_, fs₃, hiwrite, hreturn⟩ := of_outcome_bind hwrite
      cases hreturn
      have hino := hin r hwalk
      have hregular' : ip.ifmt = S_IFREG := not_not.mp hregular
      obtain ⟨hne, hdev, hdir⟩ := Ip.mode_of_reg hregular'
      obtain ⟨bs, ins, bytes, hf, hown, hlaid⟩ := h.dataFile hino hip hne hdev hdir
      obtain ⟨x, l', h', hsteps, -⟩ := h.of_rewrite hino hown hlaid (.inl (List.length_pos_iff.mp (by omega)))
        hne hdev (fun hd => absurd hd hdir) (by rw [outcome_bind_ok hset, hiwrite])
      rw [Ip.content, if_neg hdir] at h'
      exact ⟨_, _, l', .replace hwalk hf hregular' rfl, h', hsteps⟩

theorem mkdir_refines {mode uid gid : Int} (h : fs.Keeps F own l) (hlegal : F.Legal (.mkdir path mode uid gid))
    (hroom : F.room (.mkdir path mode uid gid) < l.length) {r : Nat}
    (hrun : outcome (Fsw.mkdir path mode uid gid) fs = (.ok r, fs')) :
    fs.Refines F (.mkdir path mode uid gid) fs' := by
  obtain ⟨hpath, hplain, hmode⟩ := hlegal
  obtain ⟨hlookup, -⟩ := h.lookup hpath
  rw [Fsw.mkdir] at hrun
  obtain ⟨⟨parent, name⟩, fs₀, hsplit, hrest⟩ := of_outcome_bind hrun
  obtain ⟨hdir, rfl⟩ := of_reading hsplit
  obtain ⟨names, hleads, hparent, habsent, hlast⟩ := of_split h hpath hdir
  obtain ⟨found, fs₁, hread, hthen⟩ := of_outcome_bind hrest
  obtain ⟨hfound, rfl⟩ := of_reading hread
  obtain rfl : F.walk (parts path) ROOTINO = found := Except.ok.inj (hlookup.symm.trans hfound)
  obtain ⟨_, fs₂, hcheck, hgo⟩ := of_outcome_bind hthen
  obtain ⟨hfree, rfl⟩ := of_raiseIf hcheck
  obtain ⟨ino, fs₁, halloc, hnext⟩ := of_outcome_bind hgo
  obtain ⟨h₁, hsteps₁, -, hino, hroot, hnone⟩ := of_ialloc h halloc
  obtain ⟨ents, fs₂, hpack, hfill⟩ := of_outcome_bind hnext
  obtain ⟨hdots, rfl⟩ := of_reading hpack
  obtain ⟨b, hself, hup⟩ := of_bind_ok hdots
  obtain ⟨b', hself', -⟩ := of_bind_ok hup
  have hsmall := (of_packH hself).2
  have hsmall' := (of_packH hself').2
  obtain ⟨ents', hents, hlen32, hlisting⟩ := @dots_eq ino parent (by omega) (by omega)
  obtain rfl : ents' = ents := Except.ok.inj (hents.symm.trans hdots)
  obtain ⟨ip, fs₃, hset, hwrite⟩ := of_outcome_bind hfill
  obtain ⟨_, fs₄, hiwrite, henter⟩ := of_outcome_bind hwrite
  obtain ⟨_, fs₅, hdirent, hcount⟩ := of_outcome_bind henter
  obtain ⟨pp, fs₆, hpp, hlinks⟩ := of_outcome_bind hcount
  obtain ⟨hip, rfl⟩ := of_reading hpp
  obtain ⟨_, fs₇, hrelink, hreturn⟩ := of_outcome_bind hlinks
  cases hreturn
  have hino₁ : Image.InTable fs₂.isize r := hsteps₁.isize.symm ▸ hino
  have hparent₁ : Image.InTable fs₂.isize parent := hsteps₁.isize.symm ▸ hparent
  obtain ⟨own₂, l₂, h₂, hsteps₂, -, hlen⟩ :=
      @Fsw.Keeps.of_fresh _ _ _ _ _ _ _ _ _ _ _ _ (.names (listing ents')) h₁ hino₁ hnone
    (.inr ⟨rfl, rfl, by rw [hlen32]; decide, fun e he hne => by
      rw [hlisting] at he
      simp only [List.mem_cons, List.not_mem_nil, or_false] at he
      rcases he with rfl | rfl
      · exact hino₁
      · exact hparent₁⟩) hmode (by rw [outcome_bind_ok hset, hiwrite])
  rw [hlisting] at h₂
  obtain ⟨own₃, l₃, h₃, hsteps₃, -⟩ := of_dirent h₂ (by rwa [hsteps₂.isize])
    ((Files.names_congr (Files.set_ne (hleads.parent_ne hnone))).trans hleads.names) (hplain name hlast)
    (by rwa [hsteps₂.isize]) (ne_nil_of_room hlen hroom (by rw [hlen32]; rfl)) hdirent
  have hparent₃ := hparent₁
  rw [← hsteps₂.isize, ← hsteps₃.isize] at hparent₃
  obtain ⟨f, hf⟩ : ∃ f, ((F.set r (some (Files.directory mode uid gid r parent))).withNames parent
      (names.enter r name)) parent = some f := by
    obtain ⟨g, hg, -⟩ := Files.names_eq hleads.names
    exact ⟨_, by rw [Files.withNames, Files.set_self, Files.set_ne (hleads.parent_ne hnone), hg]; rfl⟩
  obtain ⟨h₄, hsteps₄, -⟩ := h₃.of_relink hparent₃ hip hf hrelink
  refine ⟨_, own₃, l₃, .mkdir hleads (habsent.symm.trans (not_not.mp hfree)) ⟨Fsw.mem_inos.mpr hino, hnone, hroot⟩,
    ?_, ((hsteps₁.trans hsteps₂).trans hsteps₃).trans hsteps₄⟩
  rw [Files.link, hf, Option.map_some, ← h₃.nlink_eq hparent₃ hip hf]
  exact h₄

theorem rm_refines (h : fs.Keeps F own l) (hlegal : F.Legal (.rm path)) (hroom : 0 < l.length)
    (hrun : outcome (Fsw.rm path) fs = (.ok (), fs')) : fs.Refines F (.rm path) fs' := by
  obtain ⟨hpath, hfile⟩ := hlegal
  rw [Fsw.rm] at hrun
  obtain ⟨⟨parent, name⟩, fs₀, hsplit, hrest⟩ := of_outcome_bind hrun
  obtain ⟨hdir, rfl⟩ := of_reading hsplit
  obtain ⟨names, hleads, hparent, hwalk, -⟩ := of_split h hpath hdir
  obtain ⟨ino, fs₁, herase, hthen⟩ := of_outcome_bind hrest
  obtain ⟨hfind, own₁, l₁, h₁, hsteps₁, -, hlen⟩ :=
    of_undirent h hparent hleads.names (List.length_pos_iff.mp hroom) herase
  obtain ⟨ip, fs₂, hread, hgo⟩ := of_outcome_bind hthen
  obtain ⟨hip, rfl⟩ := of_reading hread
  obtain ⟨_, fs₃, hcheck, hunlink⟩ := of_outcome_bind hgo
  obtain ⟨hnotdir, rfl⟩ := of_raiseIf hcheck
  obtain ⟨f, hf, hdev⟩ := hfile ino (hwalk.trans hfind)
  have hino : Image.InTable fs₃.isize ino := by
    obtain ⟨hmem, hne⟩ := Names.mem_of_find hfind
    rw [hsteps₁.isize]
    exact h.named parent names hparent hleads.names _ hmem hne
  have hne : ino ≠ parent := fun heq => by
    -- the directory itself is not removed
    obtain ⟨g, hg, -⟩ := Files.names_eq hleads.names
    have hnames : (F.withNames parent (names.erase name)).names ino = some (names.erase name) := by
      rw [Files.names, heq, Files.withNames, Files.set_self, hg]
      rfl
    obtain ⟨ip', -, -, -, hip', hdir', -⟩ := h₁.directory hino hnames
    obtain rfl : ip' = ip := Except.ok.inj (hip'.symm.trans hip)
    exact hnotdir hdir'
  have hf₁ : F.withNames parent (names.erase name) ino = some f := (Files.set_ne hne).trans hf
  obtain ⟨hmode, -, hdevice⟩ := h₁.kind hino hip hf₁
  obtain ⟨bs, ins, bytes, hf', hown, hlaid⟩ := h₁.dataFile hino hip hmode (fun hd => by
    obtain ⟨n, hn⟩ := hdevice hd
    exact hdev n hn) hnotdir
  have hnlink := h₁.nlink_eq hino hip hf₁
  obtain rfl : f = ip.file (.data bytes) := Option.some.inj (hf₁.symm.trans hf')
  have hsome : l₁ ≠ [] := List.length_pos_iff.mp (by omega)
  by_cases hlast : ip.nlink - 1 ≤ 0
  · obtain ⟨l', h', hsteps, -⟩ := of_removed h₁ hino hlaid hown hsome hlast hunlink
    exact ⟨_, _, l', .remove hleads hfind hf rfl (by omega), h', hsteps₁.trans hsteps⟩
  · have hkept : outcome (Fsw.unlink ip) fs₃ = (.ok { ip with nlink := ip.nlink - 1 }, fs₃) := by
      rw [Fsw.unlink]
      dsimp only
      rw [if_neg hlast, outcome_pure]
    rw [outcome_bind_ok hkept] at hunlink
    obtain ⟨h', hsteps, -⟩ := h₁.of_relink hino hip hf₁ hunlink
    rw [hnlink] at h'
    exact ⟨_, _, l₁, .unlink hleads hfind hf rfl (by omega), h', hsteps₁.trans hsteps⟩

/-- A node has no blocks. -/
theorem Fsw.Keeps.own_device (h : fs.Keeps F own l) (hino : Image.InTable fs.isize ino) {ip : Ip}
    (hip : fs.disk.iread ino = .ok ip) (hdevice : ip.Device) :
    own ino = [] ∧ ∃ f old, F ino = some f ∧ f.content = .device old := by
  obtain ⟨ip', hip', hstored⟩ := h.stored ino hino
  obtain rfl : ip' = ip := Except.ok.inj (hip'.symm.trans hip)
  generalize hf : F ino = f at hstored
  generalize own ino = blocks at hstored
  cases hstored with
  | free mode => simp [Ip.Device, Ip.ifmt, mode, S_IFCHR, S_IFBLK] at hdevice
  | device => exact ⟨rfl, _, _, rfl, rfl⟩
  | file _ device => exact absurd hdevice device

theorem mknod_refines {mode major minor uid gid : Int} (h : fs.Keeps F own l)
    (hlegal : F.Legal (.mknod path mode major minor uid gid)) (hroom : 0 < l.length) {r : Nat}
    (hrun : outcome (Fsw.mknod path mode major minor uid gid) fs = (.ok r, fs')) :
    fs.Refines F (.mknod path mode major minor uid gid) fs' := by
  obtain ⟨hpath, hplain, hdevice⟩ := hlegal
  obtain ⟨hlookup, hin⟩ := h.lookup hpath
  have hread : outcome (reading fun fs : Fsw => fs.disk.lookup path) fs =
      (.ok (F.walk (parts path) ROOTINO), fs) := by
    rw [outcome_reading, hlookup]
  rw [Fsw.mknod] at hrun
  obtain ⟨ino, fsₙ, hnode, hrest⟩ := of_outcome_bind hrun
  obtain ⟨_, fs₂, hiwrite, hget⟩ := of_outcome_bind hrest
  obtain ⟨fs₃, fs₄, hstate, hnumber⟩ := of_outcome_bind hget
  cases hstate
  obtain ⟨_, fs₅, hminor, hthen⟩ := of_outcome_bind hnumber
  obtain ⟨_, fs₆, hmajor, hreturn⟩ := of_outcome_bind hthen
  cases hreturn
  rw [Fsw.node, outcome_bind_ok hread] at hnode
  have hwritten : outcome (do
      Fsw.iwrite r (Fsw.fresh mode 1 uid gid)
      let fs ← get
      Fsw.setByte (fs.disk.ioff r + 12) minor
      Fsw.setByte (fs.disk.ioff r + 13) major) fsₙ = (.ok (), fs') := by
    rw [outcome_bind_ok hiwrite, outcome_bind_ok (outcome_get _), outcome_bind_ok hminor, hmajor]
  cases hwalk : F.walk (parts path) ROOTINO with
  | none =>
      rw [hwalk] at hnode
      obtain ⟨⟨parent, name⟩, fs₀, hsplit, hnew⟩ := of_outcome_bind hnode
      obtain ⟨hdir, rfl⟩ := of_reading hsplit
      obtain ⟨names, hleads, hparent, habsent, hlast⟩ := of_split h hpath hdir
      obtain ⟨ino, fs₁, halloc, henter⟩ := of_outcome_bind hnew
      obtain ⟨h₁, hsteps₁, -, hino, hroot, hnone⟩ := of_ialloc h halloc
      obtain ⟨_, fs₂, hdirent, hreturn⟩ := of_outcome_bind henter
      cases hreturn
      obtain ⟨own₂, l₂, h₂, hsteps₂, -⟩ := of_dirent h₁ (hsteps₁.isize.symm ▸ hparent) hleads.names
        (hplain name hlast) (hsteps₁.isize.symm ▸ hino) (List.length_pos_iff.mp hroom) hdirent
      have hino₂ : Image.InTable fsₙ.isize r := by rwa [hsteps₂.isize, hsteps₁.isize]
      have hnone₂ : F.withNames parent (names.enter r name) r = none :=
        (Files.set_ne (hleads.parent_ne hnone).symm).trans hnone
      obtain ⟨h₃, hsteps₃⟩ := of_devnode h₂ hino₂ (h₂.own_unused hino₂ hnone₂) hdevice hwritten
      exact ⟨_, _, _, .mknod hleads (habsent.symm.trans hwalk) ⟨Fsw.mem_inos.mpr hino, hnone, hroot⟩, h₃,
        (hsteps₁.trans hsteps₂).trans hsteps₃⟩
  | some i =>
      rw [hwalk] at hnode
      obtain ⟨ip, fs₀, hiread, hcheck⟩ := of_outcome_bind hnode
      obtain ⟨hip, rfl⟩ := of_reading hiread
      obtain ⟨_, fs₁, hkind, hreturn⟩ := of_outcome_bind hcheck
      obtain ⟨hsort, rfl⟩ := of_raiseIf hkind
      cases hreturn
      obtain ⟨hown, f, old, hf, hcontent⟩ := h.own_device (hin r hwalk) hip (not_not.mp hsort)
      obtain ⟨h', hsteps⟩ := of_devnode h (hin r hwalk) hown hdevice hwritten
      exact ⟨_, _, _, .renew hwalk hf hcontent, h', hsteps⟩

theorem call_refines {call : Call} (h : fs.Keeps F own l) (hlegal : F.Legal call) (hroom : F.room call < l.length)
    (hrun : outcome call.run fs = (.ok (), fs')) : fs.Refines F call fs' := by
  cases call with
  | put path data mode uid gid =>
      obtain ⟨r, fs₁, hput, hreturn⟩ := of_outcome_bind hrun
      cases hreturn
      exact put_refines h hlegal hroom hput
  | mkdir path mode uid gid =>
      obtain ⟨r, fs₁, hmkdir, hreturn⟩ := of_outcome_bind hrun
      cases hreturn
      exact mkdir_refines h hlegal hroom hmkdir
  | mknod path mode major minor uid gid =>
      obtain ⟨r, fs₁, hmknod, hreturn⟩ := of_outcome_bind hrun
      cases hreturn
      exact mknod_refines h hlegal hroom hmknod
  | rm path => exact rm_refines h hlegal hroom hrun

/-- A file has the blocks that its contents take. -/
theorem Fsw.Keeps.length_own (h : fs.Keeps F own l) (hino : Image.InTable fs.isize ino) :
    (own ino).length = ((F ino).map File.blocks).getD 0 := by
  obtain ⟨ip, hip, hstored⟩ := h.stored ino hino
  have hin := (h.own_inFiles hino).2
  generalize own ino = blocks at hstored hin
  generalize F ino = f at hstored
  cases hstored with
  | free => rfl
  | device => rfl
  | @file bs ins bytes mode device laid count data dir =>
      have hlen : bytes.length = ip.size := by
        rw [← data]
        exact length_contents (fun b hb => Image.length_block (h.pool.holds (hin b (List.mem_append_left _ hb)).2)) count
      rw [laid.count, count, Option.map_some, Option.getD_some, File.blocks, Ip.file, Ip.content]
      by_cases hdir : ip.ifmt = S_IFDIR
      · rw [if_pos hdir]
        -- a directory is as long as its entries
        show _ = blocksFor (16 * (listing bytes).length)
        rw [length_listing (dir hdir), Nat.mul_div_cancel' (dir hdir), hlen, blocksFor]
      · rw [if_neg hdir]
        show _ = blocksFor bytes.length
        rw [hlen, blocksFor]

/-- The blocks that are free are those that no file takes. -/
theorem Fsw.Keeps.free_add (h : fs.Keeps F own l) : l.length + F.used fs.inos = fs.fsize - fs.isize := by
  have hcount := h.parted.length_eq
  rw [List.length_append, List.length_range', List.length_flatMap] at hcount
  rw [← hcount, Files.used]
  refine congrArg (l.length + ·) (congrArg List.sum (List.map_congr_left fun ino hmem => ?_))
  exact (h.length_own (Fsw.mem_inos.mp hmem)).symm

/-- **Every run refines.** -/
theorem run_refines : ∀ {calls : List Call} {fs : Fsw} {F : Files} {own : Nat → List Nat} {l : List Nat},
    fs.Keeps F own l → F.Safe fs.inos (fs.fsize - fs.isize) calls →
    outcome (calls.forM Call.run) fs = (.ok (), fs') →
    ∃ F' own' l', F.Run fs.inos calls F' ∧ fs'.Keeps F' own' l' ∧ fs.Steps fs' := by
  intro calls
  induction calls with
  | nil =>
      intro fs F own l h _ hrun
      cases hrun
      exact ⟨F, own, l, .nil, h, .refl _⟩
  | cons call calls ih =>
      rintro fs F own l h ⟨hlegal, hroom, hsafe⟩ hrun
      obtain ⟨_, fs₁, hcall, hrest⟩ := of_outcome_bind (f := fun _ => calls.forM Call.run) hrun
      have hfree := h.free_add
      obtain ⟨F₁, own₁, l₁, hstep, h₁, hsteps₁⟩ := call_refines h hlegal (by omega) hcall
      have hsafe₁ := hsafe F₁ hstep
      rw [← hsteps₁.inos, ← hsteps₁.isize, ← hsteps₁.fsize] at hsafe₁
      obtain ⟨F', own', l', hwhole, h', hsteps'⟩ := ih h₁ hsafe₁ hrest
      rw [hsteps₁.inos] at hwhole
      exact ⟨F', own', l', .cons hstep hwhole, h', hsteps₁.trans hsteps'⟩

end Sbc386Ex.Cohfs

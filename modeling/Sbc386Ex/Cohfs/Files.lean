import Mathlib.Data.List.Nodup
import Mathlib.Logic.Function.Basic
import Sbc386Ex.Cohfs.Contents
import Sbc386Ex.Cohfs.Names

/-!
# Sbc386Ex.Cohfs.Files

The files of a file system apart from where they are: by inode, each with what is in it. An image
keeps them where the free blocks and the blocks of the files are all the blocks there are, each of
them once; each file is laid out in its own; and every entry in use of a directory is an inode there
is. Such an image is read as the files are.
-/

namespace Sbc386Ex.Cohfs

open Raising

/-! ### Files -/

/-- What is in a file: bytes, names, or nothing but the number of a device. -/
inductive Content
  | data (bytes : List Byte)
  | names (l : Names)
  | device (number : Nat)
  deriving DecidableEq

structure File where
  mode : Int
  nlink : Int
  uid : Int
  gid : Int
  content : Content
  deriving DecidableEq

def File.ifmt (f : File) : Nat := f.mode.toNat &&& S_IFMT

/-- By inode, those that are in use. -/
abbrev Files := Nat → Option File

namespace Files

/-- The entries of a directory. -/
def names (F : Files) (ino : Nat) : Option Names :=
  match F ino with
  | some { content := .names l, .. } => some l
  | _ => none

/-- One of the files becomes another. -/
def set (F : Files) (ino : Nat) (f : Option File) : Files := Function.update F ino f

theorem set_self (F : Files) (ino : Nat) (f : Option File) : F.set ino f ino = f := Function.update_self ..

theorem set_ne {F : Files} {ino i : Nat} {f : Option File} (h : i ≠ ino) : F.set ino f i = F i :=
  Function.update_of_ne h ..

theorem names_congr {F F' : Files} {ino i : Nat} (h : F' i = F ino) : F'.names i = F.names ino := by
  rw [names, names, h]

/-- The entries of a directory become others. -/
def withNames (F : Files) (ino : Nat) (l : Names) : Files :=
  F.set ino ((F ino).map fun f => { f with content := .names l })

/-- Where the parts of a path lead from `ino`. -/
def walk (F : Files) : List Text → Nat → Option Nat
  | [], ino => some ino
  | part :: rest, ino => (F.names ino).bind fun l => (l.find part).bind (F.walk rest)

/-- All that the path leads through are directories. -/
def Straight (F : Files) : List Text → Nat → Prop
  | [], _ => True
  | part :: rest, ino => ∃ l, F.names ino = some l ∧ ∀ i, l.find part = some i → F.Straight rest i

theorem straight_take {F : Files} {ps qs : List Text} :
    ∀ {ino : Nat}, F.Straight (ps ++ qs) ino → F.Straight ps ino := by
  induction ps with
  | nil => exact fun _ => trivial
  | cons p ps ih =>
      rintro ino ⟨l, hl, hrest⟩
      exact ⟨l, hl, fun i hi => ih (hrest i hi)⟩

theorem walk_append {F : Files} {ps qs : List Text} : ∀ {ino : Nat},
    F.walk (ps ++ qs) ino = (F.walk ps ino).bind (F.walk qs) := by
  induction ps with
  | nil => exact rfl
  | cons p ps ih =>
      intro ino
      rw [List.cons_append, walk, walk, Option.bind_assoc]
      refine congrArg _ (funext fun l => ?_)
      rw [Option.bind_assoc]
      exact congrArg _ (funext fun i => ih)

end Files

/-! ### Files in blocks -/

/-- A device node. -/
def Ip.Device (ip : Ip) : Prop := ip.ifmt = S_IFCHR ∨ ip.ifmt = S_IFBLK

instance (ip : Ip) : Decidable ip.Device := inferInstanceAs (Decidable (_ ∨ _))

def Ip.file (ip : Ip) (content : Content) : File :=
  { mode := ip.mode, nlink := ip.nlink, uid := ip.uid, gid := ip.gid, content }

theorem Ip.mode_of_dir {ip : Ip} (h : ip.ifmt = S_IFDIR) : ip.mode ≠ 0 ∧ ¬ ip.Device := by
  refine ⟨fun hmode => ?_, fun hdevice => ?_⟩
  · rw [Ip.ifmt, hmode] at h
    exact absurd h (by decide)
  · rw [Ip.Device, h] at hdevice
    exact absurd hdevice (by decide)

/-- The bytes as what they are in a file of this kind. -/
def Ip.content (ip : Ip) (bytes : List Byte) : Content :=
  if ip.ifmt = S_IFDIR then .names (listing bytes) else .data bytes

/-- The file of the inode `ip`, with the blocks that are its own. -/
inductive Stored (d : Image) (ip : Ip) : List Nat → Option File → Prop
  | free (mode : ip.mode = 0) : Stored d ip [] none
  | device (device : ip.Device) : Stored d ip [] (some (ip.file (.device (ip.addr.getD 0 0))))
  | file {bs ins : List Nat} {bytes : List Byte} (mode : ip.mode ≠ 0) (device : ¬ ip.Device)
      (laid : LaidOut d ip.addr bs ins) (count : bs.length = (ip.size + BSIZE - 1) / BSIZE)
      (data : (bs.flatMap d.block).take ip.size = bytes) (dir : ip.ifmt = S_IFDIR → 16 ∣ bytes.length) :
      Stored d ip (bs ++ ins) (some (ip.file (ip.content bytes)))

variable {d d' : Image} {ip : Ip} {own l : List Nat} {f : Option File}

/-- A file is as it was where its own blocks are. -/
theorem Stored.frame (h : Stored d ip own f) (hblock : ∀ b ∈ own, d'.block b = d.block b) :
    Stored d' ip own f := by
  cases h with
  | free mode => exact .free mode
  | device device => exact .device device
  | file mode device laid count data dir =>
      refine .file mode device (laid.frame fun b hb => hblock b (List.mem_append_right _ hb)) count ?_ dir
      rw [← data, List.flatMap_congr fun b hb => hblock b (List.mem_append_left _ hb)]

/-- A free inode has no mode, and only that. -/
theorem Stored.none_iff (h : Stored d ip own f) : f = none ↔ ip.mode = 0 := by
  cases h with
  | free mode => simp [mode]
  | device device =>
      simp only [reduceCtorEq, false_iff]
      intro hmode
      simp [Ip.Device, Ip.ifmt, hmode, S_IFCHR, S_IFBLK] at device
  | file mode => simp [mode]

/-- The blocks of the files, one inode after the other. -/
theorem perm_flatMap_update {r : List Nat} {ino : Nat} (hr : r.Nodup) (h : ino ∈ r) (own : Nat → List Nat) :
    ∃ rest, (r.flatMap own).Perm (own ino ++ rest) ∧
      (∀ x, (r.flatMap (Function.update own ino x)).Perm (x ++ rest)) ∧
      ∀ i ∈ r, i ≠ ino → own i ⊆ rest := by
  refine ⟨(r.erase ino).flatMap own, (List.perm_cons_erase h).flatMap_right own, fun x => ?_,
    fun i hi hne b hb => List.mem_flatMap.mpr ⟨i, (List.mem_erase_of_ne hne).mpr hi, hb⟩⟩
  have hself : Function.update own ino x ino = x := Function.update_self ..
  have hothers : (r.erase ino).flatMap (Function.update own ino x) = (r.erase ino).flatMap own :=
    List.flatMap_congr fun i hi => Function.update_of_ne (fun heq => hr.not_mem_erase (heq ▸ hi)) _ _
  refine ((List.perm_cons_erase h).flatMap_right _).trans ?_
  rw [List.flatMap_cons, hself, hothers]

/-! ### The files of an image -/

/-- The inodes there are. -/
def Fsw.inos (fs : Fsw) : List Nat := List.range' 1 fs.ninodes

theorem Fsw.mem_inos {fs : Fsw} {ino : Nat} : ino ∈ fs.inos ↔ Image.InTable fs.isize ino := by
  rw [Fsw.inos, List.mem_range'_1, Image.InTable, Fsw.ninodes]
  omega

theorem Fsw.nodup_inos (fs : Fsw) : fs.inos.Nodup := List.nodup_range'

/-- The inodes are before the blocks of the files. -/
theorem Fsw.Pool.holdsInode {fs : Fsw} {ino : Nat} (h : fs.Pool l) (hino : Image.InTable fs.isize ino) :
    fs.disk.HoldsInode ino := by
  have hroom : (fs.isize + fs.disk.base) * BSIZE ≤ (fs.fsize + fs.disk.base) * BSIZE :=
    Nat.mul_le_mul_right _ (Nat.add_le_add_right h.room _)
  exact (Image.ioff_le hino le_rfl).trans (hroom.trans h.size)

/-- **The invariant.** The image keeps the files `F`: the inode `ino` has the blocks `own ino`, and the
blocks `l` are free. -/
structure Fsw.Keeps (F : Files) (own : Nat → List Nat) (l : List Nat) (fs : Fsw) : Prop where
  base : fs.disk.base = 0
  pool : fs.Pool l
  root : 3 ≤ fs.isize
  addressed : fs.fsize ≤ 2 ^ 24
  stored : ∀ ino, Image.InTable fs.isize ino → ∃ ip, fs.disk.iread ino = .ok ip ∧
    Stored fs.disk ip (own ino) (F ino)
  parted : (l ++ fs.inos.flatMap own).Perm (List.range' fs.isize (fs.fsize - fs.isize))
  cache : ∀ i : Nat, (i : Int) < fs.ninode → ∀ ino, fs.icache[i]? = some ino →
    Image.InTable fs.isize ino ∧ ROOTINO < ino
  named : ∀ ino names, Image.InTable fs.isize ino → F.names ino = some names →
    ∀ e ∈ names, e.1 ≠ 0 → Image.InTable fs.isize e.1

namespace Fsw.Keeps

variable {fs fs' : Fsw} {F : Files} {own : Nat → List Nat} {l : List Nat} {ino : Nat}

theorem root_inTable (h : fs.Keeps F own l) : Image.InTable fs.isize ROOTINO := by
  have hroot := h.root
  have hino : ROOTINO = 2 := rfl
  have hper : BSIZE / INOSZ = 8 := rfl
  rw [Image.InTable, hino, hper]
  omega

theorem holdsInode (h : fs.Keeps F own l) (hino : Image.InTable fs.isize ino) : fs.disk.HoldsInode ino :=
  h.pool.holdsInode hino

/-- What is not the inode's own and not free, the blocks of the other inodes among it. -/
theorem others (h : fs.Keeps F own l) (hino : Image.InTable fs.isize ino) : ∃ rest,
    (own ino ++ l ++ rest).Perm (List.range' fs.isize (fs.fsize - fs.isize)) ∧
      (∀ x l' : List Nat, (x ++ l').Perm (own ino ++ l) →
        (l' ++ fs.inos.flatMap (Function.update own ino x)).Perm (List.range' fs.isize (fs.fsize - fs.isize))) ∧
      ∀ i, Image.InTable fs.isize i → i ≠ ino → own i ⊆ rest := by
  obtain ⟨rest, hperm, hupdate, hsub⟩ := perm_flatMap_update fs.nodup_inos (Fsw.mem_inos.mpr hino) own
  have hall : (own ino ++ l ++ rest).Perm (List.range' fs.isize (fs.fsize - fs.isize)) := by
    refine List.Perm.trans ?_ ((hperm.symm.append_left l).trans h.parted)
    rw [← List.append_assoc]
    exact List.perm_append_comm.append_right rest
  refine ⟨rest, hall, fun x l' hx => ?_, fun i hi => hsub i (Fsw.mem_inos.mpr hi)⟩
  refine ((hupdate x).append_left l').trans (List.Perm.trans ?_ hall)
  rw [← List.append_assoc]
  exact (List.perm_append_comm.trans hx).append_right rest

theorem own_inFiles (h : fs.Keeps F own l) (hino : Image.InTable fs.isize ino) :
    (own ino ++ l).Nodup ∧ ∀ b ∈ own ino, fs.InFiles b := by
  obtain ⟨rest, hperm, -⟩ := h.others hino
  refine ⟨(List.nodup_append.mp (hperm.nodup_iff.mpr List.nodup_range')).1, fun b hb => ?_⟩
  have hmem := hperm.subset (List.mem_append_left _ (List.mem_append_left _ hb))
  rw [List.mem_range'_1] at hmem
  have hroom := h.pool.room
  exact ⟨hmem.1, by omega⟩

end Fsw.Keeps

/-! ### Reading -/

/-- Both readers of an inode see the same one. -/
theorem inodeData_eq {ino : Nat} (hbase : d.base = 0) (hroom : d.HoldsInode ino) :
    d.inodeData ino = (do d.data (← d.iread ino)) := by
  have hoff : d.ioff ino = 2 * BSIZE + ino * INOSZ - INOSZ := by rw [Image.ioff, hbase, Nat.zero_add]
  have hlen : (slice d.bytes (d.ioff ino) (d.ioff ino + INOSZ)).length = INOSZ := by
    rw [length_slice _ (Nat.le_add_right _ _) hroom, Nat.add_sub_cancel_left]
  rw [Image.inodeData, Image.inode, ← hoff, Image.iread, unpackIp_eq hlen, bind_ok rfl,
    bind_ok (pdplong_eq (o := 56) (by rw [hlen]; decide))]
  rfl

theorem Files.names_eq {F : Files} {ino : Nat} {names : Names} (h : F.names ino = some names) :
    ∃ f, F ino = some f ∧ f.content = .names names := by
  rw [Files.names] at h
  split at h
  · next l hf =>
      cases h
      exact ⟨_, hf, rfl⟩
  · cases h

theorem Ip.content_names {bytes : List Byte} {names : Names} (h : ip.content bytes = .names names) :
    ip.ifmt = S_IFDIR ∧ listing bytes = names := by
  rw [Ip.content] at h
  split_ifs at h with hdir
  exact ⟨hdir, Content.names.inj h⟩

namespace Fsw.Keeps

variable {fs fs' : Fsw} {F : Files} {own : Nat → List Nat} {l : List Nat} {ino : Nat}

/-- A directory, as it is read. -/
theorem directory (h : fs.Keeps F own l) (hino : Image.InTable fs.isize ino) {names : Names}
    (hnames : F.names ino = some names) : ∃ ip bs ins bytes, fs.disk.iread ino = .ok ip ∧ ip.ifmt = S_IFDIR ∧
      F ino = some (ip.file (.names names)) ∧ own ino = bs ++ ins ∧ LaidOut fs.disk ip.addr bs ins ∧
      fs.disk.inodeData ino = .ok bytes ∧ listing bytes = names ∧ 16 ∣ bytes.length ∧
      (own ino).length = blocksFor bytes.length := by
  obtain ⟨f, hf, hcontent⟩ := Files.names_eq hnames
  obtain ⟨ip, hip, hstored⟩ := h.stored ino hino
  rw [hf] at hstored
  generalize hown : own ino = blocks at hstored
  cases hstored with
  | device device => cases hcontent
  | @file bs ins bytes mode device laid count data dir =>
      obtain ⟨hdir, rfl⟩ := Ip.content_names hcontent
      refine ⟨ip, bs, ins, bytes, hip, hdir, ?_, rfl, laid, ?_, rfl, dir hdir, ?_⟩
      · rw [hf, Ip.content, if_pos hdir]
      · rw [inodeData_eq h.base (h.holdsInode hino), hip, bind_ok rfl, data_laidOut laid count device, data]
      · rw [laid.count, count, blocksFor, ← data, length_contents (fun b hb => ?_) count]
        have hin := (h.own_inFiles hino).2 b (hown ▸ List.mem_append_left _ hb)
        exact Image.length_block (h.pool.holds hin.2)

/-- **Reading**: where a path leads through directories, it is found to lead where it does. -/
theorem lookupFrom (h : fs.Keeps F own l) : ∀ {ps : List Text} {ino : Nat}, F.Straight ps ino →
    Image.InTable fs.isize ino → fs.disk.lookupFrom ps ino = .ok (F.walk ps ino) ∧
      ∀ i, F.walk ps ino = some i → Image.InTable fs.isize i := by
  intro ps
  induction ps with
  | nil =>
      intro ino _ hino
      exact ⟨rfl, fun i hi => Option.some.inj hi ▸ hino⟩
  | cons part rest ih =>
      rintro ino ⟨names, hnames, hrest⟩ hino
      obtain ⟨ip, bs, ins, bytes, -, -, -, -, -, hdata, hlisting, hdvd, -⟩ := h.directory hino hnames
      obtain ⟨r, hr, hfind, -⟩ := findEntry_listing hdvd part
      rw [hlisting] at hfind
      have hwalk : F.walk (part :: rest) ino = (names.find part).bind (F.walk rest) := by
        rw [Files.walk, hnames, Option.bind_some]
      rw [Image.lookupFrom, bind_ok hdata, bind_ok hr, hwalk, hfind]
      obtain _ | ⟨o, i⟩ := r
      · exact ⟨rfl, nofun⟩
      · rw [Option.map_some] at hfind
        obtain ⟨hmem, hne⟩ := Names.mem_of_find hfind
        exact ih (hrest i hfind) (h.named ino names hino hnames _ hmem hne)

theorem lookup (h : fs.Keeps F own l) {path : Text} (hpath : F.Straight (parts path) ROOTINO) :
    fs.disk.lookup path = .ok (F.walk (parts path) ROOTINO) ∧
      ∀ i, F.walk (parts path) ROOTINO = some i → Image.InTable fs.isize i :=
  h.lookupFrom hpath h.root_inTable

end Fsw.Keeps

end Sbc386Ex.Cohfs

import Sbc386Ex.Cohfs.Mkfs

/-!
# Sbc386Ex.Cohfs.Reader

The commands of `cohfs.py`: what they say of an image that keeps files is what the files are. `walk`
recurses as deep as the directories do; it is given so many rounds.
-/

namespace Sbc386Ex.Cohfs

open Raising

/-! ### Python's own -/

/-- `path.rstrip('/')`. -/
def rstrip (path : Text) : Text := (path.reverse.dropWhile (· = SLASH)).reverse

/-- `path.strip('/')`. -/
def strip (path : Text) : Text := rstrip (path.dropWhile (· = SLASH))

/-- `os.path.join(dir, path)`, of a `path` that does not start with a slash. -/
def pathJoin (dir path : Text) : Text :=
  if dir = [] ∨ dir.getLast? = some SLASH then dir ++ path else dir ++ [SLASH] ++ path

/-- `os.path.dirname`. -/
def dirname (path : Text) : Text :=
  let head := (path.reverse.dropWhile (· ≠ SLASH)).reverse
  if head.all (· = SLASH) then head else rstrip head

def rjust (fill : CodePoint) (n : Nat) (t : Text) : Text := List.replicate (n - t.length) fill ++ t

/-- `%d`. -/
def decimal (v : Int) : Text := text ((if v < 0 then ['-'] else []) ++ Nat.toDigits 10 v.natAbs)

/-- The order of a name and its inode in `sorted`. -/
def rowLe (a b : Text × Nat) : Bool := a.1 < b.1 ∨ (a.1 = b.1 ∧ a.2 ≤ b.2)

def sorted (rows : List (Text × Nat)) : List (Text × Nat) := rows.mergeSort rowLe

/-! ### Commands -/

/-- The `FS` object. -/
structure Fs where
  img : Image
  isize : Nat
  fsize : Nat
  tfree : Nat

/-- `FS.__init__`. -/
def Fs.load (offset : Nat) (file : List Byte) : Except Raise Fs := do
  let img : Image := { bytes := file.drop (offset * BSIZE), base := 0 }
  let sb := img.block 1
  let isize ← u16 sb 0
  let fsize ← pdplong sb 2
  let tfree ← pdplong sb (2 + 4 + 2 + 64 * 4 + 2 + 100 * 2 + 4 + 4)
  return { img, isize, fsize, tfree }

/-- `fmt`. -/
def fmt (ip : Inode) (name : Text) : Text :=
  let space : CodePoint := 0x20
  rjust 0x30 6 (text (Nat.toDigits 8 ip.mode.toNat)) ++ [space] ++ rjust space 3 (decimal ip.nlink) ++ [space] ++
    rjust space 5 (decimal ip.uid) ++ [space] ++ rjust space 9 (decimal ip.size) ++ [space] ++ name

/-- The entries in use of those at `os`. -/
def rowsFrom (b : List Byte) : List Nat → Except Raise (List (Text × Nat))
  | [] => .ok []
  | o :: os => do
      let ino ← u16 b o
      let rows ← rowsFrom b os
      return if ino ≠ 0 then (entryName b o, ino) :: rows else rows

def isDot (name : Text) : Prop := name = [0x2E] ∨ name = [0x2E, 0x2E]

instance (name : Text) : Decidable (isDot name) := inferInstanceAs (Decidable (_ ∨ _))

/-- A name below a path. -/
def below (path name : Text) : Text := rstrip path ++ [SLASH] ++ name

namespace Image

variable (d : Image)

def readdir (ip : Ip) : Except Raise (List (Text × Nat)) := do
  let b ← d.data ip
  rowsFrom b (entries b)

def nameiFrom (path : Text) : List Text → Inode → Except Raise Inode
  | [], ip => .ok ip
  | part :: rest, ip => do
      let b ← d.data ip.toIp
      match ← findEntry b part (entries b) with
      | some (_, ino) => nameiFrom path rest (← d.inode ino)
      | none => .error (.fileNotFound path)

def namei (path : Text) : Except Raise Inode := do d.nameiFrom path (parts path) (← d.inode ROOTINO)

/-- What `walk` yields for the sorted entries `rows` of the directory at `path`. -/
def walk : Nat → List (Text × Nat) → Text → Except Raise (Option (List (Inode × Text)))
  | 0, _, _ => .ok none
  | _ + 1, [], _ => .ok (some [])
  | fuel + 1, (name, ino) :: rows, path =>
      if isDot name then walk fuel rows path
      else do
        let sub ← d.inode ino
        let p := below path name
        let inside ←
          if sub.ifmt = S_IFDIR then do walk fuel (sorted (← d.readdir sub.toIp)) p
          else .ok (some [])
        let rest ← walk fuel rows path
        return do some ((sub, p) :: (← inside) ++ (← rest))

def ls (path : Text) : Except Raise (List Text) := do
  let ip ← d.namei path
  (sorted (← d.readdir ip.toIp)).mapM fun (name, ino) => do return fmt (← d.inode ino) name

def tree (fuel : Nat) (path : Text) : Except Raise (Option (List Text)) := do
  let ip ← d.namei path
  let rows ← d.walk fuel (sorted (← d.readdir ip.toIp)) path
  return rows.map fun rows => rows.map fun (sub, p) => fmt sub p

def cat (path : Text) : Except Raise (List Byte) := do d.data (← d.namei path).toIp

end Image

/-- What `get` does on the host. -/
inductive HostCall
  | makedirs (path : Text)
  | write (path : Text) (data : List Byte)
  deriving DecidableEq

namespace Image

variable (d : Image)

/-- What `get` does with a file below the one it was called for. -/
def extract (outdir : Text) (sub : Inode) (p : Text) : Except Raise (List HostCall) := do
  let dest := pathJoin outdir (strip p)
  if sub.ifmt = S_IFDIR then return [.makedirs dest]
  else if sub.ifmt = S_IFREG then return [.write dest (← d.data sub.toIp)]
  else return []

def get (fuel : Nat) (path outdir : Text) : Except Raise (Option (List HostCall)) := do
  let ip ← d.namei path
  let dest := pathJoin outdir (strip path)
  if ip.ifmt = S_IFDIR then
    match ← d.walk fuel (sorted (← d.readdir ip.toIp)) path with
    | none => return none
    | some rows =>
        let calls ← rows.mapM fun (sub, p) => d.extract outdir sub p
        return some (.makedirs dest :: calls.flatten)
  else
    let dir := dirname dest
    return some [.makedirs (if dir = [] then [0x2E] else dir), .write dest (← d.data ip.toIp)]

end Image

/-! ### What the files are -/

namespace Files

/-- The entries in use of a directory, as they are listed. -/
def rows (l : Names) : List (Text × Nat) := sorted ((l.filter (·.1 ≠ 0)).map fun e => (e.2, e.1))

/-- All that is below the entries of the directory at a path, each file after its directory. A
directory that is below itself has no such list. -/
inductive Tree (F : Files) : List (Text × Nat) → Text → List (Nat × Text) → Prop
  | nil {path} : Tree F [] path []
  | dot {name ino es path out} (dot : isDot name) (rest : Tree F es path out) :
      Tree F ((name, ino) :: es) path out
  | leaf {name ino es path out} (dot : ¬ isDot name) (leaf : F.names ino = none) (rest : Tree F es path out) :
      Tree F ((name, ino) :: es) path ((ino, below path name) :: out)
  | dir {name ino es path out l sub} (dot : ¬ isDot name) (names : F.names ino = some l)
      (inside : Tree F (rows l) (below path name) sub) (rest : Tree F es path out) :
      Tree F ((name, ino) :: es) path ((ino, below path name) :: sub ++ out)

/-- What the host gets of a file. -/
def hostCalls (F : Files) (outdir : Text) (e : Nat × Text) : List HostCall :=
  let dest := pathJoin outdir (strip e.2)
  match F e.1 with
  | some { content := .names _, .. } => [.makedirs dest]
  | some { content := .data bytes, mode, .. } =>
      if mode.toNat &&& S_IFMT = S_IFREG then [.write dest bytes] else []
  | _ => []

end Files

/-! ### What is read of them -/

variable {fs : Fsw} {F : Files} {own : Nat → List Nat} {l : List Nat} {ino : Nat} {d : Image}

theorem inode_eq (hbase : d.base = 0) (hroom : d.HoldsInode ino) {ip : Ip} (hip : d.iread ino = .ok ip) :
    ∃ i, d.inode ino = .ok i ∧ i.toIp = ip := by
  have hoff : d.ioff ino = 2 * BSIZE + ino * INOSZ - INOSZ := by rw [Image.ioff, hbase, Nat.zero_add]
  have hlen : (slice d.bytes (d.ioff ino) (d.ioff ino + INOSZ)).length = INOSZ := by
    rw [length_slice _ (Nat.le_add_right _ _) hroom, Nat.add_sub_cancel_left]
  rw [Image.iread] at hip
  refine ⟨{ ip with ino, mtime := long (slice d.bytes (d.ioff ino) (d.ioff ino + INOSZ)) 56 }, ?_, rfl⟩
  rw [Image.inode, ← hoff, bind_ok hip, bind_ok (pdplong_eq (o := 56) (by rw [hlen]; decide))]
  rfl

theorem rowsFrom_eq {b : List Byte} : ∀ {os : List Nat}, (∀ o ∈ os, o + 2 ≤ b.length) →
    rowsFrom b os = .ok ((((os.map (entry b)).filter (·.1 ≠ 0)).map fun e => (e.2, e.1))) := by
  intro os
  induction os with
  | nil => exact fun _ => rfl
  | cons o os ih =>
      intro h
      rw [rowsFrom, bind_ok (u16_eq (h o List.mem_cons_self)),
        bind_ok (ih fun x hx => h x (List.mem_cons_of_mem _ hx)), List.map_cons, List.filter_cons]
      by_cases hino : word b o = 0
      · simp [entry, hino]
        rfl
      · simp [entry, hino]
        rfl

theorem Files.names_ne_none {F : Files} {ino : Nat} :
    F.names ino ≠ none ↔ ∃ f, F ino = some f ∧ ∃ names, f.content = .names names := by
  constructor
  · intro h
    obtain ⟨names, hnames⟩ := Option.ne_none_iff_exists'.mp h
    obtain ⟨f, hf, hcontent⟩ := Files.names_eq hnames
    exact ⟨f, hf, names, hcontent⟩
  · rintro ⟨⟨mode, nlink, uid, gid, content⟩, hf, names, hcontent⟩
    cases hcontent
    rw [Files.names, hf]
    exact Option.some_ne_none names

/-- A directory is stored as one. -/
theorem Stored.dir_iff {d : Image} {ip : Ip} {own : List Nat} {f : Option File}
    (h : Stored d ip own f) :
    ip.ifmt = S_IFDIR ↔ ∃ g, f = some g ∧ ∃ names, g.content = .names names := by
  cases h with
  | free mode => simp [Ip.ifmt, mode, S_IFDIR]
  | device device =>
      have hne : ip.ifmt ≠ S_IFDIR := fun hdir => (Ip.mode_of_dir hdir).2 device
      simp [hne, Ip.file]
  | file mode device laid count data dir =>
      by_cases hdir : ip.ifmt = S_IFDIR <;> simp [hdir, Ip.file, Ip.content]

namespace Fsw.Keeps

/-- The inode of a file, as the reader has it. -/
theorem inode (h : fs.Keeps F own l) (hino : Image.InTable fs.isize ino) :
    ∃ i, fs.disk.inode ino = .ok i ∧ Stored fs.disk i.toIp (own ino) (F ino) := by
  obtain ⟨ip, hip, hstored⟩ := h.stored ino hino
  obtain ⟨i, hi, rfl⟩ := inode_eq h.base (h.holdsInode hino) hip
  exact ⟨i, hi, hstored⟩

/-- What of a directory the reader lists. -/
theorem readdir (h : fs.Keeps F own l) (hino : Image.InTable fs.isize ino) {names : Names}
    (hnames : F.names ino = some names) : ∃ i, fs.disk.inode ino = .ok i ∧ i.ifmt = S_IFDIR ∧
      ∃ es, fs.disk.readdir i.toIp = .ok es ∧ sorted es = Files.rows names ∧
        ∀ e ∈ es, Image.InTable fs.isize e.2 := by
  obtain ⟨ip, bs, ins, bytes, hip, hdir, -, -, -, hdata, hlisting, hdvd, -⟩ := h.directory hino hnames
  obtain ⟨i, hi, rfl⟩ := inode_eq h.base (h.holdsInode hino) hip
  rw [Image.inodeData, hi, bind_ok rfl] at hdata
  refine ⟨i, hi, hdir, _, ?_, rfl, fun e he => ?_⟩
  · rw [Image.readdir, bind_ok hdata, rowsFrom_eq fun o ho => by
      have hend := mem_entries hdvd ho
      omega]
    rw [← hlisting]
    rfl
  · obtain ⟨e', he', rfl⟩ := List.mem_map.mp he
    obtain ⟨hmem, hne⟩ := List.mem_filter.mp he'
    exact h.named ino _ hino hnames e' hmem (of_decide_eq_true hne)

/-- The reader takes a directory for one. -/
theorem isdir (h : fs.Keeps F own l) (hino : Image.InTable fs.isize ino) {i : Inode}
    (hi : fs.disk.inode ino = .ok i) : i.ifmt = S_IFDIR ↔ F.names ino ≠ none := by
  obtain ⟨i', hi', hstored⟩ := h.inode hino
  obtain rfl : i' = i := Except.ok.inj (hi'.symm.trans hi)
  rw [Files.names_ne_none]
  exact hstored.dir_iff

theorem namei (h : fs.Keeps F own l) {path : Text} : ∀ {ps : List Text} {ino : Nat} {i : Inode},
    F.Straight ps ino → Image.InTable fs.isize ino → fs.disk.inode ino = .ok i →
    fs.disk.nameiFrom path ps i = match F.walk ps ino with
      | some ino' => fs.disk.inode ino'
      | none => .error (.fileNotFound path) := by
  intro ps
  induction ps with
  | nil => exact fun _ _ hi => hi.symm
  | cons part rest ih =>
      intro ino i ⟨names, hnames, hrest⟩ hino hi
      obtain ⟨ip, bs, ins, bytes, hip, -, -, -, -, hdata, hlisting, hdvd, -⟩ := h.directory hino hnames
      rw [Image.inodeData, hi, bind_ok rfl] at hdata
      obtain ⟨r, hr, hfind, -⟩ := findEntry_listing hdvd part
      rw [hlisting] at hfind
      have hwalk : F.walk (part :: rest) ino = (names.find part).bind (F.walk rest) := by
        rw [Files.walk, hnames, Option.bind_some]
      rw [Image.nameiFrom, bind_ok hdata, bind_ok hr, hwalk, hfind]
      obtain _ | ⟨o, j⟩ := r
      · rfl
      · rw [Option.map_some] at hfind
        obtain ⟨hmem, hne⟩ := Names.mem_of_find hfind
        have hj := h.named ino names hino hnames _ hmem hne
        obtain ⟨i', hi', -⟩ := h.inode hj
        show (fs.disk.inode j >>= fs.disk.nameiFrom path rest) = _
        rw [bind_ok hi', ih (hrest j hfind) hj hi']
        rfl

/-- What `walk` yields of a file. -/
structure Yields (fs : Fsw) (row : Inode × Text) (e : Nat × Text) : Prop where
  inTable : Image.InTable fs.isize e.1
  inode : fs.disk.inode e.1 = .ok row.1
  path : row.2 = e.2

/-- **`walk`** ends on the files below a directory, and yields them. -/
theorem walk (h : fs.Keeps F own l) {es : List (Text × Nat)} {path : Text} {out : List (Nat × Text)}
    (htree : F.Tree es path out) : (∀ e ∈ es, Image.InTable fs.isize e.2) → ∃ n, ∀ m, n ≤ m →
      ∃ rows, fs.disk.walk m es path = .ok (some rows) ∧ List.Forall₂ (Yields fs) rows out := by
  induction htree with
  | nil =>
      refine fun _ => ⟨1, fun m hm => ⟨[], ?_, .nil⟩⟩
      obtain ⟨m, rfl⟩ := Nat.exists_eq_add_of_le' hm
      rfl
  | dot hdot _ ih =>
      intro hes
      obtain ⟨n, hn⟩ := ih fun e he => hes e (List.mem_cons_of_mem _ he)
      refine ⟨n + 1, fun m hm => ?_⟩
      obtain ⟨m, rfl⟩ := Nat.exists_eq_add_of_le' (Nat.le_trans n.succ_pos hm)
      rw [Image.walk, if_pos hdot]
      exact hn m (Nat.le_of_succ_le_succ hm)
  | @leaf name ino es path out hdot hleaf _ ih =>
      intro hes
      obtain ⟨n, hn⟩ := ih fun e he => hes e (List.mem_cons_of_mem _ he)
      have hino := hes _ List.mem_cons_self
      obtain ⟨i, hi, -⟩ := h.inode hino
      have hfile : i.ifmt ≠ S_IFDIR := fun hdir => (h.isdir hino hi).mp hdir hleaf
      refine ⟨n + 1, fun m hm => ?_⟩
      obtain ⟨m, rfl⟩ := Nat.exists_eq_add_of_le' (Nat.le_trans n.succ_pos hm)
      obtain ⟨rows, hrows, hyields⟩ := hn m (Nat.le_of_succ_le_succ hm)
      refine ⟨(i, below path name) :: rows, ?_, .cons ⟨hino, hi, rfl⟩ hyields⟩
      rw [Image.walk, if_neg hdot, bind_ok hi]
      dsimp only
      rw [if_neg hfile, bind_ok rfl, bind_ok hrows]
      rfl
  | @dir name ino es path out names sub hdot hnames _ _ ihinside ih =>
      intro hes
      have hino := hes _ List.mem_cons_self
      obtain ⟨i, hi, hdir, es', hes', hsorted, hin⟩ := h.readdir hino hnames
      obtain ⟨n, hn⟩ := ih fun e he => hes e (List.mem_cons_of_mem _ he)
      obtain ⟨k, hk⟩ := ihinside fun e he => hin e (by
        rw [← hsorted] at he
        exact (List.mergeSort_perm es' rowLe).subset he)
      -- both the rest of this directory and the one below have rounds enough
      refine ⟨max n k + 1, fun m hm => ?_⟩
      obtain ⟨m, rfl⟩ := Nat.exists_eq_add_of_le' (Nat.le_trans (Nat.succ_pos _) hm)
      have hmost : max n k ≤ m := Nat.le_of_succ_le_succ hm
      obtain ⟨rows, hrows, hyields⟩ := hn m ((Nat.le_max_left n k).trans hmost)
      obtain ⟨inside, hinside, hyields'⟩ := hk m ((Nat.le_max_right n k).trans hmost)
      refine ⟨(i, below path name) :: inside ++ rows, ?_, .cons ⟨hino, hi, rfl⟩ (List.rel_append hyields' hyields)⟩
      rw [Image.walk, if_neg hdot, bind_ok hi]
      dsimp only
      rw [if_pos hdir, bind_ok hes', hsorted, bind_ok hinside, bind_ok hrows]
      rfl

/-- **A file's contents** are read. -/
theorem read (h : fs.Keeps F own l) (hino : Image.InTable fs.isize ino) {f : File} (hf : F ino = some f)
    {i : Inode}
    (hi : fs.disk.inode ino = .ok i) : i.ifmt = f.ifmt ∧ match f.content with
      | .data bytes => fs.disk.data i.toIp = .ok bytes
      | .device _ => i.Device ∧ fs.disk.data i.toIp = .ok []
      | .names names => i.ifmt = S_IFDIR ∧ ∃ bytes, fs.disk.data i.toIp = .ok bytes ∧ listing bytes = names := by
  obtain ⟨i', hi', hstored⟩ := h.inode hino
  obtain rfl : i' = i := Except.ok.inj (hi'.symm.trans hi)
  rw [hf] at hstored
  generalize hg : some f = g at hstored
  generalize own ino = blocks at hstored
  cases hstored with
  | free => cases hg
  | device device =>
      cases hg
      exact ⟨rfl, device, if_pos device⟩
  | @file bs ins bytes mode device laid count data dir =>
      cases hg
      have hread := data_laidOut laid count device
      rw [data] at hread
      refine ⟨rfl, ?_⟩
      by_cases hdir : i'.ifmt = S_IFDIR
      · simp only [Ip.file, Ip.content, if_pos hdir]
        exact ⟨hdir, bytes, hread, rfl⟩
      · simp only [Ip.file, Ip.content, if_neg hdir]
        exact hread

theorem extract (h : fs.Keeps F own l) (outdir : Text) {row : Inode × Text} {e : Nat × Text}
    (hyields : Yields fs row e) :
    fs.disk.extract outdir row.1 row.2 = .ok (F.hostCalls outdir e) := by
  obtain ⟨hino, hi, hpath⟩ := hyields
  obtain ⟨i, hi', hstored⟩ := h.inode hino
  obtain rfl : i = row.1 := Except.ok.inj (hi'.symm.trans hi)
  rw [Image.extract, Files.hostCalls, hpath]
  generalize hf : F e.1 = f at hstored
  obtain _ | f := f
  · have hmode : row.1.ifmt = 0 := by
      rw [Ip.ifmt, hstored.none_iff.mp rfl]
      rfl
    rw [hmode]
    rfl
  · obtain ⟨hifmt, hread⟩ := h.read hino hf hi
    have hdir := h.isdir hino hi
    rw [Files.names, hf] at hdir
    obtain ⟨mode, nlink, uid, gid, content⟩ := f
    cases content with
    | names names => exact if_pos hread.1
    | data bytes =>
        rw [if_neg fun hd => hdir.mp hd rfl]
        by_cases hreg : row.1.ifmt = S_IFREG
        · have hmode : mode.toNat &&& S_IFMT = S_IFREG := hifmt.symm.trans hreg
          rw [if_pos hreg, bind_ok hread]
          simp only [if_pos hmode]
          rfl
        · have hmode : ¬ mode.toNat &&& S_IFMT = S_IFREG := fun hm => hreg (hifmt.trans hm)
          rw [if_neg hreg]
          simp only [if_neg hmode]
          rfl
    | device n =>
        have hreg : row.1.ifmt ≠ S_IFREG := fun hreg => (Ip.mode_of_reg hreg).2.1 hread.1
        rw [if_neg fun hd => hdir.mp hd rfl, if_neg hreg]
        rfl

theorem mapM_extract (h : fs.Keeps F own l) (outdir : Text) {rows : List (Inode × Text)} {out : List (Nat × Text)}
    (hyields : List.Forall₂ (Yields fs) rows out) :
    rows.mapM (fun row => fs.disk.extract outdir row.1 row.2) = .ok (out.map (F.hostCalls outdir)) := by
  induction hyields with
  | nil => rfl
  | cons hrow _ ih =>
      rw [List.mapM_cons, bind_ok (h.extract outdir hrow), bind_ok ih]
      rfl

end Fsw.Keeps

/-! ### Image files

A disk may have other sectors before the file system. -/

variable {isize fsize offset : Nat} {disk : List Byte} {path : Text}

theorem Kept.reader (h : Kept isize fsize F (disk.drop (offset * BSIZE))) : ∃ (fs : Fsw) (own : Nat → List Nat)
    (l : List Nat), fs.Keeps F own l ∧ fs.isize = isize ∧ fs.fsize = fsize ∧
      Fs.load offset disk = .ok { img := fs.disk, isize, fsize, tfree := l.length } := by
  obtain ⟨hisize, hfsize, own, l, hkeeps⟩ := h
  refine ⟨_, own, l, hkeeps, hisize, hfsize, ?_⟩
  have htotal := hkeeps.pool.total
  have hblock := Image.length_block hkeeps.holds_super
  rw [Fsw.loaded] at htotal hblock hisize hfsize ⊢
  rw [Fs.load]
  dsimp only at htotal hblock hisize hfsize ⊢
  generalize Image.block { bytes := disk.drop (offset * BSIZE), base := 0 } 1 = sb at htotal hblock hisize hfsize
  have hroom : ∀ {k}, k ≤ 512 → k ≤ sb.length := fun hk => hk.trans_eq hblock.symm
  rw [bind_ok (u16_eq (hroom (by decide))), bind_ok (pdplong_eq (hroom (by decide))),
    bind_ok (pdplong_eq (hroom (by decide)))]
  have hlength : long sb SB_TFREE = l.length := Int.ofNat_inj.mp htotal
  subst hisize hfsize
  rw [← hlength]
  rfl

theorem Kept.dropped {file : List Byte} (h : Kept isize fsize F file) :
    Kept isize fsize F (file.drop (0 * BSIZE)) := by
  rwa [Nat.zero_mul, List.drop_zero]

/-- **Reading**: a path that leads nowhere is not found, one that leads to a file has its contents. -/
theorem cat_kept (h : Kept isize fsize F (disk.drop (offset * BSIZE))) (hpath : F.Straight (parts path) ROOTINO) :
    ∃ fs, Fs.load offset disk = .ok fs ∧
      (F.walk (parts path) ROOTINO = none → fs.img.cat path = .error (.fileNotFound path)) ∧
      ∀ ino f, F.walk (parts path) ROOTINO = some ino → F ino = some f → match f.content with
        | .data bytes => fs.img.cat path = .ok bytes
        | .device _ => fs.img.cat path = .ok []
        | .names names => ∃ bytes, fs.img.cat path = .ok bytes ∧ listing bytes = names := by
  obtain ⟨fs, own, l, hkeeps, -, -, hload⟩ := h.reader
  obtain ⟨root, hroot, -⟩ := hkeeps.inode hkeeps.root_inTable
  have hnamei := @Fsw.Keeps.namei _ _ _ _ hkeeps path _ _ _ hpath hkeeps.root_inTable hroot
  have hin := (hkeeps.lookup hpath).2
  refine ⟨_, hload, fun hwalk => ?_, fun ino f hwalk hf => ?_⟩
  · rw [hwalk] at hnamei
    rw [Image.cat, Image.namei, bind_ok hroot, hnamei]
    rfl
  · obtain ⟨i, hi, -⟩ := hkeeps.inode (hin ino hwalk)
    obtain ⟨-, hread⟩ := hkeeps.read (hin ino hwalk) hf hi
    rw [hwalk] at hnamei
    have hcat : fs.disk.cat path = fs.disk.data i.toIp := by
      rw [Image.cat, Image.namei, bind_ok hroot, hnamei]
      exact bind_ok hi _
    show match f.content with
      | .data bytes => fs.disk.cat path = .ok bytes
      | .device _ => fs.disk.cat path = .ok []
      | .names names => ∃ bytes, fs.disk.cat path = .ok bytes ∧ listing bytes = names
    rw [hcat]
    obtain ⟨mode, nlink, uid, gid, content⟩ := f
    cases content with
    | data bytes => exact hread
    | names names => exact hread.2
    | device n => exact hread.2

/-- **The blocks that are free**, as `super` has them, are those that no file takes. -/
theorem super_kept (h : Kept isize fsize F (disk.drop (offset * BSIZE))) : ∃ fs, Fs.load offset disk = .ok fs ∧
    fs.isize = isize ∧ fs.fsize = fsize ∧ fs.tfree + F.used (inosOf isize) = fsize - isize := by
  obtain ⟨fs, own, l, hkeeps, rfl, rfl, hload⟩ := h.reader
  exact ⟨_, hload, rfl, rfl, hkeeps.free_add⟩

theorem super_kept_small : ∃ fs, Fs.load 0 smallFile = .ok fs ∧ fs.isize = 3 ∧ fs.fsize = 7 ∧
    fs.tfree + Files.fresh.used (inosOf 3) = 7 - 3 :=
  super_kept small_kept.dropped

end Sbc386Ex.Cohfs

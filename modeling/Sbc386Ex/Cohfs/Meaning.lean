import Sbc386Ex.Cohfs.Files

/-!
# Sbc386Ex.Cohfs.Meaning

What the calls of `cohfsw.py` are for, said of files and not of blocks: which files there are after
each. A new file takes some inode that is not in use; which, is not said.
-/

namespace Sbc386Ex.Cohfs

/-- The blocks a file takes. -/
def File.blocks (f : File) : Nat :=
  match f.content with
  | .data bytes => blocksFor bytes.length
  | .names l => blocksFor (16 * l.length)
  | .device _ => 0

/-- The path a call is given. -/
def Call.path : Call → Text
  | .put path .. | .mkdir path .. | .mknod path .. | .rm path => path

namespace Files

/-- The path ends in `name`, in the directory `parent` with the entries `names`. -/
structure Leads (F : Files) (path : Text) (parent : Nat) (name : Text) (names : Names) : Prop where
  parts : ∃ dir, Cohfs.parts path = dir ++ [name] ∧ F.walk dir ROOTINO = some parent
  names : F.names parent = some names

/-- The last step of a path. -/
theorem Leads.walk {F : Files} {path name : Text} {parent : Nat} {names : Names} (h : F.Leads path parent name names) :
    F.walk (Cohfs.parts path) ROOTINO = names.find name := by
  obtain ⟨dir, hparts, hdir⟩ := h.parts
  rw [hparts, walk_append, hdir, Option.bind_some, Files.walk, h.names, Option.bind_some]
  exact Option.bind_fun_some _

/-- An inode for a new file, one of the inodes `inos` there are. -/
structure Unused (F : Files) (inos : List Nat) (ino : Nat) : Prop where
  mem : ino ∈ inos
  free : F ino = none
  above : ROOTINO < ino

/-- One link more. -/
def link (F : Files) (ino : Nat) : Files := F.set ino ((F ino).map fun f => { f with nlink := f.nlink + 1 })

/-- A new file. -/
def regular (mode uid gid : Int) (data : List Byte) : File :=
  { mode := Int.lor S_IFREG mode, nlink := 1, uid := uid, gid := gid, content := .data data }

/-- A new directory. -/
def directory (mode uid gid : Int) (ino parent : Nat) : File :=
  { mode := Int.lor S_IFDIR mode, nlink := 2, uid := uid, gid := gid
    content := .names [(ino, [0x2E]), (parent, [0x2E, 0x2E])] }

/-- A device node. -/
def node (mode major minor uid gid : Int) : File :=
  { mode := mode, nlink := 1, uid := uid, gid := gid, content := .device (minor * 65536 + major).toNat }

/-- What a call makes of the files. -/
inductive Step (inos : List Nat) (F : Files) : Call → Files → Prop
  /-- `put` over a file: its contents, and nothing else. -/
  | replace {path data mode uid gid ino f old} (found : F.walk (parts path) ROOTINO = some ino)
      (file : F ino = some f)
      (regular : f.ifmt = S_IFREG) (content : f.content = .data old) :
      Step inos F (.put path data mode uid gid) (F.set ino (some { f with content := .data data }))
  /-- `put` of a new file. -/
  | create {path data mode uid gid ino parent name names} (leads : F.Leads path parent name names)
      (absent : names.find name = none) (unused : F.Unused inos ino) :
      Step inos F (.put path data mode uid gid)
        ((F.set ino (some (regular mode uid gid data))).withNames parent (names.enter ino name))
  | mkdir {path mode uid gid ino parent name names} (leads : F.Leads path parent name names)
      (absent : names.find name = none) (unused : F.Unused inos ino) :
      Step inos F (.mkdir path mode uid gid)
        (((F.set ino (some (directory mode uid gid ino parent))).withNames parent (names.enter ino name)).link parent)
  /-- `mknod` over a node. -/
  | renew {path mode major minor uid gid ino f old} (found : F.walk (parts path) ROOTINO = some ino)
      (file : F ino = some f) (content : f.content = .device old) :
      Step inos F (.mknod path mode major minor uid gid) (F.set ino (some (node mode major minor uid gid)))
  | mknod {path mode major minor uid gid ino parent name names} (leads : F.Leads path parent name names)
      (absent : names.find name = none) (unused : F.Unused inos ino) :
      Step inos F (.mknod path mode major minor uid gid)
        ((F.withNames parent (names.enter ino name)).set ino (some (node mode major minor uid gid)))
  /-- `rm` of a file's last link. -/
  | remove {path ino f old parent name names} (leads : F.Leads path parent name names)
      (present : names.find name = some ino) (file : F ino = some f) (content : f.content = .data old)
      (last : f.nlink ≤ 1) :
      Step inos F (.rm path) ((F.withNames parent (names.erase name)).set ino none)
  | unlink {path ino f old parent name names} (leads : F.Leads path parent name names)
      (present : names.find name = some ino) (file : F ino = some f) (content : f.content = .data old)
      (more : 1 < f.nlink) :
      Step inos F (.rm path)
        ((F.withNames parent (names.erase name)).set ino (some { f with nlink := f.nlink - 1 }))

/-- What calls make of the files one after the other. -/
inductive Run (inos : List Nat) : Files → List Call → Files → Prop
  | nil {F : Files} : Run inos F [] F
  | cons {F F' F'' : Files} {call : Call} {calls : List Call} (step : F.Step inos call F')
      (rest : Run inos F' calls F'') :
      Run inos F (call :: calls) F''

/-! ### What a call wants -/

/-- The last part of the path can be read back. -/
def PlainEnd (path : Text) : Prop := ∀ name, (Cohfs.parts path).getLast? = some name → Plain name

/-- What a call wants of the files: directories before its last name, a name that can be read back,
a mode of the right kind. -/
def Legal (F : Files) : Call → Prop
  | .put path _ mode _ _ | .mkdir path mode _ _ =>
      F.Straight (Cohfs.parts path) ROOTINO ∧ PlainEnd path ∧ 0 ≤ mode ∧ mode < 0o10000
  | .mknod path mode _ _ _ _ =>
      F.Straight (Cohfs.parts path) ROOTINO ∧ PlainEnd path ∧
        (mode.toNat &&& S_IFMT = S_IFCHR ∨ mode.toNat &&& S_IFMT = S_IFBLK)
  | .rm path => F.Straight (Cohfs.parts path) ROOTINO ∧ ∀ ino, F.walk (Cohfs.parts path) ROOTINO = some ino →
      ∃ f, F ino = some f ∧ ∀ n, f.content ≠ .device n

/-- The blocks that the files of the inodes `inos` take. -/
def used (F : Files) (inos : List Nat) : Nat := (inos.map fun ino => ((F ino).map File.blocks).getD 0).sum

/-- The blocks that the contents of a new file take. -/
def room (F : Files) : Call → Nat
  | .put path data _ _ _ => if F.walk (Cohfs.parts path) ROOTINO = none then blocksFor data.length else 0
  | .mkdir _ _ _ _ => blocksFor 32
  | .mknod _ _ _ _ _ _ | .rm _ => 0

/-- In a file system of `size` blocks for the files of the inodes `inos`, every call is legal when it
is made, and a block is free besides those it takes. -/
def Safe (inos : List Nat) (size : Nat) : Files → List Call → Prop
  | _, [] => True
  | F, call :: calls => F.Legal call ∧ F.used inos + F.room call < size ∧
      ∀ F', F.Step inos call F' → F'.Safe inos size calls

end Files

end Sbc386Ex.Cohfs

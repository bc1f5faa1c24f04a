import Sbc386Ex.Cohfs.Image
import Sbc386Ex.Lib.Raising

/-!
# Sbc386Ex.Cohfs.Fsw

`cohfsw.py`: the writer of COHERENT file systems. An `FSW` object holds the whole image in
memory beside the fields of the superblock; `save` stores these and writes the image file
back. An exception leaves the object as it was when it was raised, so the operations are
programs whose state survives a raise. `clock` is what `time.time()` says at each call.
-/

namespace Sbc386Ex.Cohfs

open Raising

def NICFREE : Nat := 64
def NICINOD : Nat := 100
/-- Block numbers per indirect block. -/
def NIND : Nat := BSIZE / 4

def SB_ISIZE : Nat := 0
def SB_FSIZE : Nat := 2
def SB_NFREE : Nat := 6
def SB_FREE : Nat := 8
def SB_NINODE : Nat := 264
def SB_INODE : Nat := 266
def SB_TIME : Nat := 470
def SB_TFREE : Nat := 474
def SB_TINODE : Nat := 478
def SB_M : Nat := 480

def full : Text := text "filesystem full".toList
def outOfInodes : Text := text "out of inodes".toList
def tooLarge : Text := text "file too large for this writer".toList
def noDirectory (path : Text) : Text := text "no directory for ".toList ++ path
def longName (name : Text) : Text := text "name longer than 14: ".toList ++ name
/-- What an assignment to an element of a `bytearray` says of a value that is no byte. -/
def notAByte : Text := text "byte must be in range(0, 256)".toList

/-! ### Python's own -/

/-- The element a list index names: a negative one counts from the end. -/
def position (length : Nat) (i : Int) : Option Nat :=
  if 0 ≤ i then (if i < length then some i.toNat else none)
  else if -(length : Int) ≤ i then some (i + length).toNat else none

def getItem {α : Type} (l : List α) (i : Int) : Except Raise α :=
  match (position l.length i).bind (l[·]?) with
  | some a => .ok a
  | none => .error .indexError

def setItem {α : Type} (l : List α) (i : Int) (a : α) : Except Raise (List α) :=
  match position l.length i with
  | some k => .ok (l.set k a)
  | none => .error .indexError

def bytes16 (n : Nat) : List Byte := [BitVec.ofNat 8 n, BitVec.ofNat 8 (n >>> 8)]

/-- `struct.pack('<H', v)`. -/
@[irreducible] def packH (v : Int) : Except Raise (List Byte) :=
  if 0 ≤ v ∧ v < 0x10000 then .ok (bytes16 v.toNat) else .error .structError

/-- `struct.pack('<h', v)`. -/
@[irreducible] def packh (v : Int) : Except Raise (List Byte) :=
  if -0x8000 ≤ v ∧ v < 0x8000 then .ok (bytes16 (v % 0x10000).toNat) else .error .structError

/-- `struct.pack_into`, the values packed. -/
def packInto (b : List Byte) (o : Nat) (new : List Byte) : Except Raise (List Byte) :=
  if o + new.length ≤ b.length then .ok (splice b o (o + new.length) new) else .error .structError

def putpdp (b : List Byte) (o : Nat) (v : Int) : Except Raise (List Byte) :=
  packInto b o (bytes16 (v / 0x10000 % 0x10000).toNat ++ bytes16 (v % 0x10000).toNat)

def putl3 (b : List Byte) (o : Nat) (v : Nat) : Except Raise (List Byte) :=
  if o + 3 ≤ b.length then
    .ok (splice b o (o + 3) [BitVec.ofNat 8 (v >>> 16), BitVec.ofNat 8 v, BitVec.ofNat 8 (v >>> 8)])
  else .error .indexError

/-! ### The object -/

structure Fsw where
  /-- The content of the image file. -/
  file : List Byte
  disk : Image
  isize : Nat
  fsize : Nat
  nfree : Int
  free : List Nat
  ninode : Int
  icache : List Nat
  tfree : Int
  tinode : Int
  clock : Nat → Int
  ticks : Nat

abbrev Op := Raising Raise Fsw

namespace Image

variable (d : Image)

def wblock (n : Nat) (data : List Byte) : Image :=
  let start := (n + d.base) * BSIZE
  { d with bytes := splice d.bytes start (start + BSIZE) (ljust data BSIZE) }

def ioff (ino : Nat) : Nat := (d.base + 2) * BSIZE + ino * INOSZ - INOSZ

def iread (ino : Nat) : Except Raise Ip :=
  unpackIp (slice d.bytes (d.ioff ino) (d.ioff ino + INOSZ))

end Image

namespace Fsw

/-- `int(time.time())`. -/
def now : Op Int := do
  let fs ← get
  modify fun fs => { fs with ticks := fs.ticks + 1 }
  return fs.clock fs.ticks

/-- `__init__` and `_load_super`. -/
def load (clock : Nat → Int) (base : Nat) (file : List Byte) : Except Raise Fsw := do
  let disk : Image := { bytes := file, base }
  let sb := disk.block 1
  let isize ← u16 sb SB_ISIZE
  let fsize ← pdplong sb SB_FSIZE
  let nfree ← i16 sb SB_NFREE
  let free ← (List.range NICFREE).mapM fun i => pdplong sb (SB_FREE + 4 * i)
  let ninode ← i16 sb SB_NINODE
  let icache ← (List.range NICINOD).mapM fun i => u16 sb (SB_INODE + 2 * i)
  let tfree ← pdplong sb SB_TFREE
  let tinode ← u16 sb SB_TINODE
  return { file, disk, isize, fsize, nfree, free, ninode, icache, tfree, tinode, clock, ticks := 0 }

/-- The superblock `_store_super` makes at the time `t`. -/
def superBlock (fs : Fsw) (t : Int) : Except Raise (List Byte) := do
  let sb ← packInto (fs.disk.block 1) SB_ISIZE (← packH fs.isize)
  let sb ← putpdp sb SB_FSIZE fs.fsize
  let sb ← packInto sb SB_NFREE (← packh fs.nfree)
  let sb ← (List.range NICFREE).foldlM (fun sb (i : Nat) => do
    putpdp sb (SB_FREE + 4 * i) (← getItem fs.free i)) sb
  let sb ← packInto sb SB_NINODE (← packh fs.ninode)
  let sb ← packInto sb SB_INODE (← fs.icache.mapM fun i => packH i).flatten
  let sb ← putpdp sb SB_TIME t
  let sb ← putpdp sb SB_TFREE fs.tfree
  packInto sb SB_TINODE (← packH fs.tinode)

def save : Op Unit := do
  let t ← now
  let sb ← reading fun fs => fs.superBlock t
  modify fun fs => { fs with disk := fs.disk.wblock 1 sb }
  modify fun fs => { fs with file := fs.disk.bytes }

/-! ### Blocks -/

def wblock (n : Nat) (data : List Byte) : Op Unit :=
  modify fun fs => { fs with disk := fs.disk.wblock n data }

/-- The list in the block `bno` comes in. -/
def loadList (bno : Nat) : Op Unit := do
  let nfree ← reading fun fs => i16 (fs.disk.block bno) 0
  modify fun fs => { fs with nfree }
  let free ← reading fun fs =>
    (List.range NICFREE).mapM fun i => pdplong (fs.disk.block bno) (2 + 4 * i)
  modify fun fs => { fs with free }

def balloc : Op Nat := do
  let fs ← get
  raiseIf (fs.nfree ≤ 0) (.osError full)
  modify fun fs => { fs with nfree := fs.nfree - 1 }
  let bno ← reading fun fs => getItem fs.free fs.nfree
  raiseIf (bno = 0) (.osError full)
  let fs ← get
  -- with none left, bno was the link
  onlyIf (fs.nfree = 0) (loadList bno)
  modify fun fs => { fs with tfree := fs.tfree - 1 }
  wblock bno []
  return bno

/-- The block the list moves into when it is full. -/
def linkBlock (fs : Fsw) : Except Raise (List Byte) := do
  let b ← packInto (List.replicate BSIZE 0) 0 (← packh fs.nfree)
  (List.range NICFREE).foldlM (fun b (i : Nat) => do putpdp b (2 + 4 * i) (← getItem fs.free i)) b

/-- The full list moves into the block `bno`. -/
def storeList (bno : Nat) : Op Unit := do
  let b ← reading linkBlock
  wblock bno b
  modify fun fs => { fs with nfree := 0, free := List.replicate NICFREE 0 }

def bfree (bno : Nat) : Op Unit := do
  let fs ← get
  onlyIf (NICFREE ≤ fs.nfree) (storeList bno)
  let free ← reading fun fs => setItem fs.free fs.nfree bno
  modify fun fs => { fs with free, nfree := fs.nfree + 1, tfree := fs.tfree + 1 }

/-! ### Inodes -/

def iread (ino : Nat) : Op Ip := reading fun fs => fs.disk.iread ino

/-- The bytes of an inode written at the time `t`. -/
def packIp (ip : Ip) (t : Int) : Except Raise (List Byte) := do
  let raw := List.replicate INOSZ 0
  let raw ← packInto raw 0
    ((← packH ip.mode) ++ (← packh ip.nlink) ++ (← packH ip.uid) ++ (← packH ip.gid))
  let raw ← putpdp raw 8 ip.size
  let raw ← ip.addr.zipIdx.foldlM (fun raw (a, i) => putl3 raw (12 + 3 * i) a) raw
  let raw ← putpdp raw 52 t
  let raw ← putpdp raw 56 t
  putpdp raw 60 t

def iwrite (ino : Nat) (ip : Ip) : Op Unit := do
  let t ← now
  let raw ← reading fun _ => packIp ip t
  modify fun fs =>
    let o := fs.disk.ioff ino
    { fs with disk.bytes := splice fs.disk.bytes o (o + INOSZ) raw }

/-- The first of the inodes `inos` that is not in use. -/
def firstFree (d : Image) : List Nat → Except Raise (Option Nat)
  | [] => .ok none
  | ino :: inos => do
      if (← d.iread ino).mode = 0 then return some ino
      else firstFree d inos

/-- The cache, of which `n` inodes are left, from its end. -/
def fromCache : Nat → Op (Option Nat)
  | 0 => return none
  | n + 1 => do
      modify fun fs => { fs with ninode := n }
      let ino ← reading fun fs => getItem fs.icache n
      if (← iread ino).mode = 0 then return some ino
      else fromCache n

/-- The inodes there are. -/
def ninodes (fs : Fsw) : Nat := (fs.isize - 2) * (BSIZE / INOSZ)

/-- Where the cache has none left: the inodes after the root's, in turn. -/
def fromScan : Op Nat := do
  match ← reading fun fs => firstFree fs.disk (List.range' (ROOTINO + 1) (fs.ninodes - ROOTINO)) with
  | some ino => return ino
  | none => throw (.osError outOfInodes)

def findInode : Op Nat := do
  let fs ← get
  match ← fromCache fs.ninode.toNat with
  | some ino => return ino
  | none => fromScan

def ialloc : Op Nat := do
  let ino ← findInode
  modify fun fs => { fs with tinode := fs.tinode - 1 }
  return ino

/-! ### File contents -/

/-- The blocks of an indirect block's tree, itself last. -/
def ind (d : Image) : Nat → Nat → Except Raise (List Nat)
  | _, 0 => .ok []
  | a, level + 1 =>
      if a = 0 then .ok []
      else do
        let below ← (List.range NIND).mapM fun i => do
          let p ← pdplong (d.block a) (4 * i)
          if level ≠ 0 then ind d p level
          else return if p ≠ 0 then [p] else []
        return below.flatten ++ [a]

/-- Every block of the file, data and indirect alike. -/
def blocks (d : Image) (ip : Ip) : Except Raise (List Nat) := do
  let trees ← ((ip.addr.drop ND).zipIdx 1).mapM fun (a, level) => ind d a level
  return (ip.addr.take ND).filter (· ≠ 0) ++ trees.flatten

def truncate (ip : Ip) : Op Ip := do
  (← reading fun fs => blocks fs.disk ip).forM bfree
  return { ip with addr := List.replicate NADDR 0, size := 0 }

def indirect (ptrs : List Nat) : Op Nat := do
  let bno ← balloc
  let b ← reading fun _ =>
    ptrs.zipIdx.foldlM (fun b (p, i) => putpdp b (4 * i) p) (List.replicate BSIZE 0)
  wblock bno b
  return bno

/-- The pieces of `l` that start at every `n`th element. -/
def chunks {α : Type} (n : Nat) (l : List α) : List (List α) :=
  (List.range ((l.length + n - 1) / n)).map fun i => slice l (i * n) ((i + 1) * n)

def writeBlock (piece : List Byte) : Op Nat := do
  let b ← balloc
  wblock b piece
  return b

/-- The blocks `rest` past the direct ones, as far as the single indirect block has them. -/
def setSingle (ip : Ip) (rest : List Nat) : Op Ip :=
  if rest = [] then return ip
  else do
    let bno ← indirect (rest.take NIND)
    return { ip with addr := ip.addr.set ND bno }

/-- The blocks `rest` past those, as far as the double indirect block has them. -/
def setDouble (ip : Ip) (rest : List Nat) : Op Ip :=
  if rest = [] then return ip
  else do
    let firsts ← (chunks NIND (rest.take (NIND * NIND))).mapM indirect
    let bno ← indirect firsts
    return { ip with addr := ip.addr.set (ND + 1) bno }

/-- Replace the file's contents with `data`. -/
def setdata (ip : Ip) (data : List Byte) : Op Ip := do
  let ip ← truncate ip
  let blocks ← (chunks BSIZE data).mapM writeBlock
  let ip := { ip with addr := splice ip.addr 0 (min blocks.length ND) (blocks.take ND) }
  let rest := blocks.drop ND
  let ip ← setSingle ip rest
  let rest := rest.drop NIND
  let ip ← setDouble ip rest
  let rest := rest.drop (NIND * NIND)
  raiseIf (rest ≠ []) (.osError tooLarge)
  return { ip with size := data.length }

/-! ### Names -/

/-- `_split`. -/
def split (d : Image) (path : Text) : Except Raise (Nat × Text) := do
  match ← d.lookup (join (parts path).dropLast) with
  | none => .error (.fileNotFound (noDirectory path))
  | some parent =>
      match (parts path).getLast? with
      | none => .error .indexError
      | some name =>
          if 14 < name.length then .error (.valueError (longName name))
          else return (parent, name)

/-- The first entry of a directory that is not in use, of those at `os`. -/
def freeEntry (b : List Byte) : List Nat → Except Raise (Option Nat)
  | [] => .ok none
  | o :: os => do
      if (← u16 b o) = 0 then return some o
      else freeEntry b os

def dirEntry (name : Text) (ino : Nat) : Except Raise (List Byte) :=
  return (← packH ino) ++ ljust (← encode name) 14

/-- The directory `d` with the entry `ent`, in the first place or at its end. -/
def entered (d ent : List Byte) : Except Raise (List Byte) := do
  match ← freeEntry d (entries d) with
  | some o => return splice d o (o + 16) ent
  | none => return d ++ ent

/-- `_dirent`: enter a name. -/
def dirent (dino : Nat) (name : Text) (ino : Nat) : Op Unit := do
  let ip ← iread dino
  let d ← reading fun fs => fs.disk.inodeData dino
  let ent ← reading fun _ => dirEntry name ino
  let d ← reading fun _ => entered d ent
  let ip ← setdata ip d
  iwrite dino ip

/-- `_undirent`: remove a name. -/
def undirent (dino : Nat) (name : Text) : Op Nat := do
  let ip ← iread dino
  let d ← reading fun fs => fs.disk.inodeData dino
  match ← reading fun _ => findEntry d name (entries d) with
  | some (o, ino) =>
      let ip ← setdata ip (splice d o (o + 16) (List.replicate 16 0))
      iwrite dino ip
      return ino
  | none => throw (.fileNotFound name)

/-! ### Operations -/

/-- An inode that has no blocks yet. -/
def fresh (mode nlink uid gid : Int) : Ip :=
  { mode, nlink, uid, gid, size := 0, addr := List.replicate NADDR 0 }

def put (path : Text) (data : List Byte) (mode uid gid : Int) : Op Nat := do
  match ← reading fun fs => fs.disk.lookup path with
  | none =>
      let (parent, name) ← reading fun fs => split fs.disk path
      let ino ← ialloc
      let ip ← setdata (fresh (Int.lor S_IFREG mode) 1 uid gid) data
      iwrite ino ip
      dirent parent name ino
      return ino
  | some ino =>
      let ip ← iread ino
      raiseIf (ip.ifmt ≠ S_IFREG) (.isADirectory path)
      let ip ← setdata ip data
      iwrite ino ip
      return ino

/-- The entries a new directory starts with. -/
def dots (ino parent : Nat) : Except Raise (List Byte) :=
  return (← packH ino) ++ ljust [0x2E] 14 ++ (← packH parent) ++ ljust [0x2E, 0x2E] 14

def mkdir (path : Text) (mode uid gid : Int) : Op Nat := do
  let (parent, name) ← reading fun fs => split fs.disk path
  let found ← reading fun fs => fs.disk.lookup path
  raiseIf (found ≠ none) (.fileExists path)
  let ino ← ialloc
  let ents ← reading fun _ => dots ino parent
  let ip ← setdata (fresh (Int.lor S_IFDIR mode) 2 uid gid) ents
  iwrite ino ip
  dirent parent name ino
  let pp ← iread parent
  iwrite parent { pp with nlink := pp.nlink + 1 }
  return ino

/-- The loop of `zerofree`, from the list of `nfree` blocks `free` and with `n` blocks zeroed
so far, for so many rounds. -/
def zeroLists : Nat → Int → List Nat → Nat → Op (Option Nat)
  | 0, _, _, _ => return none
  | fuel + 1, nfree, free, n =>
      if nfree ≤ 0 then return some n
      else do
        let blocks := slice free 1 nfree.toNat
        blocks.forM fun bno => wblock bno []
        let n := n + blocks.length
        let link ← reading fun _ => getItem free 0
        if link = 0 then return some n
        else do
          let b ← reading fun fs => .ok (fs.disk.block link)
          let nfree ← reading fun _ => i16 b 0
          let free ← reading fun _ => (List.range NICFREE).mapM fun i => pdplong b (2 + 4 * i)
          wblock link (b.take (2 + 4 * NICFREE))
          zeroLists fuel nfree free (n + 1)

/-- Zero every free block, keeping only the free-list links: the number of blocks zeroed. -/
def zerofree (fuel : Nat) : Op (Option Nat) := do
  let fs ← get
  zeroLists fuel fs.nfree fs.free 0

/-- `self.img[o] = v`. -/
def setByte (o : Nat) (v : Int) : Op Unit := do
  let bytes ← reading fun fs =>
    if 0 ≤ v ∧ v < 256 then setItem fs.disk.bytes o (BitVec.ofInt 8 v)
    else .error (.valueError notAByte)
  modify fun fs => { fs with disk.bytes := bytes }

/-- The inode of a device node: a new one with its name, or the one there is. -/
def node (path : Text) : Op Nat := do
  match ← reading fun fs => fs.disk.lookup path with
  | none =>
      let (parent, name) ← reading fun fs => split fs.disk path
      let ino ← ialloc
      dirent parent name ino
      return ino
  | some ino =>
      let ip ← iread ino
      raiseIf (¬ (ip.ifmt = S_IFCHR ∨ ip.ifmt = S_IFBLK)) (.fileExists path)
      return ino

def mknod (path : Text) (mode major minor uid gid : Int) : Op Nat := do
  let ino ← node path
  iwrite ino (fresh mode 1 uid gid)
  let fs ← get
  setByte (fs.disk.ioff ino + 12) minor
  setByte (fs.disk.ioff ino + 13) major
  return ino

/-- The inode of a file one of whose links is gone: with the last the file goes. -/
def unlink (ip : Ip) : Op Ip :=
  let ip := { ip with nlink := ip.nlink - 1 }
  if ip.nlink ≤ 0 then do
    let _ ← truncate ip
    modify fun fs => { fs with tinode := fs.tinode + 1 }
    return fresh 0 0 0 0
  else return ip

def rm (path : Text) : Op Unit := do
  let (parent, name) ← reading fun fs => split fs.disk path
  let ino ← undirent parent name
  let ip ← iread ino
  raiseIf (ip.ifmt = S_IFDIR) (.isADirectory path)
  let ip ← unlink ip
  iwrite ino ip

end Fsw

/-- The operations on names. -/
inductive Call
  | put (path : Text) (data : List Byte) (mode uid gid : Int)
  | mkdir (path : Text) (mode uid gid : Int)
  | mknod (path : Text) (mode major minor uid gid : Int)
  | rm (path : Text)

def Call.run : Call → Op Unit
  | .put path data mode uid gid => do let _ ← Fsw.put path data mode uid gid
  | .mkdir path mode uid gid => do let _ ← Fsw.mkdir path mode uid gid
  | .mknod path mode major minor uid gid => do let _ ← Fsw.mknod path mode major minor uid gid
  | .rm path => Fsw.rm path

/-- `main`, and the build scripts: the image file is loaded, the operations are run and the
result is saved. What it ends with, and the image file it leaves. -/
def session (clock : Nat → Int) (base : Nat) (calls : List Call) (file : List Byte) :
    Except Raise Unit × List Byte :=
  match Fsw.load clock base file with
  | .error e => (.error e, file)
  | .ok fs =>
      let (r, fs') := outcome (do calls.forM Call.run; Fsw.save) fs
      (r, fs'.file)

/-! ### A small image -/

/-- The image `mkfs` makes of six blocks with eight inodes, the inode cache left empty. -/
def tinyFile : List Byte :=
  let zeros := fun n => List.replicate n (0 : Byte)
  let super := bytes16 3 ++ bytes16 0 ++ bytes16 6 ++ bytes16 2 ++
    bytes16 0 ++ bytes16 5 ++ bytes16 0 ++ bytes16 4 ++ zeros 460 ++ bytes16 2 ++ bytes16 6 ++ zeros 32
  let root := bytes16 0o40777 ++ bytes16 3 ++ zeros 6 ++ bytes16 32 ++ [0, 3, 0] ++ zeros 49
  let dots := bytes16 2 ++ ljust [0x2E] 14 ++ bytes16 2 ++ ljust [0x2E, 0x2E] 14
  zeros 512 ++ super ++ bytes16 0o100000 ++ zeros 62 ++ root ++ zeros 384 ++ ljust dots 512 ++
    zeros 1024

/-- The object for it, as `load` makes it. -/
def tiny : Fsw where
  file := tinyFile
  disk := { bytes := tinyFile, base := 0 }
  isize := 3
  fsize := 6
  nfree := 2
  free := 5 :: 4 :: List.replicate 62 0
  ninode := 0
  icache := List.replicate NICINOD 0
  tfree := 2
  tinode := 6
  clock _ := 0
  ticks := 0

/-- Its last two blocks are zeros. -/
theorem tinyFile_eq : ∃ used, tinyFile = used ++ List.replicate 1024 0 ∧ used.length = 2048 := by
  refine ⟨_, rfl, ?_⟩
  simp only [bytes16, ljust, List.length_append, List.length_cons, List.length_nil, List.length_replicate]

theorem length_tinyFile : tinyFile.length = 3072 := by
  obtain ⟨used, hfile, hused⟩ := tinyFile_eq
  rw [hfile, List.length_append, hused, List.length_replicate]

theorem tiny_block {b : Nat} (h : 4 ≤ b) (hb : b < 6) : tiny.disk.block b = List.replicate BSIZE 0 := by
  obtain ⟨used, hfile, hused⟩ := tinyFile_eq
  have hsize : BSIZE = 512 := rfl
  show slice tinyFile (b * BSIZE) ((b + 1) * BSIZE) = _
  rw [hsize, hfile, slice, List.drop_append, List.drop_eq_nil_of_le (by omega), List.nil_append,
    List.drop_replicate, List.take_replicate]
  congr 1
  omega

end Sbc386Ex.Cohfs

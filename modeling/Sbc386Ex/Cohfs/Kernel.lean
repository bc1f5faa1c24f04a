import Sbc386Ex.Cohfs.Pool

/-!
# Sbc386Ex.Cohfs.Kernel

`fs2.c`: the free blocks as the COHERENT kernel keeps them, on a file system that `cohfsw.py`
makes. The super block is in memory while the file system is mounted, its numbers in the
machine's order; `fsmount` brings it in and `msync` writes it out again. Blocks go through the
buffer cache, which is taken as the disk itself: no device errors, and no delay that a reader
could see.

The headers are not in the source tree. What they lay down is the place of each field, which
`cohfsw.py` lists too, and the macros that take a number from the disk's order to the machine's
and back: these are parameters.
-/

namespace Sbc386Ex.Cohfs

def SB_N : Nat := 482
def SB_UNIQUE : Nat := 496

/-- `_canl` in `k0.s`. -/
def canl (l : BitVec 32) : BitVec 32 := l.rotateLeft 16

/-- The macros of `canon.h`: `canshort`, `canint` and `canino` on 16 bits, `canlong`, `candaddr`
and `cantime` on 32. -/
structure Canon where
  canshort : BitVec 16 → BitVec 16
  canlong : BitVec 32 → BitVec 32

/-- What they are on this machine, whose words have the disk's order already. -/
structure Canon.OnI386 (c : Canon) : Prop where
  canshort : ∀ s, c.canshort s = s
  canlong : ∀ l, c.canlong l = canl l

/-! ### Memory -/

/-- A `short` and a `long` in memory. -/
def le16 (b : List Byte) (o : Nat) : BitVec 16 := BitVec.ofNat 16 (word b o)
def le32 (b : List Byte) (o : Nat) : BitVec 32 := BitVec.ofNat 32 (word b (o + 2) * 65536 + word b o)

def bytesOf16 (s : BitVec 16) : List Byte := bytes16 s.toNat
def bytesOf32 (l : BitVec 32) : List Byte := bytes16 (l.toNat % 65536) ++ bytes16 (l.toNat / 65536)

/-- The bytes of each field put in its place. -/
def pokes (b : List Byte) (fields : List (Nat × List Byte)) : List Byte :=
  fields.foldl (fun b f => splice b f.1 (f.1 + f.2.length) f.2) b

/-- `struct filsys`. The flags before the time are left out but for the one that says that the
super block has changed, and so are the names of the volume: they are only copied. -/
structure Filsys where
  isize : BitVec 16
  fsize : BitVec 32
  nfree : BitVec 16
  free : List (BitVec 32)
  ninode : BitVec 16
  inode : List (BitVec 16)
  fmod : Bool
  time : BitVec 32
  tfree : BitVec 32
  tinode : BitVec 16
  m : BitVec 16
  n : BitVec 16
  unique : BitVec 32

namespace Filsys

/-- `memcpy` from a block. -/
def ofBlock (b : List Byte) : Filsys where
  isize := le16 b SB_ISIZE
  fsize := le32 b SB_FSIZE
  nfree := le16 b SB_NFREE
  free := (List.range NICFREE).map fun i => le32 b (SB_FREE + 4 * i)
  ninode := le16 b SB_NINODE
  inode := (List.range NICINOD).map fun i => le16 b (SB_INODE + 2 * i)
  fmod := false
  time := le32 b SB_TIME
  tfree := le32 b SB_TFREE
  tinode := le16 b SB_TINODE
  m := le16 b SB_M
  n := le16 b SB_N
  unique := le32 b SB_UNIQUE

/-- Where the fields are, and their bytes. -/
def fields (s : Filsys) : List (Nat × List Byte) :=
  [(SB_ISIZE, bytesOf16 s.isize), (SB_FSIZE, bytesOf32 s.fsize), (SB_NFREE, bytesOf16 s.nfree),
    (SB_FREE, s.free.flatMap bytesOf32), (SB_NINODE, bytesOf16 s.ninode),
    (SB_INODE, s.inode.flatMap bytesOf16), (SB_TIME, bytesOf32 s.time), (SB_TFREE, bytesOf32 s.tfree),
    (SB_TINODE, bytesOf16 s.tinode), (SB_M, bytesOf16 s.m), (SB_N, bytesOf16 s.n),
    (SB_UNIQUE, bytesOf32 s.unique)]

/-- `memcpy` into one. -/
def toBlock (s : Filsys) (b : List Byte) : List Byte := pokes b s.fields

end Filsys

section Kernel

variable (c : Canon)

def cansuper (s : Filsys) : Filsys :=
  { s with
    isize := c.canshort s.isize
    fsize := c.canlong s.fsize
    nfree := c.canshort s.nfree
    free := s.free.map c.canlong
    ninode := c.canshort s.ninode
    inode := s.inode.map c.canshort
    time := c.canlong s.time
    tfree := c.canlong s.tfree
    tinode := c.canshort s.tinode
    m := c.canshort s.m
    n := c.canshort s.n
    unique := c.canlong s.unique }

/-- Canonicalize `n` disk addresses. -/
def canndaddr (dp : List (BitVec 32)) (n : Nat) : List (BitVec 32) :=
  (dp.take n).map c.canlong ++ dp.drop n

/-! ### Mounted -/

/-- What the kernel says on the console. -/
inductive Notice
  | badBlock (b : BitVec 32)
  | duplicate (b : BitVec 32)
  | outOfSpace
  | badFreeList

/-- A file system mounted for writing, the user's error and the console. -/
structure Mount where
  super : Filsys
  disk : Image
  enospc : Bool
  console : List Notice

def fsmount (disk : Image) : Mount where
  super := { cansuper c (Filsys.ofBlock (disk.block 1)) with fmod := false }
  disk
  enospc := false
  console := []

/-- The super block is written where it has changed. The inodes are not part of this. -/
def msync (time : BitVec 32) (mp : Mount) : Mount :=
  if mp.super.fmod = false then mp
  else
    let sbp := { mp.super with time, fmod := false }
    { mp with super := sbp, disk := mp.disk.wblock 1 ((cansuper c sbp).toBlock (mp.disk.block 1)) }

namespace Mount

def note (mp : Mount) (n : Notice) : Mount := { mp with console := mp.console ++ [n] }

/-- `b` is no block of a file. -/
def Bad (mp : Mount) (b : BitVec 32) : Prop :=
  mp.super.fsize.sle b ∨ b.slt (mp.super.isize.zeroExtend 32)

instance (mp : Mount) (b : BitVec 32) : Decidable (mp.Bad b) := inferInstanceAs (Decidable (_ ∨ _))

/-- The new element if it is smaller than all others of `list`, which is in reverse rank order,
or the smallest once the new one is in its place; 0 where it is there already. -/
def daddrAdd : List (BitVec 32) → BitVec 32 → List (BitVec 32) × BitVec 32
  | [], newblock => ([], newblock)
  | x :: rest, newblock =>
      if newblock = x then (x :: rest, 0)
      else if x.slt newblock then (newblock :: (x :: rest).dropLast, (x :: rest).getLastD 0)
      else
        let (rest, temp) := daddrAdd rest newblock
        (x :: rest, temp)

/-- The bytes of a `struct fblk` made of the list at hand. -/
def fblk (s : Filsys) : List Byte :=
  pokes (List.replicate BSIZE 0) [(0, bytesOf16 (c.canshort s.nfree)),
    (2, (canndaddr c s.free s.nfree.toNat).flatMap bytesOf32)]

/-- `b` in the place `nfree` of the list. -/
def placed (mp : Mount) (disk : Image) (nfree : BitVec 16) (b : BitVec 32) : Mount :=
  { mp with
    disk
    super := { mp.super with
      free := mp.super.free.set nfree.toNat b
      nfree := nfree + 1
      tfree := mp.super.tfree + 1
      fmod := true } }

/-- The end of `bfree`: `b` is the next to be handed out. -/
def giveBack (mp : Mount) (b : BitVec 32) : Mount :=
  if mp.super.nfree = 0 ∨ mp.super.nfree.toNat = NICFREE then
    mp.placed (mp.disk.wblock b.toNat (fblk c mp.super)) 0 b
  else mp.placed mp.disk mp.super.nfree b

/-- `sort` is `t_sortblocks`. -/
def bfree (sort : Bool) (mp : Mount) (b : BitVec 32) : Mount :=
  if mp.Bad b then mp.note (.badBlock b)
  else if sort = true ∧ 0 < mp.super.nfree.toInt then
    -- the zero position of the list never changes: the block in it is a link
    let s := mp.super
    let (list, newblk) := daddrAdd (slice s.free 1 s.nfree.toNat) b
    let mp := { mp with super := { s with free := splice s.free 1 s.nfree.toNat list } }
    if newblk = 0 then mp.note (.duplicate b) else giveBack c mp newblk
  else giveBack c mp b

/-- The file system is full. -/
def full (mp : Mount) : BitVec 32 × Mount :=
  (0, { mp.note .outOfSpace with super := { mp.super with nfree := 0 }, enospc := true })

def badList (mp : Mount) : BitVec 32 × Mount := full (mp.note .badFreeList)

/-- The list in the block `b` comes in; nothing, where the block is none of the file system's
or its list is too long. -/
def nextList (mp : Mount) (b : BitVec 32) : Except Mount Mount :=
  if mp.Bad b then .error mp
  else
    let fbp := mp.disk.block b.toNat
    let nfree := c.canshort (le16 fbp 0)
    let free := (List.range NICFREE).map fun i => le32 fbp (2 + 4 * i)
    let mp := { mp with super := { mp.super with nfree, free } }
    if (NICFREE : Int) < nfree.toInt then .error mp
    else .ok { mp with super := { mp.super with free := canndaddr c free nfree.toNat } }

def balloc (mp : Mount) : BitVec 32 × Mount :=
  if mp.super.nfree = 0 ∨ (NICFREE : Int) < mp.super.nfree.toInt then mp.full
  else
    let nfree := mp.super.nfree - 1
    let b := mp.super.free.getD nfree.toNat 0
    let mp := { mp with super := { mp.super with fmod := true, nfree } }
    if b = 0 then mp.full
    else
      let mp := { mp with super := { mp.super with free := mp.super.free.set nfree.toNat 0 } }
      match if nfree = 0 then mp.nextList c b else .ok mp with
      | .error mp => mp.badList
      | .ok mp =>
          let mp := { mp with super := { mp.super with tfree := mp.super.tfree - 1 } }
          if mp.Bad b then mp.badList else (b, mp)

end Mount

end Kernel

end Sbc386Ex.Cohfs

import Mathlib.Data.Int.Bitwise
import Mathlib.Tactic.Common
import Sbc386Ex.Machine

/-!
# Sbc386Ex.Cohfs.Image

A COHERENT file system image and how `cohfs.py` reads it: 512-byte blocks, inodes of
64 bytes from block 2, directory entries of 16, longs high word first.

The slices are Python's, which are cut at the end of the image and never raise; what
does raise is unpacking from too short a slice. `FSW` (`cohfsw.py`) reads through the
same functions, with the sectors before the file system in `base`: its `block` counts
them and `inode`, which it inherits, does not.
-/

namespace Sbc386Ex.Cohfs

def BSIZE : Nat := 512
def INOSZ : Nat := 64
def ROOTINO : Nat := 2
def NADDR : Nat := 13
/-- Direct blocks. -/
def ND : Nat := 10

/-! ### Text

A path is a Python string: code points, among them the lone surrogates that bytes of a
host name come in as when they are not UTF-8. -/

abbrev CodePoint := Fin 0x110000

abbrev Text := List CodePoint

instance neZeroCodePoints : NeZero (0x110000 : Nat) := ⟨by decide⟩

def text (s : List Char) : Text := s.map fun c => Fin.ofNat 0x110000 c.toNat

def SLASH : CodePoint := 0x2F

/-- The exceptions, with the text of those that carry one. -/
inductive Raise
  | structError
  | indexError
  | unicodeError
  | valueError (msg : Text)
  | osError (msg : Text)
  | fileNotFound (msg : Text)
  | isADirectory (msg : Text)
  | fileExists (msg : Text)
  deriving DecidableEq

/-- One character of `str.encode()`. -/
def utf8 (c : CodePoint) : Except Raise (List Byte) :=
  let n := c.val
  let more := fun k => BitVec.ofNat 8 (0x80 ||| n >>> (6 * k) &&& 0x3F)
  if n < 0x80 then .ok [BitVec.ofNat 8 n]
  else if n < 0x800 then .ok [BitVec.ofNat 8 (0xC0 ||| n >>> 6), more 0]
  else if 0xD800 ≤ n ∧ n ≤ 0xDFFF then .error .unicodeError
  else if n < 0x10000 then .ok [BitVec.ofNat 8 (0xE0 ||| n >>> 12), more 1, more 0]
  else .ok [BitVec.ofNat 8 (0xF0 ||| n >>> 18), more 2, more 1, more 0]

def encode (t : Text) : Except Raise (List Byte) := return (← t.mapM utf8).flatten

/-- `decode('latin-1')`. -/
def latin1 (b : List Byte) : Text := b.map fun x => Fin.ofNat 0x110000 x.toNat

/-! ### Slices and words -/

/-- `l[start:stop]`. -/
def slice {α : Type} (l : List α) (start stop : Nat) : List α := (l.drop start).take (stop - start)

/-- `l[start:stop] = new`: the list grows or shrinks where `new` is of another length. -/
def splice {α : Type} (l : List α) (start stop : Nat) (new : List α) : List α :=
  l.take start ++ new ++ l.drop (max start stop)

def ljust (b : List Byte) (n : Nat) : List Byte := b ++ List.replicate (n - b.length) 0

/-- `struct.unpack_from('<H', b, o)`. -/
def u16 (b : List Byte) (o : Nat) : Except Raise Nat :=
  match b.drop o with
  | lo :: hi :: _ => .ok (hi.toNat <<< 8 ||| lo.toNat)
  | _ => .error .structError

/-- `struct.unpack_from('<h', b, o)`. -/
def i16 (b : List Byte) (o : Nat) : Except Raise Int := do
  let n ← u16 b o
  return if n < 0x8000 then (n : Int) else n - 0x10000

def pdplong (b : List Byte) (o : Nat) : Except Raise Nat := do
  let hi ← u16 b o
  let lo ← u16 b (o + 2)
  return hi <<< 16 ||| lo

theorem u16_zeros {b : List Byte} {o n : Nat} (h : b.drop o = List.replicate (n + 2) 0) :
    u16 b o = .ok 0 := by
  rw [u16, h]
  rfl

theorem pdplong_zeros {n o : Nat} (h : o + 4 ≤ n) : pdplong (List.replicate n 0) o = .ok 0 := by
  obtain ⟨k, rfl⟩ := Nat.exists_eq_add_of_le h
  have hhi : u16 (List.replicate (o + 4 + k) 0) o = .ok 0 :=
    u16_zeros (n := k + 2) (by rw [List.drop_replicate]; congr 1; omega)
  have hlo : u16 (List.replicate (o + 4 + k) 0) (o + 2) = .ok 0 :=
    u16_zeros (n := k) (by rw [List.drop_replicate]; congr 1; omega)
  rw [pdplong, hhi, hlo]
  rfl

/-- Three bytes: bits 16-23, bits 0-7, bits 8-15. -/
def l3 (b : List Byte) (o : Nat) : Except Raise Nat :=
  match b.drop o with
  | x :: y :: z :: _ => .ok (x.toNat <<< 16 ||| y.toNat ||| z.toNat <<< 8)
  | _ => .error .indexError

/-! ### Inodes -/

/-- The fields of an inode that `cohfsw.py` keeps in a dictionary. -/
structure Ip where
  mode : Int
  nlink : Int
  uid : Int
  gid : Int
  size : Nat
  addr : List Nat
  deriving DecidableEq

/-- The `Inode` of `cohfs.py`. -/
structure Inode extends Ip where
  ino : Nat
  mtime : Nat
  deriving DecidableEq

def S_IFMT : Nat := 0o170000
def S_IFDIR : Nat := 0o040000
def S_IFCHR : Nat := 0o020000
def S_IFBLK : Nat := 0o060000
def S_IFREG : Nat := 0o100000

def Ip.ifmt (ip : Ip) : Nat := ip.mode.toNat &&& S_IFMT

/-- The fields both readers of an inode take from its bytes. -/
def unpackIp (raw : List Byte) : Except Raise Ip := do
  let mode ← u16 raw 0
  let nlink ← i16 raw 2
  let uid ← u16 raw 4
  let gid ← u16 raw 6
  let size ← pdplong raw 8
  let addr ← (List.range NADDR).mapM fun i => l3 raw (12 + 3 * i)
  return { mode, nlink, uid, gid, size, addr }

/-! ### The image -/

structure Image where
  bytes : List Byte
  base : Nat
  deriving DecidableEq

namespace Image

variable (d : Image)

def block (n : Nat) : List Byte := slice d.bytes ((n + d.base) * BSIZE) ((n + d.base + 1) * BSIZE)

/-- The block numbers below an indirect block, holes among them. A zero pointer to an
indirect block of the tree stands for as many holes; a zero `a` stands for none at all. -/
def indirect : Nat → Nat → Except Raise (List Nat)
  | _, 0 => .ok []
  | a, level + 1 =>
      if a = 0 then .ok []
      else do
        let ptrs ← (List.range (BSIZE / 4)).mapM fun i => pdplong (d.block a) (4 * i)
        if level = 0 then return ptrs
        else
          return (← ptrs.mapM fun p =>
            if p ≠ 0 then indirect p level else .ok (List.replicate (128 ^ level) 0)).flatten

def blocks (ip : Ip) : Except Raise (List Nat) := do
  let n := (ip.size + BSIZE - 1) / BSIZE
  let below ← ((ip.addr.drop ND).zipIdx 1).mapM fun (a, level) => d.indirect a level
  return (ip.addr.take ND ++ below.flatten).take n

def data (ip : Ip) : Except Raise (List Byte) :=
  if ip.ifmt = S_IFCHR ∨ ip.ifmt = S_IFBLK then .ok []
  else do
    let blocks ← d.blocks ip
    let buf := blocks.flatMap fun a => if a ≠ 0 then d.block a else List.replicate BSIZE 0
    return buf.take ip.size

def inode (ino : Nat) : Except Raise Inode := do
  let off := 2 * BSIZE + ino * INOSZ - INOSZ
  let raw := slice d.bytes off (off + INOSZ)
  let ip ← unpackIp raw
  let mtime ← pdplong raw 56
  return { ip with ino, mtime }

/-- `FSW.data`. -/
def inodeData (ino : Nat) : Except Raise (List Byte) := do
  let ip ← d.inode ino
  d.data ip.toIp

end Image

/-! ### Directories and paths -/

/-- Where the entries of a directory start. -/
def entries (b : List Byte) : List Nat := (List.range ((b.length + 15) / 16)).map (16 * ·)

def entryName (b : List Byte) (o : Nat) : Text :=
  latin1 ((slice b (o + 2) (o + 16)).takeWhile (· ≠ 0))

/-- The first entry in use called `name`, of those at `os`: its place and its inode. The
entries after it are not looked at. -/
def findEntry (b : List Byte) (name : Text) : List Nat → Except Raise (Option (Nat × Nat))
  | [] => .ok none
  | o :: os => do
      let ino ← u16 b o
      if ino ≠ 0 ∧ entryName b o = name then return some (o, ino)
      else findEntry b name os

/-- `[p for p in path.split('/') if p]`. -/
def parts (path : Text) : List Text := (path.splitOn SLASH).filter (· ≠ [])

/-- `'/'.join(parts)`. -/
def join (parts : List Text) : Text := [SLASH].intercalate parts

namespace Image

variable (d : Image)

def lookupFrom : List Text → Nat → Except Raise (Option Nat)
  | [], ino => .ok (some ino)
  | part :: rest, ino => do
      let b ← d.inodeData ino
      match ← findEntry b part (entries b) with
      | some (_, i) => lookupFrom rest i
      | none => return none

def lookup (path : Text) : Except Raise (Option Nat) := d.lookupFrom (parts path) ROOTINO

end Image

end Sbc386Ex.Cohfs

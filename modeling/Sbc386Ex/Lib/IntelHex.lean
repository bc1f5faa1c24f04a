import Mathlib.Data.BitVec
import Mathlib.Logic.Function.Basic

/-!
# Sbc386Ex.Lib.IntelHex

**Intel hex files**: the records, the line each is written as, and what a file of them puts
into memory. A data record's address is relative to a base, which the last segment or
linear record before it set; only records that stay inside the 64 KB above their base are
given a meaning, since readers differ in how they wrap.
-/

namespace IntelHex

abbrev Byte := BitVec 8

inductive Record
  | data (addr : BitVec 16) (bytes : List Byte)
  | eof
  | segment (value : BitVec 16)
  | linear (value : BitVec 16)
  deriving Repr, DecidableEq

/-! ### Text -/

/-- The character of a hexadecimal digit. -/
def digit (n : Nat) : Char := if n < 10 then Char.ofNat (0x30 + n) else Char.ofNat (0x37 + n)

def hex2 (b : Byte) : List Char := [digit (b.toNat / 16), digit (b.toNat % 16)]

def hex (bs : List Byte) : List Char := bs.flatMap hex2

/-- The bytes of a word, high byte first. -/
def word2 (v : BitVec 16) : List Byte := [(v >>> 8).setWidth 8, v.setWidth 8]

/-- A line of bytes. -/
def line (bs : List Byte) : List Char := ':' :: hex bs ++ ['\n']

def Record.addr : Record → BitVec 16
  | .data addr _ => addr
  | _ => 0

def Record.type : Record → Byte
  | .data _ _ => 0
  | .eof => 1
  | .segment _ => 2
  | .linear _ => 4

def Record.payload : Record → List Byte
  | .data _ bytes => bytes
  | .eof => []
  | .segment value => word2 value
  | .linear value => word2 value

/-- A record's bytes without its checksum. -/
def Record.fields (r : Record) : List Byte :=
  BitVec.ofNat 8 r.payload.length :: word2 r.addr ++ r.type :: r.payload

def Record.bytes (r : Record) : List Byte := r.fields ++ [-r.fields.sum]

def Record.text (r : Record) : List Char := line r.bytes

/-- The bytes of a record sum to zero. -/
theorem Record.sum_bytes (r : Record) : r.bytes.sum = 0 := by
  rw [Record.bytes, List.sum_append, List.sum_singleton]
  exact add_neg_cancel _

theorem hex_cons (b : Byte) (bs : List Byte) : hex (b :: bs) = hex2 b ++ hex bs := rfl

theorem hex_append (bs cs : List Byte) : hex (bs ++ cs) = hex bs ++ hex cs := List.flatMap_append

theorem length_hex (bs : List Byte) : (hex bs).length = 2 * bs.length := by
  induction bs with
  | nil => rfl
  | cons b bs ih =>
      rw [hex_cons, List.length_append, ih, List.length_cons, hex2, List.length_cons, List.length_singleton]
      omega

/-- No digit ends a line. -/
theorem digit_ne_newline : ∀ n < 16, digit n ≠ '\n' := by decide

theorem newline_notMem_hex (bs : List Byte) : '\n' ∉ hex bs := by
  intro hmem
  obtain ⟨b, -, hb⟩ := List.mem_flatMap.mp hmem
  have hlt := b.isLt
  rcases List.mem_cons.mp hb with h | h
  · exact digit_ne_newline _ (by omega) h.symm
  · exact digit_ne_newline _ (Nat.mod_lt _ (by decide)) (List.mem_singleton.mp h).symm

/-! ### Meaning -/

/-- Memory, and the base the next data record is relative to. -/
structure Image where
  base : Nat
  mem : Nat → Byte

/-- Memory with `bs` stored from `a` on. -/
def store (mem : Nat → Byte) (a : Nat) : List Byte → Nat → Byte
  | [] => mem
  | b :: bs => store (Function.update mem a b) (a + 1) bs

def Record.load (im : Image) : Record → Image
  | .data addr bytes => { im with mem := store im.mem (im.base + addr.toNat) bytes }
  | .eof => im
  | .segment value => { im with base := 16 * value.toNat }
  | .linear value => { im with base := 65536 * value.toNat }

/-- What a byte of memory is after a store. -/
theorem store_apply {mem : Nat → Byte} {a x : Nat} {bs : List Byte} :
    store mem a bs x = if a ≤ x ∧ x < a + bs.length then bs.getD (x - a) 0 else mem x := by
  induction bs generalizing mem a with
  | nil =>
      rw [if_neg (by simp)]
      rfl
  | cons b bs ih =>
      rw [store, ih, List.length_cons]
      by_cases hx : x = a
      · subst hx
        rw [if_neg (by omega), if_pos (by omega), Nat.sub_self, Function.update_self]
        rfl
      · rw [Function.update_of_ne hx]
        by_cases hin : a + 1 ≤ x ∧ x < a + 1 + bs.length
        · have hsub : x - a = x - (a + 1) + 1 := by omega
          rw [if_pos hin, if_pos (by omega), hsub]
          rfl
        · rw [if_neg hin, if_neg (by omega)]

/-- A record a loader of `limit` bytes takes without complaint: its data are inside the 64 KB
above the base and below the limit, where memory is still `pad`. -/
def Record.Clean (pad : Byte) (limit : Nat) (im : Image) : Record → Prop
  | .data addr bytes =>
      bytes.length < 256 ∧ addr.toNat + bytes.length ≤ 65536 ∧ im.base + addr.toNat + bytes.length ≤ limit ∧
        ∀ x, im.base + addr.toNat ≤ x → x < im.base + addr.toNat + bytes.length → im.mem x = pad
  | .eof => False
  | .segment _ => True
  | .linear _ => True

/-- The records, one after another, take `im` to `im'`, each without complaint. -/
inductive Loads (pad : Byte) (limit : Nat) : Image → List Record → Image → Prop
  | nil {im : Image} : Loads pad limit im [] im
  | cons {im im' : Image} {r : Record} {rs : List Record} (clean : r.Clean pad limit im)
      (rest : Loads pad limit (r.load im) rs im') : Loads pad limit im (r :: rs) im'

theorem Loads.append {pad : Byte} {limit : Nat} {im im' im'' : Image} {rs rs' : List Record}
    (h : Loads pad limit im rs im') (h' : Loads pad limit im' rs' im'') :
    Loads pad limit im (rs ++ rs') im'' := by
  induction h with
  | nil => exact h'
  | cons clean rest ih => exact .cons clean (ih h')

end IntelHex

import Mathlib.Data.List.Basic

/-!
# Sbc386Ex.Lib.ByteFile

**A file as a list**, read and written at a position. A read stops at the end of the file; a
write past the end leaves a hole of zeros.
-/

namespace ByteFile

variable {α : Type}

def readAt (f : List α) (pos n : Nat) : List α := (f.drop pos).take n

/-- `new` at `pos`. -/
def writeAt (zero : α) (f : List α) (pos : Nat) (new : List α) : List α :=
  f.take pos ++ List.replicate (pos - f.length) zero ++ new ++ f.drop (pos + new.length)

variable {zero : α} {f new : List α} {pos p i n : Nat}

theorem length_readAt : (readAt f pos n).length = min n (f.length - pos) := by
  rw [readAt, List.length_take, List.length_drop]

/-- All of what was asked for is there. -/
theorem length_readAt_of_le (h : pos + n ≤ f.length) : (readAt f pos n).length = n := by
  rw [length_readAt]
  omega

theorem getElem?_readAt (hi : i < n) : (readAt f pos n)[i]? = f[pos + i]? := by
  rw [readAt, List.getElem?_take_of_lt hi, List.getElem?_drop]

theorem length_before : (f.take pos ++ List.replicate (pos - f.length) zero).length = pos := by
  rw [List.length_append, List.length_take, List.length_replicate]
  omega

/-- A write in the file keeps its length. -/
theorem length_writeAt (h : pos + new.length ≤ f.length) :
    (writeAt zero f pos new).length = f.length := by
  rw [writeAt, List.length_append, List.length_append, length_before, List.length_drop]
  omega

theorem getElem?_writeAt (hi : i < new.length) : (writeAt zero f pos new)[pos + i]? = new[i]? := by
  rw [writeAt, List.append_assoc, List.getElem?_append_right (by rw [length_before]; omega),
    length_before, Nat.add_sub_cancel_left, List.getElem?_append_left hi]

/-- A write in the middle of a file. -/
theorem writeAt_append {a b c : List α} (h : pos + new.length ≤ b.length) :
    writeAt zero (a ++ b ++ c) (a.length + pos) new = a ++ writeAt zero b pos new ++ c := by
  have hpos : pos - b.length = 0 := by omega
  have hall : a.length + pos - (a ++ b ++ c).length = 0 := by
    rw [List.length_append, List.length_append]
    omega
  have htake : (a ++ b ++ c).take (a.length + pos) = a ++ b.take pos := by
    rw [List.append_assoc, List.take_length_add_append, List.take_append_of_le_length (by omega)]
  have hdrop : (a ++ b ++ c).drop (a.length + pos + new.length) = b.drop (pos + new.length) ++ c := by
    rw [Nat.add_assoc, List.append_assoc, List.drop_length_add_append, List.drop_append_of_le_length h]
  rw [writeAt, writeAt, hall, hpos, htake, hdrop]
  simp

theorem readAt_append {a b c : List α} (h : pos + n ≤ b.length) :
    readAt (a ++ b ++ c) (a.length + pos) n = readAt b pos n := by
  rw [readAt, readAt, List.append_assoc, List.drop_length_add_append,
    List.drop_append_of_le_length (by omega), List.take_append_of_le_length]
  rw [List.length_drop]
  omega

end ByteFile

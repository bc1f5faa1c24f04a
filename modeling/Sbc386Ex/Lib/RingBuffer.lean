import Mathlib.Data.List.Range
import Mathlib.Data.ZMod.Basic
import Mathlib.Tactic.Common

/-!
# Sbc386Ex.Lib.RingBuffer

**Ring buffers** of `n` slots with a head and a tail, one slot always left free so that
a full ring and an empty one differ. `contents` is the queue a ring stands for; the
lemmas say what putting a word in and taking one out do to it.
-/

/-- `n` slots, the next to be taken at `head`, the next to be filled at `tail`. -/
structure RingBuffer (α : Type _) (n : Nat) where
  slot : Fin n → α
  head : Fin n
  tail : Fin n

namespace RingBuffer

variable {α : Type _} {n : Nat} [NeZero n] (r : RingBuffer α n)

/-- How many slots are filled. -/
def held : Nat := (r.tail - r.head).val

/-- The queue: the filled slots from the head on. -/
def contents : List α := (List.range r.held).map fun i => r.slot (r.head + Fin.ofNat n i)

/-- No slot can be filled without the tail meeting the head. -/
def Full : Prop := r.tail + 1 = r.head

def push (a : α) : RingBuffer α n :=
  { r with slot := Function.update r.slot r.tail a, tail := r.tail + 1 }

def pop : RingBuffer α n := { r with head := r.head + 1 }

@[simp] theorem length_contents : r.contents.length = r.held := by
  simp [contents]

omit [NeZero n] in
theorem held_lt : r.held < n := (r.tail - r.head).isLt

theorem held_eq_zero_iff : r.held = 0 ↔ r.head = r.tail := by
  rw [held, Fin.val_eq_zero_iff, sub_eq_zero]
  exact eq_comm

theorem contents_of_empty (h : r.head = r.tail) : r.contents = [] := by
  rw [contents, r.held_eq_zero_iff.mpr h]
  rfl

theorem val_add_one (i : Fin n) : (i + 1).val = (i.val + 1) % n := by
  rw [Fin.val_add, Fin.val_one', Nat.add_mod_mod]

theorem add_one_eq_zero_iff {i : Fin n} : i + 1 = 0 ↔ i.val + 1 = n := by
  constructor
  · intro h
    have hval := val_add_one i
    rw [h] at hval
    rcases Nat.lt_or_ge (i.val + 1) n with hlt | hge
    · rw [Nat.mod_eq_of_lt hlt] at hval
      exact absurd hval (Nat.succ_ne_zero _).symm
    · exact Nat.le_antisymm i.isLt hge
  · intro h
    refine Fin.ext ?_
    rw [val_add_one, h, Nat.mod_self]
    rfl

/-- The position after `i`, unless that is where the count begins again. -/
theorem val_add_one_of_ne {i : Fin n} (h : i + 1 ≠ 0) : (i + 1).val = i.val + 1 := by
  have hlt : i.val + 1 < n := Nat.lt_of_le_of_ne i.isLt (mt add_one_eq_zero_iff.mpr h)
  rw [val_add_one, Nat.mod_eq_of_lt hlt]

/-- A full ring holds one word less than it has slots. -/
theorem full_iff : r.Full ↔ r.held + 1 = n := by
  rw [held, ← add_one_eq_zero_iff, sub_add_eq_add_sub, sub_eq_zero]
  rfl

theorem ofNat_val (i : Fin n) : Fin.ofNat n i.val = i :=
  Fin.ext (Nat.mod_eq_of_lt i.isLt)

/-- **Putting a word in** adds it to the end of the queue. -/
theorem contents_push (a : α) (h : ¬ r.Full) : (r.push a).contents = r.contents ++ [a] := by
  have hheld : (r.push a).held = r.held + 1 := by
    have hne : r.tail - r.head + 1 ≠ 0 := by
      rw [sub_add_eq_add_sub]
      exact fun h0 => h (sub_eq_zero.mp h0)
    show (r.tail + 1 - r.head).val = _
    rw [held, ← val_add_one_of_ne hne, sub_add_eq_add_sub]
  have hlast : r.head + Fin.ofNat n r.held = r.tail := by
    rw [held, ofNat_val, add_sub_cancel]
  rw [contents, hheld, List.range_succ, List.map_append, List.map_singleton, contents]
  show _ ++ [Function.update r.slot r.tail a (r.head + Fin.ofNat n r.held)] = _
  rw [hlast, Function.update_self]
  refine congrArg (· ++ [a]) (List.map_congr_left fun i hi => ?_)
  have hlt : i < r.held := List.mem_range.mp hi
  refine Function.update_of_ne (fun heq => ?_) _ _
  have hval : (Fin.ofNat n i).val = r.held := by
    have hpos : r.head + Fin.ofNat n i = r.tail := heq
    rw [held, ← hpos, add_sub_cancel_left]
  rw [Fin.val_ofNat, Nat.mod_eq_of_lt (hlt.trans r.held_lt)] at hval
  exact absurd hval (Nat.ne_of_lt hlt)

/-- **Taking one out** removes the first. -/
theorem contents_pop (h : r.head ≠ r.tail) : r.contents = r.slot r.head :: r.pop.contents := by
  have hheld : r.held = r.pop.held + 1 := by
    have hne : r.tail - (r.head + 1) + 1 ≠ 0 := by
      rw [sub_add_eq_sub_sub, sub_add_cancel]
      exact fun h0 => h (sub_eq_zero.mp h0).symm
    show _ = (r.tail - (r.head + 1)).val + 1
    rw [← val_add_one_of_ne hne, sub_add_eq_sub_sub, sub_add_cancel]
    rfl
  rw [contents, hheld, List.range_succ_eq_map, List.map_cons, List.map_map, contents]
  have hzero : r.head + Fin.ofNat n 0 = r.head := by
    have h0 : Fin.ofNat n 0 = 0 := rfl
    rw [h0, add_zero]
  rw [hzero]
  refine congrArg (_ :: ·) (List.map_congr_left fun i _ => ?_)
  have hsucc : Fin.ofNat n (i + 1) = 1 + Fin.ofNat n i := by
    refine Fin.ext ?_
    rw [Fin.val_add, Fin.val_ofNat, Fin.val_one', Fin.val_ofNat, ← Nat.add_mod, Nat.add_comm]
  show r.slot (r.head + Fin.ofNat n (i + 1)) = r.slot (r.head + 1 + Fin.ofNat n i)
  rw [hsucc, add_assoc]

end RingBuffer

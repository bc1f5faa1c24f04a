import Mathlib.Data.List.GetD
import Mathlib.Tactic.Common

/-!
# Sbc386Ex.Lib.Holes

**Lists with holes.** A sequence is stored as pieces, some of them holes that stand for a
run of one value; a reader that leaves the holes out has everything behind a hole too
early. When the first `s` elements of what it reads are right all the same is decided here
(`take_dropped_iff`): at the first hole that is reached all that follows, as read, has to
be that value.

The element type and the value are parameters.
-/

namespace Holes

variable {α : Type} {z : α}

/-- A piece of a sequence: elements, or a run of so many that are not stored. -/
inductive Piece (α : Type)
  | kept (l : List α)
  | hole (n : Nat) (pos : 0 < n)

/-- The sequence, with `z` in its holes. -/
def filled (z : α) : List (Piece α) → List α
  | [] => []
  | .kept l :: ps => l ++ filled z ps
  | .hole n _ :: ps => List.replicate n z ++ filled z ps

/-- The pieces that are stored, one after the other. -/
def dropped : List (Piece α) → List α
  | [] => []
  | .kept l :: ps => l ++ dropped ps
  | .hole _ _ :: ps => dropped ps

/-- There are `s` elements, and they are all `z`. -/
def Run (z : α) (l : List α) (s : Nat) : Prop := s ≤ l.length ∧ ∀ i < s, l.getD i z = z

/-- Where leaving the holes out does no harm to the first `s` elements. -/
def Fits (z : α) : List (Piece α) → Nat → Prop
  | [], s => s = 0
  | .kept l :: ps, s => Fits z ps (s - l.length)
  | .hole _ _ :: ps, s => s = 0 ∨ Run z (dropped ps) s

theorem getD_append_lt {l m : List α} {i : Nat} (h : i < l.length) :
    (l ++ m).getD i z = l.getD i z := List.getD_append _ _ _ _ h

theorem getD_append_ge {l m : List α} {i : Nat} (h : l.length ≤ i) :
    (l ++ m).getD i z = m.getD (i - l.length) z := List.getD_append_right _ _ _ _ h

theorem getD_run_lt {n : Nat} {m : List α} {i : Nat} (h : i < n) :
    (List.replicate n z ++ m).getD i z = z := by
  rw [getD_append_lt (by rwa [List.length_replicate]), List.getD_replicate _ h]

theorem getD_run_ge {n : Nat} {m : List α} {i : Nat} (h : n ≤ i) :
    (List.replicate n z ++ m).getD i z = m.getD (i - n) z := by
  rw [getD_append_ge (by rwa [List.length_replicate]), List.length_replicate]

/-- What is not a hole's is read, and no later than where it belongs. -/
theorem filled_read (ps : List (Piece α)) : ∀ i, (filled z ps).getD i z = z ∨
    ∃ j ≤ i, (filled z ps).getD i z = (dropped ps).getD j z := by
  induction ps with
  | nil => exact fun i => .inl rfl
  | cons p ps ih =>
      intro i
      cases p with
      | kept l =>
          by_cases hi : i < l.length
          · refine .inr ⟨i, Nat.le_refl i, ?_⟩
            rw [filled, dropped, getD_append_lt hi, getD_append_lt hi]
          · obtain hz | ⟨j, hj, hread⟩ := ih (i - l.length)
            · exact .inl (by rw [filled, getD_append_ge (by omega), hz])
            · refine .inr ⟨l.length + j, by omega, ?_⟩
              rw [filled, dropped, getD_append_ge (by omega), hread, getD_append_ge (by omega),
                Nat.add_sub_cancel_left]
      | hole n pos =>
          by_cases hi : i < n
          · exact .inl (by rw [filled, getD_run_lt hi])
          · rw [filled, dropped, getD_run_ge (by omega)]
            obtain hz | ⟨j, hj, hread⟩ := ih (i - n)
            · exact .inl hz
            · exact .inr ⟨j, by omega, hread⟩

/-- The first `s` elements are read, and read right. -/
def Right (z : α) (ps : List (Piece α)) (s : Nat) : Prop :=
  s ≤ (dropped ps).length ∧ ∀ i < s, (dropped ps).getD i z = (filled z ps).getD i z

theorem right_kept (l : List α) (ps : List (Piece α)) (s : Nat) :
    Right z (.kept l :: ps) s ↔ Right z ps (s - l.length) := by
  unfold Right
  rw [dropped, filled, List.length_append]
  constructor
  · rintro ⟨hlen, hread⟩
    refine ⟨by omega, fun i hi => ?_⟩
    have h := hread (l.length + i) (by omega)
    rwa [getD_append_ge (by omega), getD_append_ge (by omega), Nat.add_sub_cancel_left] at h
  · rintro ⟨hlen, hread⟩
    refine ⟨by omega, fun i hi => ?_⟩
    by_cases hil : i < l.length
    · rw [getD_append_lt hil, getD_append_lt hil]
    · rw [getD_append_ge (by omega), getD_append_ge (by omega)]
      exact hread (i - l.length) (by omega)

/-- At a hole all that follows is a step too early at least, so it is right only where
nothing but `z` follows. -/
theorem right_hole (n : Nat) (pos : 0 < n) (ps : List (Piece α)) (s : Nat) :
    Right z (.hole n pos :: ps) s ↔ s = 0 ∨ Run z (dropped ps) s := by
  unfold Right Run
  rw [dropped, filled]
  constructor
  · rintro ⟨hlen, hread⟩
    refine .inr ⟨hlen, fun i => ?_⟩
    induction i using Nat.strongRecOn with
    | ind i ih =>
        intro hi
        rw [hread i hi]
        by_cases hin : i < n
        · rw [getD_run_lt hin]
        · rw [getD_run_ge (by omega)]
          obtain hz | ⟨j, hj, hfilled⟩ := filled_read (z := z) ps (i - n)
          · exact hz
          · rw [hfilled]
            exact ih j (by omega) (by omega)
  · rintro (rfl | ⟨hlen, hrun⟩)
    · exact ⟨by omega, fun i hi => absurd hi (by omega)⟩
    · refine ⟨hlen, fun i hi => ?_⟩
      rw [hrun i hi]
      by_cases hin : i < n
      · rw [getD_run_lt hin]
      · rw [getD_run_ge (by omega)]
        obtain hz | ⟨j, hj, hfilled⟩ := filled_read (z := z) ps (i - n)
        · exact hz.symm
        · rw [hfilled, hrun j (by omega)]

theorem right_iff (ps : List (Piece α)) : ∀ s, Right z ps s ↔ Fits z ps s := by
  induction ps with
  | nil =>
      intro s
      rw [Right, Fits, dropped, List.length_nil]
      exact ⟨fun h => by omega, fun h => ⟨by omega, fun i hi => absurd hi (by omega)⟩⟩
  | cons p ps ih =>
      intro s
      cases p with
      | kept l => rw [right_kept, Fits, ih]
      | hole n pos => rw [right_hole, Fits]

theorem take_eq_map_range_iff {l : List α} {s : Nat} {f : Nat → α} :
    l.take s = (List.range s).map f ↔ s ≤ l.length ∧ ∀ i < s, l.getD i z = f i := by
  constructor
  · intro h
    have hlen : s ≤ l.length := by
      have h' := congrArg List.length h
      rw [List.length_take, List.length_map, List.length_range] at h'
      omega
    refine ⟨hlen, fun i hi => ?_⟩
    have h' := congrArg (·[i]?) h
    rw [List.getElem?_take_of_lt hi, List.getElem?_map, List.getElem?_range hi] at h'
    rw [List.getD_eq_getElem?_getD, h']
    rfl
  · rintro ⟨hlen, hread⟩
    refine List.ext_getElem ?_ fun i hi _ => ?_
    · rw [List.length_take, List.length_map, List.length_range]
      omega
    · rw [List.length_take] at hi
      have h := hread i (by omega)
      rw [List.getD_eq_getElem _ _ (by omega)] at h
      rw [List.getElem_take, List.getElem_map, List.getElem_range, h]

/-- **When leaving the holes out does no harm.** -/
theorem take_dropped_iff (ps : List (Piece α)) (s : Nat) :
    (dropped ps).take s = (List.range s).map (fun i => (filled z ps).getD i z) ↔ Fits z ps s :=
  (take_eq_map_range_iff (z := z)).trans (right_iff ps s)

end Holes

import Mathlib.Data.List.GetD
import Mathlib.Data.List.Perm.Basic
import Mathlib.Data.List.Range
import Mathlib.Logic.Function.Basic
import Mathlib.Tactic.Common

/-!
# Sbc386Ex.Lib.Pile

**A stack kept in what it is a stack of.** At most `cap` elements are at hand, in the places
of a table; the element in the table's first place is a node besides, and holds the table that
comes in when it is taken. A full table moves out into the element that is put down next. Such
is the list of the free blocks of a file system, whose nodes are free blocks themselves.

What a node holds is a parameter, as is the element `zero` that is no node: where it is in the
first place, the stack ends. `Pile` says which elements a table and its nodes stand for, topmost
first; taking, putting and moving out are a rule each, and so is the frame: what a pile stands
for is settled by its own nodes.
-/

variable {α : Type} {zero : α} {cap : Nat} {node node' : α → Nat × (Nat → α)}

/-- The first `n` places of the table `f` stand for the list, its top first. -/
inductive Pile (zero : α) (cap : Nat) (node : α → Nat × (Nat → α)) : Nat → (Nat → α) → List α → Prop
  | empty {f : Nat → α} : Pile zero cap node 0 f []
  | bottom {f : Nat → α} (last : f 0 = zero) : Pile zero cap node 1 f []
  | link {f : Nat → α} {l : List α} (linked : f 0 ≠ zero)
      (next : Pile zero cap node (node (f 0)).1 (node (f 0)).2 l) : Pile zero cap node 1 f (f 0 :: l)
  | more {n : Nat} {f : Nat → α} {l : List α} (room : n + 1 < cap) (used : f (n + 1) ≠ zero)
      (rest : Pile zero cap node (n + 1) f l) : Pile zero cap node (n + 2) f (f (n + 1) :: l)

namespace Pile

variable {n : Nat} {f g : Nat → α} {l l' : List α} {b : α}

theorem le_cap (h : Pile zero cap node n f l) (hcap : 0 < cap) : n ≤ cap := by
  cases h with
  | empty => exact hcap.le
  | bottom | link => exact hcap
  | more room => exact room

theorem ne_zero (h : Pile zero cap node n f l) : ∀ b ∈ l, b ≠ zero := by
  induction h with
  | empty | bottom => simp
  | link linked _ ih | more _ linked _ ih => simpa using ⟨linked, ih⟩

/-- Only the places in use matter. -/
theorem congr (h : Pile zero cap node n f l) (hfg : ∀ i < n, g i = f i) : Pile zero cap node n g l := by
  induction h with
  | empty => exact empty
  | bottom last => exact bottom ((hfg 0 Nat.zero_lt_one).trans last)
  | link linked next =>
      rw [← hfg 0 Nat.zero_lt_one] at linked next ⊢
      exact link linked next
  | more room used _ ih =>
      rw [← hfg _ (Nat.lt_succ_self _)] at used ⊢
      exact more room used (ih fun i hi => hfg i (Nat.lt_succ_of_lt hi))

/-- **The frame**: what holds the nodes the same holds the pile the same. -/
theorem transfer (h : Pile zero cap node n f l) (hnode : ∀ b ∈ l, node' b = node b) :
    Pile zero cap node' n f l := by
  induction h with
  | empty => exact empty
  | bottom last => exact bottom last
  | link linked _ ih =>
      have hfirst := hnode _ List.mem_cons_self
      refine link linked ?_
      rw [hfirst]
      exact ih fun b hb => hnode b (List.mem_cons_of_mem _ hb)
  | more room used _ ih => exact more room used (ih fun b hb => hnode b (List.mem_cons_of_mem _ hb))

/-- A table stands for one list. -/
theorem unique (h : Pile zero cap node n f l) : ∀ {l'}, Pile zero cap node n f l' → l = l' := by
  induction h with
  | empty => rintro _ ⟨⟩; rfl
  | bottom last =>
      intro l' h'
      cases h' with
      | bottom => rfl
      | link linked => exact absurd last linked
  | link linked _ ih =>
      intro l' h'
      cases h' with
      | bottom last => exact absurd last linked
      | link _ next => rw [ih next]
  | more _ _ _ ih =>
      intro l' h'
      cases h' with
      | more _ _ rest => rw [ih rest]

/-- What is in a place in use is on the pile, or ends it. -/
theorem mem (h : Pile zero cap node n f l) : ∀ i < n, f i ∈ l ∨ f i = zero := by
  induction h with
  | empty => simp
  | bottom last => simpa using last
  | link => simp
  | @more n f l _ _ _ ih =>
      intro i hi
      by_cases hlast : i = n + 1
      · exact .inl (hlast ▸ List.mem_cons_self)
      · exact (ih i (by omega)).imp_left (List.mem_cons_of_mem _)

/-- With none at hand there is none. -/
theorem eq_nil (h : Pile zero cap node 0 f l) : l = [] := by
  cases h
  rfl

/-! ### Taking and putting -/

/-- The element on top, and what is left once it is taken: where it was a node, its table. -/
theorem pop (h : Pile zero cap node (n + 1) f (b :: l)) : f n = b ∧ b ≠ zero ∧
    (n = 0 → Pile zero cap node (node b).1 (node b).2 l) ∧ (n ≠ 0 → Pile zero cap node n f l) := by
  cases h with
  | link linked next => exact ⟨rfl, linked, fun _ => next, fun hn => absurd rfl hn⟩
  | more _ used rest => exact ⟨rfl, used, nofun, fun _ => rest⟩

/-- A pile of nothing: none at hand, or the mark that there is none. -/
theorem of_nil (h : Pile zero cap node n f []) : n = 0 ∨ n = 1 ∧ f 0 = zero := by
  cases h with
  | empty => exact .inl rfl
  | bottom last => exact .inr ⟨rfl, last⟩

theorem push (h : Pile zero cap node n f l) (hn : 0 < n) (hroom : n < cap) (hb : b ≠ zero)
    (hg : ∀ i < n, g i = f i) (hgn : g n = b) : Pile zero cap node (n + 1) g (b :: l) := by
  obtain ⟨n, rfl⟩ : ∃ m, n = m + 1 := ⟨n - 1, by omega⟩
  subst hgn
  exact more hroom hb (h.congr hg)

/-- A new table, whose first place is `b`, stands on what `b` holds. -/
theorem linkTo (hg : g 0 = b) (hb : b ≠ zero) (next : Pile zero cap node (node b).1 (node b).2 l) :
    Pile zero cap node 1 g (b :: l) := by
  subst hg
  exact link hb next

/-- The table moves out into `b`, which is put down in the first place of a new one. -/
theorem spill (h : Pile zero cap node n f l) (hb : b ≠ zero) (hcount : (node b).1 = n)
    (hplaces : ∀ i < n, (node b).2 i = f i) (hg : g 0 = b) : Pile zero cap node 1 g (b :: l) := by
  refine linkTo hg hb ?_
  rw [hcount]
  exact h.congr hplaces

/-- A table of the link `b` and the elements `es`, the first of them on top. -/
theorem stack {es : List α} (next : Pile zero cap node (node b).1 (node b).2 l) (hb : b ≠ zero)
    (hes : ∀ e ∈ es, e ≠ zero) (hcap : es.length < cap) :
    Pile zero cap node (es.length + 1) (fun i => (b :: es.reverse).getD i zero) (es ++ b :: l) := by
  induction es with
  | nil => exact linkTo rfl hb next
  | cons e es ih =>
      have htable : b :: (e :: es).reverse = (b :: es.reverse) ++ [e] := by
        rw [List.reverse_cons, List.cons_append]
      have hlen : (b :: es.reverse).length = es.length + 1 := by
        rw [List.length_cons, List.length_reverse]
      have hbelow := ih (fun e he => hes e (List.mem_cons_of_mem _ he)) (Nat.lt_of_succ_lt hcap)
      refine hbelow.push (Nat.succ_pos _) hcap (hes e List.mem_cons_self) (fun i hi => ?_) ?_
      · rw [htable]
        exact List.getD_append _ _ _ _ (hi.trans_eq hlen.symm)
      · rw [htable, List.getD_append_right _ _ _ _ hlen.le, hlen, Nat.sub_self]
        rfl

/-! ### The table, but for its first place -/

/-- The elements in the places from 1 on, the last on top. -/
def upper (f : Nat → α) (n : Nat) : List α := ((List.range n).map fun i => f (i + 1)).reverse

theorem upper_succ (f : Nat → α) (n : Nat) : upper f (n + 1) = f (n + 1) :: upper f n := by
  rw [upper, List.range_succ, List.map_append, List.reverse_append]
  rfl

/-- A table stands on what its first place stands for. -/
theorem split (h : Pile zero cap node (n + 1) f l) : ∃ base, Pile zero cap node 1 f base ∧
    l = upper f n ++ base ∧ ∀ i < n, f (i + 1) ≠ zero := by
  induction n generalizing l with
  | zero => exact ⟨l, h, rfl, nofun⟩
  | succ n ih =>
      cases h with
      | more room used rest =>
          obtain ⟨base, hbase, rfl, hne⟩ := ih rest
          refine ⟨base, hbase, by rw [upper_succ, List.cons_append], fun i hi => ?_⟩
          by_cases hlast : i = n
          · exact hlast ▸ used
          · exact hne i (by omega)

theorem join (hbase : Pile zero cap node 1 f l) (hfirst : g 0 = f 0) (hcap : n < cap)
    (hne : ∀ i < n, g (i + 1) ≠ zero) : Pile zero cap node (n + 1) g (upper g n ++ l) := by
  induction n with
  | zero => exact hbase.congr fun i hi => by rwa [Nat.lt_one_iff.mp hi]
  | succ n ih =>
      rw [upper_succ, List.cons_append]
      exact more hcap (hne n (Nat.lt_succ_self n))
        (ih (Nat.lt_of_succ_lt hcap) fun i hi => hne i (Nat.lt_succ_of_lt hi))

end Pile

import Mathlib.Tactic.Common

/-!
# Sbc386Ex.Lib.Prog

**Programs with state and exceptions**, as a small reusable layer over
`StateT σ (Except ε)`: what it means for a program to return (`Runs`), the
inversion lemma of every combinator a routine is written with, a frame calculus
(`Keeps`: every normal return relates the states before and after), and the
fuelled loop an unbounded wait is written as, with its invariant rule and its
termination rule.

Nothing here names a device or a data structure: the state, the exception type
and the relation are parameters.
-/

/-- A program over a state `σ` that returns an `α` or raises an `ε`. -/
abbrev Prog (ε σ α : Type) := StateT σ (Except ε) α

namespace Prog

variable {ε σ α β : Type}

/-- `p`, started in `s`, returns `a` and leaves `s'`. -/
def Runs (p : Prog ε σ α) (s : σ) (a : α) (s' : σ) : Prop :=
  p.run s = .ok (a, s')

/-! ### Inversion of the combinators -/

@[simp] theorem runs_pure {a b : α} {s s' : σ} :
    Runs (pure a : Prog ε σ α) s b s' ↔ b = a ∧ s' = s := by
  rw [Runs, StateT.run_pure]
  simp only [pure, Except.pure, Except.ok.injEq, Prod.mk.injEq]
  exact ⟨fun h => ⟨h.1.symm, h.2.symm⟩, fun h => ⟨h.1.symm, h.2.symm⟩⟩

@[simp] theorem runs_bind {p : Prog ε σ α} {f : α → Prog ε σ β} {s s'' : σ} {b : β} :
    Runs (p >>= f) s b s'' ↔ ∃ a s', Runs p s a s' ∧ Runs (f a) s' b s'' := by
  unfold Runs
  rw [StateT.run_bind]
  cases h : p.run s with
  | error e => simp [bind, Except.bind]
  | ok r =>
      simp only [bind, Except.bind]
      constructor
      · intro hf
        exact ⟨r.1, r.2, rfl, hf⟩
      · rintro ⟨a, s', hr, hf⟩
        obtain rfl : r = (a, s') := by simpa using hr
        exact hf

@[simp] theorem runs_map {p : Prog ε σ α} {f : α → β} {s s' : σ} {b : β} :
    Runs (f <$> p) s b s' ↔ ∃ a, Runs p s a s' ∧ b = f a := by
  rw [map_eq_pure_bind, runs_bind]
  constructor
  · rintro ⟨a, t, h, hp⟩
    obtain ⟨rfl, rfl⟩ := runs_pure.mp hp
    exact ⟨a, h, rfl⟩
  · rintro ⟨a, h, rfl⟩
    exact ⟨a, s', h, runs_pure.mpr ⟨rfl, rfl⟩⟩

@[simp] theorem runs_get {s a s' : σ} :
    Runs (get : Prog ε σ σ) s a s' ↔ a = s ∧ s' = s := by
  simp only [Runs, StateT.run_get, pure, Except.pure, Except.ok.injEq, Prod.mk.injEq]
  exact ⟨fun h => ⟨h.1.symm, h.2.symm⟩, fun h => ⟨h.1.symm, h.2.symm⟩⟩

@[simp] theorem runs_set {t s s' : σ} {u : Unit} :
    Runs (set t : Prog ε σ Unit) s u s' ↔ s' = t := by
  simp only [Runs, StateT.run_set, pure, Except.pure, Except.ok.injEq, Prod.mk.injEq,
    true_and]
  exact eq_comm

@[simp] theorem runs_modify {g : σ → σ} {s s' : σ} {u : Unit} :
    Runs (modify g : Prog ε σ Unit) s u s' ↔ s' = g s := by
  simp only [Runs, StateT.run_modify, pure, Except.pure, Except.ok.injEq, Prod.mk.injEq,
    true_and]
  exact eq_comm

@[simp] theorem runs_modifyGet {g : σ → α × σ} {s s' : σ} {a : α} :
    Runs (modifyGet g : Prog ε σ α) s a s' ↔ a = (g s).1 ∧ s' = (g s).2 := by
  simp only [Runs, StateT.run_modifyGet, pure, Except.pure, Except.ok.injEq, Prod.mk.injEq]
  exact ⟨fun h => ⟨h.1.symm, h.2.symm⟩, fun h => ⟨h.1.symm, h.2.symm⟩⟩

@[simp] theorem runs_throw {e : ε} {s s' : σ} {a : α} :
    ¬ Runs (throw e : Prog ε σ α) s a s' := by
  intro h
  have h' : (Except.error e : Except ε (α × σ)) = .ok (a, s') := h
  cases h'

theorem runs_ite {c : Prop} [Decidable c] {p q : Prog ε σ α} {s s' : σ} {a : α} :
    Runs (if c then p else q) s a s' ↔ (c ∧ Runs p s a s') ∨ (¬ c ∧ Runs q s a s') := by
  by_cases hc : c <;> simp [hc]

/-- A program returns in at most one way. -/
theorem Runs.det {p : Prog ε σ α} {s : σ} {a b : α} {t u : σ}
    (h : Runs p s a t) (h' : Runs p s b u) : a = b ∧ t = u := by
  unfold Runs at h h'
  rw [h] at h'
  simpa using h'

/-- A program that has nothing to raise returns. -/
theorem returns (p : Prog Empty σ α) (s : σ) : ∃ a s', Runs p s a s' := by
  cases h : p.run s with
  | error e => exact e.elim
  | ok r => exact ⟨r.1, r.2, h⟩

/-- Reassembling a sequence from its two halves. -/
theorem Runs.bind {p : Prog ε σ α} {f : α → Prog ε σ β} {s s' s'' : σ} {a : α} {b : β}
    (hp : Runs p s a s') (hf : Runs (f a) s' b s'') : Runs (p >>= f) s b s'' :=
  runs_bind.mpr ⟨a, s', hp, hf⟩

/-- A run that can be evaluated. -/
theorem runs_of_eval {p : Prog ε σ α} {s : σ} {f : α × σ → β} {b : β}
    (h : (p.run s).map f = .ok b) : ∃ a s', Runs p s a s' ∧ f (a, s') = b := by
  cases hr : p.run s with
  | error e =>
      rw [hr] at h
      cases h
  | ok q =>
      rw [hr] at h
      exact ⟨q.1, q.2, hr, Except.ok.inj h⟩

/-! ### Frames

`Keeps R p` says that `R` relates the states around every normal return of `p`.
For a preorder `R` it is closed under sequencing, so the frame of a routine is
assembled from the frames of its instructions. -/

/-- Every normal return of `p` relates the state before to the state after. -/
def Keeps (R : σ → σ → Prop) (p : Prog ε σ α) : Prop :=
  ∀ ⦃s a s'⦄, Runs p s a s' → R s s'

theorem Keeps.mono {R S : σ → σ → Prop} {p : Prog ε σ α} (h : Keeps R p)
    (hRS : ∀ s s', R s s' → S s s') : Keeps S p :=
  fun _ _ _ hr => hRS _ _ (h hr)

theorem keeps_throw {R : σ → σ → Prop} {e : ε} : Keeps R (throw e : Prog ε σ α) :=
  fun _ _ _ h => absurd h runs_throw

theorem keeps_ite {R : σ → σ → Prop} {c : Prop} [Decidable c] {p q : Prog ε σ α}
    (hp : Keeps R p) (hq : Keeps R q) : Keeps R (if c then p else q) := by
  by_cases hc : c
  · simpa [hc] using hp
  · simpa [hc] using hq

theorem keeps_modify {R : σ → σ → Prop} {g : σ → σ} (h : ∀ s, R s (g s)) :
    Keeps R (modify g : Prog ε σ Unit) := by
  intro s u s' hr
  rw [runs_modify] at hr
  exact hr ▸ h s

section Preorder

variable {R : σ → σ → Prop}

theorem keeps_pure [Std.Refl R] {a : α} : Keeps R (pure a : Prog ε σ α) := by
  intro s b s' h
  obtain ⟨-, rfl⟩ := runs_pure.mp h
  exact refl_of R s'

theorem keeps_get [Std.Refl R] : Keeps R (get : Prog ε σ σ) := by
  intro s b s' h
  obtain ⟨-, rfl⟩ := runs_get.mp h
  exact refl_of R s'

theorem Keeps.bind [IsTrans σ R] {p : Prog ε σ α} {f : α → Prog ε σ β}
    (hp : Keeps R p) (hf : ∀ a, Keeps R (f a)) : Keeps R (p >>= f) := by
  intro s b s'' h
  obtain ⟨a, s', hpr, hfr⟩ := runs_bind.mp h
  exact IsTrans.trans s s' s'' (hp hpr) (hf a hfr)

end Preorder

/-! ### Fuelled loops

A wait that polls until something happens has no bound of its own: `loop` runs
its body at most `n` times and raises `out` when the fuel is gone, so a result
obtained with any fuel is the result of the unbounded loop. -/

/-- Repeat `body` until it yields a result. -/
def loop (out : ε) (body : Prog ε σ (Option β)) : Nat → Prog ε σ β
  | 0 => throw out
  | n + 1 => do
      match ← body with
      | some b => pure b
      | none => loop out body n

variable {out : ε} {body : Prog ε σ (Option β)}

@[simp] theorem loop_zero : loop out body 0 = throw out := rfl

/-- The round that ends a loop. -/
theorem Runs.loop_done {s s' : σ} {b : β} (n : Nat) (h : Runs body s (some b) s') :
    Runs (loop out body (n + 1)) s b s' :=
  h.bind (runs_pure.mpr ⟨rfl, rfl⟩)

/-- A round that does not. -/
theorem Runs.loop_again {s t s' : σ} {b : β} {n : Nat} (h : Runs body s none t)
    (hn : Runs (loop out body n) t b s') : Runs (loop out body (n + 1)) s b s' :=
  h.bind hn

/-- **Counting rule.** `k` rounds that go on, through the states `s 0 … s k`, and
one that ends. -/
theorem Runs.loop_count {s : Nat → σ} {s' : σ} {b : β} {k : Nat}
    (hgo : ∀ i < k, Runs body (s i) none (s (i + 1))) (hend : Runs body (s k) (some b) s') :
    ∀ {n : Nat}, k < n → Runs (loop out body n) (s 0) b s' := by
  induction k generalizing s with
  | zero =>
      intro n hn
      obtain ⟨m, rfl⟩ : ∃ m, n = m + 1 := ⟨n - 1, by omega⟩
      exact hend.loop_done m
  | succ k ih =>
      intro n hn
      obtain ⟨m, rfl⟩ : ∃ m, n = m + 1 := ⟨n - 1, by omega⟩
      have hrest : Runs (loop out body m) (s 1) b s' :=
        ih (s := fun i => s (i + 1)) (fun i hi => hgo (i + 1) (by omega)) hend (by omega)
      exact (hgo 0 (by omega)).loop_again hrest

/-- More fuel changes no result. -/
theorem Runs.loop_mono {n : Nat} : ∀ {s : σ} {b : β} {s' : σ},
    Runs (loop out body n) s b s' → ∀ {m : Nat}, n ≤ m → Runs (loop out body m) s b s' := by
  induction n with
  | zero => intro s b s' h; exact absurd h runs_throw
  | succ n ih =>
      intro s b s' h m hm
      obtain ⟨k, rfl⟩ : ∃ k, m = k + 1 := ⟨m - 1, by omega⟩
      obtain ⟨r, t, hr, h'⟩ := runs_bind.mp h
      cases r with
      | none => exact hr.loop_again (ih h' (by omega))
      | some b' => exact hr.bind h'

/-- The rounds of a loop that go on. -/
inductive Rounds (body : Prog ε σ (Option β)) : σ → σ → Prop
  | refl {s : σ} : Rounds body s s
  | again {s t u : σ} (first : Runs body s none t) (rest : Rounds body t u) : Rounds body s u

theorem Rounds.keeps {R : σ → σ → Prop} [Std.Refl R] [IsTrans σ R] (h : Keeps R body) {s t : σ}
    (hr : Rounds body s t) : R s t := by
  induction hr with
  | refl => exact refl_of R _
  | again first _ ih => exact IsTrans.trans _ _ _ (h first) ih

/-- A loop that returns: rounds that go on, and one that ends. -/
theorem Runs.rounds {n : Nat} : ∀ {s s' : σ} {b : β}, Runs (loop out body n) s b s' →
    ∃ t, Rounds body s t ∧ Runs body t (some b) s' := by
  induction n with
  | zero => intro s s' b h; exact absurd h runs_throw
  | succ n ih =>
      intro s s' b h
      obtain ⟨r, t, hr, h'⟩ := runs_bind.mp h
      cases r with
      | none =>
          obtain ⟨u, hrounds, hlast⟩ := ih h'
          exact ⟨u, .again hr hrounds, hlast⟩
      | some b' =>
          obtain ⟨rfl, rfl⟩ := runs_pure.mp h'
          exact ⟨s, .refl, hr⟩

/-- The frame of a loop is the frame of its body. -/
theorem Keeps.loop {R : σ → σ → Prop} [Std.Refl R] [IsTrans σ R] (h : Keeps R body) :
    ∀ n, Keeps R (loop out body n)
  | 0 => keeps_throw
  | n + 1 => by
      refine Keeps.bind h fun r => ?_
      cases r with
      | none => exact Keeps.loop h n
      | some b => exact keeps_pure

end Prog

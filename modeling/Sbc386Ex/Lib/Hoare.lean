import Sbc386Ex.Lib.Prog

/-!
# Sbc386Ex.Lib.Hoare

**Triples** over `Prog`: partial correctness of a program that may raise, with one
rule for each combinator a routine is written with. An exception satisfies every
triple, so the rules speak of normal returns only.
-/

namespace Prog

variable {ε σ α β : Type}

/-- Started where `P` holds, every normal return `a` of `p` ends where `Q a` does. -/
def Triple (P : σ → Prop) (p : Prog ε σ α) (Q : α → σ → Prop) : Prop :=
  ∀ ⦃s a s'⦄, P s → Runs p s a s' → Q a s'

namespace Triple

variable {P P' : σ → Prop} {Q Q' : α → σ → Prop} {R : β → σ → Prop}
  {p q : Prog ε σ α} {f : α → Prog ε σ β}

/-- Consequence. -/
theorem conseq (h : Triple P p Q) (hpre : ∀ s, P' s → P s) (hpost : ∀ a s, Q a s → Q' a s) :
    Triple P' p Q' :=
  fun s a s' hP hr => hpost a s' (h (hpre s hP) hr)

theorem pre (h : Triple P p Q) (hpre : ∀ s, P' s → P s) : Triple P' p Q :=
  h.conseq hpre fun _ _ hq => hq

theorem post (h : Triple P p Q) (hpost : ∀ a s, Q a s → Q' a s) : Triple P p Q' :=
  h.conseq (fun _ hp => hp) hpost

/-- Nothing is asked of what comes out. -/
theorem top : Triple P p fun _ _ => True := fun _ _ _ _ _ => trivial

theorem pure {a : α} (h : ∀ s, P s → Q a s) : Triple P (Pure.pure a : Prog ε σ α) Q := by
  intro s b s' hP hr
  obtain ⟨rfl, rfl⟩ := runs_pure.mp hr
  exact h _ hP

theorem throw {e : ε} : Triple P (throw e : Prog ε σ α) Q :=
  fun _ _ _ _ hr => absurd hr runs_throw

theorem bind (hp : Triple P p Q) (hf : ∀ a, Triple (Q a) (f a) R) :
    Triple P (p >>= f) R := by
  intro s b s'' hP hr
  obtain ⟨a, s', hpr, hfr⟩ := runs_bind.mp hr
  exact hf a (hp hP hpr) hfr

theorem ite {c : Prop} [Decidable c] (hp : c → Triple P p Q) (hq : ¬ c → Triple P q Q) :
    Triple P (if c then p else q) Q := by
  by_cases hc : c
  · rw [if_pos hc]; exact hp hc
  · rw [if_neg hc]; exact hq hc

theorem get {Q : σ → σ → Prop} (h : ∀ s, P s → Q s s) :
    Triple P (get : Prog ε σ σ) Q := by
  intro s a s' hP hr
  obtain ⟨rfl, rfl⟩ := runs_get.mp hr
  exact h _ hP

theorem modify {g : σ → σ} {Q : Unit → σ → Prop} (h : ∀ s, P s → Q () (g s)) :
    Triple P (modify g : Prog ε σ Unit) Q := by
  intro s u s' hP hr
  obtain rfl := runs_modify.mp hr
  exact h s hP

theorem modifyGet {g : σ → α × σ} (h : ∀ s, P s → Q (g s).1 (g s).2) :
    Triple P (modifyGet g : Prog ε σ α) Q := by
  intro s a s' hP hr
  obtain ⟨rfl, rfl⟩ := runs_modifyGet.mp hr
  exact h s hP

/-- A precondition that is a family: pick the member the state satisfies. -/
theorem exists_pre {ι : Sort _} {P : ι → σ → Prop} (h : ∀ i, Triple (P i) p Q) :
    Triple (fun s => ∃ i, P i s) p Q := by
  rintro s a s' ⟨i, hP⟩ hr
  exact h i hP hr

/-- A precondition with two cases. -/
theorem or_pre (h : Triple P p Q) (h' : Triple P' p Q) : Triple (fun s => P s ∨ P' s) p Q := by
  intro s a s' hP hr
  rcases hP with hP | hP
  · exact h hP hr
  · exact h' hP hr

/-- A pure fact of the precondition moves out of it. -/
theorem and_pre {c : Prop} (h : c → Triple P p Q) : Triple (fun s => c ∧ P s) p Q := by
  rintro s a s' ⟨hc, hP⟩ hr
  exact h hc hP hr

/-- A precondition that says nothing of the state. -/
theorem assume {c : Prop} (h : c → Triple (fun _ => c) p Q) : Triple (fun _ => c) p Q :=
  fun _ _ _ hc hr => h hc hc hr

/-- **The loop rule.** -/
theorem loop {out : ε} {body : Prog ε σ (Option β)} {I : σ → Prop}
    (hgo : Triple I body fun r s => match r with
      | none => I s
      | some b => R b s) (n : Nat) : Triple I (loop out body n) R := by
  induction n with
  | zero => exact throw
  | succ n ih =>
      refine hgo.bind fun r => ?_
      cases r with
      | none => exact ih
      | some b => exact pure fun _ hR => hR

end Triple

end Prog

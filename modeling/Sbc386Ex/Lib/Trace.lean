import Mathlib.Tactic.Common

/-!
# Sbc386Ex.Lib.Trace

Runs of a labelled transition system: a step relation, the runs it has, and the
one induction every "in every state reached" is proved by.
-/

/-- `Trace step s ls s'`: the labels `ls`, in order, take `s` to `s'`. -/
inductive Trace {σ α : Type _} (step : σ → α → σ → Prop) (s : σ) : List α → σ → Prop
  | refl : Trace step s [] s
  | snoc {ls : List α} {t u : σ} {a : α} (run : Trace step s ls t) (last : step t a u) :
      Trace step s (ls ++ [a]) u

namespace Trace

variable {σ α : Type _} {step step' : σ → α → σ → Prop} {s t : σ} {ls : List α}

/-- **Invariants.** What holds at the start and is kept by every step holds at the end. -/
theorem inv {I : σ → Prop} (hrun : Trace step s ls t) (hinit : I s)
    (hstep : ∀ {u a u'}, I u → step u a u' → I u') : I t := by
  induction hrun with
  | refl => exact hinit
  | snoc run last ih => exact hstep ih last

/-- Somewhere in the run `ls` from `s` to `t` a step is taken that `P` holds of. -/
def Meets (step : σ → α → σ → Prop) (P : σ → α → Prop) (s : σ) (ls : List α) (t : σ) : Prop :=
  ∃ ls₁ a ls₂ u v, ls = ls₁ ++ a :: ls₂ ∧ Trace step s ls₁ u ∧ step u a v ∧ Trace step v ls₂ t ∧ P u a

theorem Meets.snoc {P : σ → α → Prop} {a : α} {u : σ} (h : Meets step P s ls t) (last : step t a u) :
    Meets step P s (ls ++ [a]) u := by
  obtain ⟨ls₁, b, ls₂, v, w, rfl, hbefore, hstep, hafter, hP⟩ := h
  exact ⟨ls₁, b, ls₂ ++ [a], v, w, List.append_assoc _ _ _, hbefore, hstep, hafter.snoc last, hP⟩

/-- **Flags.** One that the steps of `P` set and none clears is set at the end if it was at the
start or the run has met such a step. -/
theorem flag_iff {flag : σ → Prop} {P : σ → α → Prop} (hrun : Trace step s ls t)
    (hstep : ∀ {u a v}, step u a v → (flag v ↔ flag u ∨ P u a)) : flag t ↔ flag s ∨ Meets step P s ls t := by
  constructor
  · intro hset
    induction hrun with
    | refl => exact .inl hset
    | @snoc ls t u a run last ih =>
        rcases (hstep last).mp hset with hbefore | hP
        · exact (ih hbefore).imp_right fun hmeets => hmeets.snoc last
        · exact .inr ⟨ls, a, [], t, u, rfl, run, last, .refl, hP⟩
  · rintro (hset | ⟨ls₁, a, ls₂, u, v, -, -, hmet, hafter, hP⟩)
    · exact hrun.inv hset fun h hnext => (hstep hnext).mpr (.inl h)
    · exact hafter.inv ((hstep hmet).mpr (.inr hP)) fun h hnext => (hstep hnext).mpr (.inl h)

/-- One more step at the front. -/
theorem cons {a : α} {u : σ} (first : step s a u) (rest : Trace step u ls t) :
    Trace step s (a :: ls) t := by
  induction rest with
  | refl =>
      have hone : Trace step s ([] ++ [a]) u := snoc refl first
      exact hone
  | snoc run last ih => exact snoc ih last

/-- A run of a step that is a function. -/
theorem of_foldlM {next : σ → α → Option σ} (h : ls.foldlM next s = some t) :
    Trace (fun u a u' => next u a = some u') s ls t := by
  induction ls generalizing s with
  | nil =>
      cases h
      exact refl
  | cons a ls ih =>
      obtain ⟨u, hu, hrest⟩ := Option.bind_eq_some_iff.mp h
      exact cons hu (ih hrest)

end Trace

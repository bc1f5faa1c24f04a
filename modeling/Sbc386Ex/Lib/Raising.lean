import Mathlib.Tactic.Common

/-!
# Sbc386Ex.Lib.Raising

**Programs whose state survives an exception**: where a caller that catches the
exception sees the half-done state, the state must come out of a raise too. This
is `ExceptT` over the state monad, with what a program does from a state
(`outcome`), a triple with one postcondition for the returns and one for the
raises (`Spec`), a rule for each combinator, and the judgement that needs no more
than an invariant: what a program keeps, and which exceptions it can raise at all
(`Within`; `Only` for a computation without a state).

The state, the exceptions and the assertions are parameters.
-/

/-- A program over `σ` that returns an `α` or raises an `ε`, its state kept
either way. -/
abbrev Raising (ε σ α : Type) := ExceptT ε (StateM σ) α

namespace Raising

variable {ε σ α β : Type}

/-- What `p` does from `s`: its result or its exception, and the state it leaves. -/
def outcome (p : Raising ε σ α) (s : σ) : Except ε α × σ := StateT.run (ExceptT.run p) s

/-- A computation that only looks at the state, and may raise. -/
def reading (f : σ → Except ε α) : Raising ε σ α := fun s => (f s, s)

/-- `p`, where the condition holds. -/
def onlyIf (c : Prop) [Decidable c] (p : Raising ε σ Unit) : Raising ε σ Unit :=
  if c then p else pure ()

/-- A check: the exception, where the condition holds. -/
def raiseIf (c : Prop) [Decidable c] (e : ε) : Raising ε σ Unit := onlyIf c (throw e)

@[simp] theorem outcome_pure (a : α) (s : σ) :
    outcome (pure a : Raising ε σ α) s = (.ok a, s) := rfl

@[simp] theorem outcome_throw (e : ε) (s : σ) :
    outcome (throw e : Raising ε σ α) s = (.error e, s) := rfl

@[simp] theorem outcome_get (s : σ) : outcome (get : Raising ε σ σ) s = (.ok s, s) := rfl

@[simp] theorem outcome_modify (g : σ → σ) (s : σ) :
    outcome (modify g : Raising ε σ Unit) s = (.ok (), g s) := rfl

@[simp] theorem outcome_reading (f : σ → Except ε α) (s : σ) :
    outcome (reading f) s = (f s, s) := rfl

theorem outcome_eq_of_error {p : Raising ε σ α} {s : σ} {e : ε} (h : (outcome p s).1 = .error e) :
    outcome p s = (.error e, (outcome p s).2) := by rw [← h]

theorem outcome_bind (p : Raising ε σ α) (f : α → Raising ε σ β) (s : σ) :
    outcome (p >>= f) s = match outcome p s with
      | (.ok a, t) => outcome (f a) t
      | (.error e, t) => (.error e, t) := by
  have hp : StateT.run (ExceptT.run p) s = outcome p s := rfl
  rw [outcome, ExceptT.run_bind, StateT.run_bind, hp]
  rcases outcome p s with ⟨e | a, t⟩ <;> rfl

theorem outcome_bind_ok {p : Raising ε σ α} {s t : σ} {a : α} (h : outcome p s = (.ok a, t))
    (f : α → Raising ε σ β) : outcome (p >>= f) s = outcome (f a) t := by rw [outcome_bind, h]

theorem outcome_bind_error {p : Raising ε σ α} {s t : σ} {e : ε} (h : outcome p s = (.error e, t))
    (f : α → Raising ε σ β) : outcome (p >>= f) s = (.error e, t) := by rw [outcome_bind, h]

/-- A program that returns returns from both its parts. -/
theorem of_outcome_bind {p : Raising ε σ α} {f : α → Raising ε σ β} {s u : σ} {b : β}
    (h : outcome (p >>= f) s = (.ok b, u)) :
    ∃ a t, outcome p s = (.ok a, t) ∧ outcome (f a) t = (.ok b, u) := by
  rw [outcome_bind] at h
  rcases hp : outcome p s with ⟨e | a, t⟩ <;> rw [hp] at h
  · cases h
  · exact ⟨a, t, rfl, h⟩

theorem outcome_reading_ok {g : σ → Except ε α} {s : σ} {a : α} (h : g s = .ok a) :
    outcome (reading g) s = (.ok a, s) := by rw [outcome_reading, h]

theorem outcome_raiseIf_pos {c : Prop} [Decidable c] (h : c) (e : ε) (f : Unit → Raising ε σ β)
    (s : σ) : outcome (raiseIf c e >>= f) s = (.error e, s) := by
  rw [outcome_bind, raiseIf, onlyIf, if_pos h, outcome_throw]

theorem outcome_raiseIf_neg {c : Prop} [Decidable c] (h : ¬ c) (e : ε) (f : Unit → Raising ε σ β)
    (s : σ) : outcome (raiseIf c e >>= f) s = outcome (f ()) s := by
  rw [outcome_bind, raiseIf, onlyIf, if_neg h, outcome_pure]

/-- A check that is passed. -/
theorem of_raiseIf {c : Prop} [Decidable c] {e : ε} {s t : σ} {u : Unit}
    (h : outcome (raiseIf c e : Raising ε σ Unit) s = (.ok u, t)) : ¬ c ∧ t = s := by
  rw [raiseIf, onlyIf] at h
  split_ifs at h with hc
  · cases h
  · cases h
    exact ⟨hc, rfl⟩

/-- What is read. -/
theorem of_reading {g : σ → Except ε α} {s t : σ} {a : α} (h : outcome (reading g) s = (.ok a, t)) :
    g s = .ok a ∧ t = s := by
  rw [outcome_reading] at h
  exact ⟨(Prod.mk.inj h).1, (Prod.mk.inj h).2.symm⟩

/-! ### Triples

Both ends of a program are spoken of: `Q` of a return, `E` of a raise. -/

/-- From every state of `P`, a return of `p` meets `Q` and a raise meets `E`. -/
def Spec (P : σ → Prop) (p : Raising ε σ α) (Q : α → σ → Prop) (E : ε → σ → Prop) : Prop :=
  ∀ s, P s → match outcome p s with
    | (.ok a, t) => Q a t
    | (.error e, t) => E e t

namespace Spec

variable {P P' : σ → Prop} {Q Q' : α → σ → Prop} {R : β → σ → Prop} {E E' : ε → σ → Prop}
  {p q : Raising ε σ α} {f : α → Raising ε σ β}

/-- Reading a triple off at a raise. -/
theorem raised (h : Spec P p Q E) {s t : σ} {e : ε} (hs : P s)
    (hp : outcome p s = (.error e, t)) : E e t := by
  have hspec := h s hs
  rwa [hp] at hspec

/-- Consequence. -/
theorem conseq (h : Spec P p Q E) (hpre : ∀ s, P' s → P s) (hret : ∀ a s, Q a s → Q' a s)
    (hraise : ∀ e s, E e s → E' e s) : Spec P' p Q' E' := by
  intro s hs
  have hspec := h s (hpre s hs)
  split at hspec
  · exact hret _ _ hspec
  · exact hraise _ _ hspec

/-- Where no state is, nothing happens. -/
theorem never : Spec (fun _ => False) p Q E := fun _ hs => hs.elim

theorem pure {a : α} (h : ∀ s, P s → Q a s) : Spec P (pure a : Raising ε σ α) Q E :=
  fun s hs => h s hs

theorem throw {e : ε} (h : ∀ s, P s → E e s) : Spec P (throw e : Raising ε σ α) Q E :=
  fun s hs => h s hs

/-- Sequencing: what comes first may raise, and what comes next starts where it returned. -/
theorem bind (hp : Spec P p Q E) (hf : ∀ a, Spec (Q a) (f a) R E) : Spec P (p >>= f) R E := by
  intro s hs
  rw [outcome_bind]
  have hspec := hp s hs
  split at hspec
  · exact hf _ _ hspec
  · exact hspec

theorem get {Q : σ → σ → Prop} (h : ∀ s, P s → Q s s) : Spec P (get : Raising ε σ σ) Q E :=
  fun s hs => h s hs

theorem modify {g : σ → σ} {Q : Unit → σ → Prop} (h : ∀ s, P s → Q () (g s)) :
    Spec P (modify g : Raising ε σ Unit) Q E :=
  fun s hs => h s hs

/-- Reading: the state is what it was, whichever way it ends. -/
theorem reading {g : σ → Except ε α} (hret : ∀ s a, P s → g s = .ok a → Q a s)
    (hraise : ∀ s e, P s → g s = .error e → E e s) : Spec P (reading g) Q E := by
  intro s hs
  rw [outcome_reading]
  cases hg : g s with
  | ok a => exact hret s a hs hg
  | error e => exact hraise s e hs hg

theorem onlyIf {c : Prop} [Decidable c] {p : Raising ε σ Unit} {Q : Unit → σ → Prop}
    (hp : c → Spec P p Q E) (hskip : ∀ s, ¬ c → P s → Q () s) : Spec P (onlyIf c p) Q E := by
  by_cases hc : c
  · rw [Raising.onlyIf, if_pos hc]
    exact hp hc
  · rw [Raising.onlyIf, if_neg hc]
    exact pure fun s hs => hskip s hc hs

theorem raiseIf {c : Prop} [Decidable c] {e : ε} {Q : Unit → σ → Prop}
    (hraise : ∀ s, c → P s → E e s) (hpass : ∀ s, ¬ c → P s → Q () s) :
    Spec P (raiseIf c e) Q E :=
  onlyIf (fun hc => throw fun s hs => hraise s hc hs) hpass

/-- A pure fact of the precondition moves out of it. -/
theorem and_pre {c : Prop} (h : c → Spec P p Q E) : Spec (fun s => c ∧ P s) p Q E :=
  fun s hs => h hs.1 s hs.2

end Spec

/-! ### What comes out, and what is kept

Where the exceptions a program can raise are known and its state is not, they are those
of its parts, and so is what it keeps. -/

/-- Every exception `x` is is in `K`. -/
def Only (K : ε → Prop) (x : Except ε α) : Prop := ∀ e, x = .error e → K e

namespace Only

variable {K : ε → Prop} {x : Except ε α} {f : α → Except ε β}

theorem ok {a : α} : Only K (.ok a : Except ε α) := nofun

theorem pure {a : α} : Only K (pure a : Except ε α) := nofun

theorem error {e : ε} (h : K e) : Only K (.error e : Except ε α) := by
  intro e' he
  obtain rfl : e = e' := Except.error.inj he
  exact h

theorem bind (hx : Only K x) (hf : ∀ a, Only K (f a)) : Only K (x >>= f) := by
  intro e he
  cases x with
  | error e' =>
      obtain rfl : e' = e := Except.error.inj he
      exact hx e' rfl
  | ok a => exact hf a e he

theorem ite {c : Prop} [Decidable c] {y : Except ε α} (hx : Only K x) (hy : Only K y) :
    Only K (if c then x else y) := by
  by_cases hc : c
  · rwa [if_pos hc]
  · rwa [if_neg hc]

theorem mapM {g : α → Except ε β} (h : ∀ a, Only K (g a)) (l : List α) : Only K (l.mapM g) := by
  rw [← List.mapM'_eq_mapM]
  induction l with
  | nil => exact pure
  | cons a rest ih => exact (h a).bind fun _ => ih.bind fun _ => pure

theorem foldlM {g : β → α → Except ε β} (h : ∀ b a, Only K (g b a)) (l : List α) :
    ∀ b, Only K (l.foldlM g b) := by
  induction l with
  | nil => exact fun _ => pure
  | cons a rest ih => exact fun b => (h b a).bind ih

end Only

/-- What comes after a computation that does not raise. -/
theorem bind_ok {x : Except ε α} {a : α} (h : x = .ok a) (f : α → Except ε β) :
    (x >>= f) = f a := by rw [h]; rfl

/-- Both parts of what does not raise do not. -/
theorem of_bind_ok {x : Except ε α} {f : α → Except ε β} {b : β} (h : (x >>= f) = .ok b) :
    ∃ a, x = .ok a ∧ f a = .ok b := by
  cases x with
  | error e => cases h
  | ok a => exact ⟨a, rfl, h⟩

/-- A computation on each element of a list, of which none raises. -/
theorem mapM_eq_ok {f : α → Except ε β} {g : α → β} :
    ∀ {l : List α}, (∀ a ∈ l, f a = .ok (g a)) → l.mapM f = .ok (l.map g)
  | [], _ => rfl
  | a :: rest, h => by
      have hrest : rest.mapM f = .ok (rest.map g) :=
        mapM_eq_ok fun b hb => h b (List.mem_cons_of_mem a hb)
      rw [List.mapM_cons, h a List.mem_cons_self, hrest]
      rfl

theorem mapM_append_ok {f : α → Except ε β} {l l' : List α} {r r' : List β} (h : l.mapM f = .ok r)
    (h' : l'.mapM f = .ok r') : (l ++ l').mapM f = .ok (r ++ r') := by
  rw [List.mapM_append, bind_ok h, bind_ok h']
  rfl

theorem mapM_cons_ok {f : α → Except ε β} {a : α} {l : List α} {b : β} {r : List β} (h : f a = .ok b)
    (h' : l.mapM f = .ok r) : (a :: l).mapM f = .ok (b :: r) := by
  rw [List.mapM_cons, bind_ok h, bind_ok h']
  rfl

theorem mapM_congr {f g : α → Except ε β} :
    ∀ {l : List α}, (∀ a ∈ l, f a = g a) → l.mapM f = l.mapM g
  | [], _ => rfl
  | a :: rest, h => by
      have hrest : rest.mapM f = rest.mapM g :=
        mapM_congr fun b hb => h b (List.mem_cons_of_mem a hb)
      rw [List.mapM_cons, List.mapM_cons, h a List.mem_cons_self, hrest]

/-- What `x` results in, where it does, is in `Q`. -/
def Gives (Q : α → Prop) (x : Except ε α) : Prop := ∀ a, x = .ok a → Q a

namespace Gives

theorem pure {Q : α → Prop} {a : α} (h : Q a) : Gives Q (pure a : Except ε α) := by
  intro b hb
  obtain rfl : a = b := Except.ok.inj hb
  exact h

theorem bind {Q : β → Prop} {x : Except ε α} {f : α → Except ε β} (hf : ∀ a, Gives Q (f a)) :
    Gives Q (x >>= f) := by
  intro b hb
  cases x with
  | error e => cases hb
  | ok a => exact hf a b hb

end Gives

/-- `p` keeps `I` whichever way it ends, and every exception it raises is in `K`. -/
def Within (K : ε → Prop) (I : σ → Prop) (p : Raising ε σ α) : Prop :=
  Spec I p (fun _ => I) fun e s => K e ∧ I s

namespace Within

variable {K : ε → Prop} {I : σ → Prop} {p q : Raising ε σ α} {f : α → Raising ε σ β}

theorem mono {K' : ε → Prop} (h : Within K I p) (hK : ∀ e, K e → K' e) : Within K' I p :=
  Spec.conseq h (fun _ hs => hs) (fun _ _ hs => hs) fun e _ he => ⟨hK e he.1, he.2⟩

theorem pure {a : α} : Within K I (pure a : Raising ε σ α) := Spec.pure fun _ hs => hs

theorem throw {e : ε} (h : K e) : Within K I (throw e : Raising ε σ α) :=
  Spec.throw fun _ hs => ⟨h, hs⟩

theorem bind (hp : Within K I p) (hf : ∀ a, Within K I (f a)) : Within K I (p >>= f) :=
  Spec.bind hp hf

theorem get : Within K I (get : Raising ε σ σ) := Spec.get fun _ hs => hs

theorem modify {g : σ → σ} (h : ∀ s, I s → I (g s)) :
    Within K I (modify g : Raising ε σ Unit) := Spec.modify h

theorem reading {g : σ → Except ε α} (h : ∀ s, Only K (g s)) : Within K I (reading g) :=
  Spec.reading (fun _ _ hs _ => hs) fun s e hs he => ⟨h s e he, hs⟩

theorem onlyIf {c : Prop} [Decidable c] {p : Raising ε σ Unit} (h : Within K I p) :
    Within K I (onlyIf c p) :=
  Spec.onlyIf (fun _ => h) fun _ _ hs => hs

theorem raiseIf {c : Prop} [Decidable c] {e : ε} (h : K e) :
    Within K I (raiseIf c e : Raising ε σ Unit) :=
  onlyIf (throw h)

theorem ite {c : Prop} [Decidable c] (hp : Within K I p) (hq : Within K I q) :
    Within K I (if c then p else q) := by
  by_cases hc : c
  · rwa [if_pos hc]
  · rwa [if_neg hc]

theorem mapM {γ : Type} {g : γ → Raising ε σ α} (h : ∀ c, Within K I (g c)) (l : List γ) :
    Within K I (l.mapM g) := by
  rw [← List.mapM'_eq_mapM]
  induction l with
  | nil => exact pure
  | cons c rest ih => exact (h c).bind fun _ => ih.bind fun _ => pure

theorem forM {γ : Type} {g : γ → Raising ε σ Unit} (h : ∀ c, Within K I (g c)) (l : List γ) :
    Within K I (l.forM g) := by
  induction l with
  | nil => exact pure
  | cons c rest ih => exact (h c).bind fun _ => ih

end Within

end Raising

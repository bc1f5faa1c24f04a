import Sbc386Ex.Lib.Hoare
import Sbc386Ex.Machine

/-!
# Sbc386Ex.Sd.Socket

The microSD socket, and the cards that are put into it and taken out while a driver looks
away. A card that has been out answers no data command until `sd_start` has run on it.

Everything a driver does with the socket is a look: before it, whatever `World` says has
happened to the socket since the last one, and at it whatever `World` says the card
answers. What happens after the last look of a request might as well happen after the
request, since nothing looks at the socket in between.
-/

namespace Sbc386Ex.Sd

open Prog

/-- The bytes of a sector. -/
abbrev Block := Nat → Byte

/-! ### The socket -/

/-- What is done to the socket by hand. -/
inductive Phys
  | remove
  | insert (card : Nat)
  deriving DecidableEq

/-- The card in the socket, whether `sd_start` has run on it since it was put in, and how
often a card has been taken out. -/
structure Socket where
  card : Option Nat
  up : Bool
  removals : Nat
  idle : up = true → card.isSome = true

namespace Socket

/-- The first card, up or not. -/
theorem idle_first {up : Bool} : up = true → (some 0 : Option Nat).isSome = true := fun _ => rfl

def take (k : Socket) : Phys → Socket
  | .remove =>
      if k.card.isSome then ⟨none, false, k.removals + 1, fun h => h⟩ else k
  | .insert card =>
      if k.card.isSome then k else ⟨some card, false, k.removals, fun _ => rfl⟩

def takes (k : Socket) (l : List Phys) : Socket := l.foldl take k

/-- A run of `sd_start` on the card in the socket, with what is done to the socket
meanwhile: a card taken out half-way has not had it run. -/
def started (k : Socket) (starts : Bool) (l : List Phys) : Socket :=
  if (k.takes l).removals = k.removals then
    { k with up := starts && k.card.isSome, idle := fun h => (Bool.and_eq_true_iff.mp h).2 }
  else k.takes l

variable {k : Socket}

theorem removals_le_takes (l : List Phys) : k.removals ≤ (k.takes l).removals := by
  induction l generalizing k with
  | nil => exact Nat.le_refl _
  | cons p l ih =>
      have hstep : k.removals ≤ (k.take p).removals := by
        cases p <;> rw [take] <;> split <;> simp
      exact Nat.le_trans hstep ih

/-- A card that is up has not been touched. -/
theorem takes_of_up {l : List Phys} (h : (k.takes l).up = true) : k.takes l = k := by
  induction l generalizing k with
  | nil => rfl
  | cons p l ih =>
      have hrest : (k.take p).takes l = k.take p := ih h
      have hup : (k.take p).up = true := by
        rw [← hrest]
        exact h
      have hstep : k.take p = k := by
        cases p <;> rw [take] at hup ⊢ <;> split at hup <;> first | cases hup | simp_all
      exact hrest.trans hstep

theorem started_untouched (starts : Bool) : (k.started starts []).up = (starts && k.card.isSome) :=
  congrArg up (if_pos rfl)

end Socket

/-! ### The world -/

/-- What one look at the card finds: whether a command works, whether `sd_start` leaves the
card up, whether it is block addressed, and the bytes a read brings. -/
structure Answer where
  ok : Bool
  starts : Bool
  ccs : Bool
  data : Block

/-- What is done to the socket before a look and during a run of `sd_start`, and the
answers. -/
structure World where
  before : Nat → List Phys
  during : Nat → List Phys
  answer : Nat → Answer

/-- What a driver did: a data command on a sector of the card in the socket, with the bytes
it carried if it worked, or a copy of 512 bytes between its buffer and the caller's. -/
inductive Ev
  | touch (card : Option Nat) (write : Bool) (sector : Nat) (data : Option Block)
  | copy (addrs : List Nat) (bytes : Block)

/-- The machine under a driver with variables `D`. -/
structure Sys (D : Type) where
  world : World
  now : Nat
  socket : Socket
  log : List Ev
  mem : Mem
  drv : D

abbrev SdM (D : Type) := Prog Empty (Sys D)

section Ops

variable {D : Type}

def look : SdM D Answer :=
  modifyGet fun s => (s.world.answer s.now,
    { s with now := s.now + 1, socket := s.socket.takes (s.world.before s.now) })

/-- `sd_card`, `card`: whether a card is in the socket. -/
def cardIn : SdM D Bool := do
  let _ ← look
  let s ← get
  pure s.socket.card.isSome

/-- A data command, and the bytes a read leaves in the driver's buffer. -/
def dataCommand (write : Bool) (sector : Nat) (b : Block) : SdM D (Bool × Block) := do
  let a ← look
  modifyGet fun s =>
    let ok := a.ok && s.socket.up
    ((ok, if write then b else a.data),
      { s with
        log := s.log ++ [.touch s.socket.card write sector
          (if ok then some (if write then b else a.data) else none)] })

/-- `sd_start`, if there is a card to run it on. -/
def start : SdM D (Option Answer) := do
  let a ← look
  modifyGet fun s =>
    if s.socket.card.isSome then
      (some a, { s with socket := s.socket.started a.starts (s.world.during s.now) })
    else (none, s)

def getDrv : SdM D D := do
  let s ← get
  pure s.drv

def setDrv (f : D → D) : SdM D Unit := modify fun s => { s with drv := f s.drv }

/-! ### What they do -/

variable {s s' : Sys D}

theorem runs_getDrv {d : D} (h : Runs getDrv s d s') : d = s.drv ∧ s' = s := by
  obtain ⟨t, u, hget, hpure⟩ := runs_bind.mp h
  obtain ⟨rfl, rfl⟩ := runs_get.mp hget
  exact runs_pure.mp hpure

theorem runs_setDrv {f : D → D} {u : Unit} (h : Runs (setDrv f) s u s') :
    s' = { s with drv := f s.drv } := runs_modify.mp h

/-- What a look leaves. -/
def Sys.looked (s : Sys D) : Sys D :=
  { s with now := s.now + 1, socket := s.socket.takes (s.world.before s.now) }

theorem runs_look {a : Answer} (h : Runs look s a s') :
    a = s.world.answer s.now ∧ s' = s.looked := runs_modifyGet.mp h

theorem runs_cardIn {b : Bool} (h : Runs cardIn s b s') :
    b = s.looked.socket.card.isSome ∧ s' = s.looked := by
  obtain ⟨a, t, hlook, hrest⟩ := runs_bind.mp h
  obtain ⟨-, rfl⟩ := runs_look hlook
  obtain ⟨u, v, hget, hpure⟩ := runs_bind.mp hrest
  obtain ⟨rfl, rfl⟩ := runs_get.mp hget
  exact runs_pure.mp hpure

/-- A data command works when the card is up and does it, and leaves one event. -/
theorem runs_dataCommand {w : Bool} {n : Nat} {b : Block} {p : Bool × Block}
    (h : Runs (dataCommand w n b) s p s') :
    ∃ d : Option Block, p.1 = d.isSome ∧ (∀ x, d = some x → p.2 = x) ∧
      p.2 = (if w then b else (s.world.answer s.now).data) ∧
      (d.isSome = true ↔ (s.world.answer s.now).ok = true ∧ s.looked.socket.up = true) ∧
      s' = { s.looked with log := s.log ++ [.touch s.looked.socket.card w n d] } := by
  obtain ⟨a, t, hlook, hrest⟩ := runs_bind.mp h
  obtain ⟨rfl, rfl⟩ := runs_look hlook
  obtain ⟨rfl, rfl⟩ := runs_modifyGet.mp hrest
  refine ⟨_, ?_, ?_, rfl, ?_, rfl⟩ <;>
    cases hok : (s.world.answer s.now).ok && s.looked.socket.up
  · rfl
  · rfl
  · intro x hx
    cases hx
  · intro x hx
    exact Option.some.inj hx
  · rw [← Bool.and_eq_true_iff, hok]
    rfl
  · rw [← Bool.and_eq_true_iff, hok]
    rfl

end Ops

end Sbc386Ex.Sd

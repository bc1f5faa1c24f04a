import Sbc386Ex.Cohfs.Links

/-!
# Sbc386Ex.Cohfs.Histories

Session after session on one image file, from `mkfs` on. Some end well and some do not, and the image
file is sound after each.
-/

namespace Sbc386Ex.Cohfs

open Raising

variable {F F' : Files} {isize fsize : Nat} {file file' : List Byte} {path : Text}

/-- A session, with the clock of the host. -/
structure Session where
  clock : Nat → Int
  calls : List Call

/-- The image file that it leaves. -/
def Session.leaves (s : Session) (file : List Byte) : List Byte := (session s.clock 0 s.calls file).2

/-- It ends well. -/
def Session.endsWell (s : Session) (file : List Byte) : Bool := (session s.clock 0 s.calls file).1.isOk

/-- The image file after one session after the other. -/
def history : List Session → List Byte → List Byte
  | [], file => file
  | s :: ss, file => history ss (s.leaves file)

/-- The calls of the sessions that end well. -/
def served : List Session → List Byte → List Call
  | [], _ => []
  | s :: ss, file => (if s.endsWell file then s.calls else []) ++ served ss (s.leaves file)

namespace Files

/-- Every session is safe when it is made, whichever of those before it ended well. -/
def AllSafe (inos : List Nat) (size : Nat) : Files → List (List Call) → Prop
  | _, [] => True
  | F, calls :: rest => F.Safe inos size calls ∧ F.AllSafe inos size rest ∧
      ∀ F', F.Run inos calls F' → F'.AllSafe inos size rest

theorem Run.trans {inos : List Nat} {calls calls' : List Call} {F'' : Files} (h : F.Run inos calls F')
    (h' : F'.Run inos calls' F'') : F.Run inos (calls ++ calls') F'' := by
  induction h with
  | nil => exact h'
  | cons step rest ih => exact .cons step (ih h')

end Files

/-- **Every history refines.** -/
theorem history_run {sessions : List Session} (h : Kept isize fsize F file)
    (hsafe : F.AllSafe (inosOf isize) (fsize - isize) (sessions.map (·.calls))) :
    ∃ F', F.Run (inosOf isize) (served sessions file) F' ∧ Kept isize fsize F' (history sessions file) := by
  induction sessions generalizing F file with
  | nil => exact ⟨F, .nil, h⟩
  | cons s ss ih =>
      obtain ⟨hnow, hfailed, hended⟩ := hsafe
      rw [history, served, Session.leaves, Session.endsWell]
      have hok : ∀ file', session s.clock 0 s.calls file = (.ok (), file') →
          ∃ F₁, F.Run (inosOf isize) s.calls F₁ ∧ Kept isize fsize F₁ file' := fun _ => session_run h hnow
      have herror : ∀ e, (session s.clock 0 s.calls file).1 = .error e →
          (session s.clock 0 s.calls file).2 = file :=
        fun _ => session_raised
      generalize session s.clock 0 s.calls file = result at hok herror ⊢
      obtain ⟨r, file'⟩ := result
      cases r with
      | ok u =>
          obtain ⟨F₁, hfirst, hkept⟩ := hok file' rfl
          obtain ⟨F', hlast, hkept'⟩ := ih hkept (hended F₁ hfirst)
          exact ⟨F', hfirst.trans hlast, hkept'⟩
      | error e =>
          -- the image file is not written
          obtain rfl : file' = file := herror e rfl
          exact ih h hfailed

end Sbc386Ex.Cohfs

import Mathlib.Tactic.SplitIfs
import Sbc386Ex.Setup.Strtobcd

/-!
# Sbc386Ex.Monitor.Getline

`getline` of `getline.c`, over any stream of keys.

The buffer holds one character less than there is room for beside the NUL: a character that
would fill it is stored and then taken back. What is proved of a key is that it edits the text
held as an editor of that size does.
-/

namespace Sbc386Ex.Monitor

open Setup (Holds)

def ASCII_BEL : Byte := 0x07
def ASCII_BS : Byte := 0x08
def ASCII_HT : Byte := 0x09
def ASCII_NL : Byte := 0x0A
def ASCII_LF : Byte := 0x0A
def ASCII_CR : Byte := 0x0D
def ASCII_ESC : Byte := 0x1B
def ASCII_SP : Byte := 0x20
def ASCII_DEL : Byte := 0x7F
def ASCII_CTRLU : Byte := 0x15
def ASCII_CTRLX : Byte := 0x18

/-! ### The source -/

/-- `KBD_getchar`, of the key INT 16h returns. -/
def getchar (key : Word) : Byte := key.setWidth 8 &&& 0x7F

def isPrint (ch : Byte) : Bool := ¬ (ch < ASCII_SP ∨ ASCII_DEL ≤ ch)

/-- `getline` at work: memory, `n`, what has been shown, and every store so far. -/
structure Editor where
  mem : Mem
  n : Nat
  screen : List Byte
  stores : List (Nat × Byte)

namespace Editor

variable (s : Editor)

def store (a : Nat) (ch : Byte) : Editor :=
  { s with mem := Function.update s.mem a ch, stores := s.stores ++ [(a, ch)] }

def putline (str : List Byte) : Editor := { s with screen := s.screen ++ str }

/-- `putline("\010\040\010"); --n;` -/
def erase : Editor := { s.putline [ASCII_BS, ASCII_SP, ASCII_BS] with n := s.n - 1 }

/-- `buffer[n++] = ch;` -/
def push (buffer : Nat) (ch : Byte) : Editor := { s.store (buffer + s.n) ch with n := s.n + 1 }

/-- A key that does not end the line. -/
def typed (buffer : Nat) (ch : Byte) : Editor :=
  if isPrint ch then (s.push buffer ch).putline [ch]
  else if ch = ASCII_DEL ∨ ch = ASCII_BS then if 0 < s.n then s.erase else s
  else if ch = ASCII_HT then (s.putline [ASCII_SP]).push buffer ASCII_SP
  else if ch = ASCII_CTRLU ∨ ch = ASCII_CTRLX then erase^[s.n] s
  else s.putline [ASCII_BEL]

/-- `if (n == length)` -/
def full (length : Nat) : Editor :=
  if s.n = length then { s.putline [ASCII_BEL, ASCII_BS] with n := s.n - 1 } else s

/-- A key that ends it. -/
def finished (buffer : Nat) (ch : Byte) : Editor :=
  let s := if ch = ASCII_ESC then { s with n := 0 } else s
  (s.putline [ASCII_CR, ASCII_LF]).store (buffer + s.n) 0

end Editor

def EndsLine (ch : Byte) : Prop := ch = ASCII_ESC ∨ ch = ASCII_CR ∨ ch = ASCII_NL

instance : DecidablePred EndsLine := fun _ => inferInstanceAs (Decidable (_ ∨ _))

/-- The loop over the keys to come: what is left of them when it has returned, and nothing
while it waits for more. -/
def getlineLoop (buffer length : Nat) : List Word → Editor → Editor × Option (List Word)
  | [], s => (s, if s.n < length then none else some [])
  | key :: keys, s =>
      if s.n < length then
        let ch := getchar key
        if EndsLine ch then (s.finished buffer ch, some keys)
        else getlineLoop buffer length keys ((s.typed buffer ch).full length)
      else (s, some (key :: keys))

/-- What it returns is `n`. -/
def getline (buffer length : Nat) (mem : Mem) (keys : List Word) : Editor × Option (List Word) :=
  getlineLoop buffer (length - 1) keys { mem, n := 0, screen := [], stores := [] }

/-! ### A line editor -/

/-- What a key appends. -/
def shown (ch : Byte) : Option Byte :=
  if isPrint ch then some ch else if ch = ASCII_HT then some ASCII_SP else none

/-- A text of at most `cap` characters after a key. -/
def edited (cap : Nat) (str : List Byte) (ch : Byte) : List Byte :=
  match shown ch with
  | some c => if str.length < cap then str ++ [c] else str
  | none =>
      if ch = ASCII_DEL ∨ ch = ASCII_BS then str.dropLast
      else if ch = ASCII_CTRLU ∨ ch = ASCII_CTRLX then []
      else str

/-- After all the keys before the last, and after the last. -/
def editedBy (cap : Nat) (keys : List Word) : List Byte :=
  keys.foldl (fun str key => edited cap str (getchar key)) []

def returned (ch : Byte) (str : List Byte) : List Byte := if ch = ASCII_ESC then [] else str

/-- What is expected of `getline`. -/
structure Edits (buffer length : Nat) (mem : Mem) (keys : List Word)
    (r : Editor × Option (List Word)) : Prop where
  inside : ∀ w ∈ r.1.stores, buffer ≤ w.1 ∧ w.1 < buffer + length
  elsewhere : ∀ a, ¬ (buffer ≤ a ∧ a < buffer + length) → r.1.mem a = mem a
  waits : (∀ k ∈ keys, ¬ EndsLine (getchar k)) → r.2 = none
  returns : ∀ before key after, keys = before ++ key :: after →
    (∀ k ∈ before, ¬ EndsLine (getchar k)) → EndsLine (getchar key) →
    let str := returned (getchar key) (editedBy (length - 2) before)
    r.2 = some after ∧ r.1.n = str.length ∧ Holds r.1.mem buffer str ∧ str.length < length ∧
      str.Sublist (before.filterMap fun k => shown (getchar k))

/-! ### A key -/

/-- The text an editor holds, and what it has done to the memory. -/
structure Holding (buffer length : Nat) (mem : Mem) (s : Editor) (str : List Byte) : Prop where
  count : s.n = str.length
  room : str.length ≤ length - 2
  text : ∀ i (h : i < str.length), s.mem (buffer + i) = str[i]
  nonzero : ∀ c ∈ str, c ≠ 0
  inside : ∀ w ∈ s.stores, buffer ≤ w.1 ∧ w.1 < buffer + length
  elsewhere : ∀ a, ¬ (buffer ≤ a ∧ a < buffer + length) → s.mem a = mem a

section Keys

variable {buffer length : Nat} {mem : Mem} {s : Editor} {str : List Byte} {ch : Byte}

theorem isPrint_ne_zero : ∀ ch : Byte, isPrint ch = true → ch ≠ 0 := by decide

theorem Holding.putline (h : Holding buffer length mem s str) (out : List Byte) :
    Holding buffer length mem (s.putline out) str :=
  ⟨h.count, h.room, h.text, h.nonzero, h.inside, h.elsewhere⟩

/-- With room for one more `n` has not met the end. -/
theorem Holding.full (h : Holding buffer length mem s str) (hlength : 2 ≤ length) :
    s.full (length - 1) = s := by
  have hcount := h.count
  have hroom := h.room
  exact if_neg (by omega)

theorem Holding.erase (h : Holding buffer length mem s str) :
    Holding buffer length mem s.erase str.dropLast where
  count := by
    have hcount : s.erase.n = s.n - 1 := rfl
    rw [hcount, h.count, List.length_dropLast]
  room := by
    have hroom := h.room
    rw [List.length_dropLast]
    omega
  text i hi := by
    rw [List.length_dropLast] at hi
    rw [List.getElem_dropLast]
    exact h.text i (by omega)
  nonzero c hc := h.nonzero c (List.mem_of_mem_dropLast hc)
  inside := h.inside
  elsewhere := h.elsewhere

theorem Holding.eraseAll {n : Nat} (h : Holding buffer length mem s str) (hn : s.n = n) :
    Holding buffer length mem (Editor.erase^[n] s) [] := by
  induction n generalizing s str with
  | zero =>
      have hnil : str = [] := List.eq_nil_of_length_eq_zero (h.count.symm.trans hn)
      rwa [hnil] at h
  | succ n ih => exact ih h.erase (by rw [Editor.erase, hn, Nat.add_sub_cancel])

/-- A character after the text: it stays if there is room for it, and is taken back if not. -/
theorem Holding.push {c : Byte} (h : Holding buffer length mem s str) (hlength : 2 ≤ length)
    (hc : c ≠ 0) (out : List Byte) :
    Holding buffer length mem (((s.push buffer c).putline out).full (length - 1))
      (if str.length < length - 2 then str ++ [c] else str) := by
  have hcount := h.count
  have hroom := h.room
  have hinside : ∀ w ∈ (s.push buffer c).stores, buffer ≤ w.1 ∧ w.1 < buffer + length := by
    intro w hw
    rcases List.mem_append.mp hw with hw | hw
    · exact h.inside w hw
    · obtain rfl := List.mem_singleton.mp hw
      dsimp only
      omega
  have helsewhere : ∀ a, ¬ (buffer ≤ a ∧ a < buffer + length) → (s.push buffer c).mem a = mem a := by
    intro a ha
    have hne : a ≠ buffer + s.n := by omega
    exact (Function.update_of_ne hne _ _).trans (h.elsewhere a ha)
  have hbefore : ∀ i (hi : i < str.length), (s.push buffer c).mem (buffer + i) = str[i] := by
    intro i hi
    have hne : buffer + i ≠ buffer + s.n := by omega
    exact (Function.update_of_ne hne _ _).trans (h.text i hi)
  by_cases hless : str.length < length - 2
  · have hfits : ((s.push buffer c).putline out).full (length - 1) = (s.push buffer c).putline out :=
      if_neg (show ¬ s.n + 1 = length - 1 by omega)
    rw [hfits, if_pos hless]
    refine ⟨?_, ?_, ?_, ?_, hinside, helsewhere⟩
    · rw [List.length_append, ← hcount]
      rfl
    · rw [List.length_append, List.length_singleton]
      omega
    · intro i hi
      by_cases hlast : i < str.length
      · rw [List.getElem_append_left hlast]
        exact hbefore i hlast
      · have hi : i = str.length := by
          rw [List.length_append, List.length_singleton] at hi
          omega
        subst hi
        rw [List.getElem_concat_length, ← hcount]
        · exact Function.update_self ..
        · rfl
    · intro c' hc'
      rcases List.mem_append.mp hc' with hc' | hc'
      · exact h.nonzero c' hc'
      · rwa [List.mem_singleton.mp hc']
  · have htaken : ((s.push buffer c).putline out).full (length - 1) =
        { ((s.push buffer c).putline out).putline [ASCII_BEL, ASCII_BS] with n := s.n + 1 - 1 } :=
      if_pos (show s.n + 1 = length - 1 by omega)
    rw [htaken, if_neg hless]
    exact ⟨hcount, hroom, hbefore, h.nonzero, hinside, helsewhere⟩

theorem edited_of_shown {cap : Nat} {c : Byte} (h : shown ch = some c) :
    edited cap str ch = if str.length < cap then str ++ [c] else str := by
  rw [edited, h]

theorem edited_of_none {cap : Nat} (h : shown ch = none) : edited cap str ch =
    if ch = ASCII_DEL ∨ ch = ASCII_BS then str.dropLast
    else if ch = ASCII_CTRLU ∨ ch = ASCII_CTRLX then []
    else str := by
  rw [edited, h]

/-- **A key** that does not end the line edits the text. -/
theorem Holding.typed (h : Holding buffer length mem s str) (hlength : 2 ≤ length) (ch : Byte) :
    Holding buffer length mem ((s.typed buffer ch).full (length - 1)) (edited (length - 2) str ch) := by
  rw [Editor.typed]
  by_cases hprint : isPrint ch = true
  · have hshown : shown ch = some ch := if_pos hprint
    rw [if_pos hprint, edited_of_shown hshown]
    exact h.push hlength (isPrint_ne_zero ch hprint) [ch]
  rw [if_neg hprint]
  by_cases htab : ch = ASCII_HT
  · subst htab
    have hshown : shown ASCII_HT = some ASCII_SP := by decide
    rw [if_neg (by decide), if_pos rfl, edited_of_shown hshown]
    exact h.push hlength (by decide) [ASCII_SP]
  have hnone : shown ch = none := by rw [shown, if_neg hprint, if_neg htab]
  rw [edited_of_none hnone, if_neg htab]
  by_cases hdel : ch = ASCII_DEL ∨ ch = ASCII_BS
  · rw [if_pos hdel, if_pos hdel]
    by_cases hsome : 0 < s.n
    · rw [if_pos hsome, h.erase.full hlength]
      exact h.erase
    · have hnil : str = [] := List.eq_nil_of_length_eq_zero (by have hcount := h.count; omega)
      rw [if_neg hsome, h.full hlength]
      subst hnil
      exact h
  rw [if_neg hdel, if_neg hdel]
  by_cases hkill : ch = ASCII_CTRLU ∨ ch = ASCII_CTRLX
  · have hall := h.eraseAll rfl
    rw [if_pos hkill, if_pos hkill, hall.full hlength]
    exact hall
  · have hbell := h.putline [ASCII_BEL]
    rw [if_neg hkill, if_neg hkill, hbell.full hlength]
    exact hbell

/-! ### A line -/

theorem holds_of_text {m : Mem} {p : Nat} {str : List Byte} (hnonzero : ∀ c ∈ str, c ≠ 0)
    (htext : ∀ i (h : i < str.length), m (p + i) = str[i]) (hnul : m (p + str.length) = 0) :
    Holds m p str := by
  induction str generalizing p with
  | nil => exact hnul
  | cons c str ih =>
      obtain ⟨hc, hrest⟩ := List.forall_mem_cons.mp hnonzero
      refine ⟨htext 0 (Nat.succ_pos _), hc, ih hrest (fun i hi => ?_) ?_⟩
      · rw [Nat.add_assoc, Nat.add_comm 1]
        exact htext (i + 1) (Nat.succ_lt_succ hi)
      · rw [Nat.add_assoc, Nat.add_comm 1]
        exact hnul

/-- **The last key** ends the text with a NUL inside the buffer. -/
theorem Holding.finished (h : Holding buffer length mem s str) (hlength : 2 ≤ length) (ch : Byte) :
    let r := s.finished buffer ch
    (∀ w ∈ r.stores, buffer ≤ w.1 ∧ w.1 < buffer + length) ∧
      (∀ a, ¬ (buffer ≤ a ∧ a < buffer + length) → r.mem a = mem a) ∧
      r.n = (returned ch str).length ∧ Holds r.mem buffer (returned ch str) ∧
      (returned ch str).length < length := by
  have hempty : Holding buffer length mem { s with n := 0 } [] :=
    ⟨rfl, Nat.zero_le _, fun i hi => absurd hi (Nat.not_lt_zero i), fun c hc => absurd hc List.not_mem_nil,
      h.inside, h.elsewhere⟩
  obtain ⟨t, ht, hdone⟩ : ∃ t, Holding buffer length mem t (returned ch str) ∧
      s.finished buffer ch = (t.putline [ASCII_CR, ASCII_LF]).store (buffer + t.n) 0 := by
    rw [returned, Editor.finished]
    split_ifs with hesc
    · exact ⟨_, hempty, rfl⟩
    · exact ⟨s, h, rfl⟩
  have hcount := ht.count
  have hroom := ht.room
  dsimp only
  rw [hdone]
  refine ⟨fun w hw => ?_, fun a ha => ?_, hcount, holds_of_text ht.nonzero (fun i hi => ?_) ?_, by omega⟩
  · rcases List.mem_append.mp hw with hw | hw
    · exact ht.inside w hw
    · obtain rfl := List.mem_singleton.mp hw
      dsimp only
      omega
  · have hne : a ≠ buffer + t.n := by omega
    exact (Function.update_of_ne hne _ _).trans (ht.elsewhere a ha)
  · have hne : buffer + i ≠ buffer + t.n := by omega
    exact (Function.update_of_ne hne _ _).trans (ht.text i hi)
  · rw [← hcount]
    exact Function.update_self ..

/-- What is held has been typed, in this order. -/
theorem sublist_edited (cap : Nat) {typed : List Byte} (h : str.Sublist typed) (ch : Byte) :
    (edited cap str ch).Sublist (typed ++ (shown ch).toList) := by
  cases hshown : shown ch with
  | some c =>
      rw [edited_of_shown hshown]
      split_ifs
      · exact h.append (List.Sublist.refl _)
      · exact h.trans (List.sublist_append_left _ _)
  | none =>
      rw [edited_of_none hshown, Option.toList_none, List.append_nil]
      split_ifs
      · exact (List.dropLast_sublist _).trans h
      · exact List.nil_sublist _
      · exact h

theorem sublist_keys (cap : Nat) {typed : List Byte} (h : str.Sublist typed) (keys : List Word) :
    (keys.foldl (fun str key => edited cap str (getchar key)) str).Sublist
      (typed ++ keys.filterMap fun k => shown (getchar k)) := by
  induction keys generalizing str typed with
  | nil => simpa using h
  | cons key keys ih =>
      have hrest := ih (sublist_edited cap h (getchar key))
      rw [List.append_assoc] at hrest
      cases hshown : shown (getchar key) <;> simpa [hshown] using hrest

/-! ### The loop -/

/-- It does not end by its condition. -/
theorem Holding.lt (h : Holding buffer length mem s str) (hlength : 2 ≤ length) : s.n < length - 1 := by
  have hcount := h.count
  have hroom := h.room
  omega

theorem getlineLoop_inside (h : Holding buffer length mem s str) (hlength : 2 ≤ length)
    (keys : List Word) :
    let r := (getlineLoop buffer (length - 1) keys s).1
    (∀ w ∈ r.stores, buffer ≤ w.1 ∧ w.1 < buffer + length) ∧
      ∀ a, ¬ (buffer ≤ a ∧ a < buffer + length) → r.mem a = mem a := by
  induction keys generalizing s str with
  | nil => exact ⟨h.inside, h.elsewhere⟩
  | cons key keys ih =>
      rw [getlineLoop, if_pos (h.lt hlength)]
      by_cases hends : EndsLine (getchar key)
      · obtain ⟨hinside, helsewhere, -⟩ := h.finished hlength (getchar key)
        simp only [hends, if_true]
        exact ⟨hinside, helsewhere⟩
      · simp only [hends, if_false]
        exact ih (h.typed hlength _)

theorem getlineLoop_waits (h : Holding buffer length mem s str) (hlength : 2 ≤ length)
    {keys : List Word} (hkeys : ∀ k ∈ keys, ¬ EndsLine (getchar k)) :
    (getlineLoop buffer (length - 1) keys s).2 = none := by
  induction keys generalizing s str with
  | nil => exact if_pos (h.lt hlength)
  | cons key keys ih =>
      obtain ⟨hkey, hkeys⟩ := List.forall_mem_cons.mp hkeys
      rw [getlineLoop, if_pos (h.lt hlength)]
      simp only [hkey, if_false]
      exact ih (h.typed hlength _) hkeys

theorem getlineLoop_returns (h : Holding buffer length mem s str) (hlength : 2 ≤ length)
    {before : List Word} (hbefore : ∀ k ∈ before, ¬ EndsLine (getchar k)) {key : Word}
    (hkey : EndsLine (getchar key)) (after : List Word) :
    ∃ t, getlineLoop buffer (length - 1) (before ++ key :: after) s =
        (t.finished buffer (getchar key), some after) ∧
      Holding buffer length mem t
        (before.foldl (fun str key => edited (length - 2) str (getchar key)) str) := by
  induction before generalizing s str with
  | nil =>
      refine ⟨s, ?_, h⟩
      rw [List.nil_append, getlineLoop, if_pos (h.lt hlength)]
      simp only [hkey, if_true]
  | cons first before ih =>
      obtain ⟨hfirst, hbefore⟩ := List.forall_mem_cons.mp hbefore
      rw [List.cons_append, getlineLoop, if_pos (h.lt hlength)]
      simp only [hfirst, if_false]
      exact ih (h.typed hlength _) hbefore

end Keys

/-- **Line editing.** Whatever the keys. -/
theorem getline_edits (buffer : Nat) {length : Nat} (hlength : 2 ≤ length) (mem : Mem)
    (keys : List Word) : Edits buffer length mem keys (getline buffer length mem keys) := by
  have hstart : Holding buffer length mem { mem, n := 0, screen := [], stores := [] } [] :=
    ⟨rfl, Nat.zero_le _, fun i hi => absurd hi (Nat.not_lt_zero i), fun c hc => absurd hc List.not_mem_nil,
      fun w hw => absurd hw List.not_mem_nil, fun _ _ => rfl⟩
  obtain ⟨hinside, helsewhere⟩ := getlineLoop_inside hstart hlength keys
  refine ⟨hinside, helsewhere, getlineLoop_waits hstart hlength, ?_⟩
  rintro before key after rfl hbefore hkey str
  obtain ⟨t, hloop, ht⟩ := getlineLoop_returns hstart hlength hbefore hkey after
  obtain ⟨-, -, hn, hholds, hlt⟩ := ht.finished hlength (getchar key)
  have htyped : str.Sublist (before.filterMap fun k => shown (getchar k)) := by
    have hall := sublist_keys (length - 2) (List.Sublist.refl []) before
    simp only [str, returned]
    split_ifs
    · exact List.nil_sublist _
    · exact hall
  rw [getline, hloop]
  exact ⟨rfl, hn, hholds, hlt, htyped⟩

/-- `A`, `B`, backspace, tab, `C`, which is one too many, and Enter. -/
def someKeys : List Word := [0x1E41, 0x3042, 0x0E08, 0x0F09, 0x2E43, 0x1C0D]

example : editedBy 2 someKeys.dropLast = [0x41, 0x20] := by decide

theorem getline_edits_someKeys :
    Edits 0x7000 4 (fun _ => 0xFF) someKeys (getline 0x7000 4 (fun _ => 0xFF) someKeys) :=
  getline_edits 0x7000 (by decide) _ _

end Sbc386Ex.Monitor

import Sbc386Ex.Kbd.Scan

/-!
# Sbc386Ex.Kbd.Shift

The shift state beside the keys that are held.

A keyboard sends what happens to its keys in scan codes of set 1. Between two events no prefix
is outstanding, and the flags are what the keys make them: an event is asked to keep this.
-/

namespace Sbc386Ex.Kbd

/-! ### The keyboard -/

/-- A key, by its scan code, with or without the prefix E0. -/
inductive Key
  | code (e0 : Bool) (c : Byte)
  | pause
  deriving DecidableEq

namespace Key

abbrev leftShift : Key := code false 0x2A
abbrev rightShift : Key := code false 0x36
abbrev leftCtrl : Key := code false 0x1D
abbrev rightCtrl : Key := code true 0x1D
abbrev leftAlt : Key := code false 0x38
abbrev rightAlt : Key := code true 0x38
abbrev capsLock : Key := code false 0x3A
abbrev numLock : Key := code false 0x45
abbrev scrollLock : Key := code false 0x46

/-- No key has a code with the high bit, or one whose break is a prefix. E0 2A and E0 36 are no
keys but the fake shifts, E0 46 is what Pause sends under Ctrl, and there is no E0 3A. -/
def Valid : Key → Prop
  | code e0 c => c &&& 0x80 = 0 ∧ c ≠ 0x60 ∧ c ≠ 0x61 ∧
      (e0 = true → c ≠ 0x2A ∧ c ≠ 0x36 ∧ c ≠ 0x3A ∧ c ≠ 0x46)
  | pause => True

end Key

/-- The keys that are held, and how often each lock key was pressed. -/
structure Keyboard where
  held : Key → Bool
  caps : Nat
  num : Nat
  scroll : Nat

/-- Nothing was pressed yet. -/
def Keyboard.idle : Keyboard := ⟨fun _ => false, 0, 0, 0⟩

/-- What happens to a key, and the shifts the keyboard sends on its own. -/
inductive KeyEvent
  | press (k : Key)
  | again (k : Key)
  | release (k : Key)
  | fake (c : Byte)

namespace Keyboard

variable (kb : Keyboard)

def CtrlHeld : Prop := kb.held .leftCtrl = true ∨ kb.held .rightCtrl = true
def AltHeld : Prop := kb.held .leftAlt = true ∨ kb.held .rightAlt = true
def ShiftHeld : Prop := kb.held .leftShift = true ∨ kb.held .rightShift = true

instance : Decidable kb.CtrlHeld := inferInstanceAs (Decidable (_ ∨ _))
instance : Decidable kb.AltHeld := inferInstanceAs (Decidable (_ ∨ _))

/-- What can happen: a key that is up is pressed, one that is down repeats, Pause excepted, or is
released. -/
def Allows : KeyEvent → Prop
  | .press k => k.Valid ∧ kb.held k = false
  | .again k => k.Valid ∧ kb.held k = true ∧ k ≠ .pause
  | .release k => k.Valid ∧ kb.held k = true
  | .fake c => c ∈ [0x2A, 0xAA, 0x36, (0xB6 : Byte)]

def after : KeyEvent → Keyboard
  | .press k =>
      ⟨Function.update kb.held k true, kb.caps + (if k = .capsLock then 1 else 0),
        kb.num + (if k = .numLock then 1 else 0), kb.scroll + (if k = .scrollLock then 1 else 0)⟩
  | .again _ => kb
  | .release k => { kb with held := Function.update kb.held k false }
  | .fake _ => kb

/-- A code behind its prefix. -/
def code (e0 : Bool) (b : Byte) : List Byte := if e0 then [0xE0, b] else [b]

/-- What it sends. Pause sends a sequence, make and break in one. -/
def sends : KeyEvent → List Byte
  | .press (.code e0 c) => code e0 c
  | .again (.code e0 c) => code e0 c
  | .release (.code e0 c) => code e0 (c ||| 0x80)
  | .press .pause =>
      if kb.CtrlHeld then [0xE0, 0x46, 0xE0, 0xC6] else [0xE1, 0x1D, 0x45, 0xE1, 0x9D, 0xC5]
  | .again .pause => []
  | .release .pause => []
  | .fake c => code true c

end Keyboard

/-- The bytes of an event, each with the keyboard as it is told by then: what happened is told by
the last one. -/
def told (kb kb' : Keyboard) : List Byte → List (Byte × Keyboard)
  | [] => []
  | [b] => [(b, kb')]
  | b :: bs => (b, kb) :: told kb kb' bs

/-- A history as it comes in. -/
def stream : List KeyEvent → Keyboard → List (Byte × Keyboard)
  | [], _ => []
  | e :: es, kb => told kb (kb.after e) (kb.sends e) ++ stream es (kb.after e)

def LawfulHistory : List KeyEvent → Keyboard → Prop
  | [], _ => True
  | e :: es, kb => kb.Allows e ∧ LawfulHistory es (kb.after e)

/-- The flags of the data area are those of the keyboard: each of Shift, Ctrl and Alt is set
while a key of its kind is held, and each lock bit has changed with every press of its key. -/
structure Shown (kb : Keyboard) (s : ScanState) : Prop where
  shift : s.kbdFlag &&& (KF_LSHIFT + KF_RSHIFT) ≠ 0 ↔ kb.ShiftHeld
  ctrl : s.kbdFlag &&& KF_CTRL ≠ 0 ↔ kb.CtrlHeld
  alt : s.kbdFlag &&& KF_ALT ≠ 0 ↔ kb.AltHeld
  caps : s.kbdFlag &&& KF_CAPS ≠ 0 ↔ kb.caps % 2 = 1
  num : s.kbdFlag &&& KF_NUM ≠ 0 ↔ kb.num % 2 = 1
  scroll : s.kbdFlag &&& KF_SCROLL ≠ 0 ↔ kb.scroll % 2 = 1

/-- After every byte, each in an interrupt of its own, as long as the machine is not reset. -/
def ShownAfterEach : List (Byte × Keyboard) → ScanState → Prop
  | [], _ => True
  | (b, kb) :: rest, s =>
      match intIrq1 (some b) s with
      | some s' => Shown kb s' ∧ ShownAfterEach rest s'
      | none => True

/-! ### What is asked of an event -/

/-- Ctrl-Alt-Del. -/
def Keyboard.Resets (kb : Keyboard) : KeyEvent → Prop
  | .press (.code _ c) => c = 0x53 ∧ kb.CtrlHeld ∧ kb.AltHeld
  | .again (.code _ c) => c = 0x53 ∧ kb.CtrlHeld ∧ kb.AltHeld
  | _ => False

/-- Of two keys with one flag the other is not held when one is released; no lock key repeats;
and Pause is not pressed under Ctrl. -/
def Keyboard.Plain (kb : Keyboard) : KeyEvent → Prop
  | .press .pause => ¬ kb.CtrlHeld
  | .again k => k ≠ .capsLock ∧ k ≠ .numLock ∧ k ≠ .scrollLock
  | .release k =>
      (k = .leftCtrl → kb.held .rightCtrl = false) ∧ (k = .rightCtrl → kb.held .leftCtrl = false) ∧
      (k = .leftAlt → kb.held .rightAlt = false) ∧ (k = .rightAlt → kb.held .leftAlt = false)
  | _ => True

/-- Of each event of a history, up to a reset. -/
def EachPlain : List KeyEvent → Keyboard → Prop
  | [], _ => True
  | e :: es, kb => kb.Plain e ∧ (kb.Resets e ∨ EachPlain es (kb.after e))

/-! ### The flags bit by bit -/

/-- The bits of `kbd_flag`. -/
@[ext] structure Flags where
  rshift : Bool
  lshift : Bool
  ctrl : Bool
  alt : Bool
  scroll : Bool
  num : Bool
  caps : Bool
  deriving DecidableEq

def bits (flag : Byte) : Flags :=
  ⟨flag.getLsbD 0, flag.getLsbD 1, flag.getLsbD 2, flag.getLsbD 3, flag.getLsbD 4, flag.getLsbD 5,
    flag.getLsbD 6⟩

/-- Pressed an odd number of times. -/
def odd (n : Nat) : Bool := decide (n % 2 = 1)

theorem odd_iff {n : Nat} : odd n = true ↔ n % 2 = 1 := decide_eq_true_iff

theorem odd_succ (n : Nat) : odd (n + 1) = !odd n := by
  rcases Nat.mod_two_eq_zero_or_one n with h | h
  · simp [odd, Nat.add_mod, h]
  · simp [odd, Nat.add_mod, h]

/-- The bits a keyboard asks for. -/
def Keyboard.flags (kb : Keyboard) : Flags where
  rshift := kb.held .rightShift
  lshift := kb.held .leftShift
  ctrl := kb.held .leftCtrl || kb.held .rightCtrl
  alt := kb.held .leftAlt || kb.held .rightAlt
  scroll := odd kb.scroll
  num := odd kb.num
  caps := odd kb.caps

section Bits

variable (flag : Byte)

/-- What the instructions do to the bits. -/
theorem bits_make : bits (flag ||| KF_LSHIFT) = { bits flag with lshift := true } ∧
    bits (flag ||| KF_RSHIFT) = { bits flag with rshift := true } ∧
    bits (flag ||| KF_CTRL) = { bits flag with ctrl := true } ∧
    bits (flag ||| KF_ALT) = { bits flag with alt := true } ∧
    bits (flag ^^^ KF_CAPS) = { bits flag with caps := !(bits flag).caps } ∧
    bits (flag ^^^ KF_NUM) = { bits flag with num := !(bits flag).num } ∧
    bits (flag ^^^ KF_SCROLL) = { bits flag with scroll := !(bits flag).scroll } := by
  refine ⟨?_, ?_, ?_, ?_, ?_, ?_, ?_⟩ <;>
    simp [bits, KF_LSHIFT, KF_RSHIFT, KF_CTRL, KF_ALT, KF_CAPS, KF_NUM, KF_SCROLL]

theorem bits_break : bits (flag &&& ~~~KF_LSHIFT) = { bits flag with lshift := false } ∧
    bits (flag &&& ~~~KF_RSHIFT) = { bits flag with rshift := false } ∧
    bits (flag &&& ~~~KF_CTRL) = { bits flag with ctrl := false } ∧
    bits (flag &&& ~~~KF_ALT) = { bits flag with alt := false } := by
  refine ⟨?_, ?_, ?_, ?_⟩ <;> simp [bits, KF_LSHIFT, KF_RSHIFT, KF_CTRL, KF_ALT]

/-- What the tests ask of them. -/
theorem and_mask_ne : (flag &&& (KF_LSHIFT + KF_RSHIFT) ≠ 0 ↔
      (bits flag).lshift = true ∨ (bits flag).rshift = true) ∧
    (flag &&& KF_CTRL ≠ 0 ↔ (bits flag).ctrl = true) ∧
    (flag &&& KF_ALT ≠ 0 ↔ (bits flag).alt = true) ∧
    (flag &&& KF_CAPS ≠ 0 ↔ (bits flag).caps = true) ∧
    (flag &&& KF_NUM ≠ 0 ↔ (bits flag).num = true) ∧
    (flag &&& KF_SCROLL ≠ 0 ↔ (bits flag).scroll = true) ∧
    (flag &&& (KF_CTRL + KF_ALT) = KF_CTRL + KF_ALT ↔
      (bits flag).ctrl = true ∧ (bits flag).alt = true) := by
  revert flag
  decide +kernel

end Bits

variable {kb kb' : Keyboard} {s : ScanState}

theorem shown_of_bits (h : bits s.kbdFlag = kb.flags) : Shown kb s := by
  obtain ⟨hshift, hctrl, halt, hcaps, hnum, hscroll, -⟩ := and_mask_ne s.kbdFlag
  rw [h] at hshift hctrl halt hcaps hnum hscroll
  refine ⟨hshift, hctrl.trans ?_, halt.trans ?_, hcaps.trans ?_, hnum.trans ?_,
    hscroll.trans ?_⟩
  · simp only [Keyboard.flags, Keyboard.CtrlHeld, Bool.or_eq_true]
  · simp only [Keyboard.flags, Keyboard.AltHeld, Bool.or_eq_true]
  · exact odd_iff
  · exact odd_iff
  · exact odd_iff

theorem Shown.bits_eq (h : Shown kb s) : (bits s.kbdFlag).ctrl = kb.flags.ctrl ∧
    (bits s.kbdFlag).alt = kb.flags.alt ∧ (bits s.kbdFlag).scroll = kb.flags.scroll ∧
    (bits s.kbdFlag).num = kb.flags.num ∧ (bits s.kbdFlag).caps = kb.flags.caps := by
  obtain ⟨-, hctrl, halt, hcaps, hnum, hscroll, -⟩ := and_mask_ne s.kbdFlag
  have hor : ∀ {a b c : Bool}, (a = true ↔ b = true ∨ c = true) → a = (b || c) := by decide
  have hodd : ∀ {a : Bool} {n : Nat}, (a = true ↔ n % 2 = 1) → a = odd n :=
    fun h => Bool.eq_iff_iff.mpr (h.trans odd_iff.symm)
  exact ⟨hor (hctrl.symm.trans h.ctrl), hor (halt.symm.trans h.alt),
    hodd (hscroll.symm.trans h.scroll), hodd (hnum.symm.trans h.num),
    hodd (hcaps.symm.trans h.caps)⟩

/-! ### One code -/

/-- `kbd_flag` after a code that is no prefix. -/
def flagAfter (b bl flag : Byte) : Byte :=
  if b &&& 0x80 ≠ 0 then (release b bl ⟨flag, 0, 0, kbdInit fun _ => 0⟩).kbdFlag
  else (shifter b bl flag).getD flag

theorem release_spec (b bl : Byte) (s : ScanState) : (release b bl s).kbdFlag3 = s.kbdFlag3 ∧
    (release b bl s).kbdFlag = (release b bl ⟨s.kbdFlag, 0, 0, kbdInit fun _ => 0⟩).kbdFlag := by
  simp only [release]
  split_ifs <;> exact ⟨rfl, rfl⟩

/-- A code with or without E0 before it: the machine is reset, or the flags are as said. -/
theorem kbdScan1_spec {b bl : Byte} (hb : b ≠ 0xE0 ∧ b ≠ 0xE1) (hbl : bl = 0 ∨ bl = KF3_E0)
    (hs : s.kbdFlag3 = bl) : match kbdScan1 b s with
      | none => b = 0x53 ∧ s.kbdFlag &&& (KF_CTRL + KF_ALT) = KF_CTRL + KF_ALT
      | some s' => s'.kbdFlag3 = 0 ∧ s'.kbdFlag = flagAfter b bl s.kbdFlag ∧
          ¬ (b = 0x53 ∧ s.kbdFlag &&& (KF_CTRL + KF_ALT) = KF_CTRL + KF_ALT) := by
  have he1 : ¬ bl &&& KF3_E1 ≠ 0 := by rcases hbl with rfl | rfl <;> decide
  have he0 : bl &&& ~~~KF3_E0 = 0 := by rcases hbl with rfl | rfl <;> decide
  have h53 : b &&& 0x80 ≠ 0 → b ≠ 0x53 := by
    rintro h rfl
    exact h (by decide)
  simp only [kbdScan1, if_neg hb.1, if_neg hb.2, hs, if_neg he1, flagAfter]
  by_cases hbreak : b &&& 0x80 ≠ 0
  · rw [if_pos hbreak, if_pos hbreak]
    obtain ⟨h3, hflag⟩ := release_spec b bl { s with kbdFlag3 := bl &&& ~~~KF3_E0 }
    exact ⟨h3.trans he0, hflag, fun h => h53 hbreak h.1⟩
  · rw [if_neg hbreak, if_neg hbreak]
    cases hshift : shifter b bl s.kbdFlag with
    | some flag =>
        refine ⟨he0, rfl, fun hdel => ?_⟩
        rw [hdel.1] at hshift
        simp [shifter] at hshift
    | none =>
        by_cases hdel : b = 0x53 ∧ s.kbdFlag &&& (KF_CTRL + KF_ALT) = KF_CTRL + KF_ALT
        · simp only [if_pos hdel]
          exact hdel
        · simp only [if_neg hdel]
          cases kbdLookup b bl s.kbdFlag with
          | some ax => exact ⟨he0, rfl, hdel⟩
          | none => exact ⟨he0, rfl, hdel⟩

/-- Between two events no prefix is outstanding, and the flags are right. -/
structure Between (kb : Keyboard) (s : ScanState) : Prop where
  pending : s.kbdFlag3 = 0
  flags : bits s.kbdFlag = kb.flags

theorem resets_iff (h : bits s.kbdFlag = kb.flags) :
    s.kbdFlag &&& (KF_CTRL + KF_ALT) = KF_CTRL + KF_ALT ↔ kb.CtrlHeld ∧ kb.AltHeld := by
  obtain ⟨-, -, -, -, -, -, hboth⟩ := and_mask_ne s.kbdFlag
  rw [hboth, h]
  simp only [Keyboard.flags, Bool.or_eq_true]
  rfl

/-- A code and its prefix, between two events: they reset the machine, or all that is left to
say is said of the flags after them. -/
theorem Between.code_told (h : Between kb s) {b : Byte} (hb : b ≠ 0xE0 ∧ b ≠ 0xE1) (e0 : Bool) :
    (b = 0x53 ∧ kb.CtrlHeld ∧ kb.AltHeld) ∧
      (∀ kb' rest, ShownAfterEach (told kb kb' (Keyboard.code e0 b) ++ rest) s) ∨
    ¬ (b = 0x53 ∧ kb.CtrlHeld ∧ kb.AltHeld) ∧ ∃ s', s'.kbdFlag3 = 0 ∧
      s'.kbdFlag = flagAfter b (if e0 then KF3_E0 else 0) s.kbdFlag ∧ ∀ kb' rest,
        (ShownAfterEach (told kb kb' (Keyboard.code e0 b) ++ rest) s ↔
          Shown kb' s' ∧ ShownAfterEach rest s') := by
  -- the code itself, behind the prefix if there is one
  have hlast : ∀ bl u, bl = 0 ∨ bl = KF3_E0 → u.kbdFlag3 = bl → u.kbdFlag = s.kbdFlag →
      (b = 0x53 ∧ kb.CtrlHeld ∧ kb.AltHeld) ∧
        (∀ kb' rest, ShownAfterEach ((b, kb') :: rest) u) ∨
      ¬ (b = 0x53 ∧ kb.CtrlHeld ∧ kb.AltHeld) ∧ ∃ s', s'.kbdFlag3 = 0 ∧
        s'.kbdFlag = flagAfter b bl s.kbdFlag ∧ ∀ kb' rest,
          (ShownAfterEach ((b, kb') :: rest) u ↔ Shown kb' s' ∧ ShownAfterEach rest s') := by
    intro bl u hbl hu hflag
    have hspec := kbdScan1_spec hb hbl hu
    rw [hflag, resets_iff h.flags] at hspec
    simp only [ShownAfterEach, intIrq1]
    cases hscan : kbdScan1 b u with
    | none =>
        rw [hscan] at hspec
        exact .inl ⟨hspec, fun _ _ => trivial⟩
    | some s' =>
        rw [hscan] at hspec
        exact .inr ⟨hspec.2.2, s', hspec.1, hspec.2.1, fun _ _ => Iff.rfl⟩
  cases e0 with
  | false => exact hlast 0 s (.inl rfl) h.pending rfl
  | true =>
      have hcodes : ∀ kb' rest,
          (ShownAfterEach (told kb kb' (Keyboard.code true b) ++ rest) s ↔
            ShownAfterEach ((b, kb') :: rest) { s with kbdFlag3 := s.kbdFlag3 ||| KF3_E0 }) := by
        intro kb' rest
        exact and_iff_right (shown_of_bits h.flags)
      simp only [hcodes]
      exact hlast KF3_E0 _ (.inr rfl) (by rw [h.pending]; rfl) rfl

/-! ### Makes -/

/-- The codes `.shifter` knows. -/
def shiftCodes : List Byte := [0x2A, 0x36, 0x1D, 0x38, 0x3A, 0x45, 0x46]

theorem flagAfter_make {c : Byte} (hc : c &&& 0x80 = 0) (bl flag : Byte) :
    flagAfter c bl flag = (shifter c bl flag).getD flag := if_neg (not_not.mpr hc)

/-- A key that is none of the shift-state keys. -/
theorem flags_of_other {c : Byte} (hc : c ∉ shiftCodes) (e0 down : Bool) {caps num scroll : Nat}
    (hcaps : caps = kb.caps) (hnum : num = kb.num) (hscroll : scroll = kb.scroll) :
    (⟨Function.update kb.held (.code e0 c) down, caps, num, scroll⟩ : Keyboard).flags =
      kb.flags := by
  subst hcaps hnum hscroll
  have hne : ∀ e0' c', c' ∈ shiftCodes →
      Function.update kb.held (.code e0 c) down (.code e0' c') = kb.held (.code e0' c') := by
    intro e0' c' hmem
    refine Function.update_of_ne ?_ _ _
    rintro heq
    cases heq
    exact hc hmem
  simp only [Keyboard.flags]
  rw [hne _ 0x36 (by decide), hne _ 0x2A (by decide), hne _ 0x1D (by decide),
    hne _ 0x1D (by decide), hne _ 0x38 (by decide), hne _ 0x38 (by decide)]

theorem bits_press {flag : Byte} (h : bits flag = kb.flags) {e0 : Bool} {c : Byte}
    (hvalid : (Key.code e0 c).Valid) :
    bits (flagAfter c (if e0 then KF3_E0 else 0) flag) =
      (kb.after (.press (.code e0 c))).flags := by
  obtain ⟨hc, -, -, he0⟩ := hvalid
  obtain ⟨hls, hrs, hctrl, halt, hcaps, hnum, hscroll⟩ := bits_make flag
  rw [flagAfter_make hc]
  by_cases hkey : c ∈ shiftCodes
  · simp only [shiftCodes, List.mem_cons, List.not_mem_nil, or_false] at hkey
    rcases hkey with rfl | rfl | rfl | rfl | rfl | rfl | rfl
    all_goals cases e0
    all_goals simp [shifter, KF3_E0] at he0 ⊢
    all_goals simp only [hls, hrs, hctrl, halt, hcaps, hnum, hscroll, h]
    all_goals simp [Keyboard.flags, Keyboard.after, Function.update_apply, odd_succ]
  · have hnone : shifter c (if e0 then KF3_E0 else 0) flag = none := by
      simp only [shiftCodes, List.mem_cons, List.not_mem_nil, or_false, not_or] at hkey
      obtain ⟨h2A, h36, h1D, h38, h3A, h45, h46⟩ := hkey
      simp only [shifter, if_neg h2A, if_neg h36, if_neg h1D, if_neg h38, if_neg h3A, if_neg h45,
        if_neg h46]
    have hlock : ∀ c', c' ∈ shiftCodes → Key.code e0 c ≠ .code false c' := by
      intro c' hmem heq
      cases heq
      exact hkey hmem
    rw [hnone, Option.getD_none, h, Keyboard.after,
      flags_of_other hkey e0 true (if_neg (hlock 0x3A (by decide)) ▸ rfl)
        (if_neg (hlock 0x45 (by decide)) ▸ rfl) (if_neg (hlock 0x46 (by decide)) ▸ rfl)]

/-- A key that is down already. -/
theorem bits_again {flag : Byte} (h : bits flag = kb.flags) {e0 : Bool} {c : Byte}
    (hvalid : (Key.code e0 c).Valid) (hheld : kb.held (.code e0 c) = true)
    (hplain : kb.Plain (.again (.code e0 c))) :
    bits (flagAfter c (if e0 then KF3_E0 else 0) flag) = kb.flags := by
  have hsame : kb.after (.press (.code e0 c)) = kb := by
    have hup : Function.update kb.held (.code e0 c) true = kb.held := by
      rw [← hheld, Function.update_eq_self]
    obtain ⟨hcaps, hnum, hscroll⟩ := hplain
    rw [Keyboard.after, hup, if_neg hcaps, if_neg hnum, if_neg hscroll]
    rfl
  rw [bits_press h hvalid, hsame]

/-- A lock key that repeats. -/
theorem not_shown_again {s' : ScanState} (h : bits s.kbdFlag = kb.flags) {e0 : Bool} {c : Byte}
    (hvalid : (Key.code e0 c).Valid)
    (hplain : ¬ kb.Plain (.again (.code e0 c)))
    (hs' : s'.kbdFlag = flagAfter c (if e0 then KF3_E0 else 0) s.kbdFlag) : ¬ Shown kb s' := by
  intro hshown
  obtain ⟨-, -, hscroll, hnum, hcaps⟩ := hshown.bits_eq
  rw [hs', bits_press h hvalid] at hscroll hnum hcaps
  simp only [Keyboard.flags, Keyboard.after] at hscroll hnum hcaps
  refine hplain ⟨fun hkey => ?_, fun hkey => ?_, fun hkey => ?_⟩
  · rw [if_pos hkey, odd_succ] at hcaps
    exact Bool.not_ne_self _ hcaps
  · rw [if_pos hkey, odd_succ] at hnum
    exact Bool.not_ne_self _ hnum
  · rw [if_pos hkey, odd_succ] at hscroll
    exact Bool.not_ne_self _ hscroll

/-! ### Breaks -/

theorem flagAfter_break {c : Byte} (hc : c &&& 0x80 = 0) (bl flag : Byte) :
    flagAfter (c ||| 0x80) bl flag =
      if c = 0x1D then flag &&& ~~~KF_CTRL
      else if c = 0x38 then flag &&& ~~~KF_ALT
      else if bl &&& KF3_E0 ≠ 0 then flag
      else if c = 0x2A then flag &&& ~~~KF_LSHIFT
      else if c = 0x36 then flag &&& ~~~KF_RSHIFT
      else flag := by
  have hbreak : ∀ c : Byte, (c ||| 0x80) &&& 0x80 ≠ 0 := by decide
  have hcode : ∀ c : Byte, c &&& 0x80 = 0 → (c ||| 0x80) &&& 0x7F = c := by decide
  rw [flagAfter, if_pos (hbreak c)]
  simp only [release, hcode c hc]
  split_ifs <;> rfl

theorem bits_release {flag : Byte} (h : bits flag = kb.flags) {e0 : Bool} {c : Byte}
    (hvalid : (Key.code e0 c).Valid) (hplain : kb.Plain (.release (.code e0 c))) :
    bits (flagAfter (c ||| 0x80) (if e0 then KF3_E0 else 0) flag) =
      (kb.after (.release (.code e0 c))).flags := by
  obtain ⟨hc, -, -, he0⟩ := hvalid
  obtain ⟨hls, hrs, hctrl, halt⟩ := bits_break flag
  rw [flagAfter_break hc]
  by_cases hkey : c ∈ shiftCodes
  · simp only [shiftCodes, List.mem_cons, List.not_mem_nil, or_false] at hkey
    rcases hkey with rfl | rfl | rfl | rfl | rfl | rfl | rfl
    all_goals cases e0
    all_goals simp [KF3_E0, Keyboard.Plain] at he0 hplain ⊢
    all_goals simp only [hls, hrs, hctrl, halt, h]
    all_goals simp [Keyboard.flags, Keyboard.after, Function.update_apply, hplain]
  · have hother : (kb.after (.release (.code e0 c))).flags = kb.flags :=
      flags_of_other hkey e0 false rfl rfl rfl
    simp only [shiftCodes, List.mem_cons, List.not_mem_nil, or_false, not_or] at hkey
    obtain ⟨h2A, h36, h1D, h38, -⟩ := hkey
    rw [hother, if_neg h1D, if_neg h38, if_neg h2A, if_neg h36, ite_self, h]

/-- One of two keys with one flag. -/
theorem not_shown_release {s' : ScanState} {e0 : Bool} {c : Byte}
    (hvalid : (Key.code e0 c).Valid) (hplain : ¬ kb.Plain (.release (.code e0 c)))
    (hs' : s'.kbdFlag = flagAfter (c ||| 0x80) (if e0 then KF3_E0 else 0) s.kbdFlag) :
    ¬ Shown (kb.after (.release (.code e0 c))) s' := by
  intro hshown
  obtain ⟨hctrl, halt, -⟩ := hshown.bits_eq
  obtain ⟨-, -, hctrl', halt'⟩ := bits_break s.kbdFlag
  rw [hs', flagAfter_break hvalid.1] at hctrl halt
  refine hplain ⟨?_, ?_, ?_, ?_⟩
  all_goals
    intro hkey
    cases hkey
    simp [hctrl', halt', Keyboard.flags, Keyboard.after, Function.update_apply] at hctrl halt
    assumption
/-! ### Pause -/

theorem flags_after_pause (e : KeyEvent) (he : e = .press .pause ∨ e = .release .pause) :
    (kb.after e).flags = kb.flags := by
  rcases he with rfl | rfl
  · simp [Keyboard.after, Keyboard.flags]
  · simp [Keyboard.after, Keyboard.flags]

/-- The sequence of Pause is thrown away. -/
theorem Between.pause_told (h : Between kb s) (hflags : kb'.flags = kb.flags) :
    ∃ s', Between kb' s' ∧ ∀ rest,
      (ShownAfterEach (told kb kb' [0xE1, 0x1D, 0x45, 0xE1, 0x9D, 0xC5] ++ rest) s ↔
        ShownAfterEach rest s') := by
  have hsame : ∀ {u : ScanState}, u.kbdFlag = s.kbdFlag → Shown kb u ∧ Shown kb' u := by
    intro u hu
    have hu' : bits u.kbdFlag = kb.flags := by rw [hu, h.flags]
    exact ⟨shown_of_bits hu', shown_of_bits (hu'.trans hflags.symm)⟩
  refine ⟨{ s with kbdFlag2 := (s.kbdFlag >>> 4) &&& 7 }, ⟨h.pending, h.flags.trans hflags.symm⟩,
    fun rest => ?_⟩
  simp [told, ShownAfterEach, intIrq1, kbdScan1, h.pending, KF3_E1, KF3_E0, kbdLeds, hsame]

/-- E0 46 is Scroll Lock to `.shifter`. -/
theorem Between.break_told (h : Between kb s) (rest : List (Byte × Keyboard)) :
    ¬ ShownAfterEach (told kb kb' [0xE0, 0x46, 0xE0, 0xC6] ++ rest) s := by
  obtain ⟨-, -, -, -, -, -, htoggle⟩ := bits_make s.kbdFlag
  have hsplit : told kb kb' [0xE0, 0x46, 0xE0, 0xC6] ++ rest =
      told kb kb (Keyboard.code true 0x46) ++ (told kb kb' [0xE0, 0xC6] ++ rest) := rfl
  rw [hsplit]
  rcases h.code_told (b := 0x46) (by decide) true with ⟨hresets, -⟩ | ⟨-, s', -, hflag, htold⟩
  · exact absurd hresets.1 (by decide)
  · intro htrue
    obtain ⟨-, -, hscroll, -⟩ := ((htold _ _).mp htrue).1.bits_eq
    have hafter : flagAfter 0x46 (if true then KF3_E0 else 0) s.kbdFlag = s.kbdFlag ^^^ KF_SCROLL :=
      rfl
    rw [hflag, hafter, htoggle, h.flags] at hscroll
    exact Bool.not_ne_self _ hscroll

/-! ### Events -/

/-- **One event.** It resets the machine, or the next one finds everything as this one did, or
the flags are wrong on the way. -/
theorem Between.event_told (h : Between kb s) {e : KeyEvent} (hallow : kb.Allows e) :
    (kb.Resets e ∧ kb.Plain e ∧
      ∀ rest, ShownAfterEach (told kb (kb.after e) (kb.sends e) ++ rest) s) ∨
    (¬ kb.Resets e ∧ kb.Plain e ∧ ∃ s', Between (kb.after e) s' ∧ ∀ rest,
      (ShownAfterEach (told kb (kb.after e) (kb.sends e) ++ rest) s ↔ ShownAfterEach rest s')) ∨
    (¬ kb.Plain e ∧
      ∀ rest, ¬ ShownAfterEach (told kb (kb.after e) (kb.sends e) ++ rest) s) := by
  have hcodes : ∀ c : Byte, c &&& 0x80 = 0 → c ≠ 0x60 → c ≠ 0x61 →
      (c ≠ 0xE0 ∧ c ≠ 0xE1) ∧ (c ||| 0x80 ≠ 0xE0 ∧ c ||| 0x80 ≠ 0xE1) ∧ c ||| 0x80 ≠ 0x53 := by
    decide
  cases e with
  | press k =>
      cases k with
      | pause =>
          by_cases hctrl : kb.CtrlHeld
          · refine .inr (.inr ⟨not_not.mpr hctrl, fun rest => ?_⟩)
            rw [Keyboard.sends, if_pos hctrl]
            exact h.break_told rest
          · refine .inr (.inl ⟨not_false, hctrl, ?_⟩)
            rw [Keyboard.sends, if_neg hctrl]
            exact h.pause_told (flags_after_pause _ (.inl rfl))
      | code e0 c =>
          have hvalid := hallow.1
          obtain ⟨hcode, -⟩ := hcodes c hvalid.1 hvalid.2.1 hvalid.2.2.1
          rcases h.code_told hcode e0 with ⟨hresets, htold⟩ | ⟨hresets, s', h3, hflag, htold⟩
          · exact .inl ⟨hresets, trivial, fun rest => htold _ rest⟩
          · have hbits : bits s'.kbdFlag = (kb.after (.press (.code e0 c))).flags := by
              rw [hflag, bits_press h.flags hvalid]
            exact .inr (.inl ⟨hresets, trivial, s', ⟨h3, hbits⟩, fun rest =>
              (htold _ rest).trans (and_iff_right (shown_of_bits hbits))⟩)
  | again k =>
      cases k with
      | pause => exact absurd rfl hallow.2.2
      | code e0 c =>
          obtain ⟨hvalid, hheld, -⟩ := hallow
          obtain ⟨hcode, -⟩ := hcodes c hvalid.1 hvalid.2.1 hvalid.2.2.1
          by_cases hplain : kb.Plain (.again (.code e0 c))
          · rcases h.code_told hcode e0 with ⟨hresets, htold⟩ | ⟨hresets, s', h3, hflag, htold⟩
            · exact .inl ⟨hresets, hplain, fun rest => htold _ rest⟩
            · have hbits : bits s'.kbdFlag = kb.flags := by
                rw [hflag, bits_again h.flags hvalid hheld hplain]
              exact .inr (.inl ⟨hresets, hplain, s', ⟨h3, hbits⟩, fun rest =>
                (htold _ rest).trans (and_iff_right (shown_of_bits hbits))⟩)
          · have hlock : c ≠ 0x53 := by
              rintro rfl
              exact hplain (by simp [Keyboard.Plain])
            rcases h.code_told hcode e0 with ⟨hresets, -⟩ | ⟨-, s', -, hflag, htold⟩
            · exact absurd hresets.1 hlock
            · exact .inr (.inr ⟨hplain, fun rest htrue =>
                not_shown_again h.flags hvalid hplain hflag ((htold _ rest).mp htrue).1⟩)
  | release k =>
      cases k with
      | pause =>
          refine .inr (.inl ⟨not_false, by simp [Keyboard.Plain], s, ⟨h.pending, ?_⟩, fun _ => Iff.rfl⟩)
          rw [flags_after_pause _ (.inr rfl), h.flags]
      | code e0 c =>
          have hvalid := hallow.1
          obtain ⟨-, hcode, h53⟩ := hcodes c hvalid.1 hvalid.2.1 hvalid.2.2.1
          rcases h.code_told hcode e0 with ⟨hresets, -⟩ | ⟨-, s', h3, hflag, htold⟩
          · exact absurd hresets.1 h53
          · by_cases hplain : kb.Plain (.release (.code e0 c))
            · have hbits : bits s'.kbdFlag = (kb.after (.release (.code e0 c))).flags := by
                rw [hflag, bits_release h.flags hvalid hplain]
              exact .inr (.inl ⟨not_false, hplain, s', ⟨h3, hbits⟩, fun rest =>
                (htold _ rest).trans (and_iff_right (shown_of_bits hbits))⟩)
            · exact .inr (.inr ⟨hplain, fun rest htrue =>
                not_shown_release hvalid hplain hflag ((htold _ rest).mp htrue).1⟩)
  | fake c =>
      have hfake : ∀ c ∈ [0x2A, 0xAA, 0x36, (0xB6 : Byte)], (c ≠ 0xE0 ∧ c ≠ 0xE1) ∧ c ≠ 0x53 := by
        decide
      have heaten : ∀ c ∈ [0x2A, 0xAA, 0x36, (0xB6 : Byte)], ∀ flag, flagAfter c KF3_E0 flag = flag := by
        intro c hc flag
        simp only [List.mem_cons, List.not_mem_nil, or_false] at hc
        rcases hc with rfl | rfl | rfl | rfl <;> rfl
      obtain ⟨hcode, h53⟩ := hfake c hallow
      rcases h.code_told hcode true with ⟨hresets, -⟩ | ⟨-, s', h3, hflag, htold⟩
      · exact absurd hresets.1 h53
      · have hbits : bits s'.kbdFlag = kb.flags := by
          rw [hflag, if_pos rfl, heaten c hallow, h.flags]
        exact .inr (.inl ⟨not_false, trivial, s', ⟨h3, hbits⟩, fun rest =>
          (htold _ rest).trans (and_iff_right (shown_of_bits hbits))⟩)

theorem Between.stream_iff (h : Between kb s) {es : List KeyEvent} (hes : LawfulHistory es kb) :
    ShownAfterEach (stream es kb) s ↔ EachPlain es kb := by
  induction es generalizing kb s with
  | nil => exact Iff.rfl
  | cons e es ih =>
      obtain ⟨hallow, hrest⟩ := hes
      rw [stream, EachPlain]
      rcases h.event_told hallow with ⟨hresets, hplain, htold⟩ | ⟨hresets, hplain, s', h', htold⟩ |
        ⟨hplain, htold⟩
      · exact iff_of_true (htold _) ⟨hplain, .inl hresets⟩
      · rw [htold, ih h' hrest]
        exact ⟨fun hes => ⟨hplain, .inr hes⟩, fun hes => hes.2.resolve_left hresets⟩
      · exact iff_of_false (htold _) fun hes => hplain hes.1

/-- **The flags are right after every byte of a history**, from `kbd_init` on, exactly when each
of its events is as asked. -/
theorem shift_state_iff (ram : Word → Byte) {es : List KeyEvent}
    (hes : LawfulHistory es Keyboard.idle) :
    ShownAfterEach (stream es Keyboard.idle) (scanInit ram) ↔ EachPlain es Keyboard.idle :=
  Between.stream_iff ⟨rfl, show bits 0 = Keyboard.idle.flags by decide⟩ hes

section Histories

/-- Shift and a letter, Pause, an arrow with the fake shift of Num Lock. -/
def typed : List KeyEvent :=
  [.press .leftShift, .press (.code false 0x1E), .again (.code false 0x1E),
    .release (.code false 0x1E), .release .leftShift, .press .pause, .release .pause,
    .press .numLock, .release .numLock, .fake 0x2A, .press (.code true 0x48),
    .release (.code true 0x48), .fake 0xAA]

theorem shift_state_typed : ShownAfterEach (stream typed Keyboard.idle) (scanInit fun _ => 0) :=
  (shift_state_iff (fun _ => 0) (by simp [typed, LawfulHistory, Keyboard.Allows, Key.Valid,
    Keyboard.after, Keyboard.idle])).mpr (by
      simp [typed, EachPlain, Keyboard.Plain, Keyboard.Resets, Keyboard.CtrlHeld, Keyboard.after,
        Keyboard.idle])

/-- Ctrl-Break: Scroll Lock was not pressed, and its bit changes. -/
def ctrlBreak : List KeyEvent := [.press .leftCtrl, .press .pause]

theorem ctrl_break_scrolls : LawfulHistory ctrlBreak Keyboard.idle ∧
    ¬ ShownAfterEach (stream ctrlBreak Keyboard.idle) (scanInit fun _ => 0) := by
  constructor
  · simp [ctrlBreak, LawfulHistory, Keyboard.Allows, Key.Valid, Keyboard.after, Keyboard.idle]
  · rintro ⟨-, -, hmake, -⟩
    have hscroll := hmake.scroll
    revert hscroll
    decide

end Histories

end Sbc386Ex.Kbd

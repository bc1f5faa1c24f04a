import Mathlib.Data.List.GetD
import Sbc386Ex.Lib.PackedBcd
import Sbc386Ex.Machine

/-!
# Sbc386Ex.Setup.Strtobcd

`strtobcd` of `strtobcd.c`: a text of decimal digits to packed BCD.

What can go wrong is in the loop over the digits. It takes another one as long as the number
so far is below 9999999, and passes over two characters where it does not.
-/

namespace Sbc386Ex.Setup

open PackedBcd

def SP : Byte := 0x20
def HT : Byte := 0x09
def RUB : Byte := 0xFF

/-! ### The source -/

def ndigit (ch : Byte) : Byte := if 0x30 ≤ ch ∧ ch ≤ 0x39 then ch - 0x30 else RUB

/-- What `strtobcd` returns, by value, in `*endptr` and in `errno`; `last` is the furthest
character it has looked at. -/
structure Conversion where
  value : DWord
  endptr : Nat
  errno : Nat
  last : Nat
  deriving DecidableEq

/-- Nothing if there are `fuel` blanks or more. -/
def skipBlanks (m : Mem) : (fuel cp : Nat) → Option Nat
  | 0, _ => none
  | fuel + 1, cp => if m cp = SP ∨ m cp = HT then skipBlanks m fuel (cp + 1) else some cp

def readSign (m : Mem) (cp : Nat) : Int × Nat :=
  if m cp = 0x2D then (-1, cp + 1) else if m cp = 0x2B then (1, cp + 1) else (0, cp)

def radix : Nat := 10
def max : DWord := 0x09999999

/-- The loop over the digits: the character it ends at, `value` and `errno`. -/
def digitLoop (m : Mem) : (fuel cp : Nat) → DWord → Nat → Option (Nat × DWord × Nat)
  | 0, _, _, _ => none
  | fuel + 1, cp, value, errno =>
      let cp := cp + 1
      let digit := ndigit (m cp)
      if digit ≠ RUB then
        if digit.toNat < radix ∧ value < max then
          digitLoop m fuel cp (value <<< 4 + digit.setWidth 32) errno
        else digitLoop m fuel (cp + 1) 0 1
      else some (cp, value, errno)

def strtobcd (m : Mem) (fuel cptr : Nat) : Option Conversion :=
  (skipBlanks m fuel cptr).bind fun cp =>
    let (sign, cp) := readSign m cp
    let digit := ndigit (m cp)
    if radix ≤ digit.toNat then
      some { value := 0, endptr := cptr + 1, errno := 1, last := cp }
    else
      (digitLoop m fuel cp (digit.setWidth 32) 0).map fun (last, value, errno) =>
        let cp := last - 1
        let value := if sign < 0 then 0x99999999 - value else value
        { value, endptr := cp + 1, errno, last }

/-! ### Texts -/

/-- A NUL-terminated string at `p`. -/
def Holds (m : Mem) : Nat → List Byte → Prop
  | p, [] => m p = 0
  | p, c :: s => m p = c ∧ c ≠ 0 ∧ Holds m (p + 1) s

theorem holds_drop {m : Mem} {p k : Nat} {s : List Byte} (h : Holds m p s) (hk : k ≤ s.length) :
    Holds m (p + k) (s.drop k) := by
  induction k generalizing p s with
  | zero => exact h
  | succ k ih =>
      cases s with
      | nil => exact absurd hk (Nat.not_succ_le_zero k)
      | cons c s =>
          have hrest := ih h.2.2 (Nat.le_of_succ_le_succ hk)
          rwa [Nat.add_right_comm] at hrest

/-- Memory that begins with a string, and is cleared after it. -/
def text (s : List Byte) : Mem := fun i => s.getD i 0

theorem holds_text {s : List Byte} (h : 0 ∉ s) : Holds (text s) 0 s := by
  have hall : ∀ t r, s = r ++ t → Holds (text s) r.length t := by
    intro t
    induction t with
    | nil =>
        intro r hs
        show text s r.length = 0
        rw [text, hs, List.append_nil]
        exact List.getD_eq_default _ _ le_rfl
    | cons c t ih =>
        intro r hs
        refine ⟨?_, ?_, ?_⟩
        · rw [text, hs, List.getD_append_right _ _ _ _ le_rfl, Nat.sub_self]
          rfl
        · rintro rfl
          exact h (hs ▸ List.mem_append_right _ (List.mem_cons_self ..))
        · have hnext := ih (r ++ [c]) (by rw [hs, List.append_assoc]; rfl)
          rwa [List.length_append] at hnext
  exact hall s [] rfl

def IsBlank (c : Byte) : Prop := c = SP ∨ c = HT
def IsDigit (c : Byte) : Prop := 0x30 ≤ c ∧ c ≤ 0x39

instance : DecidablePred IsBlank := fun _ => inferInstanceAs (Decidable (_ ∨ _))
instance : DecidablePred IsDigit := fun _ => inferInstanceAs (Decidable (_ ∧ _))

/-- What `strtobcd` is to find in a text: blanks, a sign or none, digits. -/
def signed (s : List Byte) : List Byte := s.dropWhile (IsBlank ·)

def unsigned (s : List Byte) : List Byte :=
  match signed s with
  | [] => []
  | c :: t => if c = 0x2D ∨ c = 0x2B then t else c :: t

def IsNegative (s : List Byte) : Prop := (signed s).head? = some 0x2D

instance (s : List Byte) : Decidable (IsNegative s) := inferInstanceAs (Decidable (_ = _))

def digits (s : List Byte) : List Byte := (unsigned s).takeWhile (IsDigit ·)

/-- The text from the first character after the digits on. -/
def afterDigits (s : List Byte) : List Byte := (unsigned s).dropWhile (IsDigit ·)

def digitValue (c : Byte) : Nat := (c - 0x30).toNat

/-- A number, with more digits after it. -/
def decimal (n : Nat) (ds : List Byte) : Nat := ds.foldl (fun n c => 10 * n + digitValue c) n

def number (s : List Byte) : Nat := decimal 0 (digits s)

/-- The conversion asked for. -/
def converted (s : List Byte) : DWord :=
  let value := BitVec.ofNat 32 (pack (number s))
  if IsNegative s then 0x99999999 - value else value

/-- After the number `n`, a digit that is not taken is the last character: `n` starts anew
with the second character after each digit that is not taken. -/
def Overruns : Nat → List Byte → Prop
  | _, [] => False
  | n, [c] => IsDigit c ∧ 9999999 ≤ n
  | n, c :: c' :: s =>
      IsDigit c ∧ if 9999999 ≤ n then Overruns 0 s else Overruns (10 * n + digitValue c) (c' :: s)

/-- How the digits end otherwise: with this number, and with this text after them. -/
def tail : Nat → List Byte → Option (Nat × List Byte)
  | n, [] => some (n, [])
  | n, [c] =>
      if IsDigit c then if 9999999 ≤ n then none else some (10 * n + digitValue c, [])
      else some (n, [c])
  | n, c :: c' :: s =>
      if IsDigit c then if 9999999 ≤ n then tail 0 s else tail (10 * n + digitValue c) (c' :: s)
      else some (n, c :: c' :: s)

/-! ### Characters -/

theorem ndigit_of_isDigit : ∀ c : Byte, IsDigit c →
    ndigit c ≠ RUB ∧ (ndigit c).toNat = digitValue c ∧ digitValue c < 10 := by decide

theorem ndigit_of_not : ∀ c : Byte, ¬ IsDigit c → ndigit c = RUB := by decide

theorem not_isDigit_zero : ¬ IsDigit 0 := by decide

variable {m : Mem} {p cp fuel n errno : Nat} {s cs : List Byte}

theorem signed_of_blank {c : Byte} (h : IsBlank c) : signed (c :: s) = signed s :=
  List.dropWhile_cons_of_pos (by simpa using h)

theorem signed_of_not {c : Byte} (h : ¬ IsBlank c) : signed (c :: s) = c :: s :=
  List.dropWhile_cons_of_neg (by simpa using h)

theorem skipBlanks_holds (h : Holds m p s) (hfuel : s.length < fuel) :
    ∃ q, skipBlanks m fuel p = some q ∧ Holds m q (signed s) ∧
      q + (signed s).length = p + s.length := by
  induction s generalizing p fuel with
  | nil =>
      obtain ⟨fuel, rfl⟩ := Nat.exists_eq_add_of_lt hfuel
      have hstop : ¬ (m p = SP ∨ m p = HT) := by
        rw [show m p = 0 from h]
        decide
      exact ⟨p, if_neg hstop, h, rfl⟩
  | cons c s ih =>
      obtain ⟨hc, hnul, hrest⟩ := h
      obtain ⟨fuel, rfl⟩ := Nat.exists_eq_succ_of_ne_zero (Nat.ne_of_gt (Nat.zero_lt_of_lt hfuel))
      rw [skipBlanks, hc]
      by_cases hblank : c = SP ∨ c = HT
      · obtain ⟨q, hq, hholds, hlen⟩ := ih hrest (Nat.lt_of_succ_lt_succ hfuel)
        rw [if_pos hblank, signed_of_blank hblank]
        exact ⟨q, hq, hholds, by rw [hlen, List.length_cons]; omega⟩
      · rw [if_neg hblank, signed_of_not hblank]
        exact ⟨p, rfl, ⟨hc, hnul, hrest⟩, rfl⟩

theorem readSign_holds (h : Holds m cp (signed s)) :
    Holds m (readSign m cp).2 (unsigned s) ∧
      (readSign m cp).2 + (unsigned s).length = cp + (signed s).length ∧
      ((readSign m cp).1 < 0 ↔ IsNegative s) := by
  rw [unsigned, IsNegative, readSign]
  cases hs : signed s with
  | nil =>
      rw [hs] at h
      have hm : m cp = 0 := h
      rw [if_neg (by rw [hm]; decide), if_neg (by rw [hm]; decide)]
      exact ⟨h, rfl, by simp⟩
  | cons c t =>
      rw [hs] at h
      have hm : m cp = c := h.1
      rw [hm]
      by_cases hminus : c = 0x2D
      · simp only [hminus, if_true]
        exact ⟨h.2.2, by simp; omega, by simp⟩
      · by_cases hplus : c = 0x2B
        · simp only [hplus, if_true]
          exact ⟨h.2.2, by simp; omega, by simp⟩
        · have hplain : ¬ (c = 0x2D ∨ c = 0x2B) := not_or.mpr ⟨hminus, hplus⟩
          dsimp only
          rw [if_neg hminus, if_neg hplus, if_neg hplain]
          exact ⟨h, rfl, by simpa using hminus⟩

/-! ### The loop -/

theorem le_decimal (n : Nat) (ds : List Byte) : n ≤ decimal n ds := by
  induction ds generalizing n with
  | nil => exact le_rfl
  | cons c ds ih => exact (show n ≤ 10 * n + digitValue c by omega).trans (ih _)

/-- Every digit of them is taken. -/
def Fits (n : Nat) (ds : List Byte) : Prop := ds = [] ∨ decimal n ds < 99999990

theorem fits_cons {c : Byte} (hc : IsDigit c) (ds : List Byte) :
    Fits n (c :: ds) ↔ n < 9999999 ∧ Fits (10 * n + digitValue c) ds := by
  have hdigit := (ndigit_of_isDigit c hc).2.2
  have hle := le_decimal (10 * n + digitValue c) ds
  have hcons : decimal n (c :: ds) = decimal (10 * n + digitValue c) ds := rfl
  simp only [Fits, hcons, reduceCtorEq, false_or]
  constructor
  · intro h
    exact ⟨by omega, .inr h⟩
  · rintro ⟨hn, rfl | h⟩
    · show 10 * n + digitValue c < 99999990
      omega
    · exact h

/-- The number so far, as the loop has it. -/
abbrev packed (n : Nat) : DWord := BitVec.ofNat 32 (pack n)

theorem packed_lt_max (hn : n < 10 ^ 8) : packed n < max ↔ n < 9999999 := by
  have hlt : pack n < 2 ^ 32 := pack_lt hn
  have hmax : max.toNat = pack 9999999 := by decide +kernel
  rw [BitVec.lt_def, BitVec.toNat_ofNat, Nat.mod_eq_of_lt hlt, hmax, pack_lt_iff]

theorem packed_push {c : Byte} (hc : IsDigit c) :
    packed n <<< 4 + (ndigit c).setWidth 32 = packed (10 * n + digitValue c) := by
  obtain ⟨-, hvalue, hdigit⟩ := ndigit_of_isDigit c hc
  rw [packed, packed, pack_push hdigit, BitVec.ofNat_add]
  congr 1
  · apply BitVec.eq_of_toNat_eq
    simp only [BitVec.toNat_shiftLeft, BitVec.toNat_ofNat, Nat.shiftLeft_eq]
    omega
  · rw [← hvalue, BitVec.ofNat_toNat]

/-- The three ways of a round. -/
theorem digitLoop_stop (h : ¬ IsDigit (m (cp + 1))) (value : DWord) :
    digitLoop m (fuel + 1) cp value errno = some (cp + 1, value, errno) := by
  rw [digitLoop]
  exact if_neg (not_not.mpr (ndigit_of_not _ h))

theorem digitLoop_take (hc : IsDigit (m (cp + 1))) (hn : n < 9999999) :
    digitLoop m (fuel + 1) cp (packed n) errno =
      digitLoop m fuel (cp + 1) (packed (10 * n + digitValue (m (cp + 1)))) errno := by
  obtain ⟨hne, hvalue, hdigit⟩ := ndigit_of_isDigit _ hc
  have hmax : packed n < max := (packed_lt_max (by omega)).mpr hn
  have htake : (ndigit (m (cp + 1))).toNat < radix ∧ packed n < max := ⟨by rwa [hvalue], hmax⟩
  rw [digitLoop]
  rw [if_pos hne, if_pos htake, packed_push hc]

theorem digitLoop_pass (hc : IsDigit (m (cp + 1))) (hn : 9999999 ≤ n) (hlt : n < 10 ^ 8) :
    digitLoop m (fuel + 1) cp (packed n) errno = digitLoop m fuel (cp + 2) (packed 0) 1 := by
  have hmax : ¬ packed n < max := fun h => Nat.not_lt.mpr hn ((packed_lt_max hlt).mp h)
  rw [digitLoop]
  rw [if_pos (ndigit_of_isDigit _ hc).1, if_neg fun h => hmax h.2]
  rfl

/-- It ends further on. -/
theorem lt_of_digitLoop {value : DWord} {r : Nat × DWord × Nat}
    (h : digitLoop m fuel cp value errno = some r) : cp < r.1 := by
  induction fuel generalizing cp value errno with
  | zero => cases h
  | succ fuel ih =>
      rw [digitLoop] at h
      split_ifs at h
      · exact (Nat.lt_succ_self cp).trans (ih h)
      · exact (show cp < cp + 1 + 1 by omega).trans (ih h)
      · cases h
        exact Nat.lt_succ_self cp

/-- Past the end of the string when it overruns. -/
theorem lt_of_overruns {r : Nat × DWord × Nat} (hn : n < 10 ^ 8) (hs : Holds m (cp + 1) cs)
    (hover : Overruns n cs) (h : digitLoop m fuel cp (packed n) errno = some r) :
    cp + 1 + cs.length < r.1 := by
  induction n, cs using Overruns.induct generalizing cp fuel errno with
  | case1 => exact hover.elim
  | case2 n c =>
      cases fuel with
      | zero => cases h
      | succ fuel =>
          have hc : m (cp + 1) = c := hs.1
          rw [digitLoop_pass (hc ▸ hover.1) hover.2 hn] at h
          exact lt_of_digitLoop h
  | case3 n c c' s ihpass ihtake =>
      cases fuel with
      | zero => cases h
      | succ fuel =>
          have hc : m (cp + 1) = c := hs.1
          simp only [List.length_cons]
          by_cases hfull : 9999999 ≤ n
          · rw [digitLoop_pass (hc ▸ hover.1) hfull hn] at h
            have hlast := ihpass (by decide) hs.2.2.2.2 (by simpa [hfull] using hover.2) h
            omega
          · rw [digitLoop_take (hc ▸ hover.1) (by omega), hc] at h
            have hdigit := (ndigit_of_isDigit c hover.1).2.2
            have hlast := ihtake (by omega) hs.2.2 (by simpa [hfull] using hover.2) h
            simp only [List.length_cons] at hlast
            omega

/-- The digits a text begins with, and what is after them. -/
abbrev lead (cs : List Byte) : List Byte := cs.takeWhile (IsDigit ·)
abbrev behind (cs : List Byte) : List Byte := cs.dropWhile (IsDigit ·)

theorem tail_stop (h : ∀ c ∈ cs.head?, ¬ IsDigit c) : tail n cs = some (n, cs) := by
  match cs with
  | [] => rfl
  | [c] => exact if_neg (h c rfl)
  | c :: c' :: s => exact if_neg (h c rfl)

theorem tail_take {c : Byte} (hc : IsDigit c) (hn : n < 9999999) :
    tail n (c :: cs) = tail (10 * n + digitValue c) cs := by
  have hnot : ¬ 9999999 ≤ n := Nat.not_le.mpr hn
  cases cs with
  | nil => simp only [tail, if_pos hc, if_neg hnot]
  | cons c' s => rw [tail, if_pos hc, if_neg hnot]

theorem tail_pass {c c' : Byte} (hc : IsDigit c) (hn : 9999999 ≤ n) :
    tail n (c :: c' :: cs) = tail 0 cs := by
  rw [tail, if_pos hc, if_pos hn]

theorem lead_of_stop (h : ∀ c ∈ cs.head?, ¬ IsDigit c) : lead cs = [] ∧ behind cs = cs := by
  cases cs with
  | nil => exact ⟨rfl, rfl⟩
  | cons c cs =>
      have hc : ¬ IsDigit c := h c rfl
      exact ⟨List.takeWhile_cons_of_neg (by simpa using hc),
        List.dropWhile_cons_of_neg (by simpa using hc)⟩

theorem lead_cons {c : Byte} (hc : IsDigit c) :
    lead (c :: cs) = c :: lead cs ∧ behind (c :: cs) = behind cs :=
  ⟨List.takeWhile_cons_of_pos (by simpa using hc), List.dropWhile_cons_of_pos (by simpa using hc)⟩

theorem tail_of_fits (h : Fits n (lead cs)) :
    tail n cs = some (decimal n (lead cs), behind cs) := by
  induction cs generalizing n with
  | nil => rfl
  | cons c cs ih =>
      by_cases hc : IsDigit c
      · obtain ⟨hlead, hbehind⟩ := @lead_cons cs c hc
        rw [hlead, fits_cons hc] at h
        rw [hlead, hbehind, tail_take hc h.1, ih h.2]
        rfl
      · have hstop : ∀ d ∈ (c :: cs).head?, ¬ IsDigit d := by
          rintro d hd
          cases hd
          exact hc
        obtain ⟨hlead, hbehind⟩ := lead_of_stop hstop
        rw [tail_stop hstop, hlead, hbehind]
        rfl

theorem tail_eq_none_iff : tail n cs = none ↔ Overruns n cs := by
  induction n, cs using Overruns.induct with
  | case1 n => exact iff_of_false (by rw [tail]; simp) id
  | case2 n c =>
      rw [tail, Overruns]
      split_ifs <;> simp_all
  | case3 n c c' s ihpass ihtake =>
      rw [tail, Overruns, ← ihpass, ← ihtake]
      split_ifs <;> simp_all

/-- How the loop ends in the string: `cs` is after `cp`, `n` the number so far. -/
structure Ends (n cp errno : Nat) (cs : List Byte) (r : Nat × DWord × Nat) : Prop where
  ends : ∃ n' rest, tail n cs = some (n', rest) ∧ r.2.1 = packed n' ∧
    r.1 + rest.length = cp + 1 + cs.length
  errno_iff : r.2.2 ≠ 0 ↔ errno ≠ 0 ∨ ¬ Fits n (lead cs)

theorem ends_stop (h : ∀ c ∈ cs.head?, ¬ IsDigit c) :
    Ends n cp errno cs (cp + 1, packed n, errno) := by
  have hfits : Fits n (lead cs) := .inl (lead_of_stop h).1
  exact { ends := ⟨n, cs, tail_stop h, rfl, rfl⟩, errno_iff := by simp [hfits] }

theorem ends_take {c : Byte} {r : Nat × DWord × Nat} (hc : IsDigit c) (hn : n < 9999999)
    (h : Ends (10 * n + digitValue c) (cp + 1) errno cs r) : Ends n cp errno (c :: cs) r := by
  have hfits : Fits n (lead (c :: cs)) ↔ Fits (10 * n + digitValue c) (lead cs) := by
    rw [(lead_cons hc).1, fits_cons hc]
    exact and_iff_right hn
  obtain ⟨n', rest, htail, hvalue, hlast⟩ := h.ends
  refine ⟨⟨n', rest, (tail_take hc hn).trans htail, hvalue, ?_⟩, ?_⟩
  · rw [List.length_cons]
    omega
  · rw [hfits]
    exact h.errno_iff

theorem ends_pass {c c' : Byte} {r : Nat × DWord × Nat} (hc : IsDigit c) (hn : 9999999 ≤ n)
    (h : Ends 0 (cp + 2) 1 cs r) : Ends n cp errno (c :: c' :: cs) r := by
  have hfits : ¬ Fits n (lead (c :: c' :: cs)) := by
    rw [(lead_cons hc).1, fits_cons hc]
    exact fun hf => Nat.not_lt.mpr hn hf.1
  obtain ⟨n', rest, htail, hvalue, hlast⟩ := h.ends
  refine ⟨⟨n', rest, (tail_pass hc hn).trans htail, hvalue, ?_⟩, ?_⟩
  · simp only [List.length_cons]
    omega
  · exact iff_of_true (h.errno_iff.mpr (.inl (by decide))) (.inr hfits)

/-- Where it does not overrun, it comes to an end in the string. -/
theorem digitLoop_ends (hn : n < 10 ^ 8) (hs : Holds m (cp + 1) cs) (hfuel : cs.length < fuel)
    (hover : ¬ Overruns n cs) :
    ∃ r, digitLoop m fuel cp (packed n) errno = some r ∧ Ends n cp errno cs r := by
  have hnil : ∀ {fuel n cp errno}, 0 < fuel → m (cp + 1) = 0 →
      ∃ r, digitLoop m fuel cp (packed n) errno = some r ∧ Ends n cp errno [] r := by
    intro fuel n cp errno hpos hm
    obtain ⟨fuel, rfl⟩ := Nat.exists_eq_succ_of_ne_zero (Nat.ne_of_gt hpos)
    refine ⟨_, digitLoop_stop ?_ _, ends_stop fun c hc => by cases hc⟩
    rw [hm]
    exact not_isDigit_zero
  induction n, cs using Overruns.induct generalizing cp fuel errno with
  | case1 n => exact hnil hfuel hs
  | case2 n c =>
      obtain ⟨fuel, rfl⟩ := Nat.exists_eq_succ_of_ne_zero (Nat.ne_of_gt (Nat.zero_lt_of_lt hfuel))
      have hc : m (cp + 1) = c := hs.1
      by_cases hdigit : IsDigit c
      · have hless : n < 9999999 := Nat.lt_of_not_le fun h => hover ⟨hdigit, h⟩
        rw [digitLoop_take (hc ▸ hdigit) hless, hc]
        obtain ⟨r, hr, hends⟩ := hnil (Nat.lt_of_succ_lt_succ hfuel) hs.2.2
        exact ⟨r, hr, ends_take hdigit hless hends⟩
      · refine ⟨_, digitLoop_stop (hc ▸ hdigit) _, ends_stop ?_⟩
        rintro d hd
        cases hd
        exact hdigit
  | case3 n c c' s ihpass ihtake =>
      obtain ⟨fuel, rfl⟩ := Nat.exists_eq_succ_of_ne_zero (Nat.ne_of_gt (Nat.zero_lt_of_lt hfuel))
      have hc : m (cp + 1) = c := hs.1
      simp only [List.length_cons] at hfuel
      by_cases hdigit : IsDigit c
      · by_cases hfull : 9999999 ≤ n
        · have hlen : s.length < fuel := by omega
          rw [digitLoop_pass (hc ▸ hdigit) hfull hn]
          obtain ⟨r, hr, hends⟩ := ihpass (by decide) hs.2.2.2.2 hlen
            (fun h => hover ⟨hdigit, by simpa [hfull] using h⟩)
          exact ⟨r, hr, ends_pass hdigit hfull hends⟩
        · have hbelow := (ndigit_of_isDigit c hdigit).2.2
          have hlen : (c' :: s).length < fuel := by
            rw [List.length_cons]
            omega
          rw [digitLoop_take (hc ▸ hdigit) (by omega), hc]
          obtain ⟨r, hr, hends⟩ := ihtake (by omega) hs.2.2 hlen
            (fun h => hover ⟨hdigit, by simpa [hfull] using h⟩)
          exact ⟨r, hr, ends_take hdigit (by omega) hends⟩
      · refine ⟨_, digitLoop_stop (hc ▸ hdigit) _, ends_stop ?_⟩
        rintro d hd
        cases hd
        exact hdigit

/-! ### The conversion -/

theorem length_unsigned_le (s : List Byte) : (unsigned s).length ≤ s.length := by
  have hle : (signed s).length ≤ s.length := (List.dropWhile_suffix _).length_le
  rw [unsigned]
  cases hs : signed s with
  | nil => exact Nat.zero_le _
  | cons c t =>
      rw [hs, List.length_cons] at hle
      dsimp only
      split_ifs
      · omega
      · exact hle

/-- Up to the digits: the sign that was read, and the character after it. -/
theorem strtobcd_start (h : Holds m p s) (hfuel : s.length < fuel) : ∃ sign q,
    (skipBlanks m fuel p).map (readSign m) = some (sign, q) ∧ Holds m q (unsigned s) ∧
      q + (unsigned s).length = p + s.length ∧ (sign < 0 ↔ IsNegative s) := by
  obtain ⟨cp, hcp, hsigned, hlen⟩ := skipBlanks_holds h hfuel
  obtain ⟨hunsigned, hlen', hsign⟩ := readSign_holds hsigned
  exact ⟨_, _, by rw [hcp]; rfl, hunsigned, hlen'.trans hlen, hsign⟩

/-- What is done there. -/
def atDigits (m : Mem) (fuel cptr : Nat) (sign : Int) (cp : Nat) : Option Conversion :=
  let digit := ndigit (m cp)
  if radix ≤ digit.toNat then some { value := 0, endptr := cptr + 1, errno := 1, last := cp }
  else
    (digitLoop m fuel cp (digit.setWidth 32) 0).map fun (last, value, errno) =>
      let cp := last - 1
      let value := if sign < 0 then 0x99999999 - value else value
      { value, endptr := cp + 1, errno, last }

theorem strtobcd_eq {sign : Int} {q : Nat}
    (h : (skipBlanks m fuel p).map (readSign m) = some (sign, q)) :
    strtobcd m fuel p = atDigits m fuel p sign q := by
  obtain ⟨cp, hcp, hread⟩ := Option.map_eq_some_iff.mp h
  rw [strtobcd, hcp, Option.bind_some, hread]
  rfl

/-- No digit: the end pointer is behind the first character. -/
theorem strtobcd_none (h : Holds m p s) (hfuel : s.length < fuel) (hnone : digits s = []) :
    ∃ last ≤ p + s.length,
      strtobcd m fuel p = some { value := 0, endptr := p + 1, errno := 1, last } := by
  obtain ⟨sign, q, hstart, hholds, hlen, -⟩ := strtobcd_start h hfuel
  have hdigit : ¬ IsDigit (m q) := by
    rw [digits] at hnone
    cases hu : unsigned s with
    | nil =>
        rw [hu] at hholds
        rw [show m q = 0 from hholds]
        exact not_isDigit_zero
    | cons c cs =>
        rw [hu] at hholds hnone
        rw [hholds.1]
        intro hc
        rw [List.takeWhile_cons_of_pos (by simpa using hc)] at hnone
        cases hnone
  refine ⟨q, by omega, ?_⟩
  rw [strtobcd_eq hstart, atDigits, ndigit_of_not _ hdigit]
  rfl

/-- Digits: the loop is entered with the first of them. -/
theorem strtobcd_some (h : Holds m p s) (hfuel : s.length < fuel) (hsome : digits s ≠ []) :
    ∃ (sign : Int) (q : Nat) (c : Byte) (cs : List Byte), (sign < 0 ↔ IsNegative s) ∧ IsDigit c ∧ unsigned s = c :: cs ∧
      Holds m (q + 1) cs ∧ q + 1 + cs.length = p + s.length ∧
      strtobcd m fuel p = (digitLoop m fuel q (packed (digitValue c)) 0).map
        fun (last, value, errno) =>
          { value := if sign < 0 then 0x99999999 - value else value, endptr := last - 1 + 1
            errno, last } := by
  obtain ⟨sign, q, hstart, hholds, hlen, hsign⟩ := strtobcd_start h hfuel
  cases hu : unsigned s with
  | nil => exact absurd (by rw [digits, hu]; rfl) hsome
  | cons c cs =>
      rw [hu] at hholds hlen
      have hc : IsDigit c := by
        by_contra hc
        refine hsome ?_
        rw [digits, hu, List.takeWhile_cons_of_neg (by simpa using hc)]
      obtain ⟨-, hvalue, hbelow⟩ := ndigit_of_isDigit c hc
      have hfirst : (ndigit c).setWidth 32 = packed (digitValue c) := by
        have hpush := packed_push (n := 0) hc
        rwa [Nat.mul_zero, Nat.zero_add, show packed 0 <<< 4 = 0 from rfl, zero_add] at hpush
      refine ⟨sign, q, c, cs, hsign, hc, rfl, hholds.2.2, ?_, ?_⟩
      · rw [← hlen, List.length_cons]
        omega
      · rw [strtobcd_eq hstart, atDigits, hholds.1, if_neg (by rw [hvalue, radix]; omega), hfirst]

/-- The first digit is always taken. -/
theorem tail_first {c : Byte} (hc : IsDigit c) : tail 0 (c :: cs) = tail (digitValue c) cs := by
  rw [tail_take hc (by decide), Nat.mul_zero, Nat.zero_add]

theorem fits_digits (hsome : digits s ≠ []) : Fits 0 (digits s) ↔ number s < 99999990 :=
  or_iff_right hsome

/-- What `strtobcd` makes of a text with digits in it. -/
theorem strtobcd_ends (h : Holds m p s) (hfuel : s.length < fuel) (hsome : digits s ≠ [])
    {n' : Nat} {rest : List Byte} (htail : tail 0 (unsigned s) = some (n', rest)) :
    ∃ r, strtobcd m fuel p = some r ∧ r.endptr + rest.length = p + s.length ∧
      r.last = r.endptr ∧ p ≤ r.endptr ∧
      r.value = (if IsNegative s then 0x99999999 - packed n' else packed n') ∧
      (r.errno ≠ 0 ↔ 99999990 ≤ number s) := by
  obtain ⟨sign, q, c, cs, hsign, hc, hu, hholds, hlen, heq⟩ := strtobcd_some h hfuel hsome
  have hbelow := (ndigit_of_isDigit c hc).2.2
  have hlead : digits s = c :: lead cs := by
    rw [digits, hu]
    exact (lead_cons hc).1
  have hfits : Fits (digitValue c) (lead cs) ↔ number s < 99999990 := by
    have hcons := fits_cons (n := 0) hc (lead cs)
    rw [Nat.mul_zero, Nat.zero_add, and_iff_right (show 0 < 9999999 by decide), ← hlead] at hcons
    exact hcons.symm.trans (fits_digits hsome)
  have hle := length_unsigned_le s
  rw [hu, List.length_cons] at hle
  rw [hu, tail_first hc] at htail
  have hover : ¬ Overruns (digitValue c) cs := by
    rw [← tail_eq_none_iff, htail]
    exact Option.some_ne_none _
  have hlong : cs.length < fuel := by omega
  obtain ⟨r, hr, hends⟩ :=
    @digitLoop_ends m q fuel (digitValue c) 0 cs (by omega) hholds hlong hover
  have hpos : q < r.1 := lt_of_digitLoop hr
  obtain ⟨n'', rest', htail', hvalue, hlast⟩ := hends.ends
  obtain ⟨rfl, rfl⟩ := Prod.mk.inj (Option.some.inj (htail'.symm.trans htail))
  have hback : r.1 - 1 + 1 = r.1 := by omega
  rw [hr] at heq
  refine ⟨_, heq, ?_, hback.symm, ?_, ?_, ?_⟩
  · show r.1 - 1 + 1 + _ = _
    omega
  · show p ≤ r.1 - 1 + 1
    omega
  · simp only [hvalue, hsign]
  · rw [← Nat.not_lt, ← hfits]
    exact hends.errno_iff.trans (or_iff_right fun h => h rfl)

theorem last_of_overruns {r : Conversion} (h : Holds m p s) (hfuel : s.length < fuel)
    (hsome : digits s ≠ []) (hover : Overruns 0 (unsigned s)) (hr : strtobcd m fuel p = some r) :
    p + s.length < r.last := by
  obtain ⟨sign, q, c, cs, -, hc, hu, hholds, hlen, heq⟩ := strtobcd_some h hfuel hsome
  have hbelow := (ndigit_of_isDigit c hc).2.2
  rw [← tail_eq_none_iff, hu, tail_first hc, tail_eq_none_iff] at hover
  rw [hr] at heq
  obtain ⟨r', hr', rfl⟩ := Option.map_eq_some_iff.mp heq.symm
  have hlt := lt_of_overruns (by omega) hholds hover hr'
  show p + s.length < r'.1
  omega

/-- What is asked of a conversion of the string at `p`. -/
structure Conforms (p : Nat) (s : List Byte) (r : Conversion) : Prop where
  last_le : r.last ≤ p + s.length
  converted : digits s ≠ [] → number s < 10 ^ 8 →
    r.value = converted s ∧ r.endptr + (afterDigits s).length = p + s.length
  errno_iff : r.errno ≠ 0 ↔ digits s = [] ∨ 10 ^ 8 ≤ number s
  start : digits s = [] → r.endptr = p

/-- **`strtobcd`** does it for the strings that have a number, none of the last ten of eight
digits, and do not end with a digit too many. -/
theorem strtobcd_conforms_iff (h : Holds m p s) (hfuel : s.length < fuel) :
    (∃ r, strtobcd m fuel p = some r ∧ Conforms p s r) ↔
      digits s ≠ [] ∧ ¬ (99999990 ≤ number s ∧ number s < 10 ^ 8) ∧
        ¬ Overruns 0 (unsigned s) := by
  constructor
  · rintro ⟨r, hr, hconf⟩
    have hsome : digits s ≠ [] := by
      intro hnone
      obtain ⟨last, -, heq⟩ := strtobcd_none h hfuel hnone
      have hstart := hconf.start hnone
      rw [Option.some.inj (hr.symm.trans heq)] at hstart
      exact absurd hstart (Nat.succ_ne_self p)
    have hover : ¬ Overruns 0 (unsigned s) := by
      intro hover
      exact Nat.not_le.mpr (last_of_overruns h hfuel hsome hover hr) hconf.last_le
    obtain ⟨⟨n', rest⟩, htail⟩ := Option.ne_none_iff_exists'.mp (mt tail_eq_none_iff.mp hover)
    obtain ⟨r', hr', -, -, -, -, herrno⟩ := strtobcd_ends h hfuel hsome htail
    obtain rfl := Option.some.inj (hr.symm.trans hr')
    refine ⟨hsome, ?_, hover⟩
    rintro ⟨hlow, hhigh⟩
    rcases hconf.errno_iff.mp (herrno.mpr hlow) with hnone | hbig
    · exact hsome hnone
    · exact Nat.not_lt.mpr hbig hhigh
  · rintro ⟨hsome, hnot, hover⟩
    obtain ⟨⟨n', rest⟩, htail⟩ := Option.ne_none_iff_exists'.mp (mt tail_eq_none_iff.mp hover)
    obtain ⟨r, hr, hend, hlast, -, hvalue, herrno⟩ := strtobcd_ends h hfuel hsome htail
    refine ⟨r, hr, by omega, ?_, ?_, fun hnone => absurd hnone hsome⟩
    · intro _ hless
      have hfits : Fits 0 (lead (unsigned s)) := (fits_digits hsome).mpr (by omega)
      obtain ⟨rfl, rfl⟩ :=
        Prod.mk.inj (Option.some.inj (htail.symm.trans (tail_of_fits hfits)))
      exact ⟨hvalue, hend⟩
    · rw [herrno]
      constructor
      · intro hlow
        exact .inr (by omega)
      · rintro (hnone | hbig)
        · exact absurd hnone hsome
        · omega

/-! ### A field of a line -/

/-- The number that is returned, and how far on the end pointer is; nothing for a text that
overruns. -/
def field (s : List Byte) : Option (Nat × Nat) :=
  if digits s = [] then some (0, 1)
  else
    (tail 0 (unsigned s)).map fun (n, rest) =>
      (if IsNegative s then 99999999 - n else n, s.length - rest.length)

theorem tail_lt {n' : Nat} {rest : List Byte} (hn : n < 10 ^ 8) (h : tail n cs = some (n', rest)) :
    n' < 10 ^ 8 := by
  induction n, cs using Overruns.induct with
  | case1 n =>
      cases h
      exact hn
  | case2 n c =>
      rw [tail] at h
      split_ifs at h with hc hfull
      · cases h
        have hbelow := (ndigit_of_isDigit c hc).2.2
        omega
      · cases h
        exact hn
  | case3 n c c' s ihpass ihtake =>
      rw [tail] at h
      split_ifs at h with hc hfull
      · exact ihpass (by decide) h
      · have hbelow := (ndigit_of_isDigit c hc).2.2
        exact ihtake (by omega) h
      · cases h
        exact hn

theorem packed_complement (hn : n < 10 ^ 8) : 0x99999999 - packed n = packed (99999999 - n) := by
  have hsum : pack (99999999 - n) + pack n = pack 99999999 := pack_complement (k := 8) hn
  have htop : packed 99999999 = 0x99999999 := by decide +kernel
  rw [← htop, packed, ← hsum, BitVec.ofNat_add, BitVec.add_sub_cancel]

theorem strtobcd_field {k : Nat} (h : Holds m p s) (hfuel : s.length < fuel)
    (hfield : field s = some (n, k)) : ∃ r, strtobcd m fuel p = some r ∧ r.value = packed n ∧
      r.endptr = p + k ∧ r.last ≤ p + s.length := by
  by_cases hnone : digits s = []
  · obtain ⟨last, hlast, hr⟩ := strtobcd_none h hfuel hnone
    rw [field, if_pos hnone] at hfield
    cases hfield
    exact ⟨_, hr, rfl, rfl, hlast⟩
  · rw [field, if_neg hnone] at hfield
    obtain ⟨⟨n', rest⟩, htail, heq⟩ := Option.map_eq_some_iff.mp hfield
    obtain ⟨r, hr, hend, hlast, hp, hvalue, -⟩ := strtobcd_ends h hfuel hnone htail
    have hlt := tail_lt (by decide) htail
    cases heq
    refine ⟨r, hr, ?_, by omega, by omega⟩
    rw [hvalue, packed_complement hlt]
    split_ifs <;> rfl

theorem last_of_field {r : Conversion} (h : Holds m p s) (hfuel : s.length < fuel)
    (hfield : field s = none) (hr : strtobcd m fuel p = some r) : p + s.length < r.last := by
  by_cases hnone : digits s = []
  · rw [field, if_pos hnone] at hfield
    cases hfield
  · rw [field, if_neg hnone, Option.map_eq_none_iff, tail_eq_none_iff] at hfield
    exact last_of_overruns h hfuel hnone hfield hr

theorem le_skipBlanks {q : Nat} (h : skipBlanks m fuel p = some q) : p ≤ q := by
  induction fuel generalizing p with
  | zero => cases h
  | succ fuel ih =>
      rw [skipBlanks] at h
      split_ifs at h
      · exact (Nat.le_succ p).trans (ih h)
      · cases h
        exact le_rfl

/-- The first character is looked at in any case. -/
theorem le_last {r : Conversion} (hr : strtobcd m fuel p = some r) : p ≤ r.last := by
  obtain ⟨q, hq, hrest⟩ := Option.bind_eq_some_iff.mp hr
  have hp := le_skipBlanks hq
  have hsign : q ≤ (readSign m q).2 := by
    rw [readSign]
    split_ifs
    · exact Nat.le_succ q
    · exact Nat.le_succ q
    · exact le_rfl
  dsimp only at hrest
  split_ifs at hrest
  · cases hrest
    exact hp.trans hsign
  all_goals
    obtain ⟨r', hr', rfl⟩ := Option.map_eq_some_iff.mp hrest
    exact hp.trans (hsign.trans (lt_of_digitLoop hr').le)

/-- A minus sign, 12 and a colon. -/
def minusTwelve : List Byte := [0x2D, 0x31, 0x32, 0x3A]

theorem strtobcd_conforms_iff_minusTwelve :
    (∃ r, strtobcd (text minusTwelve) 5 0 = some r ∧ Conforms 0 minusTwelve r) ↔
      digits minusTwelve ≠ [] ∧
        ¬ (99999990 ≤ number minusTwelve ∧ number minusTwelve < 10 ^ 8) ∧
        ¬ Overruns 0 (unsigned minusTwelve) :=
  strtobcd_conforms_iff (holds_text (by decide)) (by decide)

/-- The eighth digit of 99999999 is not taken, and the terminator passed over. -/
theorem strtobcd_nines : Holds (text (List.replicate 8 0x39)) 0 (List.replicate 8 0x39) ∧
    strtobcd (text (List.replicate 8 0x39)) 20 0 =
      some { value := 0, endptr := 9, errno := 1, last := 9 } ∧
    ¬ Conforms 0 (List.replicate 8 0x39) { value := 0, endptr := 9, errno := 1, last := 9 } :=
  ⟨holds_text (by decide), by decide +kernel, fun h => absurd h.last_le (by decide)⟩

end Sbc386Ex.Setup

import Sbc386Ex.Setup.Strtobcd

/-!
# Sbc386Ex.Monitor.Strtoint

`strtoint` of `strtoint.c`: a text of hexadecimal digits to an `unsigned long`, from which the
commands of the monitor take their operands one after the other.

A token is read to its end whether it fits or not. What carries the proof is what `value` and
`errno` say of the digits so far.
-/

namespace Sbc386Ex.Monitor

open Setup (Holds holds_drop text holds_text)

/-! ### The source -/

def hexdigit (c : Byte) : Byte :=
  if 0x30 ≤ c ∧ c ≤ 0x39 then c - 0x30
  else if 0x41 ≤ c ∧ c ≤ 0x46 then c - 0x41 + 10
  else if 0x61 ≤ c ∧ c ≤ 0x66 then c - 0x61 + 10
  else 0x11

/-- What `strtoint` returns, by value, in `*endptr` and in `errno`. -/
structure Conversion where
  value : DWord
  endptr : Nat
  errno : Nat
  deriving DecidableEq

/-- Space, tab and `:`. -/
def IsDelimiter (c : Byte) : Prop := c = 0x20 ∨ c = 0x09 ∨ c = 0x3A

instance : DecidablePred IsDelimiter := fun _ => inferInstanceAs (Decidable (_ ∨ _))

/-- Nothing if there are `fuel` delimiters or more. -/
def eatDelimiters (m : Mem) : (fuel cp : Nat) → Option Nat
  | 0, _ => none
  | fuel + 1, cp => if IsDelimiter (m cp) then eatDelimiters m fuel (cp + 1) else some cp

def readSign (m : Mem) (cp : Nat) : Int × Nat :=
  if m cp = 0x2D then (-1, cp + 1) else if m cp = 0x2B then (1, cp + 1) else (0, cp)

/-- The loop over the digits: the character it ends at, `value` and `errno`. -/
def digitLoop (m : Mem) : (fuel cp : Nat) → DWord → Nat → Option (Nat × DWord × Nat)
  | 0, _, _, _ => none
  | fuel + 1, cp, value, errno =>
      let digit := hexdigit (m cp)
      if digit ≠ 0x11 then
        if value > 0xFFFFFFFF >>> 4 then digitLoop m fuel (cp + 1) value 1
        else digitLoop m fuel (cp + 1) (value <<< 4 + digit.setWidth 32) errno
      else some (cp, value, errno)

def strtoint (m : Mem) (fuel cptr : Nat) : Option Conversion :=
  (eatDelimiters m fuel cptr).bind fun cp =>
    let (sign, cp) := readSign m cp
    if hexdigit (m cp) = 0x11 then some { value := 0, endptr := cptr, errno := 1 }
    else
      (digitLoop m fuel cp 0 0).map fun (cp, value, errno) =>
        let value := if errno ≠ 0 then 0 else if sign < 0 then ~~~value + 1 else value
        { value, endptr := cp, errno }

/-- `n` calls, each from where the one before has ended. -/
def walk (m : Mem) (fuel : Nat) : (n cp : Nat) → Option (List Conversion)
  | 0, _ => some []
  | n + 1, cp =>
      (strtoint m fuel cp).bind fun r => (walk m fuel n r.endptr).map fun rs => r :: rs

/-! ### Tokens -/

def IsHex (c : Byte) : Prop := 0x30 ≤ c ∧ c ≤ 0x39 ∨ 0x41 ≤ c ∧ c ≤ 0x46 ∨ 0x61 ≤ c ∧ c ≤ 0x66

instance : DecidablePred IsHex := fun _ => inferInstanceAs (Decidable (_ ∨ _))

def digitValue (c : Byte) : Nat :=
  if c ≤ 0x39 then (c - 0x30).toNat else if c ≤ 0x46 then (c - 0x37).toNat else (c - 0x57).toNat

/-- A number, with more digits after it. -/
def shifted (n : Nat) (tok : List Byte) : Nat := tok.foldl (fun n c => 16 * n + digitValue c) n

def number (tok : List Byte) : Nat := shifted 0 tok

/-- The digits from the first that is not a zero. -/
def significant (tok : List Byte) : Nat := (tok.dropWhile (· = 0x30)).length

structure IsToken (tok : List Byte) : Prop where
  nonempty : tok ≠ []
  hex : ∀ c ∈ tok, IsHex c

theorem isToken_iff {tok : List Byte} :
    (!tok.isEmpty && tok.all fun c => decide (IsHex c)) = true ↔ IsToken tok := by
  rw [Bool.and_eq_true, Bool.not_eq_true', List.isEmpty_eq_false_iff, List.all_eq_true]
  exact ⟨fun h => ⟨h.1, fun c hc => of_decide_eq_true (h.2 c hc)⟩,
    fun h => ⟨h.nonempty, fun c hc => decide_eq_true (h.hex c hc)⟩⟩

instance (tok : List Byte) : Decidable (IsToken tok) := decidable_of_iff _ isToken_iff

/-- Tokens, each with the delimiters before it: there are some between two of them. -/
structure Joined (ws : List (List Byte × List Byte)) : Prop where
  delimiters : ∀ w ∈ ws, ∀ c ∈ w.1, IsDelimiter c
  tokens : ∀ w ∈ ws, IsToken w.2
  between : ∀ w ∈ ws.tail, w.1 ≠ []

def line (ws : List (List Byte × List Byte)) : List Byte := ws.flatMap fun w => w.1 ++ w.2

/-- What the calls are to return for them, from `p` on. -/
def expected : Nat → List (List Byte × List Byte) → List Conversion
  | _, [] => []
  | p, (sep, tok) :: ws =>
      let q := p + sep.length + tok.length
      (if significant tok ≤ 8 then ⟨BitVec.ofNat 32 (number tok), q, 0⟩ else ⟨0, q, 1⟩) ::
        expected q ws

/-! ### Characters -/

theorem hexdigit_of_isHex : ∀ c : Byte, IsHex c →
    hexdigit c ≠ 0x11 ∧ (hexdigit c).toNat = digitValue c ∧ digitValue c < 16 := by decide

theorem hexdigit_of_not : ∀ c : Byte, ¬ IsHex c → hexdigit c = 0x11 := by decide

theorem not_delimiter_of_isHex : ∀ c : Byte, IsHex c → ¬ IsDelimiter c := by decide

theorem not_isHex_of_delimiter : ∀ c : Byte, IsDelimiter c → ¬ IsHex c := by decide

theorem unsigned_of_isHex : ∀ c : Byte, IsHex c → c ≠ 0x2D ∧ c ≠ 0x2B := by decide

theorem digitValue_pos : ∀ c : Byte, IsHex c → c ≠ 0x30 → 0 < digitValue c := by decide

/-! ### How long a number is -/

variable {m : Mem} {p cp fuel n errno : Nat} {value : DWord} {tok sep s rest : List Byte}

theorem shifted_eq (n : Nat) (tok : List Byte) : shifted n tok = 16 ^ tok.length * n + number tok := by
  induction tok generalizing n with
  | nil => simp [shifted, number]
  | cons c tok ih =>
      have hn := ih (16 * n + digitValue c)
      have hzero := ih (16 * 0 + digitValue c)
      simp only [shifted, number, List.foldl_cons, List.length_cons] at hn hzero ⊢
      rw [hn, hzero, Nat.pow_succ]
      ring

theorem number_cons (c : Byte) (tok : List Byte) :
    number (c :: tok) = 16 ^ tok.length * digitValue c + number tok := by
  have hfirst : number (c :: tok) = shifted (digitValue c) tok := by simp [number, shifted]
  rw [hfirst, shifted_eq]

theorem number_lt (h : ∀ c ∈ tok, IsHex c) : number tok < 16 ^ tok.length := by
  induction tok with
  | nil => decide
  | cons c tok ih =>
      obtain ⟨hc, htok⟩ := List.forall_mem_cons.mp h
      have hlt := ih htok
      have hdigit := (hexdigit_of_isHex c hc).2.2
      rw [number_cons, List.length_cons, Nat.pow_succ]
      nlinarith

/-- A token fits in 32 bits when it has at most eight significant digits. -/
theorem number_lt_iff (h : ∀ c ∈ tok, IsHex c) : number tok < 2 ^ 32 ↔ significant tok ≤ 8 := by
  induction tok with
  | nil => decide
  | cons c tok ih =>
      obtain ⟨hc, htok⟩ := List.forall_mem_cons.mp h
      have hlt := number_lt h
      rw [number_cons] at hlt ⊢
      by_cases hzero : c = 0x30
      · subst hzero
        have hdigit : digitValue 0x30 = 0 := by decide
        rw [hdigit, Nat.mul_zero, Nat.zero_add, ih htok, significant, significant,
          List.dropWhile_cons_of_pos (by decide)]
      · have hpos := digitValue_pos c hc hzero
        rw [significant, List.dropWhile_cons_of_neg (by simpa using hzero), List.length_cons] at *
        constructor
        · intro hfits
          by_contra hlong
          have hpow : 16 ^ 8 ≤ 16 ^ tok.length := Nat.pow_le_pow_right (by decide) (by omega)
          nlinarith
        · intro hshort
          have hpow : 16 ^ (tok.length + 1) ≤ 16 ^ 8 := Nat.pow_le_pow_right (by decide) hshort
          omega

/-! ### The loops -/

theorem eatDelimiters_holds (hsep : ∀ c ∈ sep, IsDelimiter c) (hstop : ∀ c ∈ s.head?, ¬ IsDelimiter c)
    (h : Holds m p (sep ++ s)) (hfuel : sep.length < fuel) :
    eatDelimiters m fuel p = some (p + sep.length) ∧ Holds m (p + sep.length) s := by
  induction sep generalizing p fuel with
  | nil =>
      obtain ⟨fuel, rfl⟩ := Nat.exists_eq_add_of_lt hfuel
      have hnot : ¬ IsDelimiter (m p) := by
        cases s with
        | nil =>
            have hm : m p = 0 := h
            rw [hm]
            decide
        | cons c s =>
            have hm : m p = c := h.1
            rw [hm]
            exact hstop c rfl
      exact ⟨if_neg hnot, h⟩
  | cons c sep ih =>
      obtain ⟨hc, hsep⟩ := List.forall_mem_cons.mp hsep
      obtain ⟨hm, -, hrest⟩ := h
      cases fuel with
      | zero => exact absurd hfuel (Nat.not_lt_zero _)
      | succ fuel =>
          obtain ⟨heat, hholds⟩ := ih hsep hrest (Nat.lt_of_succ_lt_succ hfuel)
          have hnext : p + (c :: sep).length = p + 1 + sep.length := by
            rw [List.length_cons]
            omega
          rw [eatDelimiters, hm, if_pos hc, hnext]
          exact ⟨heat, hholds⟩

/-- What `value` and `errno` say of the digits so far: their number, or that it does not fit. -/
def Counts (n : Nat) (value : DWord) (errno : Nat) : Prop :=
  errno = 0 ∧ value.toNat = n ∨ errno = 1 ∧ 2 ^ 32 ≤ n

/-- A digit more. -/
theorem Counts.digit {c : Byte} (h : Counts n value errno) (hc : IsHex c) :
    (value > 0xFFFFFFFF >>> 4 → Counts (16 * n + digitValue c) value 1) ∧
    (¬ value > 0xFFFFFFFF >>> 4 →
      Counts (16 * n + digitValue c) (value <<< 4 + (hexdigit c).setWidth 32) errno) := by
  obtain ⟨-, hdigit, hlt⟩ := hexdigit_of_isHex c hc
  have hlimit : (0xFFFFFFFF >>> 4 : DWord).toNat = 2 ^ 28 - 1 := by decide
  obtain ⟨rfl, hvalue⟩ | ⟨rfl, hover⟩ := h
  · constructor
    · intro hmore
      have hmore : (0xFFFFFFFF >>> 4 : DWord).toNat < value.toNat := hmore
      exact .inr ⟨rfl, by omega⟩
    · intro hless
      have hless : ¬ (0xFFFFFFFF >>> 4 : DWord).toNat < value.toNat := hless
      refine .inl ⟨rfl, ?_⟩
      rw [BitVec.toNat_add, BitVec.toNat_shiftLeft, BitVec.toNat_setWidth, hdigit, Nat.shiftLeft_eq]
      omega
  · exact ⟨fun _ => .inr ⟨rfl, by omega⟩, fun _ => .inr ⟨rfl, by omega⟩⟩

/-- The digits of a token, from anywhere in it. -/
theorem digitLoop_counts (htok : ∀ c ∈ tok, IsHex c) (hrest : ∀ c ∈ rest.head?, ¬ IsHex c)
    (h : Holds m cp (tok ++ rest)) (hcounts : Counts n value errno) (hfuel : tok.length < fuel) :
    ∃ value' errno', digitLoop m fuel cp value errno = some (cp + tok.length, value', errno') ∧
      Counts (shifted n tok) value' errno' := by
  induction tok generalizing cp n value errno fuel with
  | nil =>
      obtain ⟨fuel, rfl⟩ := Nat.exists_eq_add_of_lt hfuel
      have hnot : ¬ hexdigit (m cp) ≠ 0x11 := by
        rw [not_not]
        cases rest with
        | nil =>
            have hm : m cp = 0 := h
            rw [hm]
            decide
        | cons c rest =>
            have hm : m cp = c := h.1
            rw [hm]
            exact hexdigit_of_not c (hrest c rfl)
      exact ⟨value, errno, if_neg hnot, hcounts⟩
  | cons c tok ih =>
      obtain ⟨hc, htok⟩ := List.forall_mem_cons.mp htok
      obtain ⟨hm, -, hholds⟩ := h
      obtain ⟨hmore, hless⟩ := hcounts.digit hc
      have hnext : cp + (c :: tok).length = cp + 1 + tok.length := by
        rw [List.length_cons]
        omega
      cases fuel with
      | zero => exact absurd hfuel (Nat.not_lt_zero _)
      | succ fuel =>
          have hfuel := Nat.lt_of_succ_lt_succ hfuel
          rw [digitLoop, hm, if_pos (hexdigit_of_isHex c hc).1, hnext]
          by_cases hlimit : value > 0xFFFFFFFF >>> 4
          · rw [if_pos hlimit]
            exact ih htok hholds (hmore hlimit) hfuel
          · rw [if_neg hlimit]
            exact ih htok hholds (hless hlimit) hfuel

/-! ### One call, and all of them -/

theorem head_of_isToken (h : IsToken tok) (s : List Byte) : ∃ c, (tok ++ s).head? = some c ∧ IsHex c := by
  cases tok with
  | nil => exact absurd rfl h.nonempty
  | cons c tok => exact ⟨c, rfl, h.hex c List.mem_cons_self⟩

/-- A token: its number if it fits, and the character after it in any case. -/
theorem strtoint_token (hsep : ∀ c ∈ sep, IsDelimiter c) (htok : IsToken tok)
    (hrest : ∀ c ∈ rest.head?, ¬ IsHex c) (h : Holds m p (sep ++ (tok ++ rest)))
    (hfuel : (sep ++ (tok ++ rest)).length < fuel) :
    strtoint m fuel p = some
      (if significant tok ≤ 8 then ⟨BitVec.ofNat 32 (number tok), p + sep.length + tok.length, 0⟩
       else ⟨0, p + sep.length + tok.length, 1⟩) := by
  rw [List.length_append, List.length_append] at hfuel
  have hsepFuel : sep.length < fuel := by omega
  have htokFuel : tok.length < fuel := by omega
  obtain ⟨c, hhead, hc⟩ := head_of_isToken htok rest
  have hstop : ∀ c' ∈ (tok ++ rest).head?, ¬ IsDelimiter c' := by
    intro c' hc'
    rw [hhead] at hc'
    obtain rfl := Option.some.inj hc'
    exact not_delimiter_of_isHex c hc
  obtain ⟨heat, hholds⟩ := eatDelimiters_holds hsep hstop h hsepFuel
  have hm : m (p + sep.length) = c := by
    cases hs : tok ++ rest with
    | nil => cases hs ▸ hhead
    | cons c' s =>
        rw [hs] at hholds hhead
        exact hholds.1.trans (Option.some.inj hhead)
  have hsign : readSign m (p + sep.length) = (0, p + sep.length) := by
    obtain ⟨hminus, hplus⟩ := unsigned_of_isHex c hc
    rw [readSign, hm, if_neg hminus, if_neg hplus]
  obtain ⟨value, errno, hloop, hcounts⟩ :=
    digitLoop_counts htok.hex hrest hholds (.inl ⟨rfl, rfl⟩ : Counts 0 0 0) htokFuel
  have hfits := number_lt_iff htok.hex
  rw [strtoint, heat]
  simp only [Option.bind_some, hsign, hm, (hexdigit_of_isHex c hc).1, if_false, hloop, Option.map_some]
  obtain ⟨rfl, hvalue⟩ | ⟨rfl, hover⟩ := hcounts
  · have hvalue : value.toNat = number tok := hvalue
    have hlt := value.isLt
    rw [if_pos (hfits.mp (by omega)), ← hvalue, BitVec.ofNat_toNat, BitVec.setWidth_eq]
    rfl
  · have hover : 2 ^ 32 ≤ number tok := hover
    rw [if_neg fun hshort => absurd (hfits.mpr hshort) (by omega)]
    rfl

/-- What is after a token does not go on with it. -/
theorem head_line {ws : List (List Byte × List Byte)} (hdelimiters : ∀ w ∈ ws, ∀ c ∈ w.1, IsDelimiter c)
    (hbetween : ∀ w ∈ ws, w.1 ≠ []) (hrest : ∀ c ∈ rest.head?, ¬ IsHex c) :
    ∀ c ∈ (line ws ++ rest).head?, ¬ IsHex c := by
  cases ws with
  | nil => exact hrest
  | cons w ws =>
      obtain ⟨sep, tok⟩ := w
      cases sep with
      | nil => exact absurd rfl (hbetween ([], tok) List.mem_cons_self)
      | cons d sep =>
          intro c hc
          have hd : IsDelimiter d := hdelimiters (d :: sep, tok) List.mem_cons_self d List.mem_cons_self
          obtain rfl : d = c := Option.some.inj hc
          exact not_isHex_of_delimiter d hd

/-- **The walk along a line.** Call after call returns the tokens in their order, each with the
end of its own. -/
theorem strtoint_walk {ws : List (List Byte × List Byte)} (hws : Joined ws)
    (hrest : ∀ c ∈ rest.head?, ¬ IsHex c) (h : Holds m p (line ws ++ rest))
    (hfuel : (line ws ++ rest).length < fuel) : walk m fuel ws.length p = some (expected p ws) := by
  induction ws generalizing p with
  | nil => rfl
  | cons w ws ih =>
      obtain ⟨sep, tok⟩ := w
      obtain ⟨hdelimiters, htokens, hbetween⟩ := hws
      obtain ⟨hsep, hdelimiters⟩ := List.forall_mem_cons.mp hdelimiters
      obtain ⟨htok, htokens⟩ := List.forall_mem_cons.mp htokens
      have hline : line ((sep, tok) :: ws) ++ rest = sep ++ (tok ++ (line ws ++ rest)) := by
        simp [line]
      rw [hline] at h hfuel
      have hfirst := strtoint_token hsep htok (head_line hdelimiters hbetween hrest) h hfuel
      have hholds : Holds m (p + sep.length + tok.length) (line ws ++ rest) := by
        have hdrop := holds_drop h (k := sep.length + tok.length) (by simp)
        rwa [← List.append_assoc, ← List.length_append, List.drop_left, List.length_append,
          ← Nat.add_assoc] at hdrop
      have hjoined : Joined ws :=
        ⟨hdelimiters, htokens, fun w hw => hbetween w (List.mem_of_mem_tail hw)⟩
      have hlater := ih hjoined hholds (by simp at hfuel ⊢; omega)
      rw [List.length_cons, walk, hfirst]
      by_cases hfits : significant tok ≤ 8
      · simp only [expected, hfits, if_true, Option.bind_some, hlater, Option.map_some]
      · simp only [expected, hfits, if_false, Option.bind_some, hlater, Option.map_some]

/-- `F000:fff0` and a token of nine digits, with a blank before it. -/
def fillLine : List (List Byte × List Byte) :=
  [([], [0x46, 0x30, 0x30, 0x30]), ([0x3A], [0x66, 0x66, 0x66, 0x30]),
    ([0x20], List.replicate 9 0x31)]

theorem strtoint_walk_fillLine :
    walk (text (line fillLine)) 32 3 0 = some [⟨0xF000, 4, 0⟩, ⟨0xFFF0, 9, 0⟩, ⟨0, 19, 1⟩] := by
  have hline : Holds (text (line fillLine)) 0 (line fillLine ++ []) := by
    rw [List.append_nil]
    exact holds_text (by decide)
  exact strtoint_walk ⟨by decide, by decide, by decide⟩ (by decide) hline (by decide)

end Sbc386Ex.Monitor

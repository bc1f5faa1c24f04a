import Sbc386Ex.Setup.Strtobcd
import Sbc386Ex.Time.DayOfWeek
import Sbc386Ex.Time.Returns

/-!
# Sbc386Ex.Setup.Set1302

`set_date` and `set_time` of `set1302.c`: what a typed line sets the clock to.

The functions ask for a line until one is empty or taken. An `int` is of 16 bits, so of a number
the last four digits count, and 8000 and more are negative there.
-/

namespace Sbc386Ex.Setup

open PackedBcd Gregorian

/-! ### A line -/

/-- What became of a line: whether it is asked for again, what INT 1Ah is called with if it is
called, and the furthest character of it that was looked at. -/
structure Line (α : Type) where
  again : Bool
  set : Option α
  last : Nat
  deriving DecidableEq

variable {α : Type}

def Line.after (l : Line α) (last : Nat) : Line α := { l with last := Nat.max last l.last }

variable (m : Mem) (fuel : Nat)

/-- `temp = strtobcd(cp,&cp); if (test) .. else continue;` -/
def readField (cp : Nat) (test : Word → Bool) (next : Word → Nat → Option (Line α)) :
    Option (Line α) :=
  (strtobcd m fuel cp).bind fun r =>
    let temp : Word := r.value.setWidth 16
    if test temp then (next temp r.endptr).map (Line.after · r.last)
    else some { again := true, set := none, last := r.last }

/-- `if (*cp == ':') .. else ..` -/
def ifColon (cp : Nat) (yes no : Option (Line α)) : Option (Line α) :=
  (if m cp = 0x3A then yes else no).map (Line.after · cp)

/-! ### The date -/

/-- The bytes INT 1Ah is given, in BCD. -/
structure Stamp where
  ce : Byte
  yr : Byte
  mo : Byte
  da : Byte
  deriving DecidableEq

/-- `if (temp && temp<top)` -/
def below (top temp : Word) : Bool := temp ≠ 0 ∧ temp.slt top

/-- The last checks of `set_date`, on `year`, `month` and `da`. -/
def daysOk (year month da : Nat) : Bool :=
  let temp := 0x28
  let temp := if year % 4 = 0 then temp + 1 else temp
  if month = 2 ∧ da > temp then false
  else
    let temp := 0x31
    let month : Int := month - 3
    let month := if month < 0 then month + 12 else month
    let month := month.tmod 5
    let temp := if month % 2 = 1 then temp - 1 else temp
    da ≤ temp

def setDateLine (n : Nat) : Option (Line Stamp) :=
  if n = 0 then some { again := false, set := none, last := 0 }
  else
    readField m fuel 0 (below 0x13) fun temp cp =>
    let mo : Byte := temp.setWidth 8
    readField m fuel (cp + 1) (below 0x32) fun temp cp =>
    let da : Byte := temp.setWidth 8
    readField m fuel (cp + 1)
      (fun temp => temp ≠ 0 ∧ (0x1970 : Word).sle temp ∧ temp.slt 0x2070) fun temp _ =>
    let yr : Byte := temp.setWidth 8
    let ce : Byte := (temp >>> 8).setWidth 8
    if daysOk (Time.bcd yr) (Time.bcd mo) da.toNat then
      some { again := false, set := some { ce, yr, mo, da }, last := 0 }
    else some { again := true, set := none, last := 0 }

/-! ### The time -/

structure Clock where
  hr : Byte
  min : Byte
  sec : Byte
  deriving DecidableEq

def setTimeLine (n : Nat) : Option (Line Clock) :=
  if n = 0 then some { again := false, set := none, last := 0 }
  else
    readField m fuel 0 (fun temp => temp.slt 0x24) fun temp cp =>
    let hr : Byte := temp.setWidth 8
    let again := some { again := true, set := none, last := 0 }
    ifColon m cp
      (readField m fuel (cp + 1) (fun temp => temp.slt 0x60) fun temp cp =>
        let min : Byte := temp.setWidth 8
        let done (temp : Word) : Option (Line Clock) :=
          some { again := false, set := some { hr, min, sec := temp.setWidth 8 }, last := 0 }
        ifColon m cp (readField m fuel (cp + 1) (fun temp => temp.slt 0x60) fun temp _ => done temp)
          (done 0))
      again

/-! ### The line -/

def ESC : Byte := 0x1B
def CR : Byte := 0x0D
def NL : Byte := 0x0A
def DEL : Byte := 0x7F
def BS : Byte := 0x08
def CTRLU : Byte := 0x15
def CTRLX : Byte := 0x18

/-- `is_print` -/
def isPrint (ch : Byte) : Bool := ¬ (ch < SP ∨ DEL ≤ ch)

/-- `getline`, with `keys` to come: the length and the buffer. Nothing while none of them ends
the line. -/
def getline (length : Nat) : List Byte → Nat → Mem → Option (Nat × Mem)
  | [], _, _ => none
  | ch :: keys, n, buffer =>
      let again (n : Nat) (buffer : Mem) :=
        getline length keys (if n = length - 1 then n - 1 else n) buffer
      if isPrint ch then again (n + 1) (Function.update buffer n ch)
      else if ch = ESC then some (0, Function.update buffer 0 0)
      else if ch = CR ∨ ch = NL then some (n, Function.update buffer n 0)
      else if ch = DEL ∨ ch = BS then again (n - 1) buffer
      else if ch = HT then again (n + 1) (Function.update buffer n SP)
      else if ch = CTRLU ∨ ch = CTRLX then again 0 buffer
      else again n buffer

/-- The characters so far. -/
def typed (n : Nat) (buffer : Mem) : List Byte := (List.range n).map buffer

theorem holds_range {m : Mem} {p n : Nat} (hne : ∀ i < n, m (p + i) ≠ 0) (hend : m (p + n) = 0) :
    Holds m p ((List.range' p n).map m) := by
  induction n generalizing p with
  | zero => exact hend
  | succ n ih =>
      have hnext : ∀ i, p + 1 + i = p + (i + 1) := by omega
      refine ⟨rfl, hne 0 (Nat.succ_pos n), ih (fun i hi => ?_) ?_⟩
      · rw [hnext]
        exact hne (i + 1) (Nat.succ_lt_succ hi)
      · rw [hnext]
        exact hend

/-- A typed line is a string, whatever is behind it. -/
theorem getline_holds {length n n' : Nat} {keys : List Byte} {buffer buffer' : Mem}
    (hne : ∀ i < n, buffer i ≠ 0) (h : getline length keys n buffer = some (n', buffer')) :
    Holds buffer' 0 (typed n' buffer') := by
  have hends : ∀ {n : Nat} {buffer : Mem}, (∀ i < n, buffer i ≠ 0) →
      Holds (Function.update buffer n 0) 0 (typed n (Function.update buffer n 0)) := by
    intro n buffer hne
    rw [typed, List.range_eq_range']
    refine holds_range (fun i hi => ?_) ?_
    · rw [Nat.zero_add, Function.update_of_ne (Nat.ne_of_lt hi)]
      exact hne i hi
    · rw [Nat.zero_add, Function.update_self]
  have hput : ∀ {n : Nat} {buffer : Mem} {ch : Byte}, (∀ i < n, buffer i ≠ 0) → ch ≠ 0 →
      ∀ i < n + 1, Function.update buffer n ch i ≠ 0 := by
    intro n buffer ch hne hch i hi
    by_cases hlast : i = n
    · rwa [hlast, Function.update_self]
    · rw [Function.update_of_ne hlast]
      exact hne i (by omega)
  have hprint : ∀ ch : Byte, isPrint ch → ch ≠ 0 := by decide
  induction keys generalizing n buffer with
  | nil => cases h
  | cons ch keys ih =>
      have hagain : ∀ {n : Nat} {buffer : Mem}, (∀ i < n, buffer i ≠ 0) →
          getline length keys (if n = length - 1 then n - 1 else n) buffer = some (n', buffer') →
          Holds buffer' 0 (typed n' buffer') := by
        intro n buffer hne h
        refine ih (fun i hi => hne i ?_) h
        split_ifs at hi <;> omega
      rw [getline] at h
      split_ifs at h with hch
      · exact hagain (hput hne (hprint ch hch)) h
      · cases h
        exact hends fun i hi => absurd hi (Nat.not_lt_zero i)
      · cases h
        exact hends hne
      · exact hagain (fun i hi => hne i (by omega)) h
      · exact hagain (hput hne (by decide)) h
      · exact hagain (fun i hi => absurd hi (Nat.not_lt_zero i)) h
      · exact hagain hne h

/-! ### What is asked of a line -/

/-- The line is not looked at behind its end, at `len`, and the clock set only to what is
`good`. -/
def Right (len : Nat) (good : α → Prop) (o : Option (Line α)) : Prop :=
  ∃ l, o = some l ∧ l.last ≤ len ∧ ∀ a ∈ l.set, good a

variable {m fuel} {len cp : Nat} {good : α → Prop} {s : List Byte}

theorem right_map_after {o : Option (Line α)} {last : Nat} (h : last ≤ len) :
    Right len good (o.map (Line.after · last)) ↔ Right len good o := by
  constructor
  · rintro ⟨l, hl, hlast, hgood⟩
    obtain ⟨l, rfl, rfl⟩ := Option.map_eq_some_iff.mp hl
    exact ⟨l, rfl, (Nat.le_max_right _ _).trans hlast, hgood⟩
  · rintro ⟨l, rfl, hlast, hgood⟩
    exact ⟨_, rfl, Nat.max_le.mpr ⟨h, hlast⟩, hgood⟩

theorem not_right_map_after {o : Option (Line α)} {last : Nat} (h : len < last) :
    ¬ Right len good (o.map (Line.after · last)) := by
  rintro ⟨l, hl, hlast, -⟩
  obtain ⟨l, -, rfl⟩ := Option.map_eq_some_iff.mp hl
  exact Nat.not_le.mpr h ((Nat.le_max_left _ _).trans hlast)

theorem right_set {a : α} {again : Bool} :
    Right len good (some { again, set := some a, last := 0 }) ↔ good a := by
  constructor
  · rintro ⟨l, hl, -, hgood⟩
    cases hl
    exact hgood a rfl
  · intro h
    refine ⟨_, rfl, Nat.zero_le _, ?_⟩
    rintro b hb
    cases hb
    exact h

theorem right_none {again : Bool} : Right len good (some { again, set := none, last := 0 }) :=
  ⟨_, rfl, Nat.zero_le _, fun _ h => by cases h⟩

/-- The number of a field as an `int`. -/
def temp (n : Nat) : Word := (packed n).setWidth 16

theorem last_readField {test : Word → Bool} {next : Word → Nat → Option (Line α)} {l : Line α}
    (h : readField m fuel cp test next = some l) :
    ∃ r, strtobcd m fuel cp = some r ∧ r.last ≤ l.last := by
  obtain ⟨r, hr, hrest⟩ := Option.bind_eq_some_iff.mp h
  refine ⟨r, hr, ?_⟩
  dsimp only at hrest
  split_ifs at hrest
  · obtain ⟨l, -, rfl⟩ := Option.map_eq_some_iff.mp hrest
    exact Nat.le_max_left _ _
  · cases hrest
    exact le_rfl

theorem right_readField (hs : Holds m cp s) (hfuel : s.length < fuel) (hlen : cp + s.length = len)
    (test : Word → Bool) (next : Word → Nat → Option (Line α)) :
    Right len good (readField m fuel cp test next) ↔ ∃ n k, field s = some (n, k) ∧
      (test (temp n) → Right len good (next (temp n) (cp + k))) := by
  cases hfield : field s with
  | none =>
      refine iff_of_false ?_ (by simp)
      rintro ⟨l, hl, hlast, -⟩
      obtain ⟨r, hr, hle⟩ := last_readField hl
      have hpast := last_of_field hs hfuel hfield hr
      omega
  | some v =>
      obtain ⟨n, k⟩ := v
      obtain ⟨r, hr, hvalue, hend, hlast⟩ := strtobcd_field hs hfuel hfield
      have hread : readField m fuel cp test next =
          if test (temp n) then (next (temp n) (cp + k)).map (Line.after · r.last)
          else some { again := true, set := none, last := r.last } := by
        rw [readField, hr, Option.bind_some, hend, hvalue]
        rfl
      rw [hread]
      constructor
      · intro h
        refine ⟨n, k, rfl, fun htest => ?_⟩
        rwa [if_pos htest, right_map_after (hlen ▸ hlast)] at h
      · rintro ⟨n', k', heq, h⟩
        cases heq
        by_cases htest : test (temp n)
        · rw [if_pos htest, right_map_after (hlen ▸ hlast)]
          exact h htest
        · rw [if_neg htest]
          exact ⟨_, rfl, hlen ▸ hlast, by simp⟩

/-- A field that begins behind the end. -/
theorem not_right_readField (h : len < cp) (test : Word → Bool)
    (next : Word → Nat → Option (Line α)) : ¬ Right len good (readField m fuel cp test next) := by
  rintro ⟨l, hl, hlast, -⟩
  obtain ⟨r, hr, hle⟩ := last_readField hl
  have hfirst := le_last hr
  omega

/-- In the string after its first `k` characters and one more. -/
theorem right_readField_after {k : Nat} (hs : Holds m 0 s) (hfuel : s.length < fuel)
    (test : Word → Bool) (next : Word → Nat → Option (Line α)) :
    Right s.length good (readField m fuel (k + 1) test next) ↔
      k < s.length ∧ ∃ n k', field (s.drop (k + 1)) = some (n, k') ∧
        (test (temp n) → Right s.length good (next (temp n) (k + 1 + k'))) := by
  by_cases hk : k < s.length
  · have hdrop : Holds m (k + 1) (s.drop (k + 1)) := by
      have hall := holds_drop hs (show k + 1 ≤ s.length from hk)
      rwa [Nat.zero_add] at hall
    have hlen : k + 1 + (s.drop (k + 1)).length = s.length := by
      rw [List.length_drop]
      omega
    have hshort : (s.drop (k + 1)).length < fuel := by omega
    rw [right_readField hdrop hshort hlen, and_iff_right hk]
  · exact iff_of_false (not_right_readField (by omega) _ _) fun h => hk h.1

theorem right_ifColon {k : Nat} (hs : Holds m 0 s) (yes no : Option (Line α)) :
    Right s.length good (ifColon m k yes no) ↔ k ≤ s.length ∧
      if s[k]? = some 0x3A then Right s.length good yes else Right s.length good no := by
  by_cases hk : k ≤ s.length
  · have hdrop := holds_drop hs hk
    have hread : m k = 0x3A ↔ s[k]? = some 0x3A := by
      rw [Nat.zero_add] at hdrop
      cases hrest : s.drop k with
      | nil =>
          rw [hrest] at hdrop
          have hzero : m k = 0 := hdrop
          have hend : s[k]? = none :=
            List.getElem?_eq_none (List.drop_eq_nil_iff.mp hrest)
          rw [hzero, hend]
          exact iff_of_false (by decide) (by simp)
      | cons c t =>
          rw [hrest] at hdrop
          have hget : s[k]? = some c := by
            rw [← List.head?_drop, hrest]
            rfl
          rw [hdrop.1, hget, Option.some_inj]
    rw [ifColon, right_map_after hk, and_iff_right hk]
    simp only [hread]
    split_ifs <;> rfl
  · exact iff_of_false (not_right_map_after (Nat.not_le.mp hk)) fun h => hk h.1

end Sbc386Ex.Setup

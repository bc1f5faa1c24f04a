import Mathlib.Data.BitVec
import Mathlib.Tactic.Common

/-!
# Sbc386Ex.Lib.AnsiTerminal

**A terminal** of `rows` rows and `cols` columns, as the VT100 and its descendants are: bytes
come in one at a time, and are characters, control characters, or parts of a control
sequence. A character in the last column leaves the cursor there, and the next one wraps.
-/

/-- Where in a control sequence the terminal is: `csi ps n` after the parameters `ps`, with `n`
coming in. -/
inductive AnsiMode
  | ground
  | esc
  | csi (ps : List Nat) (n : Nat)

/-- The scrolling region goes from row `top` to row `bottom`. -/
structure AnsiTerminal (rows cols : Nat) where
  row : Nat
  col : Nat
  wrapNext : Bool
  top : Nat
  bottom : Nat
  mode : AnsiMode
  cells : Nat → Nat → BitVec 8

namespace AnsiTerminal

variable {rows cols : Nat} (t : AnsiTerminal rows cols)

/-- A blank. -/
def blank : BitVec 8 := 0x20

/-! ### What it does -/

/-- `SU`: the region up by `n` rows. -/
def scrollUp (n : Nat) : AnsiTerminal rows cols :=
  { t with cells := fun r c =>
      if t.top ≤ r ∧ r ≤ t.bottom then if r + n ≤ t.bottom then t.cells (r + n) c else blank
      else t.cells r c }

/-- `SD` -/
def scrollDown (n : Nat) : AnsiTerminal rows cols :=
  { t with cells := fun r c =>
      if t.top ≤ r ∧ r ≤ t.bottom then if t.top + n ≤ r then t.cells (r - n) c else blank
      else t.cells r c }

/-- `IND`: a row down, or the region up a row. -/
def index : AnsiTerminal rows cols :=
  if t.row = t.bottom then t.scrollUp 1
  else if t.row + 1 < rows then { t with row := t.row + 1 } else t

/-- The wrap that is due before the next character. -/
def wrap : AnsiTerminal rows cols :=
  if t.wrapNext then index { t with col := 0, wrapNext := false } else t

/-- A character. -/
def put (b : BitVec 8) : AnsiTerminal rows cols :=
  let t := t.wrap
  let t : AnsiTerminal rows cols := { t with cells := fun r c => if r = t.row ∧ c = t.col then b else t.cells r c }
  if t.col + 1 < cols then { t with col := t.col + 1 } else { t with wrapNext := true }

/-- A control character. -/
def control (b : BitVec 8) : AnsiTerminal rows cols :=
  if b = 0x08 then { t with col := t.col - 1, wrapNext := false }
  else if b = 0x09 then { t with col := min ((t.col / 8 + 1) * 8) (cols - 1) }
  else if b = 0x0A ∨ b = 0x0B ∨ b = 0x0C then index { t with wrapNext := false }
  else if b = 0x0D then { t with col := 0, wrapNext := false }
  else if b = 0x1B then { t with mode := .esc }
  else t

/-- `CUP`, with rows and columns from 1. -/
def goTo (row col : Nat) : AnsiTerminal rows cols :=
  { t with row := min (row - 1) (rows - 1), col := min (col - 1) (cols - 1), wrapNext := false }

/-- `ED` -/
def eraseDisplay (p : Nat) : AnsiTerminal rows cols :=
  { t with cells := fun r c =>
      if (p = 0 ∧ (t.row < r ∨ r = t.row ∧ t.col ≤ c)) ∨
        (p = 1 ∧ (r < t.row ∨ r = t.row ∧ c ≤ t.col)) ∨ p = 2 then blank else t.cells r c }

/-- `EL` -/
def eraseLine (p : Nat) : AnsiTerminal rows cols :=
  { t with cells := fun r c =>
      if r = t.row ∧ ((p = 0 ∧ t.col ≤ c) ∨ (p = 1 ∧ c ≤ t.col) ∨ p = 2) then blank
      else t.cells r c }

/-- `DECSTBM`, which sends the cursor home. -/
def setRegion (top bottom : Nat) : AnsiTerminal rows cols :=
  let top := max top 1
  let bottom := if bottom = 0 then rows else min bottom rows
  if top < bottom then goTo { t with top := top - 1, bottom := bottom - 1 } 1 1 else t

/-- A control sequence with its final byte `b`. -/
def execute (b : BitVec 8) (ps : List Nat) : AnsiTerminal rows cols :=
  if b = 0x48 ∨ b = 0x66 then t.goTo (max (ps.getD 0 0) 1) (max (ps.getD 1 0) 1)
  else if b = 0x4A then t.eraseDisplay (ps.getD 0 0)
  else if b = 0x4B then t.eraseLine (ps.getD 0 0)
  else if b = 0x53 then t.scrollUp (max (ps.getD 0 0) 1)
  else if b = 0x54 then t.scrollDown (max (ps.getD 0 0) 1)
  else if b = 0x72 then t.setRegion (ps.getD 0 0) (ps.getD 1 0)
  else t

/-- What is erased without a parameter, and with 2. -/
theorem cells_eraseLine (r c : Nat) : (t.eraseLine 0).cells r c =
    if r = t.row ∧ t.col ≤ c then blank else t.cells r c := by
  simp [eraseLine]

theorem cells_eraseDisplay (r c : Nat) : (t.eraseDisplay 2).cells r c = blank := by
  simp [eraseDisplay]

/-- A region of rows of the screen, and none. -/
theorem setRegion_of_lt {top bottom : Nat} (htop : 1 ≤ top) (hlt : top < bottom)
    (hbottom : bottom ≤ rows) : t.setRegion top bottom =
      { t with top := top - 1, bottom := bottom - 1, row := 0, col := 0, wrapNext := false } := by
  have hmax : max top 1 = top := by omega
  have hmin : min bottom rows = bottom := by omega
  simp only [setRegion, hmax, hmin, if_neg (show ¬ bottom = 0 by omega), if_pos hlt, goTo,
    Nat.sub_self, Nat.zero_min]

theorem setRegion_zero (hrows : 1 < rows) : t.setRegion 0 0 =
    { t with top := 0, bottom := rows - 1, row := 0, col := 0, wrapNext := false } := by
  have hmax : max 0 1 = 1 := rfl
  simp only [setRegion, hmax, if_true, if_pos hrows, goTo, Nat.sub_self, Nat.zero_min]

/-! ### What comes in -/

/-- A byte that has a place on the screen; `DEL` and the controls of the upper half have none. -/
def Printable (b : BitVec 8) : Prop := 0x20 ≤ b ∧ b < 0x7F ∨ 0xA0 ≤ b

instance (b : BitVec 8) : Decidable (Printable b) := inferInstanceAs (Decidable (_ ∨ _))

/-- A byte. -/
def receive (b : BitVec 8) : AnsiTerminal rows cols :=
  match t.mode with
  | .ground => if Printable b then t.put b else if b < 0x20 then t.control b else t
  | .esc => { t with mode := if b = 0x5B then .csi [] 0 else .ground }
  | .csi ps n =>
      if 0x30 ≤ b ∧ b ≤ 0x39 then { t with mode := .csi ps (n * 10 + (b - 0x30).toNat) }
      else if b = 0x3B then { t with mode := .csi (ps ++ [n]) 0 }
      else if 0x40 ≤ b ∧ b < 0x7F then execute { t with mode := .ground } b (ps ++ [n])
      else if b < 0x20 then t.control b
      else t

def feed (bs : List (BitVec 8)) : AnsiTerminal rows cols := bs.foldl receive t

@[simp] theorem feed_nil : t.feed [] = t := rfl

@[simp] theorem feed_cons (b : BitVec 8) (bs : List (BitVec 8)) :
    t.feed (b :: bs) = (t.receive b).feed bs := rfl

@[simp] theorem feed_append (bs bs' : List (BitVec 8)) :
    t.feed (bs ++ bs') = (t.feed bs).feed bs' := List.foldl_append

/-! ### Control sequences -/

/-- `t` in the middle of one. -/
def inMode (m : AnsiMode) : AnsiTerminal rows cols := { t with mode := m }

@[simp] theorem mode_inMode (m : AnsiMode) : (t.inMode m).mode = m := rfl
@[simp] theorem inMode_inMode (m m' : AnsiMode) : (t.inMode m).inMode m' = t.inMode m' := rfl

variable {t}

theorem inMode_self {m : AnsiMode} (h : t.mode = m) : t.inMode m = t := by
  subst h
  rfl

theorem feed_csi (h : t.mode = .ground) : t.feed [0x1B, 0x5B] = t.inMode (.csi [] 0) := by
  have hesc : t.receive 0x1B = t.inMode .esc := by
    rw [receive, h]
    rfl
  rw [feed_cons, feed_cons, hesc]
  rfl

theorem receive_digit (ps : List Nat) (n : Nat) {b : BitVec 8} (hb : 0x30 ≤ b ∧ b ≤ 0x39) :
    (t.inMode (.csi ps n)).receive b = t.inMode (.csi ps (n * 10 + (b - 0x30).toNat)) := by
  simp only [receive, mode_inMode, if_pos hb]
  rfl

theorem receive_semicolon (ps : List Nat) (n : Nat) :
    (t.inMode (.csi ps n)).receive 0x3B = t.inMode (.csi (ps ++ [n]) 0) := rfl

theorem receive_final (h : t.mode = .ground) (ps : List Nat) (n : Nat) {b : BitVec 8}
    (hb : 0x40 ≤ b ∧ b < 0x7F) :
    (t.inMode (.csi ps n)).receive b = t.execute b (ps ++ [n]) := by
  have hall : ∀ b : BitVec 8, 0x40 ≤ b ∧ b < 0x7F → ¬ (0x30 ≤ b ∧ b ≤ 0x39) ∧ b ≠ 0x3B := by
    decide
  obtain ⟨hdigit, hsemi⟩ := hall b hb
  simp only [receive, mode_inMode, if_neg hdigit, if_neg hsemi, if_pos hb]
  show execute (t.inMode .ground) b _ = _
  rw [inMode_self h]

/-! ### Characters -/

theorem index_of_ne (hne : t.row ≠ t.bottom) (hlt : t.row + 1 < rows) :
    t.index = { t with row := t.row + 1 } := by
  rw [index, if_neg hne, if_pos hlt]

theorem index_of_eq (heq : t.row = t.bottom) : t.index = t.scrollUp 1 := by
  rw [index, if_pos heq]

/-- The cell the next character goes to. -/
def next (t : AnsiTerminal rows cols) : Nat × Nat :=
  if t.wrapNext then (t.row + 1, 0) else (t.row, t.col)

/-- A character that there is room for: the cursor is not in the last column, or it is not in
the last row of the region or of the screen. -/
theorem put_spec (hroom : t.wrapNext = true → t.row + 1 < rows ∧ t.row ≠ t.bottom) (b : BitVec 8) :
    t.put b = { t with
      row := t.next.1
      col := if t.next.2 + 1 < cols then t.next.2 + 1 else t.next.2
      wrapNext := !decide (t.next.2 + 1 < cols)
      cells := fun r c => if r = t.next.1 ∧ c = t.next.2 then b else t.cells r c } := by
  have hwrap : t.wrap = { t with row := t.next.1, col := t.next.2, wrapNext := false } := by
    obtain ⟨row, col, wrapNext, top, bottom, mode, cells⟩ := t
    cases wrapNext with
    | false => rfl
    | true =>
        obtain ⟨hrow, hbottom⟩ := hroom rfl
        simp only [wrap, next, if_true]
        exact index_of_ne hbottom hrow
  rw [put, hwrap]
  by_cases hcol : t.next.2 + 1 < cols
  · simp [hcol]
  · simp [hcol]

theorem next_put (hroom : t.wrapNext = true → t.row + 1 < rows ∧ t.row ≠ t.bottom)
    (b : BitVec 8) : (t.put b).next =
      if t.next.2 + 1 < cols then (t.next.1, t.next.2 + 1) else (t.next.1 + 1, 0) := by
  rw [put_spec hroom b]
  generalize t.next = p
  by_cases hcol : p.2 + 1 < cols
  · simp [next, hcol]
  · simp [next, hcol]

theorem receive_printable (h : t.mode = .ground) {b : BitVec 8} (hb : Printable b) :
    t.receive b = t.put b := by
  simp only [receive, h, if_pos hb]

end AnsiTerminal

/-! ### Well-formed text -/

/-- Where in a text a reader is: `csi ps n` after the parameters `ps`, with the digits of `n` coming
in if there are any. -/
inductive TextMode
  | ground
  | esc
  | csi (ps : List Nat) (n : Option Nat)
  deriving DecidableEq

namespace TextMode

-- which final bytes there are, and for which parameters
variable (Allowed : BitVec 8 → List Nat → Prop) [∀ b ps, Decidable (Allowed b ps)]

/-- A control sequence ends with `b`. -/
def finish (b : BitVec 8) (ps : List Nat) : Option TextMode :=
  if (0x40 ≤ b ∧ b < 0x7F) ∧ Allowed b ps then some .ground else none

/-- A text of blanks and of control sequences whose parameters are decimal numbers. -/
def next : TextMode → BitVec 8 → Option TextMode
  | .ground, b => if b = 0x1B then some .esc else if b = 0x20 then some .ground else none
  | .esc, b => if b = 0x5B then some (.csi [] none) else none
  | .csi ps n, b =>
      if 0x30 ≤ b ∧ b ≤ 0x39 then some (.csi ps (some (n.getD 0 * 10 + (b - 0x30).toNat)))
      else match n with
        | none => if ps = [] then finish Allowed b [] else none
        | some n => if b = 0x3B then some (.csi (ps ++ [n]) none) else finish Allowed b (ps ++ [n])

/-- The text `bs`, from `m` on. -/
def read (m : TextMode) : List (BitVec 8) → Option TextMode
  | [] => some m
  | b :: bs => (next Allowed m b).bind fun m => read m bs

def WellFormed (bs : List (BitVec 8)) : Prop := read Allowed .ground bs = some .ground

theorem read_csi (bs : List (BitVec 8)) :
    read Allowed .ground ([0x1B, 0x5B] ++ bs) = read Allowed (.csi [] none) bs := rfl

theorem read_digit (ps : List Nat) (n : Option Nat) {b : BitVec 8} (hb : 0x30 ≤ b ∧ b ≤ 0x39)
    (bs : List (BitVec 8)) : read Allowed (.csi ps n) (b :: bs) =
      read Allowed (.csi ps (some (n.getD 0 * 10 + (b - 0x30).toNat))) bs := by
  rw [read, next.eq_def]
  simp only [if_pos hb]
  rfl

theorem read_semicolon (ps : List Nat) (n : Nat) (bs : List (BitVec 8)) :
    read Allowed (.csi ps (some n)) (0x3B :: bs) = read Allowed (.csi (ps ++ [n]) none) bs := rfl

theorem read_final (ps : List Nat) (n : Nat) {b : BitVec 8} (hb : 0x40 ≤ b ∧ b < 0x7F)
    (bs : List (BitVec 8)) : read Allowed (.csi ps (some n)) (b :: bs) =
      if Allowed b (ps ++ [n]) then read Allowed .ground bs else none := by
  have hall : ∀ b : BitVec 8, 0x40 ≤ b ∧ b < 0x7F → ¬ (0x30 ≤ b ∧ b ≤ 0x39) ∧ b ≠ 0x3B := by
    decide
  obtain ⟨hdigit, hsemi⟩ := hall b hb
  rw [read, next, if_neg hdigit]
  simp only [if_neg hsemi, finish, hb, true_and]
  split
  · rfl
  · rfl

end TextMode

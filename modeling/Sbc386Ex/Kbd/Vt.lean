import Sbc386Ex.Kbd.Buffer

/-!
# Sbc386Ex.Kbd.Vt

The escape translator of `16h_kbd.asm`: one received character through `int_irq4` and
`vt_in`, and one tick through `vt_tick`.

Each is given up to the point where it has something stuffed; what is left to do after
that is in the result.
-/

namespace Sbc386Ex.Kbd

def RESET_KEY : Byte := 0x1E
def RESET_COUNT : Byte := 3
def VT_TIMEOUT : Byte := 2

/-! ### The tables: what a terminal sends, and the scan code -/

/-- After `ESC [`. -/
def vtCsi : List (Byte × Byte) :=
  [(0x41, 0x48), (0x42, 0x50), (0x43, 0x4D), (0x44, 0x4B), (0x48, 0x47), (0x46, 0x4F)]

/-- After `ESC O`. -/
def vtSs3 : List (Byte × Byte) :=
  [(0x41, 0x48), (0x42, 0x50), (0x43, 0x4D), (0x44, 0x4B), (0x48, 0x47), (0x46, 0x4F),
   (0x50, 0x3B), (0x51, 0x3C), (0x52, 0x3D), (0x53, 0x3E)]

/-- The number in `ESC [ n ~`. -/
def vtTilde : List (Byte × Byte) :=
  [(1, 0x47), (2, 0x52), (3, 0x53), (4, 0x4F), (5, 0x49), (6, 0x51),
   (11, 0x3B), (12, 0x3C), (13, 0x3D), (14, 0x3E), (15, 0x3F),
   (17, 0x40), (18, 0x41), (19, 0x42), (20, 0x43), (21, 0x44), (23, 0x85), (24, 0x86)]

/-- `vt_lookup`: the scan code, with no ASCII. -/
def vtLookup (bx : List (Byte × Byte)) (al : Byte) : Option Word :=
  (bx.find? fun p => p.1 = al).map fun p => p.2 ++ (0 : Byte)

/-! ### A character -/

/-- How `vt_in` ends. -/
inductive VtOut
  /-- the carry is set and nothing was stuffed -/
  | consumed
  /-- the carry is clear: the character is stuffed as itself -/
  | pass (al : Byte)
  /-- the held ESC is stuffed, and then the character -/
  | escape (al : Byte)
  /-- what the table has is stuffed, and then `.finish` -/
  | finish (ax : Option Word)
  deriving DecidableEq

def vtIn (k : Bda) (al : Byte) : Bda × VtOut :=
  if k.vtState = 0 then
    if al ≠ ASCII_ESC then (k, .pass al)
    else ({ k with vtState := 1, vtTimer := VT_TIMEOUT }, .consumed)
  else if k.vtState = 2 then
    -- the number is kept in a byte
    if ¬ al < 0x30 ∧ ¬ 0x39 < al then
      ({ k with vtDigit := k.vtDigit * 10 + (al - 0x30), vtTimer := VT_TIMEOUT }, .consumed)
    else if al = 0x7E then (k, .finish (vtLookup vtTilde k.vtDigit))
    else (k, .finish (vtLookup vtCsi al))
  else if 2 < k.vtState then (k, .finish (vtLookup vtSs3 al))
  else if al = 0x5B then
    ({ k with vtState := 2, vtDigit := 0, vtTimer := VT_TIMEOUT }, .consumed)
  else if al = 0x4F then ({ k with vtState := 3, vtTimer := VT_TIMEOUT }, .consumed)
  else ({ k with vtState := 0 }, .escape al)

/-- `.finish` of `vt_in`, and `.drop` of `vt_tick`. -/
def vtFinish (k : Bda) : Bda := { k with vtState := 0 }

/-- One character of `int_irq4`, from `RBR0` on; nothing where the source goes to `reboot_`. -/
def receive (k : Bda) (rbr : Byte) : Option (Bda × VtOut) :=
  let al := rbr &&& 0x7F
  if al = RESET_KEY then
    let k := { k with altInput := k.altInput + 1 }
    if k.altInput < RESET_COUNT then some (k, .consumed) else none
  else some (vtIn { k with altInput := 0 } al)

/-! ### A tick -/

/-- How `vt_tick` ends. -/
inductive TickOut
  | quiet
  /-- `.drop` -/
  | drop
  /-- the held ESC is stuffed, and then `.drop` -/
  | escape
  deriving DecidableEq

def vtTick (k : Bda) : Bda × TickOut :=
  if k.vtState = 0 then (k, .quiet)
  else
    let k := { k with vtTimer := k.vtTimer - 1 }
    if k.vtTimer ≠ 0 then (k, .quiet)
    else if k.vtState ≠ 1 then (k, .drop)
    else (k, .escape)

/-! ### The buffer is left alone -/

/-- The two agree on the buffer. -/
def SameBuffer (k k' : Bda) : Prop :=
  k'.bufferHead = k.bufferHead ∧ k'.bufferTail = k.bufferTail ∧ k'.ram = k.ram

theorem SameBuffer.ring {k k' : Bda} (h : SameBuffer k k') : k'.ring = k.ring := by
  obtain ⟨hh, ht, hr⟩ := h
  simp [Bda.ring, Bda.load, hh, ht, hr]

theorem SameBuffer.standing {k k' : Bda} (h : SameBuffer k k') (hk : k.Standing) : k'.Standing := by
  rw [Bda.Standing, h.1, h.2.1]
  exact hk

theorem vtIn_buffer (k : Bda) (al : Byte) : SameBuffer k (vtIn k al).1 := by
  unfold vtIn
  split_ifs <;> exact ⟨rfl, rfl, rfl⟩

theorem receive_buffer {k k' : Bda} {rbr : Byte} {o : VtOut} (h : receive k rbr = some (k', o)) :
    SameBuffer k k' := by
  simp only [receive] at h
  split_ifs at h
  · cases h
    exact ⟨rfl, rfl, rfl⟩
  · have hin := vtIn_buffer { k with altInput := 0 } (rbr &&& 0x7F)
    rw [Option.some.inj h] at hin
    exact hin

theorem vtTick_buffer (k : Bda) : SameBuffer k (vtTick k).1 := by
  simp only [vtTick]
  split_ifs <;> exact ⟨rfl, rfl, rfl⟩

theorem vtFinish_buffer (k : Bda) : SameBuffer k (vtFinish k) := ⟨rfl, rfl, rfl⟩

end Sbc386Ex.Kbd

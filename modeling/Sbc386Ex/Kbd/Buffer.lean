import Mathlib.Data.Fintype.Basic
import Sbc386Ex.Lib.RingBuffer
import Sbc386Ex.Machine

/-!
# Sbc386Ex.Kbd.Buffer

The keyboard buffer of `16h_kbd.asm`: sixteen words at `40:1E`, between which the head
and the tail move.
-/

namespace Sbc386Ex.Kbd

def KBD_START : Word := 0x1E
def KBD_END : Word := 0x3E
def ASCII_BS : Byte := 0x08
def ASCII_ESC : Byte := 0x1B

/-- The BIOS data area as the keyboard code uses it: the fields it names, and the
segment itself, where the words of the buffer are. -/
structure Bda where
  bufferHead : Word
  bufferTail : Word
  altInput : Byte
  vtState : Byte
  vtDigit : Byte
  vtTimer : Byte
  ram : Word → Byte

namespace Bda

/-- `mov ax,[off]` -/
def load (k : Bda) (off : Word) : Word := k.ram (off + 1) ++ k.ram off

/-- `mov [off],cx` -/
def store (k : Bda) (off cx : Word) : Bda :=
  { k with ram := Function.update (Function.update k.ram off (cx.setWidth 8))
             (off + 1) (cx.extractLsb' 8 8) }

@[simp] theorem ram_store (k : Bda) (off cx : Word) : (k.store off cx).ram =
    Function.update (Function.update k.ram off (cx.setWidth 8)) (off + 1) (cx.extractLsb' 8 8) :=
  rfl

end Bda

/-- The BIOS data area as `kbd_init` leaves it, around whatever else the segment holds. -/
def kbdInit (ram : Word → Byte) : Bda := ⟨KBD_START, KBD_START, 0, 0, 0, 0, ram⟩

/-- The position after `bx`, which wraps at the end of the buffer. -/
def kbdNext (bx : Word) : Word := if bx + 2 < KBD_END then bx + 2 else KBD_START

/-- `kbd_stuff_word`: the buffer with the word in it, or nothing where the source goes to
`.full`. -/
def kbdStuffWord (k : Bda) (cx : Word) : Option Bda :=
  let bx := k.bufferTail
  let ax := kbdNext bx
  if ax = k.bufferHead then none
  else some { k.store bx cx with bufferTail := ax }

/-- The scan code of the key that would produce a character. -/
def kbdScan : List Byte := [
  0x03, 0x1E, 0x30, 0x2E, 0x20, 0x12, 0x21, 0x22, 0x0E, 0x0F, 0x24, 0x25, 0x26, 0x1C, 0x31, 0x18,
  0x19, 0x10, 0x13, 0x1F, 0x14, 0x16, 0x2F, 0x11, 0x2D, 0x15, 0x2C, 0x01, 0x2B, 0x1B, 0x07, 0x0C,
  0x39, 0x02, 0x28, 0x04, 0x05, 0x06, 0x08, 0x28, 0x0A, 0x0B, 0x09, 0x0D, 0x33, 0x0C, 0x34, 0x35,
  0x0B, 0x02, 0x03, 0x04, 0x05, 0x06, 0x07, 0x08, 0x09, 0x0A, 0x27, 0x27, 0x33, 0x0D, 0x34, 0x35,
  0x03, 0x1E, 0x30, 0x2E, 0x20, 0x12, 0x21, 0x22, 0x23, 0x17, 0x24, 0x25, 0x26, 0x32, 0x31, 0x18,
  0x19, 0x10, 0x13, 0x1F, 0x14, 0x16, 0x2F, 0x11, 0x2D, 0x15, 0x2C, 0x1A, 0x2B, 0x1B, 0x07, 0x0C,
  0x29, 0x1E, 0x30, 0x2E, 0x20, 0x12, 0x21, 0x22, 0x23, 0x17, 0x24, 0x25, 0x26, 0x32, 0x31, 0x18,
  0x19, 0x10, 0x13, 0x1F, 0x14, 0x16, 0x2F, 0x11, 0x2D, 0x15, 0x2C, 0x1A, 0x2B, 0x1B, 0x29, 0x53]

/-- The word `kbd_stuff` makes of the character `al`. What the serial console delivers is
masked to seven bits, so the table is never read past its end. -/
def kbdWord (al : Byte) : Word :=
  let al := if al = 0x7F then ASCII_BS else al
  kbdScan.getD al.toNat 0 ++ al

/-! ### The ring -/

/-- The offset of a slot. -/
def slotOffset (i : Fin 16) : Word := KBD_START + 2 * BitVec.ofNat 16 i

/-- Even, and inside the buffer. -/
def InBuffer (off : Word) : Prop :=
  off.toNat % 2 = 0 ∧ KBD_START.toNat ≤ off.toNat ∧ off.toNat < KBD_END.toNat

/-- The slot at an offset. -/
def slotOf (off : Word) : Fin 16 := Fin.ofNat 16 ((off.toNat - KBD_START.toNat) / 2)

/-- The ring a BIOS data area holds. -/
def Bda.ring (k : Bda) : RingBuffer Word 16 where
  slot := fun i => k.load (slotOffset i)
  head := slotOf k.bufferHead
  tail := slotOf k.bufferTail

theorem slotOf_slotOffset : ∀ i, slotOf (slotOffset i) = i := by decide

theorem slotOffset_inj {i j : Fin 16} : slotOffset i = slotOffset j ↔ i = j := by
  constructor
  · intro h
    rw [← slotOf_slotOffset i, h, slotOf_slotOffset]
  · exact congrArg slotOffset

theorem kbdNext_slotOffset : ∀ i, kbdNext (slotOffset i) = slotOffset (i + 1) := by decide

theorem inBuffer_slotOffset : ∀ i, InBuffer (slotOffset i) := by
  unfold InBuffer
  decide

theorem InBuffer.eq_slotOffset {off : Word} (h : InBuffer off) : off = slotOffset (slotOf off) := by
  obtain ⟨heven, hlo, hhi⟩ := h
  apply BitVec.eq_of_toNat_eq
  simp [slotOf, slotOffset, KBD_START, KBD_END] at hlo hhi ⊢
  omega

/-- The words of two slots do not overlap. -/
theorem slotOffset_apart : ∀ i j, i ≠ j →
    slotOffset i ≠ slotOffset j ∧ slotOffset i ≠ slotOffset j + 1 ∧
      slotOffset i + 1 ≠ slotOffset j ∧ slotOffset i + 1 ≠ slotOffset j + 1 := by
  decide

theorem append_bytes (cx : Word) : (cx.extractLsb' 8 8 : Byte) ++ (cx.setWidth 8 : Byte) = cx := by
  apply BitVec.eq_of_getLsbD_eq
  intro i hi
  rw [BitVec.getLsbD_append]
  by_cases h : i < 8
  · simp [h]
  · have h8 : i - 8 < 8 := by omega
    have hback : 8 + (i - 8) = i := by omega
    simp [h, h8, hback]

theorem load_store_self (k : Bda) (off cx : Word) : (k.store off cx).load off = cx := by
  have hne : off ≠ off + 1 := by simp
  rw [Bda.load, Bda.ram_store, Function.update_self, Function.update_of_ne hne, Function.update_self,
    append_bytes]

theorem load_store_slot (k : Bda) {i j : Fin 16} (h : i ≠ j) (cx : Word) :
    (k.store (slotOffset j) cx).load (slotOffset i) = k.load (slotOffset i) := by
  obtain ⟨h1, h2, h3, h4⟩ := slotOffset_apart i j h
  rw [Bda.load, Bda.ram_store, Function.update_of_ne h4, Function.update_of_ne h3,
    Function.update_of_ne h2, Function.update_of_ne h1]
  rfl

/-- Storing in the slot at the tail changes that slot of the ring. -/
theorem slot_store (k : Bda) (j : Fin 16) (cx : Word) :
    (k.store (slotOffset j) cx).ring.slot = Function.update k.ring.slot j cx := by
  funext i
  by_cases h : i = j
  · subst h
    rw [Function.update_self]
    exact load_store_self k _ cx
  · rw [Function.update_of_ne h]
    exact load_store_slot k h cx

/-- Head and tail are where slots are. -/
def Bda.Standing (k : Bda) : Prop := InBuffer k.bufferHead ∧ InBuffer k.bufferTail

theorem standing_kbdInit (ram : Word → Byte) : (kbdInit ram).Standing :=
  ⟨inBuffer_slotOffset 0, inBuffer_slotOffset 0⟩

section Standing

variable {k k' : Bda} (hk : k.Standing)

include hk

theorem Bda.Standing.head_eq : k.bufferHead = slotOffset k.ring.head := hk.1.eq_slotOffset

theorem Bda.Standing.tail_eq : k.bufferTail = slotOffset k.ring.tail := hk.2.eq_slotOffset

/-- The source's test for an empty buffer. -/
theorem Bda.Standing.head_eq_tail_iff : k.bufferHead = k.bufferTail ↔ k.ring.head = k.ring.tail := by
  rw [hk.head_eq, hk.tail_eq, slotOffset_inj]

/-- The word at the head. -/
theorem Bda.Standing.load_head : k.load k.bufferHead = k.ring.slot k.ring.head := by
  conv_lhs => rw [hk.head_eq]
  rfl

/-- **What `kbd_stuff_word` comes to**: the word at the end of the queue, or, in a full ring,
nothing. -/
theorem kbdStuffWord_spec (cx : Word) :
    match kbdStuffWord k cx with
    | none => k.ring.Full
    | some k' => ¬ k.ring.Full ∧ k'.ring = k.ring.push cx ∧ k'.Standing ∧
        k'.bufferHead = k.bufferHead := by
  have hfull : kbdNext k.bufferTail = k.bufferHead ↔ k.ring.Full := by
    rw [hk.head_eq, hk.tail_eq, kbdNext_slotOffset, slotOffset_inj]
    rfl
  by_cases h : kbdNext k.bufferTail = k.bufferHead
  · simp only [kbdStuffWord, h, if_true]
    exact hfull.mp h
  · simp only [kbdStuffWord, h, if_false]
    refine ⟨mt hfull.mpr h, ?_, ⟨hk.1, ?_⟩, rfl⟩
    · have hslot := slot_store k k.ring.tail cx
      rw [← hk.tail_eq] at hslot
      have htail : slotOf (kbdNext k.bufferTail) = k.ring.tail + 1 := by
        rw [hk.tail_eq, kbdNext_slotOffset, slotOf_slotOffset]
      show RingBuffer.mk (k.store k.bufferTail cx).ring.slot k.ring.head
        (slotOf (kbdNext k.bufferTail)) = _
      rw [hslot, htail]
      rfl
    · show InBuffer (kbdNext k.bufferTail)
      rw [hk.tail_eq, kbdNext_slotOffset]
      exact inBuffer_slotOffset _

/-- Moving the head on takes the first word out. -/
theorem Bda.Standing.pop :
    let k' : Bda := { k with bufferHead := kbdNext k.bufferHead }
    k'.Standing ∧ k'.ring = k.ring.pop := by
  refine ⟨⟨?_, hk.2⟩, ?_⟩
  · show InBuffer (kbdNext k.bufferHead)
    rw [hk.head_eq, kbdNext_slotOffset]
    exact inBuffer_slotOffset _
  · have hhead : slotOf (kbdNext k.bufferHead) = k.ring.head + 1 := by
      rw [hk.head_eq, kbdNext_slotOffset, slotOf_slotOffset]
    show RingBuffer.mk k.ring.slot (slotOf (kbdNext k.bufferHead)) k.ring.tail = _
    rw [hhead]
    rfl

end Standing

end Sbc386Ex.Kbd

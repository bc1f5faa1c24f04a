import Sbc386Ex.Kbd.Buffer

/-!
# Sbc386Ex.Kbd.Scan

The PS/2 keyboard of `16h_kbd.asm`: what INT 09h does with a scan code of set 1.

Of `kbd_leds` there is the byte it remembers; the two bytes it sends the keyboard and the two
acknowledgements it takes are left out.
-/

namespace Sbc386Ex.Kbd

def KF_RSHIFT : Byte := 0x01
def KF_LSHIFT : Byte := 0x02
def KF_CTRL : Byte := 0x04
def KF_ALT : Byte := 0x08
def KF_SCROLL : Byte := 0x10
def KF_NUM : Byte := 0x20
def KF_CAPS : Byte := 0x40

def KF3_E1 : Byte := 0x01
def KF3_E0 : Byte := 0x02

/-- What `kbd_scan1` reads and writes in the BIOS data area. -/
structure ScanState where
  kbdFlag : Byte
  kbdFlag2 : Byte
  kbdFlag3 : Byte
  buffer : Bda

/-- The fields as `kbd_init` leaves them. -/
def scanInit (ram : Word → Byte) : ScanState := ⟨0, 0, 0, kbdInit ram⟩

/-! ### The tables -/

def ktNormal : List Byte := [
  0x1B, 0x31, 0x32, 0x33, 0x34, 0x35, 0x36, 0x37, 0x38, 0x39, 0x30, 0x2D, 0x3D, 0x08, 0x09,
  0x71, 0x77, 0x65, 0x72, 0x74, 0x79, 0x75, 0x69, 0x6F, 0x70, 0x5B, 0x5D, 0x0D, 0x00,
  0x61, 0x73, 0x64, 0x66, 0x67, 0x68, 0x6A, 0x6B, 0x6C, 0x3B, 0x27, 0x60, 0x00, 0x5C,
  0x7A, 0x78, 0x63, 0x76, 0x62, 0x6E, 0x6D, 0x2C, 0x2E, 0x2F, 0x00, 0x2A, 0x00, 0x20]

def ktShift : List Byte := [
  0x1B, 0x21, 0x40, 0x23, 0x24, 0x25, 0x5E, 0x26, 0x2A, 0x28, 0x29, 0x5F, 0x2B, 0x08, 0x00,
  0x51, 0x57, 0x45, 0x52, 0x54, 0x59, 0x55, 0x49, 0x4F, 0x50, 0x7B, 0x7D, 0x0D, 0x00,
  0x41, 0x53, 0x44, 0x46, 0x47, 0x48, 0x4A, 0x4B, 0x4C, 0x3A, 0x22, 0x7E, 0x00, 0x7C,
  0x5A, 0x58, 0x43, 0x56, 0x42, 0x4E, 0x4D, 0x3C, 0x3E, 0x3F, 0x00, 0x2A, 0x00, 0x20]

def ktCtrl : List Byte := [
  0x1B, 0xFF, 0xFF, 0xFF, 0xFF, 0xFF, 0x1E, 0xFF, 0xFF, 0xFF, 0xFF, 0x1F, 0xFF, 0x7F, 0xFF,
  0x11, 0x17, 0x05, 0x12, 0x14, 0x19, 0x15, 0x09, 0x0F, 0x10, 0x1B, 0x1D, 0x0A, 0xFF,
  0x01, 0x13, 0x04, 0x06, 0x07, 0x08, 0x0A, 0x0B, 0x0C, 0xFF, 0xFF, 0xFF, 0xFF, 0x1C,
  0x1A, 0x18, 0x03, 0x16, 0x02, 0x0E, 0x0D, 0xFF, 0xFF, 0xFF, 0xFF, 0xFF, 0xFF, 0x20]

def ktKeypad : List Byte :=
  [0x37, 0x38, 0x39, 0x2D, 0x34, 0x35, 0x36, 0x2B, 0x31, 0x32, 0x33, 0x30, 0x2E]

def ktKpCtrl : List Byte :=
  [0x77, 0xFF, 0x84, 0xFF, 0x73, 0xFF, 0x74, 0xFF, 0x75, 0xFF, 0x76, 0xFF, 0xFF]

/-! ### `kbd_lookup` -/

/-- The entry of a table for a scan code; the table begins at `first`. There is none for scan
code 00, which no key has. -/
def ktEntry (table : List Byte) (first al : Byte) : Byte := table.getD (al - first).toNat 0

/-- `.caps`: Caps Lock inverts shift for letters. -/
def capsed (al : Byte) : Byte :=
  if al < 0x61 then if al < 0x41 then al else if 0x5A < al then al else al + 0x20
  else if 0x7A < al then al else al - 0x20

/-- `.typewriter`, with `kbd_flag` in `CL`. -/
def ktTypewriter (al cl : Byte) : Option Word :=
  if cl &&& KF_ALT ≠ 0 then some (al ++ (0 : Byte))
  else if cl &&& KF_CTRL ≠ 0 then
    let c := ktEntry ktCtrl 0x01 al
    if c = 0xFF then none else some (al ++ c)
  else
    let c :=
      if cl &&& (KF_LSHIFT + KF_RSHIFT) ≠ 0 then ktEntry ktShift 0x01 al
      else ktEntry ktNormal 0x01 al
    some (al ++ (if cl &&& KF_CAPS = 0 then c else capsed c))

/-- `.fkey` -/
def ktFkey (al cl : Byte) : Word :=
  let al := if al < 0x57 then al else al - (0x57 - 0x0A)
  let al := al - 0x3B
  let al :=
    if cl &&& KF_ALT ≠ 0 then
      let al := al + 0x68
      if al < 0x72 then al else al + (0x8B - 0x72)
    else if cl &&& KF_CTRL ≠ 0 then
      let al := al + 0x5E
      if al < 0x68 then al else al + (0x89 - 0x68)
    else if cl &&& (KF_LSHIFT + KF_RSHIFT) ≠ 0 then
      let al := al + 0x54
      if al < 0x5E then al else al + (0x87 - 0x5E)
    else
      let al := al + 0x3B
      if al < 0x45 then al else al + (0x85 - 0x45)
  al ++ (0 : Byte)

/-- `.keypad`, with the E0 flag in `DH`. -/
def ktKeypadWord (al dh cl : Byte) : Option Word :=
  if cl &&& KF_ALT ≠ 0 then some (al ++ (0 : Byte))
  else if cl &&& KF_CTRL ≠ 0 then
    let c := ktEntry ktKpCtrl 0x47 al
    if c = 0xFF then none else some (c ++ (0 : Byte))
  else
    let dl : Byte :=
      if dh &&& KF3_E0 ≠ 0 then 0
      else
        let dl : Byte := if cl &&& KF_NUM ≠ 0 then 1 else 0
        if cl &&& (KF_LSHIFT + KF_RSHIFT) = 0 then dl else dl ^^^ 1
    let c := ktEntry ktKeypad 0x47 al
    if c = 0x2D ∨ c = 0x2B ∨ dl &&& 1 ≠ 0 then some (al ++ c) else some (al ++ (0 : Byte))

/-- `kbd_lookup`: the word of a key, if the code has a meaning. -/
def kbdLookup (al bl cl : Byte) : Option Word :=
  if al ≤ 0x39 then ktTypewriter al cl
  else if al < 0x3B then none
  else if al ≤ 0x44 then some (ktFkey al cl)
  else if al < 0x47 then none
  else if al ≤ 0x53 then ktKeypadWord al bl cl
  else if al = 0x57 then some (ktFkey al cl)
  else if al = 0x58 then some (ktFkey al cl)
  else none

/-! ### `kbd_scan1` -/

/-- `kbd_leds` -/
def kbdLeds (s : ScanState) : ScanState := { s with kbdFlag2 := (s.kbdFlag >>> 4) &&& 7 }

/-- `.shifter`: `kbd_flag` after the make of a shift-state key, if it was one. -/
def shifter (al bl flag : Byte) : Option Byte :=
  if al = 0x2A then some (if bl &&& KF3_E0 ≠ 0 then flag else flag ||| KF_LSHIFT)
  else if al = 0x36 then some (if bl &&& KF3_E0 ≠ 0 then flag else flag ||| KF_RSHIFT)
  else if al = 0x1D then some (flag ||| KF_CTRL)
  else if al = 0x38 then some (flag ||| KF_ALT)
  else if al = 0x3A then some (flag ^^^ KF_CAPS)
  else if al = 0x45 then if bl &&& KF3_E0 ≠ 0 then none else some (flag ^^^ KF_NUM)
  else if al = 0x46 then some (flag ^^^ KF_SCROLL)
  else none

/-- `.release` -/
def release (al bl : Byte) (s : ScanState) : ScanState :=
  let al := al &&& 0x7F
  if al = 0x1D then { s with kbdFlag := s.kbdFlag &&& ~~~KF_CTRL }
  else if al = 0x38 then { s with kbdFlag := s.kbdFlag &&& ~~~KF_ALT }
  else if bl &&& KF3_E0 ≠ 0 then kbdLeds s
  else if al = 0x2A then { s with kbdFlag := s.kbdFlag &&& ~~~KF_LSHIFT }
  else if al = 0x36 then { s with kbdFlag := s.kbdFlag &&& ~~~KF_RSHIFT }
  else s

/-- `kbd_stuff_ax`. Where there is no room the word is gone, and a bell is heard. -/
def kbdStuffAx (ax : Word) (s : ScanState) : ScanState :=
  { s with buffer := (kbdStuffWord s.buffer ax).getD s.buffer }

/-- `kbd_scan1`, with the scan code in `AL`. There is no state after Ctrl-Alt-Del. -/
def kbdScan1 (al : Byte) (s : ScanState) : Option ScanState :=
  if al = 0xE0 then some { s with kbdFlag3 := s.kbdFlag3 ||| KF3_E0 }
  else if al = 0xE1 then some { s with kbdFlag3 := s.kbdFlag3 ||| KF3_E1 }
  else if s.kbdFlag3 &&& KF3_E1 ≠ 0 then
    if al ≠ 0xC5 then some (kbdLeds s)
    else some { s with kbdFlag3 := s.kbdFlag3 &&& ~~~(KF3_E1 + KF3_E0) }
  else
    let bl := s.kbdFlag3
    let s := { s with kbdFlag3 := s.kbdFlag3 &&& ~~~KF3_E0 }
    if al &&& 0x80 ≠ 0 then some (release al bl s)
    else
      match shifter al bl s.kbdFlag with
      | some flag => some (kbdLeds { s with kbdFlag := flag })
      | none =>
          if al = 0x53 ∧ s.kbdFlag &&& (KF_CTRL + KF_ALT) = KF_CTRL + KF_ALT then none
          else
            match kbdLookup al bl s.kbdFlag with
            | some ax => some (kbdLeds (kbdStuffAx ax s))
            | none => some (kbdLeds s)

/-- `int_irq1`: there is a byte waiting, or the interrupt is spurious. -/
def intIrq1 (waiting : Option Byte) (s : ScanState) : Option ScanState :=
  match waiting with
  | some al => kbdScan1 al s
  | none => some s

end Sbc386Ex.Kbd

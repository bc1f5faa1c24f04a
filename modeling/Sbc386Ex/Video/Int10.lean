import Sbc386Ex.Video.Vga3

/-!
# Sbc386Ex.Video.Int10

INT 10h of `10h_video.asm`: the two consoles, and every function of its table.

Of the fields `v_fn00` sets, those that no other function reads are left out.
-/

namespace Sbc386Ex.Video

open Cpu (low high)

/-- The registers of the frame that a call is made with, and comes back with. -/
structure Regs where
  ax : Word
  bx : Word
  cx : Word
  dx : Word

/-! ### The serial console -/

/-- `vputc`: `AL` goes through INT 14h. -/
def vputc (al : Byte) (v : Display) : Display :=
  if v.console &&& CON_SERIAL = 0 then v else { v with sent := v.sent ++ [al] }

/-- `vputdec2` -/
def vputdec2 (al : Byte) (v : Display) : Display :=
  vputc (al % 10 + 0x30) (vputc (al / 10 + 0x30) v)

/-- `vcsi`: `ESC [` -/
def vcsi (v : Display) : Display := vputc 0x5B (vputc 0x1B v)

/-- `vgoto`, to the cursor in the data area. -/
def vgoto (v : Display) : Display :=
  let p := v.gBdaCursor
  let v := vputdec2 (p.row + 1) (vcsi v)
  let v := vputdec2 (p.col + 1) (vputc 0x3B v)
  vputc 0x48 v

/-! ### The cursor -/

def vsetcur (p : Pos) (v : Display) : Display :=
  let v := { v with vidCursor := Function.update v.vidCursor v.page p }
  if v.console &&& CON_VIDEO = 0 then v else vga3Cursor p v

/-- `g_scroll1` -/
def gScroll1 (v : Display) : Display :=
  if v.console &&& CON_VIDEO = 0 then v else gScroll .up 1 0x07 wholeScreen v

def vAdvance (v : Display) : Display :=
  let p := v.gBdaCursor
  if p.col + 1 < 80 then vsetcur { p with col := p.col + 1 } v
  else if p.row + 1 < 25 then vsetcur ⟨p.row + 1, 0⟩ v
  else vsetcur ⟨24, 0⟩ (gScroll1 v)

def vCol0 (v : Display) : Display := vsetcur { v.gBdaCursor with col := 0 } v

def vNextrow (v : Display) : Display :=
  let p := v.gBdaCursor
  if p.row + 1 < 25 then vsetcur { p with row := p.row + 1 } v
  else vsetcur { p with row := 24 } (gScroll1 v)

def vBacksp (v : Display) : Display :=
  let p := v.gBdaCursor
  vsetcur (if p.col = 0 then p else { p with col := p.col - 1 }) v

/-! ### The functions -/

/-- How a call ends: the display, and the registers if it comes back. -/
abbrev Outcome := Display × Option Regs

variable (r : Regs) (v : Display)

def vDone : Outcome := (v, some r)

def vFn00 : Outcome :=
  let v := { v with
    vidMode := low r.ax &&& 0x7F
    vidColumns := 80
    vidActivePage := 0
    vidCursorMode := (13 : Byte) ++ (14 : Byte)
    vidCursor := fun _ => ⟨0, 0⟩ }
  if low r.ax &&& 0x80 = 0 then
    let v := vputc 0x4A (vputc 0x32 (vcsi v))
    let v := if v.console &&& CON_VIDEO = 0 then v else vga3Clear v
    vDone r (vgoto v)
  else vDone r v

def vFn01 : Outcome :=
  let v := { v with vidCursorMode := r.cx }
  vDone r (if v.console &&& CON_VIDEO = 0 then v else vga3Shape r.cx v)

def vFn02 : Outcome :=
  let v := { v with vidActivePage := high r.bx &&& 7 }
  let row := high r.dx
  let col := low r.dx
  let p : Pos := ⟨if row < 25 then row else 24, if col < 80 then col else 79⟩
  vDone r (vgoto (vsetcur p v))

def vFn03 : Outcome :=
  let v := { v with vidActivePage := high r.bx &&& 7 }
  let p := v.gBdaCursor
  vDone { r with dx := p.row ++ p.col, cx := v.vidCursorMode } v

def vFn05 : Outcome := vDone r (vgoto { v with vidActivePage := low r.ax &&& 7 })

/-- `.blank`, the rows from `AL` on: `ESC [ row ; column H`, `ESC [ K`. -/
def eraseRows (cl : Byte) : Nat → Byte → Display → Display
  | 0, _, v => v
  | n + 1, al, v =>
      let v := vputdec2 (al + 1) (vcsi v)
      let v := vputdec2 (cl + 1) (vputc 0x3B v)
      let v := vputc 0x4B (vcsi (vputc 0x48 v))
      eraseRows cl n (al + 1) v

/-- The serial part of `v_scroll`. No row number is above a bottom row of `FFh`, and the loop
goes on with row 0 there: the call does not come back, and what it sends is left out. -/
def vScrollSerial (bl : Byte) : Outcome :=
  let al := low r.ax
  let w : Window := ⟨high r.cx, low r.cx, high r.dx, low r.dx⟩
  if al = 0 ∨ ¬ al < w.bottom - w.top + 1 then
    if w.bottom = 0xFF then (v, none)
    else vDone r (vgoto (eraseRows w.left (w.bottom.toNat + 1 - w.top.toNat) w.top v))
  else
    let v := vputdec2 (w.top + 1) (vcsi v)
    let v := vputdec2 (w.bottom + 1) (vputc 0x3B v)
    let v := vputdec2 al (vcsi (vputc 0x72 v))
    let v := vputc 0x72 (vcsi (vputc bl v))
    vDone r (vgoto v)

def vScroll (way : Way) : Outcome :=
  let w : Window := ⟨high r.cx, low r.cx, high r.dx, low r.dx⟩
  let v := if v.console &&& CON_VIDEO = 0 then v else gScroll way (low r.ax) (high r.bx) w v
  vScrollSerial r v (match way with
    | .up => 0x53
    | .down => 0x54)

def vFn06 : Outcome := vScroll r v .up
def vFn07 : Outcome := vScroll r v .down

def vFn08 : Outcome :=
  vDone { r with ax := if v.console &&& CON_VIDEO = 0 then 0x0720 else vga3Getcell v } v

/-- `vputc` of the same character, over and over. -/
def vputcs (al : Byte) : Nat → Display → Display
  | 0, v => v
  | n + 1, v => vputcs al n (vputc al v)

/-- `v_fn09` and `v_fn0A` -/
def vFn09 : Outcome :=
  if r.cx = 0 then vDone r v
  else
    let al := low r.ax
    let v :=
      if v.console &&& CON_VIDEO = 0 then v
      else vga3Cells al (low r.bx) r.cx (if high r.ax = 0x09 then 1 else 0) v
    vDone r (vgoto (vputcs al r.cx.toNat v))

def vFn0E : Outcome :=
  let al := low r.ax
  if al = 0x0D then vDone r (vCol0 (vputc al v))
  else if al = 0x0A then vDone r (vNextrow (vputc al v))
  else if al = 0x08 then vDone r (vBacksp (vputc al v))
  else if al = 0x07 then vDone r (vputc al v)
  else if al < 0x20 then vDone r (vputc al v)
  else
    let v := vputc al v
    let v := if v.console &&& CON_VIDEO = 0 then v else vga3Putc al v
    vDone r (vAdvance v)

def vFn0F : Outcome :=
  vDone { r with
    ax := low v.vidColumns ++ v.vidMode
    bx := v.vidActivePage ++ low r.bx } v

def vFn12 : Outcome :=
  if low r.bx ≠ 0x10 then vDone r v else vDone { r with bx := 0x0003, cx := 0x0009 } v

def vFn1A : Outcome :=
  if low r.ax ≠ 0 then vDone r v
  else vDone { r with ax := high r.ax ++ (0x1A : Byte), bx := 0x0008 } v

/-- `v_tab` -/
def vTab : List (Regs → Display → Outcome) :=
  [vFn00, vFn01, vFn02, vFn03, vDone, vFn05, vFn06, vFn07, vFn08, vFn09, vFn09, vDone, vDone, vDone,
    vFn0E, vFn0F, vDone, vDone, vFn12, vDone, vDone, vDone, vDone, vDone, vDone, vDone, vFn1A]

/-- INT 10h. -/
def int10h : Outcome :=
  match vTab[(high r.ax).toNat]? with
  | some entry => entry r v
  | none => vDone r v

end Sbc386Ex.Video

import Sbc386Ex.Cpu

/-!
# Sbc386Ex.Video.Vga3

The VGA3 board of `vga3.asm`: 25 rows of 80 cells in its RAM, a character and an attribute
each, and the routines that write them.

The wait for the beam in front of every write (`beam_avoid`) preserves everything and is
left out.
-/

namespace Sbc386Ex.Video

open Cpu (low high)

def CON_SERIAL : Byte := 0x01
def CON_VIDEO : Byte := 0x02

/-- A cursor word: the row is the high byte. -/
structure Pos where
  row : Byte
  col : Byte
  deriving DecidableEq

/-- The video fields of the BIOS data area that INT 10h reads, the board, and the serial line. -/
structure Display where
  console : Byte
  vidMode : Byte
  vidColumns : Word
  vidActivePage : Byte
  vidCursorMode : Word
  vidCursor : Fin 8 → Pos
  crtc : Byte → Byte
  /-- the RAM at `B8000h`, by offset -/
  ram : Word → Byte
  /-- the offsets that were written, the last one first -/
  wrote : List Word
  /-- the bytes that went down the serial line -/
  sent : List Byte

namespace Display

variable (v : Display)

def poke (off : Word) (b : Byte) : Display :=
  { v with ram := Function.update v.ram off b, wrote := off :: v.wrote }

/-- `and bl,7` -/
def page : Fin 8 := Fin.ofNat 8 v.vidActivePage.toNat

/-- `g_bda_cursor`, and `vcursor` -/
def gBdaCursor : Pos := v.vidCursor v.page

end Display

/-! ### Addressing -/

/-- `g_cell`: the byte offset of a cell. -/
def gCell (p : Pos) : Word :=
  let ax : Word := p.row.setWidth 16 * 80
  let ax := ax + p.col.setWidth 16
  ax + ax

/-- `g_crtc` -/
def gCrtc (ah al : Byte) (v : Display) : Display :=
  { v with crtc := Function.update v.crtc al ah }

/-! ### The primitives -/

def vga3Putc (al : Byte) (v : Display) : Display := v.poke (gCell v.gBdaCursor) al

/-- The rounds of `loop`: a count of zero goes all the way round. -/
def loopRounds (cx : Word) : Nat := if cx = 0 then 65536 else cx.toNat

/-- `.char` of `vga3_cells`. -/
def storeChars (al : Byte) : Nat → Word → Display → Word × Display
  | 0, di, v => (di, v)
  | n + 1, di, v => storeChars al n (di + 2) (v.poke di al)

/-- `rep stosw` -/
def storeWords (ax : Word) : Nat → Word → Display → Word × Display
  | 0, di, v => (di, v)
  | n + 1, di, v => storeWords ax n (di + 2) ((v.poke di (low ax)).poke (di + 1) (high ax))

/-- `.row` of `vga3_cells`, from `SI` and `DI` on, with `CX` cells to go. After the first row
each takes a cell at least, so that `CX + 1` rounds are enough. -/
def cellRows (bl dh dl : Byte) : Nat → Pos → Word → Word → Display → Display
  | 0, _, _, _, v => v
  | fuel + 1, si, cx, di, v =>
      let ax : Word := (80 - si.col).setWidth 16
      let ax := if ax ≤ cx then ax else cx
      let r :=
        if dl &&& 1 = 0 then storeChars bl (loopRounds ax) di v
        else storeWords (dh ++ bl) ax.toNat di v
      if cx - ax = 0 then r.2 else cellRows bl dh dl fuel ⟨si.row + 1, 0⟩ (cx - ax) r.1 r.2

def vga3Cells (al bl : Byte) (cx : Word) (dl : Byte) (v : Display) : Display :=
  let si := v.gBdaCursor
  let di := gCell si
  let ax := (4000 - di) >>> 1
  let cx := if cx ≤ ax then cx else ax
  if cx = 0 then v else cellRows al bl dl (cx.toNat + 1) si cx di v

/-- `vga3_getcell`: the attribute and the character under the cursor. -/
def vga3Getcell (v : Display) : Word :=
  v.ram (gCell v.gBdaCursor + 1) ++ v.ram (gCell v.gBdaCursor)

def vga3Cursor (p : Pos) (v : Display) : Display :=
  let bx := gCell p >>> 1
  gCrtc (low bx) 15 (gCrtc (high bx) 14 v)

def vga3Shape (cx : Word) (v : Display) : Display :=
  let ah := if high cx &&& 0x20 = 0 then (high cx &&& 0x1F) ||| 0x40 else 0x20
  gCrtc (low cx &&& 0x1F) 11 (gCrtc ah 10 v)

/-! ### Scrolling -/

/-- `CH,CL` and `DH,DL` -/
structure Window where
  top : Byte
  left : Byte
  bottom : Byte
  right : Byte

/-- The cells of a row. -/
def Window.cells (w : Window) : Nat := (w.right - w.left + 1).toNat

/-- `rep movsw` -/
def moveWords : Nat → Word → Word → Display → Display
  | 0, _, _, v => v
  | n + 1, si, di, v =>
      moveWords n (si + 2) (di + 2) ((v.poke di (v.ram si)).poke (di + 1) (v.ram (si + 1)))

/-- `row_copy`: row `AL` to row `AH`. -/
def rowCopy (w : Window) (ah al : Byte) (v : Display) : Display :=
  moveWords w.cells (gCell ⟨al, w.left⟩) (gCell ⟨ah, w.left⟩) v

/-- `row_blank`: row `AH`, in attribute `AL`. -/
def rowBlank (w : Window) (ah al : Byte) (v : Display) : Display :=
  (storeWords (al ++ (0x20 : Byte)) w.cells (gCell ⟨ah, w.left⟩) v).2

/-- Which way a window goes: `SI` of `g_scroll`. -/
inductive Way
  | up
  | down
  deriving DecidableEq

/-- `.move`: the rows from `BL` on. -/
def moveRows (way : Way) (w : Window) (lines : Byte) : Nat → Byte → Display → Display
  | 0, _, v => v
  | n + 1, bl, v =>
      let ah := match way with
        | .up => w.top + bl
        | .down => w.bottom - bl
      let al := match way with
        | .up => lines + ah
        | .down => -lines + ah
      moveRows way w lines n (bl + 1) (rowCopy w ah al v)

/-- `.bl` -/
def blankRows (way : Way) (w : Window) (lines bh : Byte) : Nat → Byte → Display → Display
  | 0, _, v => v
  | n + 1, bl, v =>
      let ah := match way with
        | .up => w.bottom - lines + 1 + bl
        | .down => w.top + bl
      blankRows way w lines bh n (bl + 1) (rowBlank w ah bh v)

/-- `g_scroll`, which is `vga3_scroll_up` and `vga3_scroll_dn`. -/
def gScroll (way : Way) (al bh : Byte) (w : Window) (v : Display) : Display :=
  let w := { w with
    bottom := if w.bottom ≤ 24 then w.bottom else 24
    right := if w.right ≤ 79 then w.right else 79 }
  if w.bottom < w.top then v
  else if w.right < w.left then v
  else
    let ah := w.bottom - w.top + 1
    let lines := if al = 0 then ah else if al < ah then al else ah
    blankRows way w lines bh lines.toNat 0 (moveRows way w lines (ah - lines).toNat 0 v)

def wholeScreen : Window := ⟨0, 0, 24, 79⟩

/-- `vga3_clear`, with `V3_BLANK>>8` for the attribute. -/
def vga3Clear (v : Display) : Display := vga3Cursor ⟨0, 0⟩ (gScroll .up 0 0x07 wholeScreen v)

end Sbc386Ex.Video

import Sbc386Ex.Video.Int10
import Sbc386Ex.Video.Screen

/-!
# Sbc386Ex.Video.Bounds

The cursors stay on the screen, and so does everything the board is written.

A call is asked to keep both for any registers. Function 00 makes them so.
-/

namespace Sbc386Ex.Video

open Cpu (low high)

/-! ### What goes down the serial line -/

/-- `v` after `bytes` went through `vputc`. -/
def Display.say (v : Display) (bytes : List Byte) : Display :=
  if v.console &&& CON_SERIAL = 0 then v else { v with sent := v.sent ++ bytes }

namespace Display

variable (v : Display) (bytes bytes' : List Byte)

theorem say_eq : v.say bytes = { v with sent := (v.say bytes).sent } := by
  unfold say
  split <;> rfl

@[simp] theorem say_say : (v.say bytes).say bytes' = v.say (bytes ++ bytes') := by
  by_cases hoff : v.console &&& CON_SERIAL = 0
  · simp only [say, if_pos hoff]
  · simp only [say, if_neg hoff, List.append_assoc]

@[simp] theorem vidCursor_say : (v.say bytes).vidCursor = v.vidCursor := by rw [say_eq]
@[simp] theorem vidActivePage_say : (v.say bytes).vidActivePage = v.vidActivePage := by rw [say_eq]
@[simp] theorem crtc_say : (v.say bytes).crtc = v.crtc := by rw [say_eq]
@[simp] theorem wrote_say : (v.say bytes).wrote = v.wrote := by rw [say_eq]
@[simp] theorem console_say : (v.say bytes).console = v.console := by rw [say_eq]
@[simp] theorem ram_say : (v.say bytes).ram = v.ram := by rw [say_eq]
@[simp] theorem gBdaCursor_say : (v.say bytes).gBdaCursor = v.gBdaCursor := by
  rw [say_eq]
  rfl

end Display

/-- Two decimal digits. -/
def dec2 (al : Byte) : List Byte := [al / 10 + 0x30, al % 10 + 0x30]

/-- `ESC [ row ; column H` -/
def gotoBytes (p : Pos) : List Byte :=
  [0x1B, 0x5B] ++ dec2 (p.row + 1) ++ [0x3B] ++ dec2 (p.col + 1) ++ [0x48]

/-- `.blank`, the rows from `AL` on. -/
def eraseBytes (cl : Byte) : Nat → Byte → List Byte
  | 0, _ => []
  | n + 1, al => gotoBytes ⟨al, cl⟩ ++ [0x1B, 0x5B, 0x4B] ++ eraseBytes cl n (al + 1)

@[simp] theorem vputc_eq (al : Byte) (v : Display) : vputc al v = v.say [al] := by
  simp only [vputc, Display.say]

@[simp] theorem vputdec2_eq (al : Byte) (v : Display) : vputdec2 al v = v.say (dec2 al) := by
  simp [vputdec2, dec2]

@[simp] theorem vcsi_eq (v : Display) : vcsi v = v.say [0x1B, 0x5B] := by simp [vcsi]

@[simp] theorem vgoto_eq (v : Display) : vgoto v = v.say (gotoBytes v.gBdaCursor) := by
  simp [vgoto, gotoBytes]

theorem say_nil (v : Display) : v.say [] = v := by
  unfold Display.say
  split
  · rfl
  · simp

@[simp] theorem eraseRows_eq (cl : Byte) (n : Nat) (al : Byte) (v : Display) :
    eraseRows cl n al v = v.say (eraseBytes cl n al) := by
  induction n generalizing al v with
  | zero => exact (say_nil v).symm
  | succ n ih =>
      rw [eraseRows, ih]
      simp [eraseBytes, gotoBytes]

@[simp] theorem vputcs_eq (al : Byte) (n : Nat) (v : Display) :
    vputcs al n v = v.say (List.replicate n al) := by
  induction n generalizing v with
  | zero => exact (say_nil v).symm
  | succ n ih =>
      rw [vputcs, ih]
      simp [List.replicate_succ]

/-! ### What is drawn, and the cursor -/

section Vsetcur

variable (p : Pos) (v : Display)

theorem vsetcur_eq : vsetcur p v = { v with
    vidCursor := Function.update v.vidCursor v.page p, crtc := (vsetcur p v).crtc } := by
  simp only [vsetcur]
  split
  · rfl
  · rfl

@[simp] theorem vidActivePage_vsetcur : (vsetcur p v).vidActivePage = v.vidActivePage := by
  rw [vsetcur_eq]

@[simp] theorem vidCursor_vsetcur :
    (vsetcur p v).vidCursor = Function.update v.vidCursor v.page p := by rw [vsetcur_eq]

@[simp] theorem sent_vsetcur : (vsetcur p v).sent = v.sent := by rw [vsetcur_eq]
@[simp] theorem console_vsetcur : (vsetcur p v).console = v.console := by rw [vsetcur_eq]

@[simp] theorem at_vsetcur (r c : Nat) : (vsetcur p v).at r c = v.at r c := by
  rw [vsetcur_eq]
  rfl

@[simp] theorem gBdaCursor_vsetcur : (vsetcur p v).gBdaCursor = p := by
  rw [vsetcur_eq]
  exact Function.update_self _ _ _

theorem sent_vga3Cursor : (vga3Cursor p v).sent = v.sent := rfl
theorem console_vga3Cursor : (vga3Cursor p v).console = v.console := rfl
theorem at_vga3Cursor (r c : Nat) : (vga3Cursor p v).at r c = v.at r c := rfl
theorem gBdaCursor_vga3Cursor : (vga3Cursor p v).gBdaCursor = v.gBdaCursor := rfl

end Vsetcur

section

variable {v v' : Display}

theorem Draws.sent (h : Draws v v') : v'.sent = v.sent := by rw [h.rest]
theorem Draws.console (h : Draws v v') : v'.console = v.console := by rw [h.rest]
theorem Draws.gBdaCursor (h : Draws v v') : v'.gBdaCursor = v.gBdaCursor := by
  rw [h.rest]
  rfl

end

/-! ### In bounds -/

/-- The cursor of every page is on the screen, and only cells of the screen were written. -/
structure Bounded (v : Display) : Prop where
  cursor : ∀ page, (v.vidCursor page).OnScreen
  wrote : ∀ off ∈ v.wrote, off.toNat < 4000

variable {v v' : Display}

theorem Bounded.of_eq (h : Bounded v) (hcursor : v'.vidCursor = v.vidCursor)
    (hwrote : v'.wrote = v.wrote) : Bounded v' :=
  ⟨by rw [hcursor]; exact h.cursor, by rw [hwrote]; exact h.wrote⟩

theorem Bounded.draws (h : Bounded v) (hdraws : Draws v v') : Bounded v' := by
  refine ⟨by rw [hdraws.rest]; exact h.cursor, fun off hoff => ?_⟩
  rcases hdraws.wrote off hoff with hold | hnew
  · exact h.wrote off hold
  · exact hnew

@[simp] theorem bounded_say (v : Display) (bytes : List Byte) :
    Bounded (v.say bytes) ↔ Bounded v :=
  ⟨fun h => h.of_eq (by simp) (by simp), fun h => h.of_eq (by simp) (by simp)⟩

theorem Bounded.gBdaCursor (h : Bounded v) : v.gBdaCursor.OnScreen := h.cursor _

theorem vga3Cursor_bounded (h : Bounded v) (p : Pos) : Bounded (vga3Cursor p v) := h.of_eq rfl rfl

theorem vsetcur_bounded (h : Bounded v) {p : Pos} (hp : p.OnScreen) : Bounded (vsetcur p v) := by
  have hset : Bounded { v with vidCursor := Function.update v.vidCursor v.page p } := by
    refine ⟨fun page => ?_, h.wrote⟩
    by_cases hpage : page = v.page
    · rw [hpage]
      simpa using hp
    · simpa [Function.update_of_ne hpage] using h.cursor page
  unfold vsetcur
  simp only
  split
  · exact hset
  · exact vga3Cursor_bounded hset p

theorem gScroll1_bounded (h : Bounded v) : Bounded (gScroll1 v) := by
  unfold gScroll1
  split
  · exact h
  · exact h.draws (gScroll_draws _ _ _ _ _)

theorem onScreen_mk {row col : Byte} (hrow : row < 25) (hcol : col < 80) :
    Pos.OnScreen ⟨row, col⟩ := ⟨hrow, hcol⟩

theorem vAdvance_bounded (h : Bounded v) : Bounded (vAdvance v) := by
  obtain ⟨hrow, hcol⟩ := h.gBdaCursor
  unfold vAdvance
  simp only
  split
  · rename_i hin
    exact vsetcur_bounded h (onScreen_mk hrow hin)
  split
  · rename_i hin
    exact vsetcur_bounded h (onScreen_mk hin (by decide))
  · exact vsetcur_bounded (gScroll1_bounded h) (by decide)

theorem vCol0_bounded (h : Bounded v) : Bounded (vCol0 v) :=
  vsetcur_bounded h (onScreen_mk h.gBdaCursor.1 (by decide))

theorem vNextrow_bounded (h : Bounded v) : Bounded (vNextrow v) := by
  obtain ⟨hrow, hcol⟩ := h.gBdaCursor
  unfold vNextrow
  simp only
  split
  · rename_i hin
    exact vsetcur_bounded h (onScreen_mk hin hcol)
  · exact vsetcur_bounded (gScroll1_bounded h) (onScreen_mk (by decide) hcol)

theorem vBacksp_bounded (h : Bounded v) : Bounded (vBacksp v) := by
  obtain ⟨hrow, hcol⟩ := h.gBdaCursor
  unfold vBacksp
  refine vsetcur_bounded h ?_
  split
  · exact ⟨hrow, hcol⟩
  · rename_i hne
    refine onScreen_mk hrow ?_
    rw [BitVec.lt_def, BitVec.toNat_sub_of_le]
    · exact Nat.lt_of_le_of_lt (Nat.sub_le _ _) hcol
    · rw [BitVec.le_def]
      exact Nat.pos_of_ne_zero fun hzero => hne (BitVec.eq_of_toNat_eq hzero)

/-! ### The functions -/

variable (r : Regs)

theorem vga3Clear_bounded (h : Bounded v) : Bounded (vga3Clear v) :=
  vga3Cursor_bounded (h.draws (gScroll_draws _ _ _ _ _)) _

theorem vFn00_returns (v : Display) : (vFn00 r v).2 = some r := by
  simp only [vFn00, vDone]
  split <;> rfl

/-- Function 00 sets every cursor. -/
theorem vFn00_bounded (h : ∀ off ∈ v.wrote, off.toNat < 4000) : Bounded (vFn00 r v).1 := by
  have hhome : Pos.OnScreen ⟨0, 0⟩ := by decide
  have hset : ∀ mode columns page shape, Bounded { v with
      vidMode := mode, vidColumns := columns, vidActivePage := page, vidCursorMode := shape,
      vidCursor := fun _ => ⟨0, 0⟩ } := fun _ _ _ _ => ⟨fun _ => hhome, h⟩
  simp only [vFn00, vDone]
  split
  · simp only [vgoto_eq, vputc_eq, vcsi_eq, bounded_say]
    split
    · simpa using hset _ _ _ _
    · exact vga3Clear_bounded (by simpa using hset _ _ _ _)
  · exact hset _ _ _ _

theorem vFn02_bounded (h : Bounded v) : Bounded (vFn02 r v).1 := by
  have hpage : Bounded { v with vidActivePage := high r.bx &&& 7 } := h.of_eq rfl rfl
  simp only [vFn02, vDone, vgoto_eq, bounded_say]
  refine vsetcur_bounded hpage (onScreen_mk ?_ ?_)
  · split
    · assumption
    · decide
  · split
    · assumption
    · decide

theorem vFn03_bounded (h : Bounded v) : Bounded (vFn03 r v).1 := h.of_eq rfl rfl

theorem vScroll_bounded (way : Way) (h : Bounded v) : Bounded (vScroll r v way).1 := by
  have hserial : ∀ {v : Display} (bl : Byte), Bounded v → Bounded (vScrollSerial r v bl).1 := by
    intro v bl h
    simp only [vScrollSerial, vDone]
    split
    · split
      · exact h
      · simpa using h
    · simpa using h
  simp only [vScroll]
  refine hserial _ ?_
  split
  · exact h
  · exact h.draws (gScroll_draws _ _ _ _ _)

theorem vFn09_bounded (h : Bounded v) : Bounded (vFn09 r v).1 := by
  simp only [vFn09, vDone]
  split
  · exact h
  · simp only [vgoto_eq, vputcs_eq, bounded_say]
    split
    · exact h
    · exact h.draws (vga3Cells_spec _ _ _ _ h.gBdaCursor).1

theorem vFn0E_bounded (h : Bounded v) : Bounded (vFn0E r v).1 := by
  have hsay : Bounded (v.say [low r.ax]) := (bounded_say v _).mpr h
  simp only [vFn0E, vDone, vputc_eq]
  split
  · exact vCol0_bounded hsay
  split
  · exact vNextrow_bounded hsay
  split
  · exact vBacksp_bounded hsay
  split
  · exact hsay
  split
  · exact hsay
  · refine vAdvance_bounded ?_
    split
    · exact hsay
    · exact hsay.draws (vga3Putc_spec _ hsay.gBdaCursor).1

/-- **Every function of the table** keeps them, whatever is in the registers. -/
theorem vTab_bounded : ∀ entry ∈ vTab, ∀ r v, Bounded v → Bounded (entry r v).1 := by
  have hdone : ∀ r v, Bounded v → Bounded (vDone r v).1 := fun _ _ h => h
  have h01 : ∀ r v, Bounded v → Bounded (vFn01 r v).1 := by
    intro r v h
    simp only [vFn01, vDone]
    split
    · exact h.of_eq rfl rfl
    · exact h.of_eq rfl rfl
  have h05 : ∀ r v, Bounded v → Bounded (vFn05 r v).1 := by
    intro r v h
    simp only [vFn05, vDone, vgoto_eq, bounded_say]
    exact h.of_eq rfl rfl
  have h12 : ∀ r v, Bounded v → Bounded (vFn12 r v).1 := by
    intro r v h
    unfold vFn12
    split <;> exact h
  have h1A : ∀ r v, Bounded v → Bounded (vFn1A r v).1 := by
    intro r v h
    unfold vFn1A
    split <;> exact h
  simp only [vTab, List.forall_mem_cons, List.not_mem_nil, false_implies, implies_true, and_true]
  exact ⟨fun r _ h => vFn00_bounded r h.wrote, h01, fun r _ h => vFn02_bounded r h,
    fun r _ h => vFn03_bounded r h, hdone, h05, fun r _ h => vScroll_bounded r .up h,
    fun r _ h => vScroll_bounded r .down h, hdone, fun r _ h => vFn09_bounded r h,
    fun r _ h => vFn09_bounded r h, hdone, hdone, hdone, fun r _ h => vFn0E_bounded r h, hdone,
    hdone, hdone, h12, hdone, hdone, hdone, hdone, hdone, hdone, hdone, h1A⟩

theorem int10h_bounded (h : Bounded v) : Bounded (int10h r v).1 := by
  unfold int10h
  split
  · rename_i entry hentry
    exact vTab_bounded entry (List.mem_of_getElem? hentry) r v h
  · exact h

/-! ### Calls -/

/-- One call after another; one that does not come back is the last. -/
def calls : List Regs → Display → Display
  | [], v => v
  | r :: rs, v =>
      match int10h r v with
      | (v, some _) => calls rs v
      | (v, none) => v

/-- What is asked of each call of a sequence, where it is made. -/
def EachCall (P : Regs → Display → Prop) : List Regs → Display → Prop
  | [], _ => True
  | r :: rs, v => P r v ∧
      match int10h r v with
      | (v, some _) => EachCall P rs v
      | (_, none) => True

/-- What a call keeps if it is as asked, a sequence of them keeps. -/
theorem calls_keep {P : Regs → Display → Prop} {I : Display → Prop}
    (step : ∀ r v, I v → P r v → I (int10h r v).1) {v : Display} (h : I v) (rs : List Regs)
    (hrs : EachCall P rs v) : I (calls rs v) := by
  induction rs generalizing v with
  | nil => exact h
  | cons r rs ih =>
      obtain ⟨hr, hrest⟩ := hrs
      have hcall := step r v h hr
      rw [calls]
      split
      · rename_i v' _ heq
        rw [heq] at hcall hrest
        exact ih hcall hrest
      · rename_i v' heq
        rw [heq] at hcall
        exact hcall

/-- Of an invariant that a call keeps just if it is as asked. -/
theorem forall_calls_iff {P : Regs → Display → Prop} {I : Display → Prop}
    (step : ∀ r v, I v → (I (int10h r v).1 ↔ P r v)) {v : Display} (h : I v) (rs : List Regs) :
    (∀ n, I (calls (rs.take n) v)) ↔ EachCall P rs v := by
  induction rs generalizing v with
  | nil => simpa [calls, EachCall] using h
  | cons r rs ih =>
      have hone : calls [r] v = (int10h r v).1 := by
        rw [calls]
        split
        · rename_i heq
          rw [heq]
          rfl
        · rename_i heq
          rw [heq]
      constructor
      · intro hall
        have hcall : I (int10h r v).1 := by
          rw [← hone]
          exact hall 1
        refine ⟨(step r v h).mp hcall, ?_⟩
        split
        · rename_i v' r' heq
          rw [heq] at hcall
          refine (ih hcall).mp fun n => ?_
          have hn := hall (n + 1)
          rw [List.take_succ_cons, calls, heq] at hn
          exact hn
        · trivial
      · rintro ⟨hr, hrest⟩ n
        have hcall := (step r v h).mpr hr
        cases n with
        | zero => exact h
        | succ n =>
            rw [List.take_succ_cons, calls]
            split
            · rename_i v' r' heq
              rw [heq] at hcall hrest
              exact (ih hcall).mpr hrest n
            · rename_i v' heq
              rw [heq] at hcall
              exact hcall

theorem eachCall_true (rs : List Regs) (v : Display) : EachCall (fun _ _ => True) rs v := by
  induction rs generalizing v with
  | nil => trivial
  | cons r rs ih =>
      refine ⟨trivial, ?_⟩
      split
      · exact ih _
      · trivial

theorem calls_bounded (h : Bounded v) (rs : List Regs) : Bounded (calls rs v) :=
  calls_keep (fun r _ h _ => int10h_bounded r h) h rs (eachCall_true rs v)

theorem int10h_fn00_bounded (v : Display) {r : Regs} (h : high r.ax = 0x00) :
    ∃ v' r', int10h r { v with wrote := [] } = (v', some r') ∧ Bounded v' := by
  have hentry : int10h r { v with wrote := [] } = vFn00 r { v with wrote := [] } := by
    rw [int10h, h]
    rfl
  refine ⟨_, r, ?_, vFn00_bounded r (v := { v with wrote := [] }) (by simp)⟩
  rw [hentry, ← vFn00_returns r { v with wrote := [] }]

/-- **The cursor of every page and every write of the board stay on the screen**, from a call of
function 00 on, whatever the data area was and whatever the calls are. -/
theorem video_in_bounds (v : Display) {r : Regs} (h : high r.ax = 0x00) (rs : List Regs) :
    Bounded (calls (r :: rs) { v with wrote := [] }) := by
  obtain ⟨v', r', hcall, hbounded⟩ := int10h_fn00_bounded v h
  rw [calls, hcall]
  exact calls_bounded hbounded rs

/-- Function 00 and a scroll of a window far outside the screen. -/
theorem video_in_bounds_scroll :
    Bounded (calls [⟨0x0003, 0, 0, 0⟩, ⟨0x0602, 0x0700, 0xF0F0, 0xFEFE⟩]
      { (⟨3, 3, 80, 9, 0, fun _ => ⟨200, 200⟩, fun _ => 0, fun _ => 0, [], []⟩ : Display) with
        wrote := [] }) :=
  video_in_bounds _ (by decide) _

end Sbc386Ex.Video

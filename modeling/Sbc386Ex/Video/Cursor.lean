import Sbc386Ex.Video.Bounds

/-!
# Sbc386Ex.Video.Cursor

The cursor words of the eight pages, the page that is active, and the cursor of the board.

The board has one cursor, a copy of the active page's. A call leaves it so if it goes through
`vsetcur`, or changes neither the page nor the word.
-/

namespace Sbc386Ex.Video

open Cpu (low high)

variable {v v' : Display} (r : Regs)

/-! ### The pages -/

/-- The page in `BH`. -/
def Regs.page (r : Regs) : Fin 8 := Fin.ofNat 8 (high r.bx).toNat

/-- The active page and the cursors of all pages but `p` are as they were. -/
structure PageAlone (p : Fin 8) (v v' : Display) : Prop where
  active : v'.vidActivePage = v.vidActivePage
  cursor : ∀ q, q ≠ p → v'.vidCursor q = v.vidCursor q

theorem ofNat_and_seven (b : Byte) : Fin.ofNat 8 (b &&& 7).toNat = Fin.ofNat 8 b.toNat := by
  revert b
  decide

theorem page_of_active (v : Display) (b : Byte) :
    ({ v with vidActivePage := b &&& 7 } : Display).page = Fin.ofNat 8 b.toNat :=
  ofNat_and_seven b

theorem vFn02_pages (v : Display) : (vFn02 r v).1.vidActivePage = high r.bx &&& 7 ∧
    ∀ q, q ≠ r.page → (vFn02 r v).1.vidCursor q = v.vidCursor q := by
  constructor
  · simp [vFn02, vDone]
  · intro q hq
    simp only [vFn02, vDone, vgoto_eq, Display.vidCursor_say, vidCursor_vsetcur, page_of_active]
    exact Function.update_of_ne hq _ _

theorem vFn03_pages (v : Display) : (vFn03 r v).1.vidActivePage = high r.bx &&& 7 ∧
    (vFn03 r v).1.vidCursor = v.vidCursor := ⟨rfl, rfl⟩

/-- **Function 02 and 03 leave the active page alone exactly when it is the page they are asked
about.** The cursors of the other pages they always leave alone. -/
theorem page_alone_iff (v : Display) (h : high r.ax = 0x02 ∨ high r.ax = 0x03) :
    PageAlone r.page v (int10h r v).1 ↔ v.vidActivePage = high r.bx &&& 7 := by
  have hpages : (int10h r v).1.vidActivePage = high r.bx &&& 7 ∧
      ∀ q, q ≠ r.page → (int10h r v).1.vidCursor q = v.vidCursor q := by
    rcases h with h | h
    · rw [int10h, h]
      exact vFn02_pages r v
    · rw [int10h, h]
      exact ⟨(vFn03_pages r v).1, fun q _ => congrFun (vFn03_pages r v).2 q⟩
  constructor
  · intro halone
    rw [← halone.active, hpages.1]
  · intro hactive
    exact ⟨by rw [hpages.1, hactive], hpages.2⟩

/-- Page 0 is the active one, and the cursor of page 1 is elsewhere. -/
def twoPages : Display :=
  ⟨CON_VIDEO, 3, 80, 0, 0x0D0E, fun p => if p = 1 then ⟨12, 40⟩ else ⟨0, 0⟩, fun _ => 0,
    fun _ => 0x20, [], []⟩

theorem page_alone_active :
    PageAlone 0 twoPages (int10h ⟨0x0200, 0, 0, 0x0A0A⟩ twoPages).1 :=
  (page_alone_iff ⟨0x0200, 0, 0, 0x0A0A⟩ twoPages (.inl (by decide))).mpr (by decide)

/-- To ask where the cursor of page 1 is makes it the active page. -/
theorem cursor_read_selects :
    ¬ PageAlone 1 twoPages (int10h ⟨0x0300, 0x0100, 0, 0⟩ twoPages).1 := by
  intro h
  have hactive := h.active
  revert hactive
  decide

/-! ### The cursor of the board -/

/-- The video console is on, and the board has its cursor where the active page has. -/
structure CursorShown (v : Display) : Prop where
  console : v.console &&& CON_VIDEO ≠ 0
  crtc : (v.crtc 14 ++ v.crtc 15 : Word).toNat = v.gBdaCursor.index

theorem CursorShown.iff_of_eq (hconsole : v'.console = v.console) (hcrtc : v'.crtc = v.crtc)
    (hcursor : v'.gBdaCursor = v.gBdaCursor) : CursorShown v' ↔ CursorShown v := by
  constructor
  · rintro ⟨h, h'⟩
    exact ⟨by rwa [← hconsole], by rwa [← hcrtc, ← hcursor]⟩
  · rintro ⟨h, h'⟩
    exact ⟨by rwa [hconsole], by rwa [hcrtc, hcursor]⟩

@[simp] theorem cursorShown_say (v : Display) (bytes : List Byte) :
    CursorShown (v.say bytes) ↔ CursorShown v :=
  CursorShown.iff_of_eq (by simp) (by simp) (by simp)

theorem Draws.cursorShown (h : Draws v v') : CursorShown v' ↔ CursorShown v :=
  CursorShown.iff_of_eq h.console (by rw [h.rest]) h.gBdaCursor

/-- `vga3_cursor` tells the board where. -/
theorem crtc_vga3Cursor (p : Pos) (v : Display) :
    ((vga3Cursor p v).crtc 14 ++ (vga3Cursor p v).crtc 15 : Word).toNat = p.index := by
  have hcell := toNat_gCell p
  have hhalf : (gCell p >>> 1).toNat = p.index := by
    rw [BitVec.toNat_ushiftRight, hcell, Nat.shiftRight_eq_div_pow]
    omega
  have h14 : (vga3Cursor p v).crtc 14 = high (gCell p >>> 1) := by
    simp only [vga3Cursor, gCrtc]
    rw [Function.update_of_ne (by decide), Function.update_self]
  have h15 : (vga3Cursor p v).crtc 15 = low (gCell p >>> 1) := by
    simp only [vga3Cursor, gCrtc, Function.update_self]
  rw [h14, h15, Cpu.high_append_low, hhalf]

theorem vsetcur_shown (hon : v.console &&& CON_VIDEO ≠ 0) (p : Pos) : CursorShown (vsetcur p v) := by
  refine ⟨by simpa using hon, ?_⟩
  rw [gBdaCursor_vsetcur]
  simp only [vsetcur, if_neg hon]
  exact crtc_vga3Cursor p _

/-! ### The functions -/

theorem vFn00_shown (hon : v.console &&& CON_VIDEO ≠ 0) (hclear : low r.ax &&& 0x80 = 0) :
    CursorShown (vFn00 r v).1 := by
  simp only [vFn00, vDone, hclear, if_true]
  generalize hv : ({ v with
    vidMode := low r.ax &&& 0x7F
    vidColumns := 80
    vidActivePage := 0
    vidCursorMode := (13 : Byte) ++ (14 : Byte)
    vidCursor := fun _ => ⟨0, 0⟩ } : Display) = v'
  have hon' : v'.console &&& CON_VIDEO ≠ 0 := by rwa [← hv]
  have hcursor : v'.gBdaCursor = ⟨0, 0⟩ := by
    rw [← hv]
    rfl
  simp only [vgoto_eq, vputc_eq, vcsi_eq, Display.say_say, cursorShown_say, Display.console_say,
    if_neg hon', vga3Clear]
  have hdraws := gScroll_draws .up 0 0x07 wholeScreen
    (v'.say (([0x1B, 0x5B] ++ [0x32]) ++ [0x4A]))
  generalize gScroll .up 0 0x07 wholeScreen (v'.say (([0x1B, 0x5B] ++ [0x32]) ++ [0x4A])) = v''
    at hdraws
  refine ⟨?_, ?_⟩
  · rwa [console_vga3Cursor, hdraws.console, Display.console_say]
  · rw [crtc_vga3Cursor, gBdaCursor_vga3Cursor, hdraws.gBdaCursor, Display.gBdaCursor_say, hcursor]

/-- With bit 7 set the words are zeroed and the board is not told. -/
theorem vFn00_shown_iff (h : CursorShown v) : CursorShown (vFn00 r v).1 ↔
    low r.ax &&& 0x80 = 0 ∨ v.gBdaCursor.index = 0 := by
  by_cases hclear : low r.ax &&& 0x80 = 0
  · simp only [hclear, true_or, iff_true]
    exact vFn00_shown r h.console hclear
  · simp only [hclear, false_or]
    simp only [vFn00, vDone, if_neg hclear]
    constructor
    · intro h'
      rw [← h.crtc]
      exact h'.crtc
    · intro hhome
      exact ⟨h.console, h.crtc.trans hhome⟩

/-- To make a page the active one. -/
theorem active_shown_iff (h : CursorShown v) (b : Byte) :
    CursorShown { v with vidActivePage := b &&& 7 } ↔
      (v.vidCursor (Fin.ofNat 8 b.toNat)).index = v.gBdaCursor.index := by
  have hcursor : ({ v with vidActivePage := b &&& 7 } : Display).gBdaCursor =
      v.vidCursor (Fin.ofNat 8 b.toNat) := congrArg v.vidCursor (page_of_active v b)
  constructor
  · intro h'
    have hcrtc := h'.crtc
    rw [hcursor] at hcrtc
    rw [← hcrtc]
    exact h.crtc
  · intro hsame
    refine ⟨h.console, ?_⟩
    rw [hcursor, hsame]
    exact h.crtc

theorem vFn01_shown (h : CursorShown v) : CursorShown (vFn01 r v).1 := by
  simp only [vFn01, vDone, if_neg h.console]
  have h14 : (vga3Shape r.cx { v with vidCursorMode := r.cx }).crtc 14 = v.crtc 14 := by
    simp only [vga3Shape, gCrtc]
    rw [Function.update_of_ne (by decide), Function.update_of_ne (by decide)]
  have h15 : (vga3Shape r.cx { v with vidCursorMode := r.cx }).crtc 15 = v.crtc 15 := by
    simp only [vga3Shape, gCrtc]
    rw [Function.update_of_ne (by decide), Function.update_of_ne (by decide)]
  refine ⟨h.console, ?_⟩
  rw [h14, h15]
  exact h.crtc

theorem vFn02_shown (h : CursorShown v) : CursorShown (vFn02 r v).1 := by
  simp only [vFn02, vDone, vgoto_eq, cursorShown_say]
  exact vsetcur_shown (v := { v with vidActivePage := high r.bx &&& 7 }) h.console _

theorem vScroll_shown (way : Way) (h : CursorShown v) : CursorShown (vScroll r v way).1 := by
  have hserial : ∀ {v : Display} (bl : Byte), CursorShown v →
      CursorShown (vScrollSerial r v bl).1 := by
    intro v bl h
    simp only [vScrollSerial, vDone]
    split
    · split
      · exact h
      · simpa using h
    · simpa using h
  simp only [vScroll, if_neg h.console]
  exact hserial _ ((gScroll_draws _ _ _ _ _).cursorShown.mpr h)

/-- Nothing but the memory of the board is different. -/
def OnlyRam (v v' : Display) : Prop := v' = { v with ram := v'.ram, wrote := v'.wrote }

theorem OnlyRam.trans {v'' : Display} (h : OnlyRam v v') (h' : OnlyRam v' v'') :
    OnlyRam v v'' := by
  unfold OnlyRam at h h' ⊢
  rw [h', h]

theorem OnlyRam.cursorShown (h : OnlyRam v v') : CursorShown v' ↔ CursorShown v := by
  refine CursorShown.iff_of_eq ?_ ?_ ?_
  · rw [h]
  · rw [h]
  · rw [h]
    rfl

theorem storeChars_onlyRam (al : Byte) (n : Nat) (di : Word) (v : Display) :
    OnlyRam v (storeChars al n di v).2 := by
  induction n generalizing di v with
  | zero => rfl
  | succ n ih =>
      have hpoke : OnlyRam v (v.poke di al) := rfl
      exact hpoke.trans (ih _ _)

theorem storeWords_onlyRam (ax : Word) (n : Nat) (di : Word) (v : Display) :
    OnlyRam v (storeWords ax n di v).2 := by
  induction n generalizing di v with
  | zero => rfl
  | succ n ih =>
      have hpokes : OnlyRam v ((v.poke di (low ax)).poke (di + 1) (high ax)) := rfl
      exact hpokes.trans (ih _ _)

theorem cellRows_onlyRam (bl dh dl : Byte) (fuel : Nat) (si : Pos) (cx di : Word) (v : Display) :
    OnlyRam v (cellRows bl dh dl fuel si cx di v) := by
  induction fuel generalizing si cx di v with
  | zero => rfl
  | succ fuel ih =>
      have hrow : ∀ ax : Word, OnlyRam v
          (if dl &&& 1 = 0 then storeChars bl (loopRounds ax) di v
            else storeWords (dh ++ bl) ax.toNat di v).2 := by
        intro ax
        split
        · exact storeChars_onlyRam _ _ _ _
        · exact storeWords_onlyRam _ _ _ _
      simp only [cellRows]
      generalize (if ((80 - si.col).setWidth 16 : Word) ≤ cx then
        ((80 - si.col).setWidth 16 : Word) else cx) = ax
      split
      · exact hrow _
      · exact (hrow _).trans (ih _ _ _ _)

theorem vga3Cells_onlyRam (al bl : Byte) (cx : Word) (dl : Byte) (v : Display) :
    OnlyRam v (vga3Cells al bl cx dl v) := by
  simp only [vga3Cells]
  generalize (if cx ≤ (4000 - gCell v.gBdaCursor) >>> 1 then cx
    else (4000 - gCell v.gBdaCursor) >>> 1) = n
  split
  · rfl
  · exact cellRows_onlyRam _ _ _ _ _ _ _ _

theorem vFn09_shown (h : CursorShown v) : CursorShown (vFn09 r v).1 := by
  simp only [vFn09, vDone]
  split
  · exact h
  · simp only [vgoto_eq, vputcs_eq, cursorShown_say, if_neg h.console]
    exact (vga3Cells_onlyRam _ _ _ _ _).cursorShown.mpr h

/-- A character, or a control character: the ways through `fn 0E` end in `vsetcur`. -/
theorem vFn0E_shown (h : CursorShown v) : CursorShown (vFn0E r v).1 := by
  have hsay : CursorShown (v.say [low r.ax]) := (cursorShown_say v _).mpr h
  have hscrolled : ∀ {u : Display}, u.console &&& CON_VIDEO ≠ 0 →
      (gScroll1 u).console &&& CON_VIDEO ≠ 0 := by
    intro u hu
    rw [gScroll1, if_neg hu, (gScroll_draws _ _ _ _ _).console]
    exact hu
  have hput : (vga3Putc (low r.ax) (v.say [low r.ax])).console &&& CON_VIDEO ≠ 0 := hsay.console
  simp only [vFn0E, vDone, vputc_eq]
  split
  · exact vsetcur_shown hsay.console _
  split
  · unfold vNextrow
    simp only
    split
    · exact vsetcur_shown hsay.console _
    · exact vsetcur_shown (hscrolled hsay.console) _
  split
  · exact vsetcur_shown hsay.console _
  split
  · exact hsay
  split
  · exact hsay
  · simp only [if_neg hsay.console]
    unfold vAdvance
    simp only
    split
    · exact vsetcur_shown hput _
    split
    · exact vsetcur_shown hput _
    · exact vsetcur_shown (hscrolled hput) _

/-! ### Calls -/

/-- What is asked of a call of function `ah`, before it is made: of those that set the page
without `vsetcur`, that the cursor is in the same place there. -/
def CursorFollows (ah : Nat) (r : Regs) (v : Display) : Prop :=
  match ah with
  | 0x00 => low r.ax &&& 0x80 = 0 ∨ v.gBdaCursor.index = 0
  | 0x03 => (v.vidCursor r.page).index = v.gBdaCursor.index
  | 0x05 => (v.vidCursor (Fin.ofNat 8 (low r.ax).toNat)).index = v.gBdaCursor.index
  | _ => True

/-- Every function of the table, by its number. -/
theorem vTab_shown_iff : ∀ x ∈ vTab.zipIdx, ∀ r v, CursorShown v →
    (CursorShown (x.1 r v).1 ↔ CursorFollows x.2 r v) := by
  have hkeep : ∀ {p q : Prop}, p → q → (p ↔ q) := fun hp hq => ⟨fun _ => hq, fun _ => hp⟩
  have hdone : ∀ r v, CursorShown v → (CursorShown (vDone r v).1 ↔ True) :=
    fun _ _ h => hkeep h trivial
  have h12 : ∀ r v, CursorShown v → CursorShown (vFn12 r v).1 := by
    intro r v h
    unfold vFn12
    split <;> exact h
  have h1A : ∀ r v, CursorShown v → CursorShown (vFn1A r v).1 := by
    intro r v h
    unfold vFn1A
    split <;> exact h
  simp only [vTab, List.zipIdx_cons, List.zipIdx_nil, List.forall_mem_cons, List.not_mem_nil,
    false_implies, implies_true, and_true, Nat.zero_add, Nat.reduceAdd]
  exact ⟨fun r _ h => vFn00_shown_iff r h, fun r _ h => hkeep (vFn01_shown r h) trivial,
    fun r _ h => hkeep (vFn02_shown r h) trivial, fun r _ h => active_shown_iff h (high r.bx), hdone,
    fun r v h => by
      simp only [vFn05, vDone, vgoto_eq, cursorShown_say]
      exact active_shown_iff h (low r.ax),
    fun r _ h => hkeep (vScroll_shown r .up h) trivial,
    fun r _ h => hkeep (vScroll_shown r .down h) trivial, hdone,
    fun r _ h => hkeep (vFn09_shown r h) trivial, fun r _ h => hkeep (vFn09_shown r h) trivial,
    hdone, hdone, hdone, fun r _ h => hkeep (vFn0E_shown r h) trivial, hdone, hdone, hdone,
    fun r v h => hkeep (h12 r v h) trivial, hdone, hdone, hdone, hdone, hdone, hdone, hdone,
    fun r v h => hkeep (h1A r v h) trivial⟩

theorem int10h_shown_iff (h : CursorShown v) :
    CursorShown (int10h r v).1 ↔ CursorFollows (high r.ax).toNat r v := by
  unfold int10h
  split
  · rename_i entry hentry
    exact vTab_shown_iff (entry, (high r.ax).toNat) (List.mk_mem_zipIdx_iff_getElem?.mpr hentry) r v h
  · rename_i hnone
    have hlen : 27 ≤ (high r.ax).toNat := List.getElem?_eq_none_iff.mp hnone
    refine ⟨fun _ => ?_, fun _ => h⟩
    unfold CursorFollows
    split <;> first | omega | trivial

/-- **The board has its cursor where the next character is drawn**, after each call from a
function 00 on that clears, exactly when each of the others is as asked. -/
theorem hardware_cursor_iff (v : Display) (hon : v.console &&& CON_VIDEO ≠ 0) {r : Regs}
    (h : high r.ax = 0x00) (hclear : low r.ax &&& 0x80 = 0) (rs : List Regs) :
    (∀ n, CursorShown (calls (r :: rs.take n) v)) ↔
      EachCall (fun r => CursorFollows (high r.ax).toNat r) rs (int10h r v).1 := by
  have hentry : int10h r v = vFn00 r v := by
    rw [int10h, h]
    rfl
  have hfirst : ∀ rs, calls (r :: rs) v = calls rs (vFn00 r v).1 := by
    intro rs
    rw [calls, hentry]
    split
    · rename_i heq
      rw [heq]
    · rename_i heq
      have hreturns := vFn00_returns r v
      rw [heq] at hreturns
      cases hreturns
  simp only [hfirst, hentry]
  exact forall_calls_iff (fun r v h => int10h_shown_iff r h) (vFn00_shown r hon hclear) rs

/-- A letter, the cursor to a row of page 1, and that page made the active one. -/
theorem hardware_cursor_page : CursorShown (calls [⟨0x0003, 0, 0, 0⟩, ⟨0x0E41, 0, 0, 0⟩,
    ⟨0x0200, 0x0100, 0, 0x0500⟩, ⟨0x0501, 0, 0, 0⟩] twoPages) := by
  have hrun : ∀ n, CursorShown (calls (⟨0x0003, 0, 0, 0⟩ ::
      [⟨0x0E41, 0, 0, 0⟩, ⟨0x0200, 0x0100, 0, 0x0500⟩, ⟨0x0501, 0, 0, 0⟩].take n) twoPages) :=
    (hardware_cursor_iff twoPages (by decide) (by decide) (by decide) _).mpr
      ⟨trivial, trivial, show (Display.vidCursor _ _).index = (Display.gBdaCursor _).index by
        decide +kernel, trivial⟩
  exact hrun 3

/-- A letter, and page 1 made the active one, which has its cursor at home: the board has it
after the letter still. -/
theorem page_not_told : ¬ CursorShown (calls [⟨0x0003, 0, 0, 0⟩, ⟨0x0E41, 0, 0, 0⟩,
    ⟨0x0501, 0, 0, 0⟩] twoPages) := by
  intro h
  have hcrtc := h.crtc
  revert hcrtc
  decide +kernel

end Sbc386Ex.Video

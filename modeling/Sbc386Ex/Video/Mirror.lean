import Sbc386Ex.Lib.AnsiTerminal
import Sbc386Ex.Video.Bounds

/-!
# Sbc386Ex.Video.Mirror

The terminal on the serial line beside the board's own screen, with both consoles on.

What a call sends and what it draws are two renderings of it. A call is followed when the
terminal has come to the same screen and the same cursor.
-/

namespace Sbc386Ex.Video

open Cpu (low high)
open AnsiTerminal

/-- The terminal of 25 rows and 80 columns. -/
abbrev Vt := AnsiTerminal 25 80

/-! ### The sequences that are sent -/

theorem feed_dec2 (t : Vt) (ps : List Nat) {a : Byte} (ha : a.toNat ≤ 99) :
    (t.inMode (.csi ps 0)).feed (dec2 a) = t.inMode (.csi ps a.toNat) := by
  have hall : ∀ a : Byte, a.toNat ≤ 99 →
      (0x30 ≤ a / 10 + 0x30 ∧ a / 10 + 0x30 ≤ 0x39) ∧
      (0x30 ≤ a % 10 + 0x30 ∧ a % 10 + 0x30 ≤ 0x39) ∧
      (0 * 10 + (a / 10 + 0x30 - 0x30).toNat) * 10 + (a % 10 + 0x30 - 0x30).toNat = a.toNat := by
    decide
  obtain ⟨htens, hunits, hvalue⟩ := hall a ha
  rw [dec2, feed_cons, receive_digit ps 0 htens, feed_cons, receive_digit ps _ hunits, feed_nil,
    hvalue]

variable {t : Vt}

/-- Sequences without a number, with one and with two. -/
theorem feed_sequence (h : t.mode = .ground) {b : Byte} (hb : 0x40 ≤ b ∧ b < 0x7F) :
    t.feed ([0x1B, 0x5B] ++ [b]) = t.execute b [0] := by
  rw [feed_append, feed_csi h, feed_cons, feed_nil, receive_final h [] 0 hb, List.nil_append]

theorem feed_sequence_one (h : t.mode = .ground) {a b : Byte} (ha : a.toNat ≤ 99)
    (hb : 0x40 ≤ b ∧ b < 0x7F) :
    t.feed ([0x1B, 0x5B] ++ dec2 a ++ [b]) = t.execute b [a.toNat] := by
  rw [feed_append, feed_append, feed_csi h, feed_dec2 t [] ha, feed_cons, feed_nil,
    receive_final h [] _ hb, List.nil_append]

theorem feed_sequence_two (h : t.mode = .ground) {a a' b : Byte} (ha : a.toNat ≤ 99)
    (ha' : a'.toNat ≤ 99) (hb : 0x40 ≤ b ∧ b < 0x7F) :
    t.feed ([0x1B, 0x5B] ++ dec2 a ++ [0x3B] ++ dec2 a' ++ [b]) =
      t.execute b [a.toNat, a'.toNat] := by
  rw [feed_append, feed_append, feed_append, feed_append, feed_csi h, feed_dec2 t [] ha]
  simp only [feed_cons, feed_nil]
  rw [receive_semicolon [] _, List.nil_append, feed_dec2 t _ ha', receive_final h _ _ hb]
  rfl

theorem toNat_succ {a : Byte} (h : a.toNat ≤ 98) : (a + 1).toNat = a.toNat + 1 := by
  rw [BitVec.toNat_add]
  show (_ + 1) % 256 = _
  omega

/-- `ESC [ row ; column H` goes there, or as far as there is screen. -/
theorem feed_gotoBytes (h : t.mode = .ground) {p : Pos} (hrow : p.row.toNat ≤ 98)
    (hcol : p.col.toNat ≤ 98) : t.feed (gotoBytes p) =
      { t with row := min p.row.toNat 24, col := min p.col.toNat 79, wrapNext := false } := by
  have hrow' := toNat_succ hrow
  have hcol' := toNat_succ hcol
  rw [gotoBytes, feed_sequence_two h (by omega) (by omega) (by decide), hrow', hcol']
  simp [execute, goTo]

/-! ### The same screen -/

/-- The terminal shows what the board shows, wherever its cursor is. -/
structure Shows (t : Vt) (v : Display) : Prop where
  ground : t.mode = .ground
  top : t.top = 0
  bottom : t.bottom = 24
  cells : ∀ r c, r < 25 → c < 80 → t.cells r c = v.at r c

/-- Its cursor is where the data area says, too. -/
structure Mirrors (t : Vt) (v : Display) : Prop extends Shows t v where
  noWrap : t.wrapNext = false
  row : t.row = v.gBdaCursor.row.toNat
  col : t.col = v.gBdaCursor.col.toNat
  onScreen : v.gBdaCursor.OnScreen

/-- Both consoles are on. -/
def BothOn (v : Display) : Prop := v.console &&& CON_SERIAL ≠ 0 ∧ v.console &&& CON_VIDEO ≠ 0

/-- The terminal `t` was connected before the first byte was sent. -/
def Synced (t : Vt) (v : Display) : Prop := BothOn v ∧ Mirrors (t.feed v.sent) v

variable {v v' : Display}

theorem BothOn.of_eq (h : BothOn v) (heq : v'.console = v.console) : BothOn v' := by
  unfold BothOn
  rw [heq]
  exact h

theorem BothOn.sent_say (h : BothOn v) (bytes : List Byte) :
    (v.say bytes).sent = v.sent ++ bytes := by
  rw [Display.say, if_neg h.1]

@[simp] theorem at_say (bytes : List Byte) (r c : Nat) : (v.say bytes).at r c = v.at r c := by
  simp [Display.at, Display.char]

/-- After `vgoto` the cursors are in one place. -/
theorem vgoto_synced (hon : BothOn v) (h : Shows (t.feed v.sent) v)
    (hp : v.gBdaCursor.OnScreen) : Synced t (vgoto v) := by
  obtain ⟨hrow, hcol⟩ := hp
  rw [vgoto_eq]
  refine ⟨hon.of_eq (by simp), ?_⟩
  rw [hon.sent_say, feed_append, feed_gotoBytes h.ground (by omega) (by omega)]
  refine ⟨⟨h.ground, h.top, h.bottom, ?_⟩, rfl, ?_, ?_, ?_⟩
  · intro r c hr hc
    rw [at_say]
    exact h.cells r c hr hc
  · simp only [Display.gBdaCursor_say]
    omega
  · simp only [Display.gBdaCursor_say]
    omega
  · simp only [Display.gBdaCursor_say]
    exact ⟨hrow, hcol⟩

/-! ### Function 09 and 0A -/

/-- A run of one character that ends on the screen. -/
theorem feed_replicate (t : Vt) {b : Byte} (hb : Printable b) {n : Nat} (hground : t.mode = .ground)
    (hbottom : t.bottom = 24) (hcol : t.next.2 < 80) (hn : t.next.1 * 80 + t.next.2 + n ≤ 2000) :
    (t.feed (List.replicate n b)).mode = .ground ∧ (t.feed (List.replicate n b)).top = t.top ∧
      (t.feed (List.replicate n b)).bottom = t.bottom ∧ ∀ r c, c < 80 →
      (t.feed (List.replicate n b)).cells r c =
        if t.next.1 * 80 + t.next.2 ≤ r * 80 + c ∧ r * 80 + c < t.next.1 * 80 + t.next.2 + n
        then b else t.cells r c := by
  induction n generalizing t with
  | zero =>
      refine ⟨hground, rfl, rfl, fun r c _ => ?_⟩
      rw [if_neg (by omega)]
      rfl
  | succ n ih =>
      have hroom : t.wrapNext = true → t.row + 1 < 25 ∧ t.row ≠ t.bottom := by
        intro hwrap
        rw [next, if_pos hwrap] at hn
        simp only at hn
        omega
      have hput := put_spec hroom b
      have hnext : (t.put b).next.1 * 80 + (t.put b).next.2 = t.next.1 * 80 + t.next.2 + 1 ∧
          (t.put b).next.2 < 80 := by
        rw [next_put hroom b]
        split
        · simp only
          omega
        · simp only
          omega
      rw [List.replicate_succ, feed_cons, receive_printable hground hb]
      obtain ⟨hground', htop', hbottom', hcells⟩ := ih (t.put b) (by rw [hput]; exact hground)
        (by rw [hput]; exact hbottom) hnext.2 (by omega)
      refine ⟨hground', by rw [htop', hput], by rw [hbottom', hput], fun r c hc => ?_⟩
      rw [hcells r c hc, hnext.1, hput]
      simp only
      split_ifs <;> first | rfl | omega

variable {r : Regs}

/-- A call that comes back, with the terminal and the board alike. -/
def Followed (t : Vt) (o : Outcome) : Prop := Synced t o.1 ∧ o.2.isSome

theorem Mirrors.next_eq (h : Mirrors t v) :
    t.next = (v.gBdaCursor.row.toNat, v.gBdaCursor.col.toNat) := by
  rw [next, h.noWrap, h.row, h.col]
  rfl

theorem vFn09_followed (h : Synced t v) (hroom : r.cx = 0 ∨
    Printable (low r.ax) ∧ v.gBdaCursor.index + r.cx.toNat ≤ 2000) : Followed t (vFn09 r v) := by
  obtain ⟨hon, hm⟩ := h
  unfold vFn09
  split
  · exact ⟨⟨hon, hm⟩, rfl⟩
  rename_i hcx
  obtain ⟨hprint, hend⟩ := hroom.resolve_left hcx
  simp only [vputcs_eq, if_neg hon.2]
  obtain ⟨hdraws, hchar⟩ := vga3Cells_spec (low r.ax) (low r.bx) r.cx
    (if high r.ax = 9 then 1 else 0) hm.onScreen
  generalize vga3Cells (low r.ax) (low r.bx) r.cx (if high r.ax = 9 then 1 else 0) v = v'
    at hdraws hchar
  have hon' : BothOn v' := hon.of_eq hdraws.console
  have hnext := hm.next_eq
  obtain ⟨hground, htop, hbottom, hcells⟩ := feed_replicate (t.feed v.sent) hprint hm.ground
    hm.bottom (n := r.cx.toNat) (by rw [hnext]; exact hm.onScreen.2) (by rw [hnext]; exact hend)
  refine ⟨vgoto_synced (hon'.of_eq (by simp)) ?_ ?_, rfl⟩
  · rw [hon'.sent_say, feed_append, hdraws.sent]
    refine ⟨hground, htop.trans hm.top, hbottom.trans hm.bottom, fun r c hr hc => ?_⟩
    rw [hcells r c hc, at_say, Display.at, hchar _ (by omega), hnext, hm.cells r c hr hc]
    rfl
  · rw [Display.gBdaCursor_say, hdraws.gBdaCursor]
    exact hm.onScreen

/-! ### Function 0E -/

theorem wholeScreen_inside : wholeScreen.clip.Inside := by
  refine ⟨?_, ?_, ?_, ?_⟩ <;> decide

/-- The whole board up a line. -/
theorem gScroll1_spec (hon : BothOn v) : Draws v (gScroll1 v) ∧ ∀ r c, r < 25 → c < 80 →
    (gScroll1 v).at r c = if r + 1 ≤ 24 then v.at (r + 1) c else 0x20 := by
  rw [gScroll1, if_neg hon.2]
  obtain ⟨hdraws, hat⟩ := gScroll_spec (v := v) .up 1 0x07 wholeScreen_inside
  refine ⟨hdraws, fun r c hr hc => ?_⟩
  have hin : wholeScreen.clip.HasRow r ∧ wholeScreen.clip.HasCol c :=
    ⟨⟨Nat.zero_le _, show r ≤ 24 by omega⟩, ⟨Nat.zero_le _, show c ≤ 79 by omega⟩⟩
  rw [hat r c hr hc, if_pos hin]
  rfl

/-- After `vsetcur` the cursors are in one place, if the terminal's was there. -/
theorem vsetcur_synced (hon : BothOn v) (h : Shows (t.feed v.sent) v)
    (hwrap : (t.feed v.sent).wrapNext = false) {p : Pos} (hp : p.OnScreen)
    (hrow : (t.feed v.sent).row = p.row.toNat) (hcol : (t.feed v.sent).col = p.col.toNat) :
    Synced t (vsetcur p v) := by
  refine ⟨hon.of_eq (by simp), ?_⟩
  rw [sent_vsetcur]
  refine ⟨⟨h.ground, h.top, h.bottom, fun r c hr hc => ?_⟩, hwrap, ?_, ?_, ?_⟩
  · rw [at_vsetcur]
    exact h.cells r c hr hc
  · rw [gBdaCursor_vsetcur, hrow]
  · rw [gBdaCursor_vsetcur, hcol]
  · rw [gBdaCursor_vsetcur]
    exact hp

/-- A byte of which the terminal keeps track as `fn 0E` does: no control character but the four
that are tracked and those that do nothing, and no character for the last column. -/
def CharFollowed (p : Pos) (al : Byte) : Prop :=
  if al < 0x20 then al ≠ 0x09 ∧ al ≠ 0x0B ∧ al ≠ 0x0C ∧ al ≠ 0x1B
  else Printable al ∧ p.col.toNat < 79

theorem receive_control {t : Vt} (h : t.mode = .ground) {b : Byte} (hb : b < 0x20) :
    t.receive b = t.control b := by
  have hall : ∀ b : Byte, b < 0x20 → ¬ Printable b := by decide
  simp only [receive, h, if_neg (hall b hb), if_pos hb]

/-- A line feed, at the bottom or not. -/
theorem vNextrow_synced (hon : BothOn v) (hm : Mirrors (t.feed v.sent) v) :
    Synced t (vNextrow (v.say [0x0A])) := by
  obtain ⟨hrow, hcol⟩ := hm.onScreen
  have hon' : BothOn (v.say [0x0A]) := hon.of_eq (by simp)
  have hsent : t.feed (v.say [0x0A]).sent =
      index ({ t.feed v.sent with wrapNext := false } : Vt) := by
    rw [hon.sent_say, feed_append, feed_cons, feed_nil, receive_control hm.ground (by decide)]
    rfl
  generalize t.feed v.sent = u at hm hsent
  have hnext : (v.gBdaCursor.row + 1).toNat = v.gBdaCursor.row.toNat + 1 := toNat_succ (by omega)
  have hiff : v.gBdaCursor.row + 1 < 25 ↔ v.gBdaCursor.row.toNat + 1 < 25 := by
    rw [BitVec.lt_def, hnext]
    exact Iff.rfl
  unfold vNextrow
  simp only [Display.gBdaCursor_say, hiff]
  split
  · rename_i hin
    have hne : u.row ≠ u.bottom := by
      rw [hm.row, hm.bottom]
      omega
    have hindex : index ({ u with wrapNext := false } : Vt) =
        { u with row := u.row + 1, wrapNext := false } :=
      index_of_ne hne (by rw [hm.row]; exact hin)
    rw [hindex] at hsent
    refine vsetcur_synced hon' ?_ (by rw [hsent]) ⟨by rw [hnext]; exact hin, hcol⟩
      (by rw [hsent, hnext, hm.row]) (by rw [hsent]; exact hm.col)
    rw [hsent]
    exact ⟨hm.ground, hm.top, hm.bottom, by simpa using hm.cells⟩
  · -- the last row: both screens go up a line
    have hlast : v.gBdaCursor.row.toNat = 24 := by omega
    obtain ⟨hdraws, hat⟩ := gScroll1_spec hon'
    have hindex : index ({ u with wrapNext := false } : Vt) =
        scrollUp ({ u with wrapNext := false } : Vt) 1 :=
      index_of_eq (by rw [hm.row, hm.bottom, hlast])
    rw [hindex, ← hdraws.sent] at hsent
    have hbottom : Pos.OnScreen { v.gBdaCursor with row := 24 } :=
      ⟨(by decide : (24 : Byte).toNat < 25), hcol⟩
    refine vsetcur_synced (hon'.of_eq hdraws.console) ?_ (by rw [hsent]; rfl) hbottom
      (by rw [hsent]; exact hm.row.trans hlast) (by rw [hsent]; exact hm.col)
    rw [hsent]
    refine ⟨hm.ground, hm.top, hm.bottom, fun r c hr hc => ?_⟩
    rw [hat r c hr hc]
    simp only [scrollUp, hm.top, hm.bottom, at_say]
    rw [if_pos (by omega)]
    split
    · exact hm.cells _ _ (by omega) hc
    · rfl

/-- A character before the last column. -/
theorem vAdvance_synced (hon : BothOn v) (hm : Mirrors (t.feed v.sent) v) {al : Byte}
    (hprint : Printable al) (hlast : v.gBdaCursor.col.toNat < 79) :
    Synced t (vAdvance (vga3Putc al (v.say [al]))) := by
  obtain ⟨hrow, hcol⟩ := hm.onScreen
  have hsent : t.feed (v.say [al]).sent = put (t.feed v.sent) al := by
    rw [hon.sent_say, feed_append, feed_cons, feed_nil, receive_printable hm.ground hprint]
  obtain ⟨hdraws, hchar⟩ := vga3Putc_spec (v := v.say [al]) al (by simpa using hm.onScreen)
  have hput := put_spec (t := t.feed v.sent) (by rw [hm.noWrap]; intro h; cases h) al
  rw [hm.next_eq] at hput
  rw [hput, ← hdraws.sent] at hsent
  generalize vga3Putc al (v.say [al]) = v' at hdraws hchar hsent
  have hon' : BothOn v' := hon.of_eq (hdraws.console.trans (by simp))
  have hcursor : v'.gBdaCursor = v.gBdaCursor := by rw [hdraws.gBdaCursor, Display.gBdaCursor_say]
  have hnext : (v.gBdaCursor.col + 1).toNat = v.gBdaCursor.col.toNat + 1 := toNat_succ (by omega)
  have hin : v.gBdaCursor.col + 1 < 80 := by
    rw [BitVec.lt_def, hnext]
    show _ < 80
    omega
  have hroom : v.gBdaCursor.col.toNat + 1 < 80 := by omega
  unfold vAdvance
  simp only [hcursor, if_pos hin]
  simp only [hroom, decide_true, if_true, Bool.not_true] at hsent
  refine vsetcur_synced hon' ?_ (by rw [hsent]) ⟨hrow, by rw [hnext]; exact hroom⟩
    (by rw [hsent]) (by rw [hsent, hnext])
  rw [hsent]
  refine ⟨hm.ground, hm.top, hm.bottom, fun r c hr hc => ?_⟩
  have hold : (v.say [al]).at r c = v.at r c := at_say [al] r c
  simp only [Display.at] at hold
  rw [Display.at, hchar _ (by omega), hold]
  simp only [Display.gBdaCursor_say, Pos.index, hm.cells r c hr hc]
  split_ifs <;> first | rfl | omega

theorem vFn0E_followed (h : Synced t v) (hal : CharFollowed v.gBdaCursor (low r.ax)) :
    Followed t (vFn0E r v) := by
  obtain ⟨hon, hm⟩ := h
  obtain ⟨hrow, hcol⟩ := hm.onScreen
  generalize hb : low r.ax = al at hal
  have hon' : BothOn (v.say [al]) := hon.of_eq (by simp)
  have hcontrol : al < 0x20 → t.feed (v.say [al]).sent = control (t.feed v.sent) al := by
    intro hlt
    rw [hon.sent_say, feed_append, feed_cons, feed_nil, receive_control hm.ground hlt]
  simp only [vFn0E, vDone, vputc_eq, hb]
  by_cases hcr : al = 0x0D
  · subst hcr
    have hsent : _ = { t.feed v.sent with col := 0, wrapNext := false } := hcontrol (by decide)
    refine ⟨?_, rfl⟩
    have hleft : Pos.OnScreen { v.gBdaCursor with col := 0 } :=
      ⟨hrow, (by decide : (0 : Byte).toNat < 80)⟩
    rw [if_pos rfl, vCol0, Display.gBdaCursor_say]
    refine vsetcur_synced hon' ?_ (by rw [hsent]) hleft (by rw [hsent]; exact hm.row)
      (by rw [hsent]; rfl)
    rw [hsent]
    exact ⟨hm.ground, hm.top, hm.bottom, by simpa using hm.cells⟩
  rw [if_neg hcr]
  by_cases hlf : al = 0x0A
  · subst hlf
    rw [if_pos rfl]
    exact ⟨vNextrow_synced hon hm, rfl⟩
  rw [if_neg hlf]
  by_cases hbs : al = 0x08
  · subst hbs
    have hsent : _ = { t.feed v.sent with col := (t.feed v.sent).col - 1, wrapNext := false } :=
      hcontrol (by decide)
    refine ⟨?_, rfl⟩
    rw [if_pos rfl, vBacksp, Display.gBdaCursor_say]
    have hback : (if v.gBdaCursor.col = 0 then v.gBdaCursor
        else { v.gBdaCursor with col := v.gBdaCursor.col - 1 }).row = v.gBdaCursor.row ∧
        (if v.gBdaCursor.col = 0 then v.gBdaCursor
        else { v.gBdaCursor with col := v.gBdaCursor.col - 1 }).col.toNat =
          v.gBdaCursor.col.toNat - 1 := by
      split
      · rename_i hzero
        exact ⟨rfl, by rw [hzero]; rfl⟩
      · rename_i hne
        have hone : (1 : Byte).toNat = 1 := rfl
        have hpos : 0 < v.gBdaCursor.col.toNat :=
          Nat.pos_of_ne_zero fun hzero => hne (BitVec.eq_of_toNat_eq hzero)
        refine ⟨rfl, ?_⟩
        rw [BitVec.toNat_sub_of_le (by rw [BitVec.le_def]; omega), hone]
    refine vsetcur_synced hon' ?_ (by rw [hsent]) 
      ⟨by rw [hback.1]; exact hrow, by rw [hback.2]; omega⟩
      (by rw [hsent, hback.1]; exact hm.row) (by rw [hsent, hback.2, ← hm.col])
    rw [hsent]
    exact ⟨hm.ground, hm.top, hm.bottom, by simpa using hm.cells⟩
  rw [if_neg hbs]
  by_cases hlt : al < 0x20
  · -- nothing comes of it on either side
    rw [CharFollowed, if_pos hlt] at hal
    obtain ⟨h09, h0B, h0C, h1B⟩ := hal
    have hsent : t.feed (v.say [al]).sent = t.feed v.sent := by
      rw [hcontrol hlt]
      simp only [AnsiTerminal.control, if_neg hbs, if_neg h09, hlf, h0B, h0C, or_self, if_neg hcr, if_neg h1B,
        if_false]
    have hsame : Synced t (v.say [al]) := by
      refine ⟨hon', ?_⟩
      rw [hsent]
      exact ⟨⟨hm.ground, hm.top, hm.bottom, by simpa using hm.cells⟩, hm.noWrap, by simpa using hm.row,
        by simpa using hm.col, by simpa using hm.onScreen⟩
    split
    · exact ⟨hsame, rfl⟩
    · exact ⟨hsame, rfl⟩
  · rw [CharFollowed, if_neg hlt] at hal
    have hbel : al ≠ 0x07 := by
      rintro rfl
      exact hlt (by decide)
    rw [if_neg hbel, if_neg hlt, if_neg hon'.2]
    exact ⟨vAdvance_synced hon hm hal.1 hal.2, rfl⟩

/-! ### Function 02 -/

theorem vFn02_followed (h : Synced t v) : Followed t (vFn02 r v) := by
  obtain ⟨hon, hm⟩ := h
  have hclamp : Pos.OnScreen ⟨if high r.dx < 25 then high r.dx else 24,
      if low r.dx < 80 then low r.dx else 79⟩ := by
    refine onScreen_mk ?_ ?_
    · split
      · assumption
      · decide
    · split
      · assumption
      · decide
  refine ⟨?_, rfl⟩
  simp only [vFn02, vDone]
  refine vgoto_synced (hon.of_eq (by simp)) ?_ (by rw [gBdaCursor_vsetcur]; exact hclamp)
  rw [sent_vsetcur]
  refine ⟨hm.ground, hm.top, hm.bottom, fun r c hr hc => ?_⟩
  rw [at_vsetcur]
  exact hm.cells r c hr hc

/-! ### Function 00 -/

/-- Function 00 clears both screens, whatever was on them. -/
theorem vFn00_clears (hon : BothOn v) (hground : (t.feed v.sent).mode = .ground)
    (htop : (t.feed v.sent).top = 0) (hbottom : (t.feed v.sent).bottom = 24)
    (hclear : low r.ax &&& 0x80 = 0) : Followed t (vFn00 r v) := by
  refine ⟨?_, by rw [vFn00_returns]; rfl⟩
  simp only [vFn00, vDone, hclear, if_true]
  generalize hv : ({ v with
    vidMode := low r.ax &&& 0x7F
    vidColumns := 80
    vidActivePage := 0
    vidCursorMode := (13 : Byte) ++ (14 : Byte)
    vidCursor := fun _ => ⟨0, 0⟩ } : Display) = v'
  have hon' : BothOn v' := by
    rw [← hv]
    exact hon
  have hcursor : v'.gBdaCursor = ⟨0, 0⟩ := by
    rw [← hv]
    rfl
  have hsent' : v'.sent = v.sent := by rw [← hv]
  clear hv
  simp only [vputc_eq, vcsi_eq, Display.say_say, List.cons_append, List.nil_append,
    Display.console_say, if_neg hon'.2, vga3Clear]
  have hbefore : t.feed (v'.say [0x1B, 0x5B, 0x32, 0x4A]).sent =
      eraseDisplay (t.feed v.sent) 2 := by
    have hseq : (t.feed v.sent).feed ([0x1B, 0x5B] ++ [0x32, 0x4A]) =
        eraseDisplay (t.feed v.sent) 2 := by
      rw [feed_append, feed_csi hground]
      simp only [feed_cons, feed_nil]
      rw [receive_digit [] 0 (by decide), receive_final hground [] _ (by decide)]
      rfl
    rw [hon'.sent_say, feed_append, hsent']
    exact hseq
  obtain ⟨hdraws, hat⟩ := gScroll_spec (v := v'.say [0x1B, 0x5B, 0x32, 0x4A]) .up 0 0x07
    wholeScreen_inside
  generalize gScroll .up 0 0x07 wholeScreen (v'.say [0x1B, 0x5B, 0x32, 0x4A]) = v'' at hdraws hat
  rw [← hdraws.sent] at hbefore
  have hcursor' : (vga3Cursor ⟨0, 0⟩ v'').gBdaCursor = ⟨0, 0⟩ := by
    rw [gBdaCursor_vga3Cursor, hdraws.gBdaCursor, Display.gBdaCursor_say, hcursor]
  have hon'' : BothOn (vga3Cursor ⟨0, 0⟩ v'') :=
    hon'.of_eq ((console_vga3Cursor _ _).trans (hdraws.console.trans (by simp)))
  refine vgoto_synced hon'' ?_ (by rw [hcursor']; decide)
  rw [sent_vga3Cursor, hbefore]
  refine ⟨hground, htop, hbottom, fun r c hr hc => ?_⟩
  have hin : wholeScreen.clip.HasRow r ∧ wholeScreen.clip.HasCol c :=
    ⟨⟨Nat.zero_le _, show r ≤ 24 by omega⟩, ⟨Nat.zero_le _, show c ≤ 79 by omega⟩⟩
  have hall : wholeScreen.clip.lines 0 = 25 := by decide
  rw [at_vga3Cursor, hat r c hr hc, if_pos hin, hall]
  have hgone : ¬ r + 25 ≤ wholeScreen.clip.bottom.toNat := by
    show ¬ r + 25 ≤ 24
    omega
  rw [cells_eraseDisplay, scrolled, if_neg hgone]
  rfl

theorem vFn00_followed (h : Synced t v)
    (hmode : low r.ax &&& 0x80 = 0 ∨ v.gBdaCursor = ⟨0, 0⟩) : Followed t (vFn00 r v) := by
  obtain ⟨hon, hm⟩ := h
  by_cases hclear : low r.ax &&& 0x80 = 0
  · exact vFn00_clears hon hm.ground hm.top hm.bottom hclear
  · -- the terminal is left alone, and is at home already
    have hhome := hmode.resolve_left hclear
    have hrow := hm.row
    have hcol := hm.col
    rw [hhome] at hrow hcol
    refine ⟨?_, by rw [vFn00_returns]; rfl⟩
    simp only [vFn00, vDone, if_neg hclear]
    exact ⟨hon, ⟨hm.ground, hm.top, hm.bottom, hm.cells⟩, hm.noWrap, hrow, hcol,
      (by decide : Pos.OnScreen ⟨0, 0⟩)⟩

/-! ### Function 06 and 07 -/

/-- The rows of `.blank`, of which those below the screen are its last row. -/
theorem feed_eraseBytes (t : Vt) {cl : Byte} (hcl : cl.toNat < 80) (n : Nat) (al : Byte)
    (hground : t.mode = .ground) (hn : al.toNat + n ≤ 99) :
    (t.feed (eraseBytes cl n al)).mode = .ground ∧ (t.feed (eraseBytes cl n al)).top = t.top ∧
      (t.feed (eraseBytes cl n al)).bottom = t.bottom ∧ ∀ r c, r < 25 →
      (t.feed (eraseBytes cl n al)).cells r c =
        if cl.toNat ≤ c ∧ (al.toNat ≤ r ∧ r < al.toNat + n ∨ r = 24 ∧ 24 < al.toNat + n ∧ 0 < n)
        then 0x20 else t.cells r c := by
  induction n generalizing t al with
  | zero =>
      refine ⟨hground, rfl, rfl, fun r c _ => ?_⟩
      rw [if_neg (by omega)]
      rfl
  | succ n ih =>
      have hnext := toNat_succ (a := al) (by omega)
      have hrow : t.feed (gotoBytes ⟨al, cl⟩ ++ ([0x1B, 0x5B] ++ [0x4B])) =
          eraseLine ({ t with row := min al.toNat 24, col := cl.toNat, wrapNext := false } : Vt) 0 := by
        have hcl' : min cl.toNat 79 = cl.toNat := by omega
        rw [feed_append, feed_gotoBytes hground (by simp only; omega) (by simp only; omega)]
        simp only [hcl']
        generalize hu : ({ t with row := min al.toNat 24, col := cl.toNat, wrapNext := false } : Vt) = u
        have hground' : u.mode = .ground := by
          rw [← hu]
          exact hground
        exact feed_sequence (b := 0x4B) hground' (by decide)
      have hstep : t.feed (eraseBytes cl (n + 1) al) =
          (t.feed (gotoBytes ⟨al, cl⟩ ++ ([0x1B, 0x5B] ++ [0x4B]))).feed
            (eraseBytes cl n (al + 1)) := by
        rw [eraseBytes, feed_append]
        rfl
      rw [hstep, hrow]
      obtain ⟨hground', htop, hbottom, hcells⟩ := ih
        (eraseLine ({ t with row := min al.toNat 24, col := cl.toNat, wrapNext := false } : Vt) 0)
        (al + 1) hground (by omega)
      refine ⟨hground', htop, hbottom, fun r c hr => ?_⟩
      rw [hcells r c hr, hnext]
      rw [cells_eraseLine]
      simp only [blank]
      split_ifs <;> first | rfl | omega

/-- The serial part goes by erasing rows: the count is zero, or it covers the window. -/
def Blanks (al : Byte) (w : Window) : Prop := al = 0 ∨ ¬ al < w.bottom - w.top + 1

instance (al : Byte) (w : Window) : Decidable (Blanks al w) := inferInstanceAs (Decidable (_ ∨ _))

/-- A window which both sides have the same idea of. What is erased goes to the end of each row,
what is scrolled takes whole rows; and the rows are on the screen. -/
def WindowFollowed (al : Byte) (w : Window) : Prop :=
  if Blanks al w then
    w.bottom.toNat < w.top.toNat ∨
      w.top.toNat ≤ 24 ∧ w.bottom.toNat ≤ 98 ∧ w.left.toNat ≤ 79 ∧ 79 ≤ w.right.toNat
  else w.top.toNat ≤ w.bottom.toNat ∧ w.bottom.toNat ≤ 24 ∧ w.left = 0 ∧ 79 ≤ w.right.toNat

theorem Window.toNat_clip (w : Window) : w.clip.bottom.toNat = min w.bottom.toNat 24 ∧
    w.clip.right.toNat = min w.right.toNat 79 := by
  have h24 : (24 : Byte).toNat = 24 := rfl
  have h79 : (79 : Byte).toNat = 79 := rfl
  simp only [clip, BitVec.le_def, h24, h79]
  constructor
  · split <;> omega
  · split <;> omega

/-- Erasing is followed, of what there is of the window. -/
theorem eraseRows_shows (hon : BothOn v) (hm : Mirrors (t.feed v.sent) v) (way : Way)
    {al bh : Byte} {w : Window} (hblanks : Blanks al w)
    (hw : w.bottom.toNat < w.top.toNat ∨
      w.top.toNat ≤ 24 ∧ w.bottom.toNat ≤ 98 ∧ w.left.toNat ≤ 79 ∧ 79 ≤ w.right.toNat) :
    Shows (t.feed ((gScroll way al bh w v).say
        (eraseBytes w.left (w.bottom.toNat + 1 - w.top.toNat) w.top)).sent)
      ((gScroll way al bh w v).say
        (eraseBytes w.left (w.bottom.toNat + 1 - w.top.toNat) w.top)) := by
  have hdraws := gScroll_draws way al bh w v
  have hon' : BothOn (gScroll way al bh w v) := hon.of_eq hdraws.console
  obtain ⟨hbottom, hright⟩ := w.toNat_clip
  have htop : w.clip.top = w.top := rfl
  have hleft : w.clip.left = w.left := rfl
  rw [hon'.sent_say, feed_append, hdraws.sent]
  by_cases hempty : w.bottom.toNat < w.top.toNat
  · -- neither side does anything
    have hnone : w.bottom.toNat + 1 - w.top.toNat = 0 := by omega
    have hgone : gScroll way al bh w v = v := by
      rw [gScroll_eq, if_pos (by rw [BitVec.lt_def, hbottom, htop]; omega)]
    rw [hnone, hgone, eraseBytes, say_nil, feed_nil]
    exact hm.toShows
  obtain ⟨h24, h98, h79, hwide⟩ := hw.resolve_left hempty
  have hin : w.clip.Inside :=
    ⟨by rw [hbottom, htop]; omega, by omega, by rw [hright, hleft]; omega, by omega⟩
  have hall : w.clip.lines al = w.clip.bottom.toNat - w.clip.top.toNat + 1 := by
    have hheight : (w.bottom - w.top + 1).toNat = w.bottom.toNat - w.top.toNat + 1 := by
      rw [BitVec.toNat_add, BitVec.toNat_sub_of_le (by rw [BitVec.le_def]; omega)]
      show (_ + 1) % 256 = _
      omega
    unfold Window.lines
    rw [if_pos]
    rcases hblanks with hzero | hge
    · exact .inl hzero
    · rw [BitVec.lt_def, hheight] at hge
      right
      rw [htop, hbottom]
      omega
  obtain ⟨-, hat⟩ := gScroll_spec (v := v) way al bh hin
  obtain ⟨hground', htop', hbottom', hcells⟩ := feed_eraseBytes (t.feed v.sent)
    (show w.left.toNat < 80 by omega) (w.bottom.toNat + 1 - w.top.toNat) w.top hm.ground (by omega)
  refine ⟨hground', htop'.trans hm.top, hbottom'.trans hm.bottom, fun r c hr hc => ?_⟩
  have hblank : w.clip.HasRow r →
      scrolled way w.clip (w.clip.lines al) v.at r c = 0x20 := by
    rintro ⟨hge, hle⟩
    cases way with
    | up => rw [scrolled, if_neg (by omega)]
    | down => rw [scrolled, if_neg (by omega)]
  rw [hcells r c hr, at_say, hat r c hr hc, hm.cells r c hr hc]
  by_cases hcell : w.clip.HasRow r ∧ w.clip.HasCol c
  · rw [if_pos hcell, hblank hcell.1, if_pos]
    simp only [Window.HasRow, Window.HasCol, htop, hleft] at hcell
    omega
  · rw [if_neg hcell, if_neg]
    simp only [Window.HasRow, Window.HasCol, htop, hleft] at hcell
    omega

/-- What goes down the line for a scroll: the region, the scroll, no region. -/
def scrollBytes (w : Window) (al bl : Byte) : List Byte :=
  ([0x1B, 0x5B] ++ dec2 (w.top + 1) ++ [0x3B] ++ dec2 (w.bottom + 1) ++ [0x72]) ++
    (([0x1B, 0x5B] ++ dec2 al ++ [bl]) ++ ([0x1B, 0x5B] ++ [0x72]))

/-- The letter of a way. -/
def Way.letter : Way → Byte
  | .up => 0x53
  | .down => 0x54

theorem feed_scrollBytes (u : Vt) (way : Way) (w : Window) (al : Byte) (hground : u.mode = .ground)
    (hrows : w.top.toNat < w.bottom.toNat) (hbottom : w.bottom.toNat ≤ 24)
    (hal : al ≠ 0) (h99 : al.toNat ≤ 99) :
    (u.feed (scrollBytes w al way.letter)).mode = .ground ∧
      (u.feed (scrollBytes w al way.letter)).top = 0 ∧
      (u.feed (scrollBytes w al way.letter)).bottom = 24 ∧
      ∀ r c, (u.feed (scrollBytes w al way.letter)).cells r c =
        if w.HasRow r then scrolled way w al.toNat u.cells r c else u.cells r c := by
  have hpos : 0 < al.toNat := Nat.pos_of_ne_zero fun hzero => hal (BitVec.eq_of_toNat_eq hzero)
  have h1 : (w.top + 1).toNat = w.top.toNat + 1 := toNat_succ (by omega)
  have h2 : (w.bottom + 1).toNat = w.bottom.toNat + 1 := toNat_succ (by omega)
  have hletter : 0x40 ≤ way.letter ∧ way.letter < 0x7F := by cases way <;> decide
  have hregion : u.feed ([0x1B, 0x5B] ++ dec2 (w.top + 1) ++ [0x3B] ++ dec2 (w.bottom + 1) ++
      [0x72]) = { u with
        top := w.top.toNat, bottom := w.bottom.toNat, row := 0, col := 0, wrapNext := false } := by
    rw [feed_sequence_two hground (by omega) (by omega) (by decide), h1, h2]
    show u.setRegion (w.top.toNat + 1) (w.bottom.toNat + 1) = _
    rw [setRegion_of_lt u (by omega) (by omega) (by omega)]
    rfl
  rw [scrollBytes, feed_append, hregion]
  generalize hv : ({ u with
    top := w.top.toNat, bottom := w.bottom.toNat, row := 0, col := 0, wrapNext := false } : Vt) = u'
  have hground' : u'.mode = .ground := by
    rw [← hv]
    exact hground
  have hmax : max al.toNat 1 = al.toNat := by omega
  have hscroll : u'.feed ([0x1B, 0x5B] ++ dec2 al ++ [way.letter]) =
      match way with
      | .up => u'.scrollUp al.toNat
      | .down => u'.scrollDown al.toNat := by
    rw [feed_sequence_one hground' h99 hletter]
    cases way with
    | up =>
        show u'.scrollUp (max al.toNat 1) = _
        rw [hmax]
    | down =>
        show u'.scrollDown (max al.toNat 1) = _
        rw [hmax]
  rw [feed_append, hscroll]
  have hend : ∀ {x : Vt}, x.mode = .ground → x.feed ([0x1B, 0x5B] ++ [0x72]) =
      { x with top := 0, bottom := 24, row := 0, col := 0, wrapNext := false } := by
    intro x hx
    rw [feed_sequence hx (by decide)]
    show x.setRegion 0 0 = _
    rw [setRegion_zero x (by decide)]
  cases way with
  | up =>
      rw [hend (by exact hground')]
      refine ⟨hground', rfl, rfl, fun r c => ?_⟩
      simp only [scrollUp, ← hv, scrolled, Window.HasRow]
      rfl
  | down =>
      rw [hend (by exact hground')]
      refine ⟨hground', rfl, rfl, fun r c => ?_⟩
      simp only [scrollDown, ← hv, scrolled, Window.HasRow]
      rfl

/-- Scrolling is followed, of whole rows. -/
theorem scrollRows_shows (hon : BothOn v) (hm : Mirrors (t.feed v.sent) v) (way : Way)
    {al bh : Byte} {w : Window} (hblanks : ¬ Blanks al w)
    (hw : w.top.toNat ≤ w.bottom.toNat ∧ w.bottom.toNat ≤ 24 ∧ w.left = 0 ∧ 79 ≤ w.right.toNat) :
    Shows (t.feed ((gScroll way al bh w v).say (scrollBytes w al way.letter)).sent)
      ((gScroll way al bh w v).say (scrollBytes w al way.letter)) := by
  have hdraws := gScroll_draws way al bh w v
  have hon' : BothOn (gScroll way al bh w v) := hon.of_eq hdraws.console
  obtain ⟨hbottom, hright⟩ := w.toNat_clip
  have htop : w.clip.top = w.top := rfl
  have hleft : w.clip.left = w.left := rfl
  obtain ⟨hrows, h24, hzero, hwide⟩ := hw
  have hheight : (w.bottom - w.top + 1).toNat = w.bottom.toNat - w.top.toNat + 1 := by
    rw [BitVec.toNat_add, BitVec.toNat_sub_of_le (by rw [BitVec.le_def]; omega)]
    show (_ + 1) % 256 = _
    omega
  have hal : al ≠ 0 := fun h => hblanks (.inl h)
  have hpos : 0 < al.toNat := Nat.pos_of_ne_zero fun h => hal (BitVec.eq_of_toNat_eq h)
  have hlt : al.toNat < w.bottom.toNat - w.top.toNat + 1 := by
    have hlt := not_not.mp fun h => hblanks (.inr h)
    rwa [BitVec.lt_def, hheight] at hlt
  have hleft' : w.left.toNat = 0 := by rw [hzero]; rfl
  have hin : w.clip.Inside :=
    ⟨by rw [hbottom, htop]; omega, by omega, by rw [hright, hleft]; omega, by omega⟩
  have hsome : w.clip.lines al = al.toNat := by
    unfold Window.lines
    rw [if_neg]
    rintro (h | h)
    · exact hal h
    · rw [htop, hbottom] at h
      omega
  obtain ⟨-, hat⟩ := gScroll_spec (v := v) way al bh hin
  obtain ⟨hground', htop', hbottom', hcells⟩ := feed_scrollBytes (t.feed v.sent) way w al
    hm.ground (by omega) h24 hal (by omega)
  rw [hon'.sent_say, feed_append, hdraws.sent]
  refine ⟨hground', htop', hbottom', fun r c hr hc => ?_⟩
  have hclip : ∀ old : Nat → Nat → Byte,
      scrolled way w.clip al.toNat old r c = scrolled way w al.toNat old r c := by
    intro old
    cases way with
    | up => rw [scrolled, scrolled, hbottom, Nat.min_eq_left h24]
    | down => rw [scrolled, scrolled, htop]
  have hcell : w.clip.HasRow r ∧ w.clip.HasCol c ↔ w.HasRow r := by
    simp only [Window.HasRow, Window.HasCol, htop, hleft, hbottom, hright]
    omega
  rw [hcells r c, at_say, hat r c hr hc, hsome, hclip]
  simp only [hcell]
  split
  · rename_i hrow
    obtain ⟨hge, hle⟩ := hrow
    cases way with
    | up =>
        simp only [scrolled]
        split
        · exact hm.cells _ _ (by omega) hc
        · rfl
    | down =>
        simp only [scrolled]
        split
        · exact hm.cells _ _ (by omega) hc
        · rfl
  · exact hm.cells r c hr hc

/-- The window a call names. -/
def Regs.window (r : Regs) : Window := ⟨high r.cx, low r.cx, high r.dx, low r.dx⟩

theorem vScrollSerial_eq (r : Regs) (v : Display) (bl : Byte) : vScrollSerial r v bl =
    if Blanks (low r.ax) r.window then
      if r.window.bottom = 0xFF then (v, none)
      else vDone r (vgoto (v.say (eraseBytes r.window.left
        (r.window.bottom.toNat + 1 - r.window.top.toNat) r.window.top)))
    else vDone r (vgoto (v.say (scrollBytes r.window (low r.ax) bl))) := by
  have hbytes : ∀ (w : Window) (al : Byte), vputc 0x72 (vcsi (vputc bl (vputdec2 al (vcsi
      (vputc 0x72 (vputdec2 (w.bottom + 1) (vputc 0x3B (vputdec2 (w.top + 1) (vcsi v))))))))) =
        v.say (scrollBytes w al bl) := by
    intro w al
    simp [scrollBytes]
  rw [← hbytes, ← eraseRows_eq]
  rfl

theorem vScroll_eq (r : Regs) {v : Display} (hon : BothOn v) (way : Way) : vScroll r v way =
    vScrollSerial r (gScroll way (low r.ax) (high r.bx) r.window v) way.letter := by
  simp only [vScroll, if_neg hon.2]
  cases way with
  | up => rfl
  | down => rfl

theorem vScroll_followed (h : Synced t v) (way : Way)
    (hw : WindowFollowed (low r.ax) r.window) : Followed t (vScroll r v way) := by
  obtain ⟨hon, hm⟩ := h
  rw [vScroll_eq r hon, vScrollSerial_eq]
  generalize r.window = w at hw
  have hdraws := gScroll_draws way (low r.ax) (high r.bx) w v
  have hon' : BothOn (gScroll way (low r.ax) (high r.bx) w v) := hon.of_eq hdraws.console
  have hcursor : ∀ bytes, ((gScroll way (low r.ax) (high r.bx) w v).say bytes).gBdaCursor =
      v.gBdaCursor := fun bytes => by rw [Display.gBdaCursor_say, hdraws.gBdaCursor]
  by_cases hblanks : Blanks (low r.ax) w
  · rw [WindowFollowed, if_pos hblanks] at hw
    have hff : w.bottom ≠ 0xFF := by
      intro hff
      have hnat : w.bottom.toNat = 255 := by
        rw [hff]
        rfl
      have htop := w.top.isLt
      omega
    rw [if_pos hblanks, if_neg hff]
    refine ⟨vgoto_synced (hon'.of_eq (by simp)) (eraseRows_shows hon hm way hblanks hw) ?_, rfl⟩
    rw [hcursor]
    exact hm.onScreen
  · rw [WindowFollowed, if_neg hblanks] at hw
    rw [if_neg hblanks]
    refine ⟨vgoto_synced (hon'.of_eq (by simp)) (scrollRows_shows hon hm way hblanks hw) ?_, rfl⟩
    rw [hcursor]
    exact hm.onScreen

/-! ### Calls -/

/-- The functions that write, scroll or move the cursor, and of what they are called with that
which both consoles render alike. -/
def CallFollowed (r : Regs) (v : Display) : Prop :=
  match (high r.ax).toNat with
  | 0x00 => low r.ax &&& 0x80 = 0 ∨ v.gBdaCursor = ⟨0, 0⟩
  | 0x02 => True
  | 0x06 | 0x07 => WindowFollowed (low r.ax) r.window
  | 0x09 | 0x0A => r.cx = 0 ∨ Printable (low r.ax) ∧ v.gBdaCursor.index + r.cx.toNat ≤ 2000
  | 0x0E => CharFollowed v.gBdaCursor (low r.ax)
  | _ => False

theorem int10h_followed (h : Synced t v) (hcall : CallFollowed r v) : Followed t (int10h r v) := by
  unfold int10h
  unfold CallFollowed at hcall
  split at hcall
  · rename_i hfn
    rw [hfn]
    exact vFn00_followed h hcall
  · rename_i hfn
    rw [hfn]
    exact vFn02_followed h
  · rename_i hfn
    rw [hfn]
    exact vScroll_followed h .up hcall
  · rename_i hfn
    rw [hfn]
    exact vScroll_followed h .down hcall
  · rename_i hfn
    rw [hfn]
    exact vFn09_followed h hcall
  · rename_i hfn
    rw [hfn]
    exact vFn09_followed h hcall
  · rename_i hfn
    rw [hfn]
    exact vFn0E_followed h hcall
  · exact hcall.elim

/-- **The terminal shows what the board shows**, with its cursor where the data area has it,
after every sequence of such calls. -/
theorem terminal_mirrors (t : Vt) {v : Display} (h : Synced t v) (rs : List Regs)
    (hcalls : EachCall CallFollowed rs v) : Synced t (calls rs v) :=
  calls_keep (I := Synced t) (fun _ _ h hcall => (int10h_followed h hcall).1) h rs hcalls

section Blank

/-- A blank terminal, and a blank board. -/
def blankVt : Vt := ⟨0, 0, false, 0, 24, .ground, fun _ _ => 0x20⟩

def blankDisplay : Display :=
  ⟨CON_SERIAL ||| CON_VIDEO, 3, 80, 0, 0x0D0E, fun _ => ⟨0, 0⟩, fun _ => 0, fun _ => 0x20, [], []⟩

theorem blank_synced : Synced blankVt blankDisplay :=
  ⟨⟨by decide, by decide⟩, ⟨rfl, rfl, rfl, fun _ _ _ _ => rfl⟩, rfl, rfl, rfl, by decide⟩

/-- A letter, the cursor to a row, a row of dashes, a line feed, and a line up. -/
theorem terminal_mirrors_line : Synced blankVt (calls [⟨0x0E41, 0, 0, 0⟩, ⟨0x0200, 0, 0, 0x1800⟩,
    ⟨0x0A2D, 0, 80, 0⟩, ⟨0x0E0A, 0, 0, 0⟩, ⟨0x0601, 0, 0, 0x184F⟩] blankDisplay) :=
  terminal_mirrors blankVt blank_synced _ ⟨show CharFollowed _ _ by rw [CharFollowed]; decide,
    trivial, .inr (by decide +kernel), show CharFollowed _ _ by rw [CharFollowed]; decide,
    show WindowFollowed _ _ by rw [WindowFollowed]; decide, trivial⟩

/-- A tab goes to the terminal, and nothing keeps track of it. -/
theorem tab_not_tracked :
    Synced blankVt blankDisplay ∧ ¬ Synced blankVt (calls [⟨0x0E09, 0, 0, 0⟩] blankDisplay) := by
  refine ⟨blank_synced, fun h => ?_⟩
  have hcol := h.2.col
  revert hcol
  decide

end Blank

end Sbc386Ex.Video

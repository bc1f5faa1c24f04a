import Sbc386Ex.Video.Mirror

/-!
# Sbc386Ex.Video.ScrollOutput

What functions 06 and 07 send to the serial console, and when they come to an end of it.

Rows and columns are sent as two digits each. There are two digits for a number up to 99 only,
and the numbers are not clipped to the screen as those of the board are.
-/

namespace Sbc386Ex.Video

open Cpu (low high)
open AnsiTerminal

/-! ### The loop of `.blank` -/

/-- `.blank` from row `AL` on, for `fuel` rounds at most. -/
def eraseLoop (w : Window) : Nat → Byte → Display → Option Display
  | 0, _, _ => none
  | fuel + 1, al, v =>
      if w.bottom < al then some v else eraseLoop w fuel (al + 1) (eraseRows w.left 1 al v)

theorem eraseRows_succ (cl : Byte) (n : Nat) (al : Byte) (v : Display) :
    eraseRows cl (n + 1) al v = eraseRows cl n (al + 1) (eraseRows cl 1 al v) := rfl

/-- It comes to an end after the bottom row, if there is a number above it. -/
theorem eraseLoop_ends {w : Window} (h : w.bottom ≠ 0xFF) (fuel : Nat) (al : Byte) (v : Display)
    (hfuel : w.bottom.toNat + 1 - al.toNat < fuel) :
    eraseLoop w fuel al v = some (eraseRows w.left (w.bottom.toNat + 1 - al.toNat) al v) := by
  have hlast : w.bottom.toNat < 255 := by
    have hlt := w.bottom.isLt
    have hne : w.bottom.toNat ≠ 255 := fun heq => h (BitVec.eq_of_toNat_eq heq)
    omega
  induction fuel generalizing al v with
  | zero => omega
  | succ fuel ih =>
      rw [eraseLoop]
      by_cases hend : w.bottom < al
      · have hnone : w.bottom.toNat + 1 - al.toNat = 0 := by
          rw [BitVec.lt_def] at hend
          omega
        rw [if_pos hend, hnone]
        rfl
      · rw [BitVec.lt_def, not_lt] at hend
        have hnext : (al + 1).toNat = al.toNat + 1 := by
          rw [BitVec.toNat_add]
          show (_ + 1) % 256 = _
          omega
        have hleft : w.bottom.toNat + 1 - al.toNat = w.bottom.toNat + 1 - (al + 1).toNat + 1 := by
          omega
        rw [if_neg (by rw [BitVec.lt_def]; omega), hleft, eraseRows_succ]
        exact ih (al + 1) _ (by omega)

/-- No row is above a bottom row of `FFh`. -/
theorem eraseLoop_never {w : Window} (h : w.bottom = 0xFF) (fuel : Nat) (al : Byte)
    (v : Display) : eraseLoop w fuel al v = none := by
  induction fuel generalizing al v with
  | zero => rfl
  | succ fuel ih =>
      have hle : al.toNat ≤ 255 := by
        have hlt := al.isLt
        omega
      rw [eraseLoop, if_neg (by rw [h]; exact not_lt.mpr hle)]
      exact ih (al + 1) _

/-- The call comes back just if the loop does. -/
theorem vScrollSerial_loop (r : Regs) (v : Display) (bl : Byte)
    (hblanks : Blanks (low r.ax) r.window) :
    ((vScrollSerial r v bl).2 = none ∧ ∀ fuel, eraseLoop r.window fuel r.window.top v = none) ∨
      ∃ fuel v', eraseLoop r.window fuel r.window.top v = some v' ∧
        vScrollSerial r v bl = vDone r (vgoto v') := by
  rw [vScrollSerial_eq, if_pos hblanks]
  by_cases hff : r.window.bottom = 0xFF
  · left
    rw [if_pos hff]
    exact ⟨rfl, fun fuel => eraseLoop_never hff fuel _ v⟩
  · right
    rw [if_neg hff, ← eraseRows_eq]
    exact ⟨_, _, eraseLoop_ends hff _ _ v (Nat.lt_succ_self _), rfl⟩

/-! ### The text -/

/-- The control sequences of a screen of 25 rows and 80 columns: a position, the rest of a line,
a count of lines, and a scrolling region or none. -/
def OfScreen (b : Byte) : List Nat → Prop
  | [] => b = 0x4B ∨ b = 0x72
  | [_] => b = 0x53 ∨ b = 0x54
  | [p, q] => (1 ≤ p ∧ p ≤ 25) ∧ (b = 0x48 ∧ (1 ≤ q ∧ q ≤ 80) ∨ b = 0x72 ∧ (1 ≤ q ∧ q ≤ 25))
  | _ => False

instance (b : Byte) (ps : List Nat) : Decidable (OfScreen b ps) := by
  unfold OfScreen
  split <;> infer_instance

open TextMode

/-- Two digits are a number up to 99; above it the first is no digit. -/
theorem read_dec2 (ps : List Nat) (a : Byte) (bs : List Byte) :
    read OfScreen (.csi ps none) (dec2 a ++ bs) =
      if a.toNat ≤ 99 then read OfScreen (.csi ps (some a.toNat)) bs else none := by
  have hsplit : dec2 a ++ bs = (a / 10 + 0x30) :: (a % 10 + 0x30) :: bs := rfl
  rw [hsplit]
  by_cases ha : a.toNat ≤ 99
  · have hall : ∀ a : Byte, a.toNat ≤ 99 →
        (0x30 ≤ a / 10 + 0x30 ∧ a / 10 + 0x30 ≤ 0x39) ∧
        (0x30 ≤ a % 10 + 0x30 ∧ a % 10 + 0x30 ≤ 0x39) ∧
        (0 * 10 + (a / 10 + 0x30 - 0x30).toNat) * 10 + (a % 10 + 0x30 - 0x30).toNat = a.toNat := by
      decide
    obtain ⟨htens, hunits, hvalue⟩ := hall a ha
    rw [if_pos ha, read_digit OfScreen ps none htens, read_digit OfScreen ps _ hunits]
    simp only [Option.getD_none, Option.getD_some, hvalue]
  · have hall : ∀ a : Byte, ¬ a.toNat ≤ 99 →
        ¬ (0x30 ≤ a / 10 + 0x30 ∧ a / 10 + 0x30 ≤ 0x39) ∧
        a / 10 + 0x30 ≠ 0x4B ∧ a / 10 + 0x30 ≠ 0x72 := by
      decide
    obtain ⟨hdigit, hk, hr⟩ := hall a ha
    have hnone : TextMode.next OfScreen (.csi ps none) (a / 10 + 0x30) = none := by
      rw [TextMode.next.eq_def]
      simp only [if_neg hdigit]
      split
      · rw [finish, if_neg]
        rintro ⟨-, hof⟩
        exact hof.elim hk hr
      · rfl
    rw [if_neg ha, TextMode.read, hnone]
    rfl

theorem OfScreen.le {b : Byte} {p q : Nat} (h : OfScreen b [p, q]) : p ≤ 99 ∧ q ≤ 99 := by
  obtain ⟨⟨-, hp⟩, ⟨-, -, hq⟩ | ⟨-, -, hq⟩⟩ := h
  · exact ⟨by omega, by omega⟩
  · exact ⟨by omega, by omega⟩

/-- A sequence with two numbers. -/
theorem read_sequence_two (a a' : Byte) {b : Byte} (hb : 0x40 ≤ b ∧ b < 0x7F) (bs : List Byte) :
    read OfScreen .ground
        ([0x1B, 0x5B] ++ (dec2 a ++ ([0x3B] ++ (dec2 a' ++ ([b] ++ bs))))) =
      if OfScreen b [a.toNat, a'.toNat] then read OfScreen .ground bs else none := by
  rw [read_csi, read_dec2]
  by_cases ha : a.toNat ≤ 99
  · rw [if_pos ha, List.singleton_append, read_semicolon, read_dec2]
    by_cases ha' : a'.toNat ≤ 99
    · rw [if_pos ha', List.singleton_append, read_final OfScreen _ _ hb]
      rfl
    · rw [if_neg ha', if_neg fun h => ha' h.le.2]
  · rw [if_neg ha, if_neg fun h => ha h.le.1]

theorem succ_range {a : Byte} {k : Nat} (hk : k ≤ 255) :
    1 ≤ (a + 1).toNat ∧ (a + 1).toNat ≤ k ↔ a.toNat < k := by
  have hlt := a.isLt
  rw [BitVec.toNat_add]
  show 1 ≤ (_ + 1) % 256 ∧ (_ + 1) % 256 ≤ k ↔ _
  omega

/-- `ESC [ row ; column H` -/
theorem read_gotoBytes (p : Pos) (bs : List Byte) :
    read OfScreen .ground (gotoBytes p ++ bs) =
      if p.OnScreen then read OfScreen .ground bs else none := by
  have hiff : OfScreen 0x48 [(p.row + 1).toNat, (p.col + 1).toNat] ↔ p.OnScreen := by
    simp only [OfScreen, Pos.OnScreen, succ_range (show 25 ≤ 255 by decide),
      succ_range (show 80 ≤ 255 by decide)]
    simp
  simp only [gotoBytes, List.append_assoc]
  rw [read_sequence_two (p.row + 1) (p.col + 1) (b := 0x48) (by decide) bs]
  simp only [hiff]

/-- The rows of `.blank` -/
theorem read_eraseBytes (cl : Byte) (n : Nat) (al : Byte) (hn : al.toNat + n ≤ 256)
    (bs : List Byte) : read OfScreen .ground (eraseBytes cl n al ++ bs) =
      if n = 0 ∨ al.toNat + n ≤ 25 ∧ cl.toNat < 80 then read OfScreen .ground bs else none := by
  induction n generalizing al with
  | zero =>
      rw [if_pos (.inl rfl)]
      rfl
  | succ n ih =>
      have hrow : read OfScreen .ground (eraseBytes cl (n + 1) al ++ bs) =
          if Pos.OnScreen ⟨al, cl⟩ then read OfScreen .ground (eraseBytes cl n (al + 1) ++ bs)
          else none := by
        simp only [eraseBytes, List.append_assoc]
        rw [read_gotoBytes]
        rfl
      rw [hrow]
      by_cases hon : Pos.OnScreen ⟨al, cl⟩
      · obtain ⟨hal, hcl⟩ := hon
        simp only at hal hcl
        have hnext : (al + 1).toNat = al.toNat + 1 := toNat_succ (by omega)
        rw [if_pos ⟨hal, hcl⟩, ih (al + 1) (by omega), hnext]
        congr 1
        simp only [eq_iff_iff]
        omega
      · rw [if_neg hon, if_neg]
        simp only [Pos.OnScreen] at hon
        omega

/-- The region, the scroll, and no region. -/
theorem read_scrollBytes (w : Window) (al : Byte) (way : Way) (bs : List Byte) :
    read OfScreen .ground (scrollBytes w al way.letter ++ bs) =
      if (w.top.toNat < 25 ∧ w.bottom.toNat < 25) ∧ al.toNat ≤ 99 then read OfScreen .ground bs
      else none := by
  have hiff : OfScreen 0x72 [(w.top + 1).toNat, (w.bottom + 1).toNat] ↔
      w.top.toNat < 25 ∧ w.bottom.toNat < 25 := by
    simp only [OfScreen, succ_range (show 25 ≤ 255 by decide)]
    simp
  have hletter : (0x40 ≤ way.letter ∧ way.letter < 0x7F) ∧ OfScreen way.letter [al.toNat] := by
    cases way
    · exact ⟨by decide, .inl rfl⟩
    · exact ⟨by decide, .inr rfl⟩
  simp only [scrollBytes, List.append_assoc]
  rw [read_sequence_two (w.top + 1) (w.bottom + 1) (b := 0x72) (by decide)]
  simp only [hiff]
  by_cases hrows : w.top.toNat < 25 ∧ w.bottom.toNat < 25
  · rw [if_pos hrows, read_csi, read_dec2]
    by_cases hal : al.toNat ≤ 99
    · rw [if_pos hal, if_pos ⟨hrows, hal⟩, List.singleton_append,
        read_final OfScreen [] _ hletter.1, List.nil_append, if_pos hletter.2]
      rfl
    · rw [if_neg hal, if_neg fun h => hal h.2]
  · rw [if_neg hrows, if_neg fun h => hrows h.1]

/-! ### What the terminal makes of it -/

variable {t : Vt}

/-- A terminal of which the whole screen scrolls. -/
structure AtRest (t : Vt) : Prop where
  ground : t.mode = .ground
  top : t.top = 0
  bottom : t.bottom = 24

theorem AtRest.feed_gotoBytes (h : AtRest t) {p : Pos} (hp : p.OnScreen) :
    AtRest (t.feed (gotoBytes p)) := by
  obtain ⟨hrow, hcol⟩ := hp
  rw [Video.feed_gotoBytes h.ground (by omega) (by omega)]
  exact ⟨h.ground, h.top, h.bottom⟩

theorem AtRest.feed_eraseBytes (h : AtRest t) {cl al : Byte} {n : Nat}
    (hn : n = 0 ∨ al.toNat + n ≤ 25 ∧ cl.toNat < 80) : AtRest (t.feed (eraseBytes cl n al)) := by
  rcases hn with rfl | ⟨hrows, hcl⟩
  · exact h
  · obtain ⟨hground, htop, hbottom, -⟩ := Video.feed_eraseBytes t hcl n al h.ground (by omega)
    exact ⟨hground, htop.trans h.top, hbottom.trans h.bottom⟩

/-- No sequence of a scroll leaves the terminal in the middle of another. -/
theorem mode_execute {b : Byte} (hb : b = 0x53 ∨ b = 0x54 ∨ b = 0x72) (ps : List Nat) :
    (t.execute b ps).mode = t.mode := by
  rcases hb with rfl | rfl | rfl
  · rfl
  · rfl
  · show (t.setRegion _ _).mode = _
    simp only [setRegion]
    exact (apply_ite AnsiTerminal.mode _ _ _).trans (ite_self _)

/-- The region is the whole screen again, whatever became of the one that was asked for. -/
theorem AtRest.feed_scrollBytes (h : AtRest t) {w : Window} {al : Byte} (way : Way)
    (hrows : w.top.toNat < 25 ∧ w.bottom.toNat < 25) (hal : al.toNat ≤ 99) :
    AtRest (t.feed (scrollBytes w al way.letter)) := by
  have htop := toNat_succ (a := w.top) (by omega)
  have hbottom := toNat_succ (a := w.bottom) (by omega)
  have hletter : (0x40 ≤ way.letter ∧ way.letter < 0x7F) ∧
      (way.letter = 0x53 ∨ way.letter = 0x54 ∨ way.letter = 0x72) := by
    cases way <;> decide
  rw [scrollBytes, feed_append, feed_append,
    feed_sequence_two h.ground (by omega) (by omega) (by decide)]
  generalize hu : t.execute 0x72 [(w.top + 1).toNat, (w.bottom + 1).toNat] = u
  have hground : u.mode = .ground := by
    rw [← hu, mode_execute (.inr (.inr rfl))]
    exact h.ground
  rw [feed_sequence_one hground hal hletter.1]
  generalize hx : u.execute way.letter [al.toNat] = x
  have hground' : x.mode = .ground := by
    rw [← hx, mode_execute hletter.2]
    exact hground
  rw [feed_sequence hground' (by decide)]
  show AtRest (x.setRegion 0 0)
  rw [setRegion_zero x (by decide)]
  exact ⟨hground', rfl, rfl⟩

/-! ### Functions 06 and 07 -/

/-- The call comes back; all it sends is well formed; and the whole screen scrolls after it. -/
def ScrollSent (r : Regs) (v : Display) : Prop :=
  ∃ v' bytes, int10h r v = (v', some r) ∧ v'.sent = v.sent ++ bytes ∧
    WellFormed OfScreen bytes ∧ ∀ t : Vt, AtRest t → AtRest (t.feed bytes)

/-- What is sent of the window is on the screen. Only the bottom row matters if nothing is. -/
def WindowSent (v : Display) (al : Byte) (w : Window) : Prop :=
  if v.console &&& CON_SERIAL = 0 then ¬ (Blanks al w ∧ w.bottom = 0xFF)
  else if Blanks al w then
    w.bottom.toNat < w.top.toNat ∨ w.bottom.toNat < 25 ∧ w.left.toNat < 80
  else (w.top.toNat < 25 ∧ w.bottom.toNat < 25) ∧ al.toNat ≤ 99

instance (v : Display) (al : Byte) (w : Window) : Decidable (WindowSent v al w) := by
  unfold WindowSent
  infer_instance

/-- The two functions are one. -/
theorem int10h_scroll {r : Regs} (h : high r.ax = 0x06 ∨ high r.ax = 0x07) (v : Display) :
    ∃ v' way, Draws v v' ∧ int10h r v = vScrollSerial r v' (Way.letter way) := by
  have hscroll : ∀ way, ∃ v', Draws v v' ∧
      vScroll r v way = vScrollSerial r v' way.letter := by
    intro way
    by_cases hvideo : v.console &&& CON_VIDEO = 0
    · refine ⟨v, Draws.refl v, ?_⟩
      simp only [vScroll, if_pos hvideo]
      cases way <;> rfl
    · refine ⟨_, gScroll_draws way (low r.ax) (high r.bx) r.window v, ?_⟩
      simp only [vScroll, if_neg hvideo]
      cases way <;> rfl
  rcases h with h6 | h7
  · obtain ⟨v', hdraws, hv'⟩ := hscroll .up
    refine ⟨v', .up, hdraws, ?_⟩
    rw [← hv', int10h, h6]
    rfl
  · obtain ⟨v', hdraws, hv'⟩ := hscroll .down
    refine ⟨v', .down, hdraws, ?_⟩
    rw [← hv', int10h, h7]
    rfl

/-- A call that sends `bytes`, and the cursor after them. -/
theorem scrollSent_iff {r : Regs} {v v' : Display} {bytes : List Byte} {fits : Prop}
    [Decidable fits] (hdraws : Draws v v') (hcursor : v.gBdaCursor.OnScreen)
    (hcall : int10h r v = vDone r (vgoto (v'.say bytes)))
    (hread : ∀ bs, TextMode.read OfScreen .ground (bytes ++ bs) =
      if fits then TextMode.read OfScreen .ground bs else none)
    (hrest : fits → ∀ t : Vt, AtRest t → AtRest (t.feed bytes)) :
    ScrollSent r v ↔ v.console &&& CON_SERIAL = 0 ∨ fits := by
  have hsay : int10h r v = (v'.say (bytes ++ gotoBytes v.gBdaCursor), some r) := by
    rw [hcall, vgoto_eq, Display.gBdaCursor_say, hdraws.gBdaCursor, Display.say_say]
    rfl
  by_cases hoff : v.console &&& CON_SERIAL = 0
  · -- not a byte
    have hnone : v'.say (bytes ++ gotoBytes v.gBdaCursor) = v' := by
      rw [Display.say, hdraws.console, if_pos hoff]
    refine ⟨fun _ => .inl hoff, fun _ => ⟨v', [], hsay.trans (by rw [hnone]), ?_, rfl, ?_⟩⟩
    · rw [hdraws.sent, List.append_nil]
    · exact fun t h => h
  · have hsent : (v'.say (bytes ++ gotoBytes v.gBdaCursor)).sent =
        v.sent ++ (bytes ++ gotoBytes v.gBdaCursor) := by
      rw [Display.say, hdraws.console, if_neg hoff]
      exact congrArg (· ++ _) hdraws.sent
    have hgoto : TextMode.read OfScreen .ground (gotoBytes v.gBdaCursor) = some .ground := by
      have hone := read_gotoBytes v.gBdaCursor []
      rwa [List.append_nil, if_pos hcursor] at hone
    constructor
    · rintro ⟨v'', bs, hv'', hbs, hwell, -⟩
      rw [hsay] at hv''
      cases hv''
      rw [hsent] at hbs
      rw [← List.append_cancel_left hbs, WellFormed, hread] at hwell
      by_contra hnot
      rw [if_neg fun hfits => hnot (.inr hfits)] at hwell
      cases hwell
    · intro hfits
      replace hfits := hfits.resolve_left hoff
      refine ⟨_, _, hsay, hsent, ?_, fun t ht => ?_⟩
      · rw [WellFormed, hread, if_pos hfits]
        exact hgoto
      · rw [feed_append]
        exact (hrest hfits t ht).feed_gotoBytes hcursor

/-- **What a scroll sends is well formed just if what is sent of the window is on the screen**,
of any call that follows one of function 00. -/
theorem scroll_sent_iff (v : Display) {r₀ r : Regs} (h₀ : high r₀.ax = 0x00) (rs : List Regs)
    (h : high r.ax = 0x06 ∨ high r.ax = 0x07) :
    ScrollSent r (calls (r₀ :: rs) { v with wrote := [] }) ↔
      WindowSent (calls (r₀ :: rs) { v with wrote := [] }) (low r.ax) r.window := by
  have hbounded : Bounded (calls (r₀ :: rs) { v with wrote := [] }) := by
    obtain ⟨v', r', hcall, hbounded⟩ := int10h_fn00_bounded v h₀
    rw [calls, hcall]
    exact calls_bounded hbounded rs
  generalize calls (r₀ :: rs) { v with wrote := [] } = v at hbounded
  obtain ⟨v', way, hdraws, hcall⟩ := int10h_scroll h v
  rw [vScrollSerial_eq] at hcall
  generalize hw : r.window = w at hcall
  by_cases hblanks : Blanks (low r.ax) w
  · rw [if_pos hblanks] at hcall
    by_cases hff : w.bottom = 0xFF
    · -- the call does not come back
      rw [if_pos hff] at hcall
      have hnever : ¬ ScrollSent r v := by
        rintro ⟨v'', bs, hv'', -⟩
        rw [hcall] at hv''
        cases hv''
      have hall : w.bottom.toNat = 255 := by
        rw [hff]
        rfl
      have htop := w.top.isLt
      rw [WindowSent]
      simp only [hblanks, hff, and_self, not_true_eq_false, if_true]
      refine ⟨fun hsent => (hnever hsent).elim, fun hwin => ?_⟩
      rw [← hff] at hwin
      split at hwin
      · exact hwin.elim
      · omega
    · rw [if_neg hff] at hcall
      rw [scrollSent_iff hdraws hbounded.gBdaCursor hcall
        (fun bs => read_eraseBytes w.left _ w.top (by omega) bs)
        (fun hfits t ht => ht.feed_eraseBytes hfits)]
      have hlt := w.bottom.isLt
      rw [WindowSent]
      split
      · rename_i hoff
        exact ⟨fun _ hboth => hff hboth.2, fun _ => .inl hoff⟩
      · rename_i hon
        simp only [hon, false_or]
        omega
  · rw [if_neg hblanks] at hcall
    rw [scrollSent_iff hdraws hbounded.gBdaCursor hcall (read_scrollBytes w (low r.ax) way)
      (fun hfits t ht => ht.feed_scrollBytes way hfits.1 hfits.2), WindowSent, if_neg hblanks]
    split
    · rename_i hoff
      exact ⟨fun _ hboth => hblanks hboth.1, fun _ => .inl hoff⟩
    · rename_i hon
      simp only [hon, false_or]

/-- Lines 2 to 24 go up by one. -/
theorem scroll_sent_lines : ScrollSent ⟨0x0601, 0x0700, 0x0100, 0x174F⟩
    (calls [⟨0x0083, 0, 0, 0⟩] { blankDisplay with wrote := [] }) :=
  (scroll_sent_iff blankDisplay (show high (⟨0x0083, 0, 0, 0⟩ : Regs).ax = 0x00 by decide) []
    (.inl (by decide))).mpr (by decide)

/-- A window from row 20 to row 255 is never cleared. -/
theorem not_scroll_sent : ¬ ScrollSent ⟨0x0600, 0x0700, 0x1400, 0xFF4F⟩
    (calls [⟨0x0083, 0, 0, 0⟩] { blankDisplay with wrote := [] }) := by
  rintro ⟨v', bytes, hcall, -⟩
  have hnone : (int10h ⟨0x0600, 0x0700, 0x1400, 0xFF4F⟩
    (calls [⟨0x0083, 0, 0, 0⟩] { blankDisplay with wrote := [] })).2 = none := rfl
  rw [hcall] at hnone
  cases hnone

end Sbc386Ex.Video

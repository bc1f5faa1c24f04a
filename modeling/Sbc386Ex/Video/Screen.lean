import Sbc386Ex.Video.Vga3

/-!
# Sbc386Ex.Video.Screen

What the routines of the board do to the screen: the characters it shows, and where they
write.
-/

namespace Sbc386Ex.Video

open Cpu (low high)

/-- The character in cell `i`, counted from the top left. -/
def Display.char (v : Display) (i : Nat) : Byte := v.ram (BitVec.ofNat 16 (2 * i))

/-- Its attribute, and the two together. -/
def Display.attr (v : Display) (i : Nat) : Byte := v.ram (BitVec.ofNat 16 (2 * i + 1))
def Display.cell (v : Display) (i : Nat) : Word := v.attr i ++ v.char i

@[simp] theorem Display.low_cell (v : Display) (i : Nat) : low (v.cell i) = v.char i :=
  Cpu.low_append _ _

/-- From `v` to `v'` only the RAM was written, and only the cells of the screen. -/
structure Draws (v v' : Display) : Prop where
  rest : v' = { v with ram := v'.ram, wrote := v'.wrote }
  wrote : ∀ off ∈ v'.wrote, off ∈ v.wrote ∨ off.toNat < 4000

variable {v v' v'' : Display}

theorem Draws.refl (v : Display) : Draws v v := ⟨rfl, fun _ h => .inl h⟩

theorem Draws.trans (h : Draws v v') (h' : Draws v' v'') : Draws v v'' := by
  refine ⟨?_, fun off hoff => ?_⟩
  · rw [h'.rest, h.rest]
  · rcases h'.wrote off hoff with hold | hnew
    · exact h.wrote off hold
    · exact .inr hnew

/-! ### A byte -/

theorem draws_poke {off : Word} (h : off.toNat < 4000) (b : Byte) : Draws v (v.poke off b) := by
  refine ⟨rfl, fun o ho => ?_⟩
  rcases List.mem_cons.mp ho with rfl | hold
  · exact .inr h
  · exact .inl hold

theorem char_poke {off : Word} {i j : Nat} (h : off.toNat = 2 * i) (hj : j < 32768) (b : Byte) :
    (v.poke off b).char j = if j = i then b else v.char j := by
  simp only [Display.char, Display.poke]
  by_cases hij : j = i
  · have hoff : BitVec.ofNat 16 (2 * j) = off := by
      rw [hij, ← h, BitVec.ofNat_toNat, BitVec.setWidth_eq]
    rw [if_pos hij, hoff, Function.update_self]
  · have hoff : BitVec.ofNat 16 (2 * j) ≠ off := by
      intro heq
      have hnat := congrArg BitVec.toNat heq
      rw [BitVec.toNat_ofNat, h] at hnat
      omega
    rw [if_neg hij, Function.update_of_ne hoff]

/-- An attribute is at an odd offset. -/
theorem char_poke_attr {off : Word} (h : off.toNat % 2 = 1) (j : Nat) (b : Byte) :
    (v.poke off b).char j = v.char j := by
  have hoff : BitVec.ofNat 16 (2 * j) ≠ off := by
    rintro rfl
    rw [BitVec.toNat_ofNat] at h
    omega
  simp only [Display.char, Display.poke, Function.update_of_ne hoff]

theorem toNat_next {di : Word} {i : Nat} (h : di.toNat = 2 * i) (hi : i < 2000) :
    (di + 2).toNat = 2 * (i + 1) ∧ (di + 1).toNat = 2 * i + 1 := by
  have h2 : (2 : Word).toNat = 2 := rfl
  have h1 : (1 : Word).toNat = 1 := rfl
  rw [BitVec.toNat_add, BitVec.toNat_add, h, h1, h2]
  omega

theorem attr_poke {off : Word} {i j : Nat} (h : off.toNat = 2 * i + 1) (hj : j < 32768)
    (b : Byte) : (v.poke off b).attr j = if j = i then b else v.attr j := by
  simp only [Display.attr, Display.poke]
  by_cases hij : j = i
  · have hoff : BitVec.ofNat 16 (2 * j + 1) = off := by
      rw [hij, ← h, BitVec.ofNat_toNat, BitVec.setWidth_eq]
    rw [if_pos hij, hoff, Function.update_self]
  · have hoff : BitVec.ofNat 16 (2 * j + 1) ≠ off := by
      intro heq
      have hnat := congrArg BitVec.toNat heq
      rw [BitVec.toNat_ofNat, h] at hnat
      omega
    rw [if_neg hij, Function.update_of_ne hoff]

/-- A character is at an even one. -/
theorem attr_poke_char {off : Word} (h : off.toNat % 2 = 0) (j : Nat) (b : Byte) :
    (v.poke off b).attr j = v.attr j := by
  have hoff : BitVec.ofNat 16 (2 * j + 1) ≠ off := by
    rintro rfl
    rw [BitVec.toNat_ofNat] at h
    omega
  simp only [Display.attr, Display.poke, Function.update_of_ne hoff]

/-- `stosw`: the whole of a cell, and no other of the 32768 there are. -/
theorem stosw_spec {di : Word} {i : Nat} (h : di.toNat = 2 * i) (hi : i < 2000) (al ah : Byte) :
    Draws v ((v.poke di al).poke (di + 1) ah) ∧ ∀ j, j < 32768 →
      ((v.poke di al).poke (di + 1) ah).cell j = if j = i then ah ++ al else v.cell j := by
  have hodd := (toNat_next h hi).2
  refine ⟨(draws_poke (by omega) al).trans (draws_poke (by omega) ah), fun j hj => ?_⟩
  rw [Display.cell, char_poke_attr (by omega) j, char_poke h hj, attr_poke hodd hj,
    attr_poke_char (by omega) j]
  split
  · rfl
  · rfl

/-! ### Runs of cells -/

theorem storeChars_spec (al : Byte) {n : Nat} {di : Word} {i : Nat} (h : di.toNat = 2 * i)
    (hn : i + n ≤ 2000) :
    (storeChars al n di v).1.toNat = 2 * (i + n) ∧ Draws v (storeChars al n di v).2 ∧
      ∀ j, j < 2000 → (storeChars al n di v).2.char j =
        if i ≤ j ∧ j < i + n then al else v.char j := by
  induction n generalizing di i v with
  | zero =>
      refine ⟨h, Draws.refl v, fun j hj => ?_⟩
      rw [if_neg (by omega)]
      rfl
  | succ n ih =>
      obtain ⟨hend, hdraws, hchar⟩ :=
        ih (v := v.poke di al) (toNat_next h (by omega)).1 (by omega)
      refine ⟨by rw [storeChars, hend]; omega, (draws_poke (by omega) al).trans hdraws,
        fun j hj => ?_⟩
      rw [storeChars, hchar j hj, char_poke h (by omega)]
      by_cases hij : j = i
      · rw [if_neg (by omega), if_pos hij, if_pos (by omega)]
      · rw [if_neg hij]
        simp only [show (i + 1 ≤ j ∧ j < i + 1 + n ↔ i ≤ j ∧ j < i + (n + 1)) by omega]

theorem storeWords_spec (ax : Word) {n : Nat} {di : Word} {i : Nat} (h : di.toNat = 2 * i)
    (hn : i + n ≤ 2000) :
    (storeWords ax n di v).1.toNat = 2 * (i + n) ∧ Draws v (storeWords ax n di v).2 ∧
      ∀ j, j < 32768 → (storeWords ax n di v).2.cell j =
        if i ≤ j ∧ j < i + n then ax else v.cell j := by
  induction n generalizing di i v with
  | zero =>
      refine ⟨h, Draws.refl v, fun j hj => ?_⟩
      rw [if_neg (by omega)]
      rfl
  | succ n ih =>
      obtain ⟨hword, hfirst⟩ := stosw_spec (v := v) h (by omega) (low ax) (high ax)
      rw [Cpu.high_append_low] at hfirst
      obtain ⟨hend, hdraws, hcell⟩ :=
        ih (v := (v.poke di (low ax)).poke (di + 1) (high ax)) (toNat_next h (by omega)).1
          (by omega)
      refine ⟨by rw [storeWords, hend]; omega, hword.trans hdraws, fun j hj => ?_⟩
      rw [storeWords, hcell j hj, hfirst j hj]
      by_cases hij : j = i
      · rw [if_neg (by omega), if_pos hij, if_pos (by omega)]
      · rw [if_neg hij]
        simp only [show (i + 1 ≤ j ∧ j < i + 1 + n ↔ i ≤ j ∧ j < i + (n + 1)) by omega]

/-- `rep movsw` between two runs that are apart. -/
theorem moveWords_spec {n : Nat} {si di : Word} {s d : Nat} (hs : si.toNat = 2 * s)
    (hd : di.toNat = 2 * d) (hsn : s + n ≤ 2000) (hdn : d + n ≤ 2000)
    (hapart : d + n ≤ s ∨ s + n ≤ d) :
    Draws v (moveWords n si di v) ∧ ∀ j, j < 32768 → (moveWords n si di v).cell j =
      if d ≤ j ∧ j < d + n then v.cell (s + (j - d)) else v.cell j := by
  induction n generalizing si di s d v with
  | zero =>
      refine ⟨Draws.refl v, fun j hj => ?_⟩
      rw [if_neg (by omega)]
      rfl
  | succ n ih =>
      obtain ⟨hword, hfirst⟩ := stosw_spec (v := v) hd (by omega) (v.ram si) (v.ram (si + 1))
      obtain ⟨hdraws, hcell⟩ :=
        ih (v := (v.poke di (v.ram si)).poke (di + 1) (v.ram (si + 1)))
          (toNat_next hs (by omega)).1 (toNat_next hd (by omega)).1 (by omega) (by omega) (by omega)
      refine ⟨hword.trans hdraws, fun j hj => ?_⟩
      have hsource : v.ram (si + 1) ++ v.ram si = v.cell s := by
        have hattr : si + 1 = BitVec.ofNat 16 (2 * s + 1) := by
          rw [← (toNat_next hs (by omega)).2, BitVec.ofNat_toNat, BitVec.setWidth_eq]
        have hchar : si = BitVec.ofNat 16 (2 * s) := by
          rw [← hs, BitVec.ofNat_toNat, BitVec.setWidth_eq]
        rw [Display.cell, Display.attr, Display.char, ← hattr, ← hchar]
      rw [moveWords, hcell j hj]
      by_cases hin : d + 1 ≤ j ∧ j < d + 1 + n
      · rw [if_pos hin, if_pos (by omega), hfirst _ (by omega), if_neg (by omega)]
        congr 1
        omega
      · rw [if_neg hin, hfirst j hj]
        by_cases hij : j = d
        · rw [if_pos hij, if_pos (by omega), hsource]
          congr 1
          omega
        · rw [if_neg hij, if_neg (by omega)]

/-! ### Cells -/

def Pos.OnScreen (p : Pos) : Prop := p.row.toNat < 25 ∧ p.col.toNat < 80

instance (p : Pos) : Decidable p.OnScreen := inferInstanceAs (Decidable (_ ∧ _))

def Pos.index (p : Pos) : Nat := p.row.toNat * 80 + p.col.toNat

theorem toNat_gCell (p : Pos) : (gCell p).toNat = 2 * p.index := by
  have hrow := p.row.isLt
  have hcol := p.col.isLt
  have h80 : (80 : Word).toNat = 80 := rfl
  simp only [gCell, BitVec.toNat_add, BitVec.toNat_mul, BitVec.toNat_setWidth, h80, Pos.index]
  omega

theorem Pos.OnScreen.index_lt {p : Pos} (h : p.OnScreen) : p.index < 2000 := by
  obtain ⟨hrow, hcol⟩ := h
  unfold Pos.index
  omega

theorem vga3Putc_spec (al : Byte) (h : v.gBdaCursor.OnScreen) :
    Draws v (vga3Putc al v) ∧ ∀ j, j < 2000 →
      (vga3Putc al v).char j = if j = v.gBdaCursor.index then al else v.char j := by
  have hcell := toNat_gCell v.gBdaCursor
  have hlt := h.index_lt
  exact ⟨draws_poke (by omega) al, fun j hj => char_poke hcell (by omega) al⟩

/-- The cells of a row that `vga3_cells` writes, with the attribute or without. -/
def storeRow (bl dh dl : Byte) (ax di : Word) (v : Display) : Word × Display :=
  if dl &&& 1 = 0 then storeChars bl (loopRounds ax) di v
  else storeWords (dh ++ bl) ax.toNat di v

theorem storeRow_spec (bl dh dl : Byte) {ax di : Word} {i : Nat} (hax : ax ≠ 0)
    (h : di.toNat = 2 * i) (hn : i + ax.toNat ≤ 2000) :
    (storeRow bl dh dl ax di v).1.toNat = 2 * (i + ax.toNat) ∧
      Draws v (storeRow bl dh dl ax di v).2 ∧
      ∀ j, j < 2000 → (storeRow bl dh dl ax di v).2.char j =
        if i ≤ j ∧ j < i + ax.toNat then bl else v.char j := by
  unfold storeRow
  split
  · rw [loopRounds, if_neg hax]
    exact storeChars_spec bl h hn
  · obtain ⟨hend, hdraws, hcell⟩ := storeWords_spec (v := v) (dh ++ bl : Word) h hn
    refine ⟨hend, hdraws, fun j hj => ?_⟩
    rw [← Display.low_cell, hcell j (by omega), apply_ite low, Cpu.low_append, Display.low_cell]

/-- The rows of `vga3_cells` are one run of cells. -/
theorem cellRows_spec (bl dh dl : Byte) {fuel : Nat} (si : Pos) {cx di : Word} {i : Nat}
    (hfuel : cx.toNat ≤ fuel) (hcx : cx ≠ 0) (hcol : si.col.toNat < 80) (h : di.toNat = 2 * i)
    (hn : i + cx.toNat ≤ 2000) :
    Draws v (cellRows bl dh dl fuel si cx di v) ∧ ∀ j, j < 2000 →
      (cellRows bl dh dl fuel si cx di v).char j =
        if i ≤ j ∧ j < i + cx.toNat then bl else v.char j := by
  have hpos : 0 < cx.toNat := Nat.pos_of_ne_zero fun hzero => hcx (BitVec.eq_of_toNat_eq hzero)
  induction fuel generalizing si cx di i v with
  | zero => omega
  | succ fuel ih =>
      have hleft : ((80 - si.col).setWidth 16 : Word).toNat = 80 - si.col.toNat := by
        rw [BitVec.toNat_setWidth, BitVec.toNat_sub]
        show (256 - si.col.toNat + 80) % 256 % 65536 = _
        omega
      have hround : cellRows bl dh dl (fuel + 1) si cx di v =
          let ax : Word := (80 - si.col).setWidth 16
          let ax := if ax ≤ cx then ax else cx
          let r := storeRow bl dh dl ax di v
          if cx - ax = 0 then r.2 else cellRows bl dh dl fuel ⟨si.row + 1, 0⟩ (cx - ax) r.1 r.2 :=
        rfl
      rw [hround]
      by_cases hle : ((80 - si.col).setWidth 16 : Word) ≤ cx
      · -- the rest of the row, and others if there are more
        simp only [if_pos hle]
        generalize ((80 - si.col).setWidth 16 : Word) = ax at hle hleft
        rw [BitVec.le_def] at hle
        have hax : ax ≠ 0 := by
          rintro rfl
          simp at hleft
          omega
        obtain ⟨hend, hdraws, hchar⟩ := storeRow_spec (v := v) bl dh dl hax h (by omega)
        have hsub : (cx - ax).toNat = cx.toNat - ax.toNat := BitVec.toNat_sub_of_le hle
        split
        · rename_i hzero
          rw [hzero] at hsub
          have heq : cx.toNat = ax.toNat := by
            simp at hsub
            omega
          rw [heq]
          exact ⟨hdraws, hchar⟩
        · rename_i hmore
          have hpos' : 0 < (cx - ax).toNat :=
            Nat.pos_of_ne_zero fun hzero => hmore (BitVec.eq_of_toNat_eq hzero)
          obtain ⟨hdraws', hchar'⟩ := ih ⟨si.row + 1, 0⟩ (by omega) hmore
            (show (0 : Byte).toNat < 80 by decide) hend (by omega) hpos'
          refine ⟨hdraws.trans hdraws', fun j hj => ?_⟩
          rw [hchar' j hj, hchar j hj, hsub]
          split_ifs <;> first | rfl | omega
      · simp only [if_neg hle, BitVec.sub_self]
        exact (storeRow_spec bl dh dl hcx h hn).2

/-- `vga3_cells` is clipped to the screen. -/
theorem vga3Cells_spec (al bl : Byte) (cx : Word) (dl : Byte) (h : v.gBdaCursor.OnScreen) :
    Draws v (vga3Cells al bl cx dl v) ∧ ∀ j, j < 2000 → (vga3Cells al bl cx dl v).char j =
      if v.gBdaCursor.index ≤ j ∧ j < v.gBdaCursor.index + cx.toNat then al else v.char j := by
  have hlt := h.index_lt
  have hcell := toNat_gCell v.gBdaCursor
  have hroom : ((4000 - gCell v.gBdaCursor) >>> 1 : Word).toNat =
      2000 - v.gBdaCursor.index := by
    rw [BitVec.toNat_ushiftRight, BitVec.toNat_sub, hcell, Nat.shiftRight_eq_div_pow]
    show (65536 - _ + 4000) % 65536 / 2 = _
    omega
  simp only [vga3Cells]
  generalize ((4000 - gCell v.gBdaCursor) >>> 1 : Word) = ax at hroom
  have hclip : ∃ n : Word, (if cx ≤ ax then cx else ax) = n ∧
      n.toNat ≤ 2000 - v.gBdaCursor.index ∧
      (n.toNat = cx.toNat ∨ 2000 ≤ v.gBdaCursor.index + n.toNat ∧ n.toNat ≤ cx.toNat) := by
    refine ⟨_, rfl, ?_⟩
    split
    · rename_i hle
      rw [BitVec.le_def] at hle
      omega
    · rename_i hgt
      rw [BitVec.le_def] at hgt
      omega
  obtain ⟨n, hn, hroom', hcases⟩ := hclip
  rw [hn]
  split
  · rename_i hzero
    rw [hzero] at hcases
    refine ⟨Draws.refl v, fun j hj => ?_⟩
    rw [if_neg]
    simp at hcases
    omega
  · rename_i hne
    obtain ⟨hdraws, hchar⟩ := cellRows_spec (v := v) al bl dl _ (Nat.le_succ n.toNat) hne h.2 hcell
      (by omega)
    refine ⟨hdraws, fun j hj => ?_⟩
    rw [hchar j hj]
    split_ifs <;> first | rfl | omega

/-! ### Scrolling -/

/-- The character in row `r`, column `c`. -/
def Display.at (v : Display) (r c : Nat) : Byte := v.char (r * 80 + c)

/-- The whole cell. -/
def Display.cellAt (v : Display) (r c : Nat) : Word := v.cell (r * 80 + c)

theorem Display.low_cellAt (v : Display) (r c : Nat) : low (v.cellAt r c) = v.at r c :=
  v.low_cell _

/-- The window is on the screen, and there is something in it. -/
structure Window.Inside (w : Window) : Prop where
  rows : w.top.toNat ≤ w.bottom.toNat
  bottom : w.bottom.toNat < 25
  cols : w.left.toNat ≤ w.right.toNat
  right : w.right.toNat < 80

namespace Window

variable {w : Window}

def HasCol (w : Window) (c : Nat) : Prop := w.left.toNat ≤ c ∧ c ≤ w.right.toNat

instance (w : Window) (c : Nat) : Decidable (w.HasCol c) := inferInstanceAs (Decidable (_ ∧ _))

theorem Inside.cells_eq (h : w.Inside) : w.cells = w.right.toNat - w.left.toNat + 1 := by
  have hcols := h.cols
  have hright := h.right
  rw [cells, BitVec.toNat_add, BitVec.toNat_sub_of_le (by rw [BitVec.le_def]; exact hcols)]
  show (_ + 1) % 256 = _
  omega

/-- The row of a cell of a row. -/
theorem Inside.mem_iff (h : w.Inside) {r c a : Nat} (hc : c < 80) :
    a * 80 + w.left.toNat ≤ r * 80 + c ∧ r * 80 + c < a * 80 + w.left.toNat + w.cells ↔
      r = a ∧ w.HasCol c := by
  have hcols := h.cols
  have hright := h.right
  rw [h.cells_eq, HasCol]
  omega

end Window

variable {w : Window}

theorem rowCopy_spec (h : w.Inside) {a b : Byte} (ha : a.toNat < 25) (hb : b.toNat < 25)
    (hne : a.toNat ≠ b.toNat) :
    Draws v (rowCopy w a b v) ∧ ∀ r c, r * 80 + c < 32768 → c < 80 →
      (rowCopy w a b v).cellAt r c =
        if r = a.toNat ∧ w.HasCol c then v.cellAt b.toNat c else v.cellAt r c := by
  have hcells := h.cells_eq
  have hcols := h.cols
  have hright := h.right
  obtain ⟨hdraws, hcell⟩ := moveWords_spec (v := v) (n := w.cells)
    (toNat_gCell ⟨b, w.left⟩) (toNat_gCell ⟨a, w.left⟩)
    (by simp only [Pos.index]; omega) (by simp only [Pos.index]; omega)
    (by simp only [Pos.index]; omega)
  refine ⟨hdraws, fun r c hr hc => ?_⟩
  rw [Display.cellAt, rowCopy, hcell _ (by omega)]
  simp only [Pos.index, h.mem_iff hc]
  split
  · rename_i hin
    rw [Display.cellAt, hin.1]
    congr 1
    unfold Window.HasCol at hin
    omega
  · rfl

theorem rowBlank_spec (h : w.Inside) {a : Byte} (ha : a.toNat < 25) (al : Byte) :
    Draws v (rowBlank w a al v) ∧ ∀ r c, r * 80 + c < 32768 → c < 80 →
      (rowBlank w a al v).cellAt r c =
        if r = a.toNat ∧ w.HasCol c then al ++ (0x20 : Byte) else v.cellAt r c := by
  have hcells := h.cells_eq
  have hcols := h.cols
  have hright := h.right
  obtain ⟨-, hdraws, hcell⟩ := storeWords_spec (v := v) (al ++ (0x20 : Byte) : Word)
    (n := w.cells) (toNat_gCell ⟨a, w.left⟩) (by simp only [Pos.index]; omega)
  refine ⟨hdraws, fun r c hr hc => ?_⟩
  rw [Display.cellAt, rowBlank, hcell _ (by omega)]
  simp only [Pos.index, h.mem_iff hc]
  rfl

/-- `.move` upwards: a row is copied before it is overwritten. -/
theorem moveRows_up (h : w.Inside) {lines : Byte} (hlines : lines ≠ 0) (n : Nat) (bl : Byte)
    (hn : w.top.toNat + bl.toNat + n + lines.toNat ≤ w.bottom.toNat + 1) :
    Draws v (moveRows .up w lines n bl v) ∧ ∀ r c, r * 80 + c < 32768 → c < 80 →
      (moveRows .up w lines n bl v).cellAt r c =
        if (w.top.toNat + bl.toNat ≤ r ∧ r < w.top.toNat + bl.toNat + n) ∧ w.HasCol c
        then v.cellAt (r + lines.toNat) c else v.cellAt r c := by
  have hbottom := h.bottom
  have hpos : 0 < lines.toNat :=
    Nat.pos_of_ne_zero fun hzero => hlines (BitVec.eq_of_toNat_eq hzero)
  induction n generalizing bl v with
  | zero =>
      refine ⟨Draws.refl v, fun r c _ _ => ?_⟩
      rw [if_neg (by omega)]
      rfl
  | succ n ih =>
      have hone : (1 : Byte).toNat = 1 := rfl
      have hdest : (w.top + bl).toNat = w.top.toNat + bl.toNat := by
        rw [BitVec.toNat_add]
        omega
      have hsource : (lines + (w.top + bl)).toNat = w.top.toNat + bl.toNat + lines.toNat := by
        rw [BitVec.toNat_add, hdest]
        omega
      have hnext : (bl + 1).toNat = bl.toNat + 1 := by
        rw [BitVec.toNat_add, hone]
        omega
      obtain ⟨hcopy, hrow⟩ := rowCopy_spec (v := v) h (a := w.top + bl)
        (b := lines + (w.top + bl)) (by omega) (by omega) (by omega)
      obtain ⟨hdraws, hat⟩ := ih (v := rowCopy w (w.top + bl) (lines + (w.top + bl)) v)
        (bl + 1) (by omega)
      refine ⟨hcopy.trans hdraws, fun r c hr hc => ?_⟩
      rw [moveRows, hat r c hr hc, hnext]
      by_cases hlater : (w.top.toNat + (bl.toNat + 1) ≤ r ∧
          r < w.top.toNat + (bl.toNat + 1) + n) ∧ w.HasCol c
      · rw [if_pos hlater, if_pos ⟨by omega, hlater.2⟩, hrow _ _ (by omega) hc,
          if_neg (by omega)]
      · rw [if_neg hlater, hrow r c hr hc, hdest, hsource]
        by_cases hnow : r = w.top.toNat + bl.toNat ∧ w.HasCol c
        · rw [if_pos hnow, if_pos ⟨by omega, hnow.2⟩, hnow.1]
        · rw [if_neg hnow, if_neg]
          rintro ⟨hrange, hcol⟩
          have hout : ¬ (w.top.toNat + (bl.toNat + 1) ≤ r ∧
              r < w.top.toNat + (bl.toNat + 1) + n) := fun hin => hlater ⟨hin, hcol⟩
          have hout' : r ≠ w.top.toNat + bl.toNat := fun heq => hnow ⟨heq, hcol⟩
          omega

/-- and downwards. -/
theorem moveRows_down (h : w.Inside) {lines : Byte} (hlines : lines ≠ 0) (n : Nat) (bl : Byte)
    (hn : w.top.toNat + bl.toNat + n + lines.toNat ≤ w.bottom.toNat + 1) :
    Draws v (moveRows .down w lines n bl v) ∧ ∀ r c, r * 80 + c < 32768 → c < 80 →
      (moveRows .down w lines n bl v).cellAt r c =
        if (w.bottom.toNat < r + bl.toNat + n ∧ r + bl.toNat ≤ w.bottom.toNat) ∧ w.HasCol c
        then v.cellAt (r - lines.toNat) c else v.cellAt r c := by
  have hbottom := h.bottom
  have hpos : 0 < lines.toNat :=
    Nat.pos_of_ne_zero fun hzero => hlines (BitVec.eq_of_toNat_eq hzero)
  induction n generalizing bl v with
  | zero =>
      refine ⟨Draws.refl v, fun r c _ _ => ?_⟩
      rw [if_neg (by omega)]
      rfl
  | succ n ih =>
      have hone : (1 : Byte).toNat = 1 := rfl
      have hdest : (w.bottom - bl).toNat = w.bottom.toNat - bl.toNat :=
        BitVec.toNat_sub_of_le (by rw [BitVec.le_def]; omega)
      have hsource : (-lines + (w.bottom - bl)).toNat =
          w.bottom.toNat - bl.toNat - lines.toNat := by
        rw [BitVec.add_comm, ← BitVec.sub_eq_add_neg,
          BitVec.toNat_sub_of_le (by rw [BitVec.le_def]; omega), hdest]
      have hnext : (bl + 1).toNat = bl.toNat + 1 := by
        rw [BitVec.toNat_add, hone]
        omega
      obtain ⟨hcopy, hrow⟩ := rowCopy_spec (v := v) h (a := w.bottom - bl)
        (b := -lines + (w.bottom - bl)) (by omega) (by omega) (by omega)
      obtain ⟨hdraws, hat⟩ := ih (v := rowCopy w (w.bottom - bl) (-lines + (w.bottom - bl)) v)
        (bl + 1) (by omega)
      refine ⟨hcopy.trans hdraws, fun r c hr hc => ?_⟩
      rw [moveRows, hat r c hr hc, hnext]
      by_cases hlater : (w.bottom.toNat < r + (bl.toNat + 1) + n ∧
          r + (bl.toNat + 1) ≤ w.bottom.toNat) ∧ w.HasCol c
      · rw [if_pos hlater, if_pos ⟨by omega, hlater.2⟩, hrow _ _ (by omega) hc,
          if_neg (by omega)]
      · rw [if_neg hlater, hrow r c hr hc, hdest, hsource]
        by_cases hnow : r = w.bottom.toNat - bl.toNat ∧ w.HasCol c
        · rw [if_pos hnow, if_pos ⟨by omega, hnow.2⟩, hnow.1]
        · rw [if_neg hnow, if_neg]
          rintro ⟨hrange, hcol⟩
          have hout : ¬ (w.bottom.toNat < r + (bl.toNat + 1) + n ∧
              r + (bl.toNat + 1) ≤ w.bottom.toNat) := fun hin => hlater ⟨hin, hcol⟩
          have hout' : r ≠ w.bottom.toNat - bl.toNat := fun heq => hnow ⟨heq, hcol⟩
          omega

/-- The first of the rows that are blanked. -/
def firstBlank (way : Way) (w : Window) (lines : Byte) : Byte :=
  match way with
  | .up => w.bottom - lines + 1
  | .down => w.top

theorem blankRows_spec (way : Way) (h : w.Inside) (lines bh : Byte) (n : Nat) (bl : Byte)
    (hn : (firstBlank way w lines).toNat + bl.toNat + n ≤ 25) :
    Draws v (blankRows way w lines bh n bl v) ∧ ∀ r c, r * 80 + c < 32768 → c < 80 →
      (blankRows way w lines bh n bl v).cellAt r c =
        if ((firstBlank way w lines).toNat + bl.toNat ≤ r ∧
          r < (firstBlank way w lines).toNat + bl.toNat + n) ∧ w.HasCol c
        then bh ++ (0x20 : Byte) else v.cellAt r c := by
  induction n generalizing bl v with
  | zero =>
      refine ⟨Draws.refl v, fun r c _ _ => ?_⟩
      rw [if_neg (by omega)]
      rfl
  | succ n ih =>
      have hone : (1 : Byte).toNat = 1 := rfl
      have hround : blankRows way w lines bh (n + 1) bl v = blankRows way w lines bh n (bl + 1)
          (rowBlank w (firstBlank way w lines + bl) bh v) := by
        cases way <;> rfl
      generalize firstBlank way w lines = first at hn ih hround
      have hrow : (first + bl).toNat = first.toNat + bl.toNat := by
        rw [BitVec.toNat_add]
        omega
      have hnext : (bl + 1).toNat = bl.toNat + 1 := by
        rw [BitVec.toNat_add, hone]
        omega
      obtain ⟨hblank, hcells⟩ := rowBlank_spec (v := v) h (a := first + bl) (by omega) bh
      obtain ⟨hdraws, hat⟩ := ih (v := rowBlank w (first + bl) bh v) (bl + 1) (by omega)
      refine ⟨by rw [hround]; exact hblank.trans hdraws, fun r c hr hc => ?_⟩
      rw [hround, hat r c hr hc, hcells r c hr hc, hrow, hnext]
      by_cases hcol : w.HasCol c
      · simp only [hcol, and_true]
        split_ifs <;> first | rfl | omega
      · simp only [hcol, and_false, if_false]

/-- The part of a window that is on the screen. -/
def Window.clip (w : Window) : Window :=
  { w with
    bottom := if w.bottom ≤ 24 then w.bottom else 24
    right := if w.right ≤ 79 then w.right else 79 }

def Window.HasRow (w : Window) (r : Nat) : Prop := w.top.toNat ≤ r ∧ r ≤ w.bottom.toNat

instance (w : Window) (r : Nat) : Decidable (w.HasRow r) := inferInstanceAs (Decidable (_ ∧ _))

/-- The lines a window goes: all there are, for none. -/
def Window.lines (w : Window) (al : Byte) : Nat :=
  if al = 0 ∨ w.bottom.toNat - w.top.toNat < al.toNat then w.bottom.toNat - w.top.toNat + 1
  else al.toNat

/-- What a scroll leaves in a cell of the window: what was that many rows on, or a blank. -/
def Window.shifted {α : Type} (w : Window) (way : Way) (lines : Nat) (blank : α)
    (old : Nat → Nat → α) (r c : Nat) : α :=
  match way with
  | .up => if r + lines ≤ w.bottom.toNat then old (r + lines) c else blank
  | .down => if w.top.toNat + lines ≤ r then old (r - lines) c else blank

theorem Window.shifted_map {α β : Type} (f : α → β) (w : Window) (way : Way) (lines : Nat)
    (blank : α) (old : Nat → Nat → α) (r c : Nat) : f (w.shifted way lines blank old r c) =
      w.shifted way lines (f blank) (fun r c => f (old r c)) r c := by
  cases way with
  | up => exact apply_ite f _ _ _
  | down => exact apply_ite f _ _ _

/-- The character that a scroll leaves in a cell of the window. -/
def scrolled (way : Way) (w : Window) (lines : Nat) (old : Nat → Nat → Byte) (r c : Nat) : Byte :=
  match way with
  | .up => if r + lines ≤ w.bottom.toNat then old (r + lines) c else 0x20
  | .down => if w.top.toNat + lines ≤ r then old (r - lines) c else 0x20

theorem Window.clip_inside (w : Window) :
    w.clip.Inside ∨ w.clip.bottom < w.clip.top ∨ w.clip.right < w.clip.left := by
  have h24 : (24 : Byte).toNat = 24 := rfl
  have h79 : (79 : Byte).toNat = 79 := rfl
  have hbottom : w.clip.bottom.toNat ≤ 24 := by
    simp only [clip]
    split
    · assumption
    · exact Nat.le_refl _
  have hright : w.clip.right.toNat ≤ 79 := by
    simp only [clip]
    split
    · assumption
    · exact Nat.le_refl _
  by_cases hrows : w.clip.bottom < w.clip.top
  · exact .inr (.inl hrows)
  by_cases hcols : w.clip.right < w.clip.left
  · exact .inr (.inr hcols)
  rw [BitVec.lt_def, not_lt] at hrows hcols
  exact .inl ⟨hrows, by omega, hcols, by omega⟩

theorem Window.lines_pos (w : Window) (al : Byte) : 0 < w.lines al := by
  unfold lines
  split
  · omega
  · rename_i h
    exact Nat.pos_of_ne_zero fun hzero => h (.inl (BitVec.eq_of_toNat_eq hzero))

theorem Window.lines_le (w : Window) (al : Byte) :
    w.lines al ≤ w.bottom.toNat - w.top.toNat + 1 := by
  unfold lines
  split <;> omega

/-- The lines in `AL` of `g_scroll`. -/
theorem Window.Inside.lines_eq (h : w.Inside) (al : Byte) :
    (if al = 0 then w.bottom - w.top + 1
      else if al < w.bottom - w.top + 1 then al else w.bottom - w.top + 1).toNat = w.lines al ∧
    (w.bottom - w.top + 1).toNat = w.bottom.toNat - w.top.toNat + 1 := by
  have hrows := h.rows
  have hbottom := h.bottom
  have hheight : (w.bottom - w.top + 1).toNat = w.bottom.toNat - w.top.toNat + 1 := by
    rw [BitVec.toNat_add, BitVec.toNat_sub_of_le (by rw [BitVec.le_def]; exact hrows)]
    show (_ + 1) % 256 = _
    omega
  refine ⟨?_, hheight⟩
  unfold lines
  by_cases hzero : al = 0
  · rw [if_pos hzero, if_pos (.inl hzero), hheight]
  · rw [if_neg hzero]
    by_cases hlt : al < w.bottom - w.top + 1
    · rw [BitVec.lt_def, hheight] at hlt
      rw [if_pos (by rw [BitVec.lt_def, hheight]; exact hlt), if_neg]
      rintro (h0 | hgt)
      · exact hzero h0
      · omega
    · rw [if_neg hlt, hheight]
      rw [BitVec.lt_def, hheight] at hlt
      rw [if_pos (.inr (by omega))]

theorem gScroll_eq (way : Way) (al bh : Byte) (w : Window) (v : Display) :
    gScroll way al bh w v =
      if w.clip.bottom < w.clip.top then v
      else if w.clip.right < w.clip.left then v
      else
        let ah := w.clip.bottom - w.clip.top + 1
        let lines := if al = 0 then ah else if al < ah then al else ah
        blankRows way w.clip lines bh lines.toNat 0
          (moveRows way w.clip lines (ah - lines).toNat 0 v) := rfl

/-- **Scrolling**, of what there is of the window on the screen. -/
theorem gScroll_cells (way : Way) (al bh : Byte) (h : w.clip.Inside) :
    Draws v (gScroll way al bh w v) ∧ ∀ r c, r * 80 + c < 32768 → c < 80 →
      (gScroll way al bh w v).cellAt r c =
        if w.clip.HasRow r ∧ w.clip.HasCol c then
          w.clip.shifted way (w.clip.lines al) (bh ++ (0x20 : Byte)) v.cellAt r c
        else v.cellAt r c := by
  have hrun := gScroll_eq way al bh w v
  generalize w.clip = w at h hrun
  have hrows := h.rows
  have hbottom := h.bottom
  obtain ⟨hlines, hheight⟩ := h.lines_eq al
  have hpos := w.lines_pos al
  have hle := w.lines_le al
  simp only [] at hrun
  rw [if_neg (by rw [BitVec.lt_def]; omega),
    if_neg (by rw [BitVec.lt_def]; exact not_lt.mpr h.cols)] at hrun
  rw [hrun]
  generalize (if al = 0 then w.bottom - w.top + 1
    else if al < w.bottom - w.top + 1 then al else w.bottom - w.top + 1) = lines at hlines ⊢
  have hne : lines ≠ 0 := by
    rintro rfl
    simp at hlines
    omega
  have hmoved : (w.bottom - w.top + 1 - lines).toNat =
      w.bottom.toNat - w.top.toNat + 1 - lines.toNat := by
    rw [BitVec.toNat_sub_of_le (by rw [BitVec.le_def]; omega), hheight]
  have hzero : (0 : Byte).toNat = 0 := rfl
  rw [hmoved, ← hlines]
  rw [← hlines] at hpos hle
  cases way with
  | up =>
      have hfirst : (firstBlank .up w lines).toNat = w.bottom.toNat + 1 - lines.toNat := by
        simp only [firstBlank, BitVec.toNat_add, BitVec.toNat_sub]
        show (_ + 1) % 256 = _
        omega
      obtain ⟨hmove, hat⟩ := moveRows_up (v := v) h hne
        (w.bottom.toNat - w.top.toNat + 1 - lines.toNat) 0 (by omega)
      obtain ⟨hblank, hcells⟩ := blankRows_spec .up h lines bh lines.toNat 0
        (v := moveRows .up w lines (w.bottom.toNat - w.top.toNat + 1 - lines.toNat) 0 v) (by omega)
      refine ⟨hmove.trans hblank, fun r c hr hc => ?_⟩
      rw [hcells r c hr hc, hat r c hr hc, hfirst, hzero]
      by_cases hcol : w.HasCol c
      · simp only [hcol, and_true, Window.shifted, Window.HasRow]
        split_ifs <;> first | rfl | omega
      · simp only [hcol, and_false, if_false]
  | down =>
      obtain ⟨hmove, hat⟩ := moveRows_down (v := v) h hne
        (w.bottom.toNat - w.top.toNat + 1 - lines.toNat) 0 (by omega)
      obtain ⟨hblank, hcells⟩ := blankRows_spec .down h lines bh lines.toNat 0
        (v := moveRows .down w lines (w.bottom.toNat - w.top.toNat + 1 - lines.toNat) 0 v)
        (by simp only [firstBlank]; omega)
      refine ⟨hmove.trans hblank, fun r c hr hc => ?_⟩
      rw [hcells r c hr hc, hat r c hr hc, hzero]
      by_cases hcol : w.HasCol c
      · simp only [hcol, and_true, Window.shifted, Window.HasRow, firstBlank]
        split_ifs <;> first | rfl | omega
      · simp only [hcol, and_false, if_false]

/-- The characters of it. -/
theorem gScroll_spec (way : Way) (al bh : Byte) (h : w.clip.Inside) :
    Draws v (gScroll way al bh w v) ∧ ∀ r c, r < 25 → c < 80 → (gScroll way al bh w v).at r c =
      if w.clip.HasRow r ∧ w.clip.HasCol c then
        scrolled way w.clip (w.clip.lines al) v.at r c else v.at r c := by
  obtain ⟨hdraws, hcell⟩ := gScroll_cells (v := v) way al bh h
  refine ⟨hdraws, fun r c hr hc => ?_⟩
  have hlow : scrolled way w.clip (w.clip.lines al) v.at r c =
      w.clip.shifted way (w.clip.lines al) 0x20 v.at r c := by
    cases way <;> rfl
  rw [← Display.low_cellAt, hcell r c (by omega) hc, apply_ite low, Window.shifted_map low,
    Cpu.low_append, hlow]
  simp only [Display.low_cellAt]

/-- Of a window that is not on the screen nothing is drawn. -/
theorem gScroll_empty (way : Way) (al bh : Byte) (v : Display)
    (h : w.clip.bottom < w.clip.top ∨ w.clip.right < w.clip.left) : gScroll way al bh w v = v := by
  rcases h with hrows | hcols
  · exact if_pos hrows
  · rw [gScroll_eq, if_pos hcols, ite_self]

theorem gScroll_draws (way : Way) (al bh : Byte) (w : Window) (v : Display) :
    Draws v (gScroll way al bh w v) := by
  rcases w.clip_inside with hin | hempty
  · exact (gScroll_cells way al bh hin).1
  · rw [gScroll_empty way al bh v hempty]
    exact Draws.refl v

/-- **A window goes up or down in place**: of all the cells there are, on the screen and behind
it, those of what the screen has of the window are taken from as many rows on as there are lines
to go, or are blanks in the attribute `BH`; the others are as they were. -/
theorem gScroll_window (way : Way) (al bh : Byte) (w : Window) (v : Display) {r c : Nat}
    (hc : c < 80) (hr : r * 80 + c < 32768) :
    (gScroll way al bh w v).cellAt r c =
      if w.clip.HasRow r ∧ w.clip.HasCol c then
        w.clip.shifted way (w.clip.lines al) (bh ++ (0x20 : Byte)) v.cellAt r c
      else v.cellAt r c := by
  rcases w.clip_inside with hin | hempty
  · exact (gScroll_cells way al bh hin).2 r c hr hc
  · rw [gScroll_empty way al bh v hempty, if_neg]
    rintro ⟨hrow, hcol⟩
    rcases hempty with hrows | hcols
    · exact absurd hrows (not_lt.mpr (hrow.1.trans hrow.2))
    · exact absurd hcols (not_lt.mpr (hcol.1.trans hcol.2))

/-- A window of four columns that ends far below the screen goes down by three rows: where there
was cell 1612 there is cell 1612 again three rows below, and a blank in the row before. -/
theorem gScroll_window_below :
    let v : Display := ⟨3, 3, 80, 0, 0, fun _ => ⟨0, 0⟩, fun _ => 0, low, [], []⟩
    (gScroll .down 3 0x17 ⟨20, 10, 200, 13⟩ v).cellAt 23 12 = 0x9998 ∧
      (gScroll .down 3 0x17 ⟨20, 10, 200, 13⟩ v).cellAt 22 12 = 0x1720 := by
  intro v
  constructor
  · rw [gScroll_window .down 3 0x17 ⟨20, 10, 200, 13⟩ v (by decide) (by decide),
      if_pos (by decide)]
    decide
  · rw [gScroll_window .down 3 0x17 ⟨20, 10, 200, 13⟩ v (by decide) (by decide),
      if_pos (by decide)]
    decide

end Sbc386Ex.Video

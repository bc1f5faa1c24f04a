import Sbc386Ex.Rom.Exe2rom

/-!
# Sbc386Ex.Rom.Layout

What `exe2rom` makes of an EXE file. Up to the relocation loop it is the chip, piece by piece
(`written_iff`); the loop then adds its constant to one word an entry, wherever the entry says.
-/

namespace Sbc386Ex.Rom

open ByteFile

/-! ### EXE files -/

/-- The length of the image the header speaks of. -/
def imageLength (h : Header) : Nat :=
  h.pages.toNat * 512 - (if h.length = 0 then 0 else 512 - h.length.toNat) - h.header.toNat * 16

/-- A well-formed EXE header: the file it speaks of is no shorter than the header it speaks of. -/
structure MZ (exe : List Byte) : Prop where
  size : HEADER_SIZE ≤ exe.length
  sig : exe.take 2 = [0x4D, 0x5A]
  length : (headerOf exe).length.toNat < 512
  header : HEADER_SIZE ≤ (headerOf exe).header.toNat * 16
  image : (headerOf exe).header.toNat * 16 +
    (if (headerOf exe).length = 0 then 0 else 512 - (headerOf exe).length.toNat) ≤
      (headerOf exe).pages.toNat * 512

/-- Where the image begins in the file, and how many pages it takes. -/
def imageAt (exe : List Byte) : Nat := (headerOf exe).header.toNat * 16
def pageCount (exe : List Byte) : Nat := (imageLength (headerOf exe) + 511) / 512

def image (exe : List Byte) : List Byte := readAt exe (imageAt exe) (imageLength (headerOf exe))

/-- Where entry `k` of the relocation table points in the image. -/
def named (exe : List Byte) (k : Nat) : Nat :=
  (relocOf (readAt exe ((headerOf exe).reloc_displ.toNat + 4 * k) 4)).place

/-- The image with the word at `off` relocated. -/
def patch (K : Word) (img : List Byte) (off : Nat) : List Byte :=
  if off + 2 ≤ img.length then writeAt 0 img off (bytesOf (wordOf (readAt img off 2) + K)) else img

/-- The image after `n` entries. -/
def relocatedImage (K : Word) (exe : List Byte) (n : Nat) : List Byte :=
  (List.range n).foldl (fun img k => patch K img (named exe k)) (image exe)

/-! ### Sizes -/

theorem size_cases {size : Word} (hpow : size &&& (size - 1) = 0) (hlo : ¬ size < 32)
    (hhi : ¬ 256 < size) : size = 32 ∨ size = 64 ∨ size = 128 ∨ size = 256 := by
  have hsmall : ∀ n < 257, 32 ≤ n → BitVec.ofNat 16 n &&& (BitVec.ofNat 16 n - 1) = 0 →
      n = 32 ∨ n = 64 ∨ n = 128 ∨ n = 256 := by decide +kernel
  have hlo' : 32 ≤ size.toNat := not_lt.mp hlo
  have hhi' : size.toNat ≤ 256 := not_lt.mp hhi
  have hof : BitVec.ofNat 16 size.toNat = size := BitVec.ofNat_toNat 16 size |>.trans (BitVec.setWidth_eq size)
  rw [← hof]
  rcases hsmall size.toNat (by omega) hlo' (by rw [hof]; exact hpow) with h | h | h | h <;> simp [h]

/-- The sizes that are let through. -/
theorem sizes_cases {ROMsize CHIPsize : Word} (h : badSizes ROMsize CHIPsize = false) :
    (ROMsize = 32 ∨ ROMsize = 64 ∨ ROMsize = 128 ∨ ROMsize = 256) ∧
      (CHIPsize = 32 ∨ CHIPsize = 64 ∨ CHIPsize = 128 ∨ CHIPsize = 256) ∧
      ROMsize.toNat ≤ CHIPsize.toNat := by
  simp only [badSizes, decide_eq_false_iff_not, not_or, Decidable.not_not] at h
  obtain ⟨hrom, hchip, hle, hmax, hmin⟩ := h
  have hle' : ROMsize.toNat ≤ CHIPsize.toNat := not_lt.mp hle
  have hmin' : 32 ≤ ROMsize.toNat := not_lt.mp hmin
  have hmax' : CHIPsize.toNat ≤ 256 := not_lt.mp hmax
  refine ⟨size_cases hrom hmin ?_, size_cases hchip ?_ hmax, hle'⟩
  · exact not_lt.mpr (show ROMsize.toNat ≤ 256 by omega)
  · exact not_lt.mpr (show 32 ≤ CHIPsize.toNat by omega)

/-- The constant a word is relocated by only changes its high byte, and does change it. -/
theorem relocConst_bytes {ROMsize CHIPsize : Word} (h : badSizes ROMsize CHIPsize = false) :
    (relocConst ROMsize).setWidth 8 = 0#8 ∧ (relocConst ROMsize >>> 8).setWidth 8 ≠ 0#8 := by
  rcases (sizes_cases h).1 with rfl | rfl | rfl | rfl <;> decide

/-- The constant is 10000h less 64 for each K of the ROM. -/
theorem relocConst_eq {ROMsize CHIPsize : Word} (h : badSizes ROMsize CHIPsize = false) :
    relocConst ROMsize = BitVec.ofNat 16 0x10000 - 64 * ROMsize := by
  rcases (sizes_cases h).1 with rfl | rfl | rfl | rfl <;> rfl

theorem buffers_rombegin {ROMsize CHIPsize : Word} (h : badSizes ROMsize CHIPsize = false) :
    BUFSIZE ∣ rombegin ROMsize CHIPsize ∧ rombegin ROMsize CHIPsize ≤ CHIPsize.toNat * 1024 ∧
      CHIPsize.toNat * 1024 ≤ 2 ^ 18 := by
  obtain ⟨rfl | rfl | rfl | rfl, rfl | rfl | rfl | rfl, -⟩ := sizes_cases h <;> decide

/-! ### Filler -/

theorem prefill_eq (n : Nat) : prefill (BUFSIZE * n) = List.replicate (BUFSIZE * n) FILL := by
  induction n with
  | zero => rw [prefill]; rfl
  | succ n ih =>
      have hpos : BUFSIZE * (n + 1) ≠ 0 := Nat.mul_ne_zero (by decide) (Nat.succ_ne_zero n)
      rw [prefill, if_neg hpos, Nat.mul_succ, Nat.add_sub_cancel, ih, List.replicate_append_replicate,
        Nat.add_comm]

theorem postfill_eq (n : Nat) : postfill n = List.replicate n FILL := by
  fun_induction postfill n with
  | case1 => rfl
  | case2 n hn temp ih =>
      rw [ih, List.replicate_append_replicate]
      congr 1
      change (if n < BUFSIZE then n else BUFSIZE) + (n - if n < BUFSIZE then n else BUFSIZE) = n
      split <;> omega

/-! ### The code -/

theorem copyPages_iff : ∀ {n : Nat} {src out out' : List Byte}, copyPages n src out = .ok out' ↔
    (∀ i < n, 512 * i < src.length) ∧
      out' = out ++ (src.take (512 * n) ++ List.replicate (512 * n - src.length) FILL)
  | 0, src, out, out' => by simp [copyPages, eq_comm]
  | n + 1, src, out, out' => by
      have hread : readAt src 0 PAGESIZE = src.take 512 := rfl
      have hlen : (src.take 512).length = min 512 src.length := List.length_take
      rw [copyPages, hread]
      by_cases hnone : (src.take 512).length = 0
      · rw [if_pos hnone]
        refine iff_of_false nofun fun h => ?_
        have h0 := h.1 0 (Nat.succ_pos n)
        omega
      rw [if_neg hnone, copyPages_iff]
      by_cases hshort : src.length < 512
      · -- the page is the last of the file
        have hall : src.take 512 = src := List.take_of_length_le hshort.le
        have hdrop : src.drop PAGESIZE = [] := List.drop_eq_nil_of_le hshort.le
        rw [hdrop, hall]
        cases n with
        | zero => simp [List.take_of_length_le hshort.le, PAGESIZE]; omega
        | succ n =>
            refine iff_of_false (fun h => ?_) fun h => ?_
            · exact Nat.not_lt_zero _ (h.1 0 (Nat.succ_pos n))
            · have h1 := h.1 1 (by omega)
              omega
      · have hfull : PAGESIZE - (src.take 512).length = 0 := by
          rw [hlen, PAGESIZE]
          omega
        have htake : src.take (512 * (n + 1)) = src.take 512 ++ (src.drop 512).take (512 * n) := by
          rw [Nat.mul_succ, Nat.add_comm, List.take_add]
        have hpad : 512 * n - (src.drop PAGESIZE).length = 512 * (n + 1) - src.length := by
          rw [List.length_drop, PAGESIZE]
          omega
        rw [hfull, htake, hpad, List.length_drop, List.replicate_zero, List.append_nil, List.append_assoc,
          List.append_assoc]
        refine and_congr_left' ⟨fun h i hi => ?_, fun h i hi => ?_⟩
        · cases i with
          | zero => omega
          | succ i =>
              have hrest := h i (by omega)
              rw [PAGESIZE] at hrest
              omega
        · have hrest := h (i + 1) (by omega)
          rw [PAGESIZE]
          omega

/-- The code is the image in whole pages: where the header is well formed, nothing is cut short
on the way. -/
theorem codelength_toNat {exe : List Byte} (h : MZ exe) :
    (codelength (headerOf exe)).toNat = 512 * pageCount exe := by
  have hpages := (headerOf exe).pages.isLt
  have himage := h.image
  have hhdr := h.header
  have hmod := h.length
  have hpage : (BitVec.ofNat 64 PAGESIZE).toNat = 512 := rfl
  have htotal : (BitVec.ofNat 64 ((headerOf exe).pages.toNat * PAGESIZE)).toNat =
      (headerOf exe).pages.toNat * 512 := by
    rw [BitVec.toNat_ofNat, PAGESIZE, Nat.mod_eq_of_lt (by omega)]
  have hpara : (BitVec.ofNat 64 ((headerOf exe).header.toNat * 16)).toNat =
      (headerOf exe).header.toNat * 16 := by
    have hlt := (headerOf exe).header.isLt
    rw [BitVec.toNat_ofNat, Nat.mod_eq_of_lt (by omega)]
  have hlast : ((headerOf exe).length.setWidth 64).toNat = (headerOf exe).length.toNat := by
    rw [BitVec.toNat_setWidth, Nat.mod_eq_of_lt (by omega)]
  rw [HEADER_SIZE] at hhdr
  obtain ⟨c, hc, hcode⟩ : ∃ c : Dword, c.toNat = imageLength (headerOf exe) ∧
      codelength (headerOf exe) = if c % BitVec.ofNat 64 PAGESIZE ≠ 0 then
        (c / BitVec.ofNat 64 PAGESIZE + 1) * BitVec.ofNat 64 PAGESIZE else c := by
    refine ⟨_, ?_, rfl⟩
    rw [imageLength]
    by_cases h0 : (headerOf exe).length = 0
    · rw [if_neg (not_not.mpr h0), if_pos h0]
      rw [if_pos h0] at himage
      rw [BitVec.toNat_sub_of_le (by rw [BitVec.le_def]; omega), htotal, hpara]
      omega
    · rw [if_pos h0, if_neg h0]
      rw [if_neg h0] at himage
      have hsub : (BitVec.ofNat 64 ((headerOf exe).pages.toNat * PAGESIZE) -
          BitVec.ofNat 64 PAGESIZE).toNat = (headerOf exe).pages.toNat * 512 - 512 := by
        rw [BitVec.toNat_sub_of_le (by rw [BitVec.le_def]; omega), htotal, hpage]
      have hadd : (BitVec.ofNat 64 ((headerOf exe).pages.toNat * PAGESIZE) -
          BitVec.ofNat 64 PAGESIZE + (headerOf exe).length.setWidth 64).toNat =
            (headerOf exe).pages.toNat * 512 - (512 - (headerOf exe).length.toNat) := by
        rw [BitVec.toNat_add, hsub, hlast, Nat.mod_eq_of_lt (by omega)]
        omega
      rw [BitVec.toNat_sub_of_le (by rw [BitVec.le_def]; omega), hadd, hpara]
  have hsmall : imageLength (headerOf exe) ≤ (headerOf exe).pages.toNat * 512 := by
    rw [imageLength]
    omega
  have hrem : (c % BitVec.ofNat 64 PAGESIZE).toNat = imageLength (headerOf exe) % 512 := by
    rw [BitVec.toNat_umod, hc, hpage]
  have hquot : (c / BitVec.ofNat 64 PAGESIZE).toNat = imageLength (headerOf exe) / 512 := by
    rw [BitVec.toNat_udiv, hc, hpage]
  have hone : (1 : Dword).toNat = 1 := rfl
  rw [hcode, pageCount]
  by_cases hwhole : c % BitVec.ofNat 64 PAGESIZE = 0
  · have hrem0 : imageLength (headerOf exe) % 512 = 0 := by
      rw [← hrem, hwhole]
      rfl
    rw [if_neg (not_not.mpr hwhole), hc]
    omega
  · have hrem0 : imageLength (headerOf exe) % 512 ≠ 0 := by
      rw [← hrem]
      exact fun h0 => hwhole (BitVec.eq_of_toNat_eq h0)
    rw [if_pos hwhole, BitVec.toNat_mul, BitVec.toNat_add, hquot, hone, hpage]
    rw [Nat.mod_eq_of_lt (by omega), Nat.mod_eq_of_lt (by omega)]
    omega

theorem pageCount_lt {exe : List Byte} : pageCount exe < 2 ^ 17 := by
  have hpages := (headerOf exe).pages.isLt
  rw [pageCount, imageLength]
  omega

theorem pagesOf_codelength {exe : List Byte} (h : MZ exe) :
    (pagesOf (codelength (headerOf exe))).toNat = pageCount exe := by
  have hlt : pageCount exe < 2 ^ 17 := pageCount_lt
  have hpage : (BitVec.ofNat 64 PAGESIZE).toNat = 512 := rfl
  have hquot : ((codelength (headerOf exe) / BitVec.ofNat 64 PAGESIZE).setWidth 32).toNat =
      pageCount exe := by
    rw [BitVec.toNat_setWidth, BitVec.toNat_udiv, codelength_toNat h, hpage]
    omega
  rw [pagesOf, BitVec.toInt_eq_toNat_of_lt (by omega), hquot]
  rfl

/-! ### Up to the relocation loop -/

/-- What the tool takes, by its sizes and the lengths of its files. -/
structure Accepts (ROMsize CHIPsize : Word) (startup exe : List Byte) : Prop where
  sizes : badSizes ROMsize CHIPsize = false
  block : badStartup startup.length = false
  pages : ∀ i < pageCount exe, imageAt exe + 512 * i < exe.length
  room : rombegin ROMsize CHIPsize + 512 * pageCount exe + startup.length ≤ CHIPsize.toNat * 1024

/-- The code as it is copied. -/
def body (exe : List Byte) : List Byte :=
  readAt exe (imageAt exe) (512 * pageCount exe) ++
    List.replicate (512 * pageCount exe - (exe.length - imageAt exe)) FILL

/-- Where the loop starts. -/
def beforeLoop (ROMsize CHIPsize : Word) (startup exe : List Byte) (reloc : RelocItem) : Loop where
  out := List.replicate (rombegin ROMsize CHIPsize) FILL ++ body exe ++
    (List.replicate (CHIPsize.toNat * 1024 - rombegin ROMsize CHIPsize - 512 * pageCount exe -
      startup.length) FILL ++ startup)
  ipos := (headerOf exe).reloc_displ.toNat
  reloc := reloc
  lth := BitVec.ofNat 16 startup.length

/-- The sums of the last check, in numbers. -/
structure Sums (rb chip pages block : Nat) (code : Dword) : Prop where
  tooBig : BitVec.ofNat 64 chip < BitVec.ofNat 64 rb + code + BitVec.ofNat 64 block ↔
    chip < rb + 512 * pages + block
  left : rb + 512 * pages + block ≤ chip →
    (BitVec.ofNat 64 chip - (BitVec.ofNat 64 rb + code) - BitVec.ofNat 64 block).toNat =
      chip - rb - 512 * pages - block

theorem sums_of_small {rb chip pages block : Nat} {code : Dword} (hcode : code.toNat = 512 * pages)
    (hpages : pages < 2 ^ 17) (hrb : rb ≤ chip) (hchip : chip ≤ 2 ^ 18) (hblock : block ≤ 1024) :
    Sums rb chip pages block code := by
  have hof {n : Nat} (hn : n ≤ 2 ^ 18) : (BitVec.ofNat 64 n).toNat = n := by
    rw [BitVec.toNat_ofNat, Nat.mod_eq_of_lt (by omega)]
  have hrom : (BitVec.ofNat 64 rb + code).toNat = rb + 512 * pages := by
    rw [BitVec.toNat_add, hof (by omega), hcode, Nat.mod_eq_of_lt (by omega)]
  have hsum : (BitVec.ofNat 64 rb + code + BitVec.ofNat 64 block).toNat = rb + 512 * pages + block := by
    rw [BitVec.toNat_add, hrom, hof (by omega), Nat.mod_eq_of_lt (by omega)]
  refine ⟨by rw [BitVec.lt_def, hof hchip, hsum], fun hroom => ?_⟩
  have hfirst : (BitVec.ofNat 64 chip - (BitVec.ofNat 64 rb + code)).toNat = chip - (rb + 512 * pages) := by
    rw [BitVec.toNat_sub_of_le, hof hchip, hrom]
    rw [BitVec.le_def, hof hchip, hrom]
    omega
  rw [BitVec.toNat_sub_of_le, hfirst, hof (by omega), Nat.sub_add_eq]
  rw [BitVec.le_def, hfirst, hof (by omega)]
  omega

theorem drop_pages_iff {exe : List Byte} : (∀ i < pageCount exe, 512 * i < (exe.drop (imageAt exe)).length) ↔
    ∀ i < pageCount exe, imageAt exe + 512 * i < exe.length := by
  rw [List.length_drop]
  exact forall₂_congr fun i _ => ⟨fun h => by omega, fun h => by omega⟩

theorem written_iff {ROMsize CHIPsize : Word} {startup exe : List Byte} {reloc : RelocItem} {s : Loop}
    (h : MZ exe) : written ROMsize CHIPsize startup exe reloc = .ok s ↔
      Accepts ROMsize CHIPsize startup exe ∧ s = beforeLoop ROMsize CHIPsize startup exe reloc := by
  rw [written]
  by_cases hsizes : badSizes ROMsize CHIPsize = true
  · rw [if_pos hsizes]
    exact iff_of_false nofun fun hs => by rw [hs.1.sizes] at hsizes; cases hsizes
  rw [if_neg hsizes]
  by_cases hblock : badStartup startup.length = true
  · rw [if_pos hblock]
    exact iff_of_false nofun fun hs => by rw [hs.1.block] at hblock; cases hblock
  rw [if_neg hblock, if_neg (Nat.not_lt.mpr h.size)]
  replace hsizes := Bool.eq_false_of_not_eq_true hsizes
  replace hblock := Bool.eq_false_of_not_eq_true hblock
  obtain ⟨⟨n, hn⟩, hle, hchip⟩ := buffers_rombegin hsizes
  have hlen : startup.length ≤ 1024 := by
    simp only [badStartup, decide_eq_false_iff_not, not_or, not_lt] at hblock
    exact hblock.1
  obtain ⟨htooBig, hleft⟩ :=
    sums_of_small (codelength_toNat h) pageCount_lt hle hchip hlen
  have hcopyIff (out : List Byte) : copyPages (pageCount exe) (exe.drop (imageAt exe))
      (prefill (rombegin ROMsize CHIPsize)) = .ok out ↔
        (∀ i < pageCount exe, imageAt exe + 512 * i < exe.length) ∧
          out = prefill (rombegin ROMsize CHIPsize) ++ ((exe.drop (imageAt exe)).take (512 * pageCount exe) ++
            List.replicate (512 * pageCount exe - (exe.drop (imageAt exe)).length) FILL) := by
    rw [copyPages_iff, drop_pages_iff]
  dsimp only
  rw [pagesOf_codelength h, ← imageAt]
  cases hcopy : copyPages (pageCount exe) (exe.drop (imageAt exe))
      (prefill (rombegin ROMsize CHIPsize)) with
  | error e =>
      refine iff_of_false nofun fun hs => ?_
      have hok := (hcopyIff _).mpr ⟨hs.1.pages, rfl⟩
      rw [hcopy] at hok
      cases hok
  | ok out =>
      obtain ⟨hpages, rfl⟩ := (hcopyIff out).mp hcopy
      dsimp only
      by_cases hbig : CHIPsize.toNat * 1024 < rombegin ROMsize CHIPsize + 512 * pageCount exe +
          startup.length
      · rw [if_pos (htooBig.mpr hbig)]
        exact iff_of_false nofun fun hs => Nat.not_lt.mpr hs.1.room hbig
      · rw [if_neg (mt htooBig.mp hbig), hleft (Nat.not_lt.mp hbig), postfill_eq, hn, prefill_eq, ← hn,
          Except.ok.injEq, eq_comm]
        have hstart : s = beforeLoop ROMsize CHIPsize startup exe reloc ↔ s = ⟨_, _, _, _⟩ := Iff.rfl
        rw [hstart, and_iff_right ⟨hsizes, hblock, hpages, Nat.not_lt.mp hbig⟩, body, readAt,
          List.length_drop]
        simp only [List.append_assoc]

/-! ### The relocation loop -/

theorem length_bytesOf (w : Word) : (bytesOf w).length = 2 := rfl

theorem length_relocBytes (r : RelocItem) : r.bytes.length = 4 := rfl

/-- A read of all that was asked for leaves nothing of what was there. -/
theorem stale_of_length {got old : List Byte} (h : old.length ≤ got.length) : stale got old = got := by
  rw [stale, List.drop_eq_nil_of_le h, List.append_nil]

/-- The table holds entry `k`. -/
theorem relocate_entry {exe : List Byte} {rb : Nat} {temp : Word} {s : Loop} {k : Nat}
    (hpos : s.ipos = (headerOf exe).reloc_displ.toNat + 4 * k)
    (hin : (headerOf exe).reloc_displ.toNat + 4 * (k + 1) ≤ exe.length) :
    relocate exe rb temp s =
      { out := writeAt 0 s.out (named exe k + rb)
          (bytesOf (wordOf (stale (readAt s.out (named exe k + rb) 2) (bytesOf s.lth)) + temp))
        ipos := (headerOf exe).reloc_displ.toNat + 4 * (k + 1)
        reloc := relocOf (readAt exe ((headerOf exe).reloc_displ.toNat + 4 * k) 4)
        lth := wordOf (stale (readAt s.out (named exe k + rb) 2) (bytesOf s.lth)) + temp } := by
  have hlen : (readAt exe s.ipos 4).length = 4 := length_readAt_of_le (by omega)
  rw [relocate, stale_of_length (by rw [hlen, length_relocBytes]), hlen, hpos]
  rfl

/-- An entry that points in the image patches it. -/
theorem relocate_inside {exe a b c : List Byte} {temp : Word} {s : Loop} {k : Nat}
    (hpos : s.ipos = (headerOf exe).reloc_displ.toNat + 4 * k)
    (hin : (headerOf exe).reloc_displ.toNat + 4 * (k + 1) ≤ exe.length)
    (hout : s.out = a ++ b ++ c) (hinside : named exe k + 2 ≤ b.length) :
    (relocate exe a.length temp s).out = a ++ patch temp b (named exe k) ++ c := by
  have hread : readAt (a ++ b ++ c) (a.length + named exe k) 2 = readAt b (named exe k) 2 :=
    readAt_append hinside
  have hlen : (readAt b (named exe k) 2).length = 2 := length_readAt_of_le hinside
  rw [relocate_entry hpos hin]
  dsimp only
  rw [hout, Nat.add_comm (named exe k), hread, stale_of_length (by rw [hlen, length_bytesOf]), patch,
    if_pos hinside]
  exact writeAt_append hinside

theorem length_patch (K : Word) (img : List Byte) (off : Nat) :
    (patch K img off).length = img.length := by
  rw [patch]
  split
  · next h => exact length_writeAt h
  · rfl

theorem relocatedImage_succ (K : Word) (exe : List Byte) (n : Nat) :
    relocatedImage K exe (n + 1) = patch K (relocatedImage K exe n) (named exe n) := by
  rw [relocatedImage, List.range_succ, List.foldl_append]
  rfl

theorem length_relocatedImage (K : Word) (exe : List Byte) (n : Nat) :
    (relocatedImage K exe n).length = (image exe).length := by
  induction n with
  | zero => rfl
  | succ n ih => rw [relocatedImage_succ, length_patch, ih]

theorem relocated_succ (ROMsize CHIPsize : Word) (exe : List Byte) (n : Nat) (s : Loop) :
    relocated ROMsize CHIPsize exe (n + 1) s =
      relocate exe (rombegin ROMsize CHIPsize) (relocConst ROMsize) (relocated ROMsize CHIPsize exe n s) :=
  Function.iterate_succ_apply' _ n s

/-- The table as the header speaks of it is in the file. -/
def TableWhole (exe : List Byte) : Prop :=
  (headerOf exe).nreloc = 0 ∨
    (headerOf exe).reloc_displ.toNat + 4 * (headerOf exe).nreloc.toNat ≤ exe.length

theorem TableWhole.le {exe : List Byte} (h : TableWhole exe) {k : Nat}
    (hk : k < (headerOf exe).nreloc.toNat) :
    (headerOf exe).reloc_displ.toNat + 4 * (k + 1) ≤ exe.length := by
  rcases h with h | h
  · rw [h] at hk
    exact absurd hk (Nat.not_lt_zero k)
  · omega

/-- After `k` entries of a whole table the input is at entry `k`. -/
theorem relocated_ipos {ROMsize CHIPsize : Word} {exe : List Byte} (h : TableWhole exe) {s : Loop}
    (hpos : s.ipos = (headerOf exe).reloc_displ.toNat) :
    ∀ {k : Nat}, k ≤ (headerOf exe).nreloc.toNat →
      (relocated ROMsize CHIPsize exe k s).ipos = (headerOf exe).reloc_displ.toNat + 4 * k
  | 0, _ => hpos
  | k + 1, hk => by
      have ih : (relocated ROMsize CHIPsize exe k s).ipos = (headerOf exe).reloc_displ.toNat + 4 * k :=
        relocated_ipos h hpos (by omega)
      rw [relocated_succ, relocate_entry ih (h.le hk)]

/-- Entries that all point in the image leave the rest as it was. -/
theorem relocated_inside {ROMsize CHIPsize : Word} {exe c : List Byte} {s : Loop} (h : TableWhole exe)
    (hpos : s.ipos = (headerOf exe).reloc_displ.toNat)
    (hout : s.out = List.replicate (rombegin ROMsize CHIPsize) FILL ++ image exe ++ c)
    (hinside : ∀ k < (headerOf exe).nreloc.toNat, named exe k + 2 ≤ (image exe).length) :
    ∀ {k : Nat}, k ≤ (headerOf exe).nreloc.toNat → (relocated ROMsize CHIPsize exe k s).out =
      List.replicate (rombegin ROMsize CHIPsize) FILL ++ relocatedImage (relocConst ROMsize) exe k ++ c
  | 0, _ => hout
  | k + 1, hk => by
      have ih := @relocated_inside _ _ _ _ _ h hpos hout hinside k (by omega)
      have hlen := length_relocatedImage (relocConst ROMsize) exe k
      have hlenFill : (List.replicate (rombegin ROMsize CHIPsize) FILL).length = rombegin ROMsize CHIPsize :=
        List.length_replicate
      rw [relocated_succ, relocatedImage_succ, ← relocate_inside (relocated_ipos h hpos (by omega))
        (h.le hk) ih (by rw [hlen]; exact hinside k hk), hlenFill]

theorem high_wordOf (b : List Byte) : (wordOf b >>> 8).setWidth 8 = b.getD 1 0 := by
  refine BitVec.eq_of_toNat_eq ?_
  have hlow := (b.getD 0 0).isLt
  have hhigh := (b.getD 1 0).isLt
  rw [BitVec.toNat_setWidth, BitVec.toNat_ushiftRight, wordOf, BitVec.toNat_append,
    ← Nat.shiftLeft_add_eq_or_of_lt hlow, Nat.shiftLeft_eq, Nat.shiftRight_eq_div_pow]
  omega

/-- Adding the constant changes the high byte of any word. -/
theorem high_add {w K : Word} (hlow : K.setWidth 8 = 0#8) (hhigh : (K >>> 8).setWidth 8 ≠ 0#8) :
    ((w + K) >>> 8).setWidth 8 ≠ (w >>> 8).setWidth 8 := by
  have hlow' : K.toNat % 2 ^ 8 = 0 := by
    rw [← BitVec.toNat_setWidth, hlow]
    rfl
  have hhigh' : K.toNat / 2 ^ 8 % 2 ^ 8 ≠ 0 := by
    rw [← Nat.shiftRight_eq_div_pow, ← BitVec.toNat_ushiftRight, ← BitVec.toNat_setWidth]
    exact fun h0 => hhigh (BitVec.eq_of_toNat_eq h0)
  intro heq
  have heq' := congrArg BitVec.toNat heq
  rw [BitVec.toNat_setWidth, BitVec.toNat_setWidth, BitVec.toNat_ushiftRight, BitVec.toNat_ushiftRight,
    BitVec.toNat_add, Nat.shiftRight_eq_div_pow, Nat.shiftRight_eq_div_pow] at heq'
  have hw := w.isLt
  have hK := K.isLt
  omega

/-- An entry changes the second byte it points to, wherever that is. -/
theorem relocate_changes {ROMsize CHIPsize : Word} (hsizes : badSizes ROMsize CHIPsize = false)
    {exe : List Byte} {rb k : Nat} {s : Loop}
    (hpos : s.ipos = (headerOf exe).reloc_displ.toNat + 4 * k)
    (hin : (headerOf exe).reloc_displ.toNat + 4 * (k + 1) ≤ exe.length) :
    (relocate exe rb (relocConst ROMsize) s).out[named exe k + rb + 1]? ≠ s.out[named exe k + rb + 1]? := by
  obtain ⟨hlow, hhigh⟩ := relocConst_bytes hsizes
  rw [relocate_entry hpos hin]
  dsimp only
  rw [getElem?_writeAt (by rw [length_bytesOf]; decide)]
  cases hold : s.out[named exe k + rb + 1]? with
  | none => exact Option.some_ne_none _
  | some b =>
      have hlt : named exe k + rb + 1 < s.out.length := (List.getElem?_eq_some_iff.mp hold).1
      have hlen : (readAt s.out (named exe k + rb) 2).length = 2 := length_readAt_of_le (by omega)
      have hread : (readAt s.out (named exe k + rb) 2)[1]? = some b := by
        rw [getElem?_readAt (by decide), hold]
      have hhi : (wordOf (readAt s.out (named exe k + rb) 2) >>> 8).setWidth 8 = b := by
        rw [high_wordOf, List.getD_eq_getElem?_getD, hread, Option.getD_some]
      rw [stale_of_length (by rw [hlen, length_bytesOf])]
      intro heq
      exact high_add hlow hhigh ((Option.some.inj heq).trans hhi.symm)

/-! ### The whole conversion -/

/-- A byte of the output outside the code image. -/
def Outside (ROMsize CHIPsize : Word) (exe : List Byte) (p : Nat) : Prop :=
  p < rombegin ROMsize CHIPsize ∨ rombegin ROMsize CHIPsize + imageLength (headerOf exe) ≤ p

/-- The file there is to be: fill, the image relocated, fill, and the startup block. -/
def romFile (ROMsize CHIPsize : Word) (startup exe : List Byte) : List Byte :=
  List.replicate (rombegin ROMsize CHIPsize) FILL ++
    relocatedImage (BitVec.ofNat 16 0x10000 - 64 * ROMsize) exe (headerOf exe).nreloc.toNat ++
      (List.replicate (CHIPsize.toNat * 1024 - rombegin ROMsize CHIPsize -
        imageLength (headerOf exe) - startup.length) FILL ++ startup)

/-- The image as the header speaks of it is in the file. -/
def ImageWhole (exe : List Byte) : Prop :=
  imageLength (headerOf exe) = 0 ∨ imageAt exe + imageLength (headerOf exe) ≤ exe.length

/-- What is converted, is converted as it should be. -/
structure Converted (ROMsize CHIPsize : Word) (startup exe : List Byte) (s : Loop) : Prop where
  image : ImageWhole exe
  table : TableWhole exe
  out : (relocated ROMsize CHIPsize exe (headerOf exe).nreloc.toNat s).out =
    romFile ROMsize CHIPsize startup exe
  length : (relocated ROMsize CHIPsize exe (headerOf exe).nreloc.toNat s).out.length =
    CHIPsize.toNat * 1024
  entries : ∀ k < (headerOf exe).nreloc.toNat, ∀ p, Outside ROMsize CHIPsize exe p →
    (relocated ROMsize CHIPsize exe (k + 1) s).out[p]? = (relocated ROMsize CHIPsize exe k s).out[p]?

/-- A file that is refused, or converted as it should be. -/
def Conforms (ROMsize CHIPsize : Word) (startup exe : List Byte) (reloc : RelocItem) : Prop :=
  ∀ out, main ROMsize CHIPsize startup exe reloc = .ok out →
    ∃ s, written ROMsize CHIPsize startup exe reloc = .ok s ∧
      out = (relocated ROMsize CHIPsize exe (headerOf exe).nreloc.toNat s).out ∧
        Converted ROMsize CHIPsize startup exe s

/-- A file that the tool converts as it should: nothing is missing, every entry points in the
image, and where the last page goes past the image the file ends or has fill. -/
structure Sound (exe : List Byte) : Prop where
  image : ImageWhole exe
  table : TableWhole exe
  inside : ∀ k < (headerOf exe).nreloc.toNat, named exe k + 2 ≤ imageLength (headerOf exe)
  tail : ∀ p, imageLength (headerOf exe) ≤ p → p < 512 * pageCount exe →
    ∀ b, exe[imageAt exe + p]? = some b → b = FILL

variable {ROMsize CHIPsize : Word} {startup exe : List Byte} {reloc : RelocItem}

theorem main_iff (h : MZ exe) {out : List Byte} : main ROMsize CHIPsize startup exe reloc = .ok out ↔
    Accepts ROMsize CHIPsize startup exe ∧ out = (relocated ROMsize CHIPsize exe
      (headerOf exe).nreloc.toNat (beforeLoop ROMsize CHIPsize startup exe reloc)).out := by
  rw [main]
  cases hw : written ROMsize CHIPsize startup exe reloc with
  | error e =>
      refine iff_of_false nofun fun hs => ?_
      have hok : written ROMsize CHIPsize startup exe reloc = .ok _ := (written_iff h).mpr ⟨hs.1, rfl⟩
      rw [hw] at hok
      cases hok
  | ok s =>
      obtain ⟨haccepts, rfl⟩ := (written_iff h).mp hw
      rw [and_iff_right haccepts, Except.ok.injEq, eq_comm]

theorem conforms_iff_converted (h : MZ exe) : Conforms ROMsize CHIPsize startup exe reloc ↔
    (Accepts ROMsize CHIPsize startup exe → Converted ROMsize CHIPsize startup exe
      (beforeLoop ROMsize CHIPsize startup exe reloc)) := by
  constructor
  · intro hconf haccepts
    obtain ⟨s, hw, -, hs⟩ := hconf _ ((main_iff h).mpr ⟨haccepts, rfl⟩)
    obtain ⟨-, rfl⟩ := (written_iff h).mp hw
    exact hs
  · intro hconv out hmain
    obtain ⟨haccepts, rfl⟩ := (main_iff h).mp hmain
    exact ⟨_, (written_iff h).mpr ⟨haccepts, rfl⟩, rfl, hconv haccepts⟩

theorem length_image (h : ImageWhole exe) : (image exe).length = imageLength (headerOf exe) := by
  rcases h with h0 | hle
  · rw [image, h0, length_readAt]
    exact Nat.zero_min _
  · exact length_readAt_of_le hle

theorem imageLength_le : imageLength (headerOf exe) ≤ 512 * pageCount exe := by
  rw [pageCount]
  omega

/-- The code of a sound file is the image and fill. -/
theorem body_eq (h : Sound exe) : body exe = image exe ++
    List.replicate (512 * pageCount exe - imageLength (headerOf exe)) FILL := by
  have hle : imageLength (headerOf exe) ≤ 512 * pageCount exe := imageLength_le
  have hlen := length_image h.image
  refine List.ext_getElem? fun p => ?_
  by_cases hp : p < imageLength (headerOf exe)
  · have hfile : imageAt exe + imageLength (headerOf exe) ≤ exe.length := h.image.resolve_left (by omega)
    have hread : p < (readAt exe (imageAt exe) (512 * pageCount exe)).length := by
      rw [length_readAt]
      omega
    rw [List.getElem?_append_left (by omega), body, List.getElem?_append_left hread, image,
      getElem?_readAt hp, getElem?_readAt (by omega)]
  rw [List.getElem?_append_right (by omega), hlen, List.getElem?_replicate]
  by_cases hpage : p < 512 * pageCount exe
  · rw [if_pos (by omega), body]
    cases hb : exe[imageAt exe + p]? with
    | some b =>
        have hlt : imageAt exe + p < exe.length := (List.getElem?_eq_some_iff.mp hb).1
        have hread : p < (readAt exe (imageAt exe) (512 * pageCount exe)).length := by
          rw [length_readAt]
          omega
        rw [List.getElem?_append_left hread, getElem?_readAt hpage, hb, h.tail p (by omega) hpage b hb]
    | none =>
        have hge : exe.length ≤ imageAt exe + p := List.getElem?_eq_none_iff.mp hb
        have hread : (readAt exe (imageAt exe) (512 * pageCount exe)).length =
            min (512 * pageCount exe) (exe.length - imageAt exe) := length_readAt
        rw [List.getElem?_append_right (by omega), List.getElem?_replicate, if_pos (by omega)]
  · have hbody : (body exe).length = 512 * pageCount exe := by
      rw [body, List.length_append, length_readAt, List.length_replicate]
      omega
    rw [if_neg (by omega), List.getElem?_eq_none_iff.mpr (by omega)]

/-- What follows the image. -/
def afterImage (ROMsize CHIPsize : Word) (startup exe : List Byte) : List Byte :=
  List.replicate (CHIPsize.toNat * 1024 - rombegin ROMsize CHIPsize - imageLength (headerOf exe) -
    startup.length) FILL ++ startup

theorem beforeLoop_out (h : Sound exe) (ha : Accepts ROMsize CHIPsize startup exe) :
    (beforeLoop ROMsize CHIPsize startup exe reloc).out =
      List.replicate (rombegin ROMsize CHIPsize) FILL ++ image exe ++
        afterImage ROMsize CHIPsize startup exe := by
  have hle : imageLength (headerOf exe) ≤ 512 * pageCount exe := imageLength_le
  have hroom := ha.room
  have hfill : 512 * pageCount exe - imageLength (headerOf exe) + (CHIPsize.toNat * 1024 -
      rombegin ROMsize CHIPsize - 512 * pageCount exe - startup.length) = CHIPsize.toNat * 1024 -
        rombegin ROMsize CHIPsize - imageLength (headerOf exe) - startup.length := by omega
  rw [beforeLoop, afterImage, body_eq h, ← hfill, ← List.replicate_append_replicate]
  simp only [List.append_assoc]

/-- Files that differ only in the middle. -/
theorem getElem?_middle {a b b' c : List Byte} (hlen : b.length = b'.length) {p : Nat}
    (hp : p < a.length ∨ a.length + b.length ≤ p) : (a ++ b ++ c)[p]? = (a ++ b' ++ c)[p]? := by
  rw [List.append_assoc, List.append_assoc]
  rcases hp with hp | hp
  · rw [List.getElem?_append_left hp, List.getElem?_append_left hp]
  · rw [List.getElem?_append_right (by omega), List.getElem?_append_right (by omega),
      List.getElem?_append_right (by omega), List.getElem?_append_right (by omega), hlen]

theorem converted_of_sound (h : Sound exe) (ha : Accepts ROMsize CHIPsize startup exe) :
    Converted ROMsize CHIPsize startup exe (beforeLoop ROMsize CHIPsize startup exe reloc) := by
  have hlen := length_image h.image
  have hle : imageLength (headerOf exe) ≤ 512 * pageCount exe := imageLength_le
  have hroom := ha.room
  have hrun {k : Nat} (hk : k ≤ (headerOf exe).nreloc.toNat) :
      (relocated ROMsize CHIPsize exe k (beforeLoop ROMsize CHIPsize startup exe reloc)).out =
        List.replicate (rombegin ROMsize CHIPsize) FILL ++ relocatedImage (relocConst ROMsize) exe k ++
          afterImage ROMsize CHIPsize startup exe :=
    relocated_inside h.table rfl (beforeLoop_out h ha) (fun k hk => by rw [hlen]; exact h.inside k hk) hk
  have hlenAt (k : Nat) := length_relocatedImage (relocConst ROMsize) exe k
  refine ⟨h.image, h.table, ?_, ?_, fun k hk p hp => ?_⟩
  · rw [hrun (Nat.le_refl _), relocConst_eq ha.sizes]
    rfl
  · rw [hrun (Nat.le_refl _), afterImage]
    simp only [List.length_append, List.length_replicate, hlenAt, hlen]
    omega
  · rw [hrun hk, hrun hk.le]
    refine getElem?_middle ((hlenAt _).trans (hlenAt _).symm) ?_
    rw [List.length_replicate, hlenAt, hlen]
    exact hp

/-- What is outside the image at the end was there before the loop. -/
theorem Converted.outside {s : Loop} (h : Converted ROMsize CHIPsize startup exe s) {p : Nat}
    (hp : Outside ROMsize CHIPsize exe p) : ∀ {k : Nat}, k ≤ (headerOf exe).nreloc.toNat →
      (relocated ROMsize CHIPsize exe k s).out[p]? = s.out[p]?
  | 0, _ => rfl
  | k + 1, hk => (h.entries k hk p hp).trans (h.outside hp (Nat.le_of_succ_le hk))

theorem Converted.inside {s : Loop} (hsizes : badSizes ROMsize CHIPsize = false)
    (hpos : s.ipos = (headerOf exe).reloc_displ.toNat) (h : Converted ROMsize CHIPsize startup exe s)
    {k : Nat} (hk : k < (headerOf exe).nreloc.toNat) :
    named exe k + 2 ≤ imageLength (headerOf exe) := by
  by_contra hout
  have hipos : (relocated ROMsize CHIPsize exe k s).ipos = (headerOf exe).reloc_displ.toNat + 4 * k :=
    relocated_ipos h.table hpos hk.le
  have hchanges : (relocate exe (rombegin ROMsize CHIPsize) (relocConst ROMsize)
      (relocated ROMsize CHIPsize exe k s)).out[named exe k + rombegin ROMsize CHIPsize + 1]? ≠ _ :=
    relocate_changes hsizes hipos (h.table.le hk)
  rw [← relocated_succ] at hchanges
  exact hchanges (h.entries k hk _ (.inr (by omega)))

theorem Converted.tail (ha : Accepts ROMsize CHIPsize startup exe)
    (h : Converted ROMsize CHIPsize startup exe (beforeLoop ROMsize CHIPsize startup exe reloc))
    {p : Nat} (hp : imageLength (headerOf exe) ≤ p) (hpage : p < 512 * pageCount exe) {b : Byte}
    (hb : exe[imageAt exe + p]? = some b) : b = FILL := by
  have hroom := ha.room
  have hlt : imageAt exe + p < exe.length := (List.getElem?_eq_some_iff.mp hb).1
  have hpre : (List.replicate (rombegin ROMsize CHIPsize) FILL).length = rombegin ROMsize CHIPsize :=
    List.length_replicate
  have hread : p < (readAt exe (imageAt exe) (512 * pageCount exe)).length := by
    rw [length_readAt]
    omega
  have hbody : p < (body exe).length := by
    rw [body, List.length_append]
    omega
  -- the byte as it is copied
  have hstart : (beforeLoop ROMsize CHIPsize startup exe reloc).out[rombegin ROMsize CHIPsize + p]? =
      some b := by
    rw [beforeLoop]
    dsimp only
    rw [List.append_assoc, List.getElem?_append_right (by omega), hpre, Nat.add_sub_cancel_left,
      List.getElem?_append_left hbody, body, List.getElem?_append_left hread, getElem?_readAt hpage, hb]
  -- and as it is to be
  have hlen := length_image h.image
  have hlenAt := length_relocatedImage (BitVec.ofNat 16 0x10000 - 64 * ROMsize) exe
    (headerOf exe).nreloc.toNat
  have hfile : (romFile ROMsize CHIPsize startup exe)[rombegin ROMsize CHIPsize + p]? = some FILL := by
    rw [romFile, List.append_assoc, List.getElem?_append_right (by omega), hpre, Nat.add_sub_cancel_left,
      List.getElem?_append_right (by omega), hlenAt, hlen,
      List.getElem?_append_left (by rw [List.length_replicate]; omega), List.getElem?_replicate,
      if_pos (by omega)]
  have hsame := h.outside (.inr (Nat.add_le_add_left hp _)) (Nat.le_refl _)
  rw [h.out, hstart, hfile] at hsame
  exact (Option.some.inj hsame).symm

theorem sound_of_converted (ha : Accepts ROMsize CHIPsize startup exe)
    (h : Converted ROMsize CHIPsize startup exe (beforeLoop ROMsize CHIPsize startup exe reloc)) :
    Sound exe :=
  ⟨h.image, h.table, fun _ hk => h.inside ha.sizes rfl hk, fun _ hp hpage _ hb => h.tail ha hp hpage hb⟩

/-- A file is refused or converted as it should be exactly where what the tool takes is sound. -/
theorem conforms_iff (h : MZ exe) : Conforms ROMsize CHIPsize startup exe reloc ↔
    (Accepts ROMsize CHIPsize startup exe → Sound exe) := by
  rw [conforms_iff_converted h]
  exact forall_congr' fun ha => ⟨sound_of_converted ha, fun hs => converted_of_sound hs ha⟩

/-- A header of 32 bytes with one entry, for the word at 2, and an image of 8. -/
def smallExe : List Byte :=
  [0x4D, 0x5A, 40, 0, 1, 0, 1, 0, 2, 0, 0, 0, 0, 0, 0, 0, 0, 0, 0, 0, 0, 0, 0, 0, 28, 0, 0, 0,
    2, 0, 0, 0] ++ [1, 2, 3, 4, 5, 6, 7, 8]

theorem smallExe_MZ : MZ smallExe := ⟨by decide, by decide, by decide, by decide, by decide⟩

theorem conforms_smallExe : Conforms 32 64 [] smallExe ⟨0, 0⟩ := by
  refine (conforms_iff smallExe_MZ).mpr fun _ => ⟨.inr (by decide), .inr (by decide), by decide, ?_⟩
  intro p hp _ b hb
  have himage : imageLength (headerOf smallExe) = 8 := by decide
  have hlength : smallExe.length = 40 := by decide
  have hat : imageAt smallExe = 32 := by decide
  have hlt := (List.getElem?_eq_some_iff.mp hb).1
  omega

/-- The same file without the last four bytes of the image. -/
def cutExe : List Byte := smallExe.take 36

/-- **A file cut short in its last page is converted.** -/
theorem cutExe_converted : MZ cutExe ∧ ¬ Conforms 32 64 [] cutExe ⟨0, 0⟩ := by
  have hMZ : MZ cutExe := ⟨by decide, by decide, by decide, by decide, by decide⟩
  have haccepts : Accepts 32 64 [] cutExe := ⟨by decide, by decide, by decide, by decide⟩
  refine ⟨hMZ, fun hconf => ?_⟩
  rcases ((conforms_iff_converted hMZ).mp hconf haccepts).image with h0 | hle
  · revert h0
    decide
  · revert hle
    decide

end Sbc386Ex.Rom

import Sbc386Ex.Cohfs.Zerofree

/-!
# Sbc386Ex.Cohfs.Words

Words and longs in bytes, and what of them a write leaves: the numbers `cohfsw.py` packs into
a superblock, a link block or an inode are the ones that are unpacked from it.
-/

namespace Sbc386Ex.Cohfs

variable {b b' b'' new : List Byte} {o p : Nat}

/-! ### Reading -/

/-- The word at a place of `b`. -/
def word (b : List Byte) (o : Nat) : Nat := (b.getD (o + 1) 0).toNat * 256 + (b.getD o 0).toNat

/-- The long at a place: its high word first. -/
def long (b : List Byte) (o : Nat) : Nat := word b o * 65536 + word b (o + 2)

/-- A word with its sign. -/
def short (n : Nat) : Int := if n < 0x8000 then (n : Int) else n - 0x10000

theorem word_lt (b : List Byte) (o : Nat) : word b o < 65536 := by
  have hlo := (b.getD o 0).isLt
  have hhi := (b.getD (o + 1) 0).isLt
  unfold word
  omega

theorem long_lt (b : List Byte) (o : Nat) : long b o < 2 ^ 32 := by
  have hlo := word_lt b (o + 2)
  have hhi := word_lt b o
  unfold long
  omega

theorem u16_eq (h : o + 2 ≤ b.length) : u16 b o = .ok (word b o) := by
  have hdrop : b.drop o = b.getD o 0 :: b.getD (o + 1) 0 :: b.drop (o + 2) := by
    rw [List.drop_eq_getElem_cons (by omega), List.drop_eq_getElem_cons (by omega),
      List.getD_eq_getElem _ _ (by omega), List.getD_eq_getElem _ _ (by omega)]
  have hlo := (b.getD o 0).isLt
  rw [u16, hdrop]
  refine congrArg Except.ok ?_
  rw [← Nat.shiftLeft_add_eq_or_of_lt (by simpa using hlo), Nat.shiftLeft_eq]
  rfl

theorem i16_eq (h : o + 2 ≤ b.length) : i16 b o = .ok (short (word b o)) := by
  rw [i16, u16_eq h]
  rfl

theorem pdplong_eq (h : o + 4 ≤ b.length) : pdplong b o = .ok (long b o) := by
  have hlo := word_lt b (o + 2)
  rw [pdplong, u16_eq (by omega), u16_eq (by omega)]
  show Except.ok _ = _
  rw [long, ← Nat.shiftLeft_add_eq_or_of_lt (by simpa using hlo), Nat.shiftLeft_eq]

theorem l3_eq (h : o + 3 ≤ b.length) : l3 b o =
    .ok ((b.getD o 0).toNat * 65536 + (b.getD (o + 2) 0).toNat * 256 + (b.getD (o + 1) 0).toNat) := by
  have hdrop : b.drop o = b.getD o 0 :: b.getD (o + 1) 0 :: b.getD (o + 2) 0 :: b.drop (o + 3) := by
    rw [List.drop_eq_getElem_cons (by omega), List.drop_eq_getElem_cons (by omega),
      List.drop_eq_getElem_cons (by omega), List.getD_eq_getElem _ _ (by omega),
      List.getD_eq_getElem _ _ (by omega), List.getD_eq_getElem _ _ (by omega)]
  have h₀ := (b.getD o 0).isLt
  have h₁ := (b.getD (o + 1) 0).isLt
  have h₂ := (b.getD (o + 2) 0).isLt
  rw [l3, hdrop]
  refine congrArg Except.ok ?_
  generalize (b.getD o 0).toNat = x at h₀ ⊢
  generalize (b.getD (o + 1) 0).toNat = y at h₁ ⊢
  generalize (b.getD (o + 2) 0).toNat = z at h₂ ⊢
  have hor : x <<< 16 ||| y ||| z <<< 8 = x <<< 16 ||| (z <<< 8 ||| y) := by
    rw [Nat.or_assoc, Nat.or_comm y]
  have hlow : z <<< 8 ||| y = z * 256 + y := by
    rw [← Nat.shiftLeft_add_eq_or_of_lt (by simpa using h₁), Nat.shiftLeft_eq]
  rw [hor, hlow, ← Nat.shiftLeft_add_eq_or_of_lt (by omega), Nat.shiftLeft_eq]
  omega

/-! ### Writing -/

/-- `b'` is `b` with `new` at `o`. -/
structure Put (o : Nat) (new b b' : List Byte) : Prop where
  length : b'.length = b.length
  bytes : ∀ i, b'.getD i 0 = if o ≤ i ∧ i < o + new.length then new.getD (i - o) 0 else b.getD i 0

theorem packInto_put (new : List Byte) (h : o + new.length ≤ b.length) :
    ∃ b', packInto b o new = .ok b' ∧ Put o new b b' :=
  ⟨_, if_pos h, length_splice h rfl, getD_splice h rfl⟩

namespace Put

/-- What was not written to. -/
theorem getD_of_apart (h : Put o new b b') {i : Nat} (hi : i < o ∨ o + new.length ≤ i) :
    b'.getD i 0 = b.getD i 0 := by
  rw [h.bytes, if_neg (by omega)]

theorem word_of_apart (h : Put o new b b') (hp : p + 2 ≤ o ∨ o + new.length ≤ p) :
    word b' p = word b p := by
  rw [word, word, h.getD_of_apart (by omega), h.getD_of_apart (by omega)]

theorem long_of_apart (h : Put o new b b') (hp : p + 4 ≤ o ∨ o + new.length ≤ p) :
    long b' p = long b p := by
  rw [long, long, h.word_of_apart (by omega), h.word_of_apart (by omega)]

/-- And what was. -/
theorem word_at (h : Put o new b b') {k : Nat} (hk : k + 2 ≤ new.length) :
    word b' (o + k) = word new k := by
  rw [word, word, h.bytes, h.bytes, if_pos (by omega), if_pos (by omega), Nat.add_assoc,
    Nat.add_sub_cancel_left, Nat.add_sub_cancel_left]

theorem long_at (h : Put o new b b') {k : Nat} (hk : k + 4 ≤ new.length) :
    long b' (o + k) = long new k := by
  rw [long, long, h.word_at (by omega), Nat.add_assoc, h.word_at (by omega)]

end Put

theorem length_bytes16 (n : Nat) : (bytes16 n).length = 2 := rfl

theorem word_bytes16 {n : Nat} (h : n < 65536) : word (bytes16 n) 0 = n := by
  show (BitVec.ofNat 8 (n >>> 8)).toNat * 256 + (BitVec.ofNat 8 n).toNat = n
  rw [BitVec.toNat_ofNat, BitVec.toNat_ofNat, Nat.shiftRight_eq_div_pow]
  omega

/-- The bytes of a long. -/
def pdp (v : Int) : List Byte := bytes16 (v / 0x10000 % 0x10000).toNat ++ bytes16 (v % 0x10000).toNat

theorem length_pdp (v : Int) : (pdp v).length = 4 := rfl

theorem long_pdp {n : Nat} (h : n < 2 ^ 32) : long (pdp n) 0 = n := by
  have hhi : word (pdp n) 0 = n / 65536 := by
    show word (bytes16 ((n : Int) / 0x10000 % 0x10000).toNat) 0 = _
    rw [word_bytes16 (by omega)]
    omega
  have hlo : word (pdp n) 2 = n % 65536 := by
    show word (bytes16 ((n : Int) % 0x10000).toNat) 0 = _
    rw [word_bytes16 (by omega)]
    omega
  rw [long, hhi, hlo]
  omega

theorem putpdp_put (v : Int) (h : o + 4 ≤ b.length) :
    ∃ b', putpdp b o v = .ok b' ∧ Put o (pdp v) b b' := packInto_put _ h

/-- The loop that puts the elements of `free` into the slots from `o` on. -/
theorem putLongs (free : List Nat) (n : Nat) (hn : n ≤ free.length) (h : o + 4 * n ≤ b.length) :
    ∃ b', (List.range n).foldlM (fun b (i : Nat) => do putpdp b (o + 4 * i) (← getItem free i)) b =
        .ok b' ∧
      b'.length = b.length ∧ (∀ i, i < o ∨ o + 4 * n ≤ i → b'.getD i 0 = b.getD i 0) ∧
        ∀ i < n, free.getD i 0 < 2 ^ 32 → long b' (o + 4 * i) = free.getD i 0 := by
  induction n with
  | zero => exact ⟨b, rfl, rfl, fun _ _ => rfl, fun _ hi => absurd hi (Nat.not_lt_zero _)⟩
  | succ n ih =>
      obtain ⟨b₁, hfold, hlen, hkept, hslots⟩ := ih (by omega) (by omega)
      obtain ⟨b₂, hput, hb₂⟩ := putpdp_put (free.getD n 0) (b := b₁) (o := o + 4 * n) (by omega)
      have hsize := length_pdp (free.getD n 0)
      refine ⟨b₂, ?_, hb₂.length.trans hlen, fun i hi => ?_, fun i hi hlt => ?_⟩
      · have hitem : getItem free (n : Int) = .ok (free.getD n 0) := getItem_last (by omega)
        rw [List.range_succ, List.foldlM_append, hfold]
        simp only [bind, Except.bind, List.foldlM_cons, List.foldlM_nil, hitem, hput]
        rfl
      · rw [hb₂.getD_of_apart (by omega), hkept i (by omega)]
      · by_cases hlast : i = n
        · subst hlast
          exact (hb₂.long_at (k := 0) (by omega)).trans (long_pdp hlt)
        · rw [hb₂.long_of_apart (by omega)]
          exact hslots i (by omega) hlt

/-- The loop that puts numbers of `w` bytes each in a row, from the place `o` and the `k`th on. -/
theorem putEach {w m : Nat} {put : List Byte → Nat → Nat → Except Raise (List Byte)}
    {read : List Byte → Nat → Nat}
    (hput : ∀ {b o} v, o + w ≤ b.length → ∃ b' new, put b o v = .ok b' ∧ Put o new b b' ∧ new.length = w ∧
      (v < m → read b' o = v))
    (hread : ∀ {b b' o}, (∀ i, o ≤ i → i < o + w → b'.getD i 0 = b.getD i 0) → read b' o = read b o)
    (l : List Nat) : ∀ {k : Nat} {b : List Byte}, o + w * (k + l.length) ≤ b.length → ∃ b',
      (l.zipIdx k).foldlM (fun b (a, i) => put b (o + w * i) a) b = .ok b' ∧ b'.length = b.length ∧
      (∀ i, i < o + w * k ∨ o + w * (k + l.length) ≤ i → b'.getD i 0 = b.getD i 0) ∧
      ∀ i < l.length, l.getD i 0 < m → read b' (o + w * (k + i)) = l.getD i 0 := by
  induction l with
  | nil => exact fun {k b} _ => ⟨b, rfl, rfl, fun _ _ => rfl, nofun⟩
  | cons a rest ih =>
      intro k b h
      have hnext : o + w * (k + 1) ≤ o + w * (k + 1 + rest.length) :=
        Nat.add_le_add_left (Nat.mul_le_mul_left _ (Nat.le_add_right _ _)) _
      have hstep : o + w * (k + 1) = o + w * k + w := by rw [Nat.mul_add, Nat.mul_one, Nat.add_assoc]
      rw [List.length_cons, Nat.add_comm rest.length, ← Nat.add_assoc] at h
      obtain ⟨b₁, new, hrun, p₁, hlen, hself⟩ := hput a (b := b) (o := o + w * k) (by omega)
      obtain ⟨b', hfold, hlen', hkept, hplaces⟩ := ih (k := k + 1) (b := b₁) (by rw [p₁.length]; exact h)
      refine ⟨b', ?_, hlen'.trans p₁.length, fun i hi => ?_, fun i hi hlt => ?_⟩
      · rw [List.zipIdx_cons, List.foldlM_cons]
        show (put b (o + w * k) a >>= _) = _
        rw [hrun]
        exact hfold
      · rw [List.length_cons, Nat.add_comm rest.length, ← Nat.add_assoc] at hi
        rw [hkept i (by omega), p₁.getD_of_apart (by omega)]
      · cases i with
        | zero =>
            rw [Nat.add_zero, ← hself hlt]
            exact hread fun i _ hi => hkept i (.inl (by omega))
        | succ i =>
            have hplace := hplaces i (Nat.lt_of_succ_lt_succ hi) hlt
            rw [Nat.add_right_comm, Nat.add_assoc] at hplace
            exact hplace

theorem long_congr {b b' : List Byte} {o : Nat} (h : ∀ i, o ≤ i → i < o + 4 → b'.getD i 0 = b.getD i 0) :
    long b' o = long b o := by
  rw [long, long, word, word, word, word, h o (by omega) (by omega), h (o + 1) (by omega) (by omega),
    h (o + 2) (by omega) (by omega), h (o + 2 + 1) (by omega) (by omega)]

/-- The same for longs. -/
theorem putPdps (l : List Nat) {b : List Byte} (h : o + 4 * l.length ≤ b.length) :
    ∃ b', l.zipIdx.foldlM (fun b (a, i) => putpdp b (o + 4 * i) a) b = .ok b' ∧ b'.length = b.length ∧
      (∀ i, i < o ∨ o + 4 * l.length ≤ i → b'.getD i 0 = b.getD i 0) ∧
      ∀ i < l.length, l.getD i 0 < 2 ^ 32 → long b' (o + 4 * i) = l.getD i 0 := by
  obtain ⟨b', hfold, hlen, hkept, hplaces⟩ := @putEach o 4 (2 ^ 32) (fun b o v => putpdp b o v) long
    (fun {b o} v hroom => by
      obtain ⟨b', hput, p⟩ := putpdp_put (v : Int) hroom
      exact ⟨b', pdp v, hput, p, length_pdp _, fun hv =>
        (p.long_at (k := 0) (length_pdp _).ge).trans (long_pdp hv)⟩)
    (fun {_ _ _} hi => long_congr hi) l 0 b (by rwa [Nat.zero_add])
  rw [Nat.zero_add, Nat.mul_zero, Nat.add_zero] at hkept
  exact ⟨b', hfold, hlen, hkept, fun i hi hlt => by simpa only [Nat.zero_add] using hplaces i hi hlt⟩

end Sbc386Ex.Cohfs

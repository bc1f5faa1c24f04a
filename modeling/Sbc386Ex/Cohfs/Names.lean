import Sbc386Ex.Cohfs.Inodes

/-!
# Sbc386Ex.Cohfs.Names

Directories and paths apart from their bytes. A directory is a list of entries, each an inode
and a name, where inode 0 is none; the bytes of one are read, entered into and erased from as
that list is. A path is the list of its parts.
-/

namespace Sbc386Ex.Cohfs

open Raising

/-! ### Entries -/

/-- The entries of a directory in order: an inode, none where it is 0, and a name. -/
abbrev Names := List (Nat × Text)

namespace Names

/-- The inode of the first entry in use called `name`. -/
def find (l : Names) (name : Text) : Option Nat := (l.find? fun e => e.1 ≠ 0 ∧ e.2 = name).map (·.1)

/-- A new entry, in the first place that is not in use or at the end. -/
def enter (ino : Nat) (name : Text) : Names → Names
  | [] => [(ino, name)]
  | e :: l => if e.1 = 0 then (ino, name) :: l else e :: enter ino name l

/-- The first entry in use called `name` is no longer in use. -/
def erase (name : Text) : Names → Names
  | [] => []
  | e :: l => if e.1 ≠ 0 ∧ e.2 = name then (0, []) :: l else e :: erase name l

variable {l : Names} {ino i : Nat} {name q : Text} {e : Nat × Text}

theorem find_cons (e : Nat × Text) (l : Names) (name : Text) :
    find (e :: l) name = if e.1 ≠ 0 ∧ e.2 = name then some e.1 else find l name := by
  rw [find, List.find?_cons]
  by_cases h : e.1 ≠ 0 ∧ e.2 = name
  · rw [if_pos h, decide_eq_true h]
    rfl
  · rw [if_neg h, decide_eq_false h]
    rfl

theorem mem_of_find (h : find l name = some i) : (i, name) ∈ l ∧ i ≠ 0 := by
  obtain ⟨e, he, rfl⟩ := Option.map_eq_some_iff.mp h
  have hsome := List.find?_some he
  obtain ⟨hne, rfl⟩ : e.1 ≠ 0 ∧ e.2 = name := of_decide_eq_true hsome
  exact ⟨List.mem_of_find?_eq_some he, hne⟩

theorem find_enter_self (h : find l name = none) (hino : ino ≠ 0) : find (enter ino name l) name = some ino := by
  induction l with
  | nil => simp [enter, find_cons, hino]
  | cons e l ih =>
      rw [find_cons] at h
      rw [enter]
      by_cases hfree : e.1 = 0
      · rw [if_pos hfree, find_cons, if_pos ⟨hino, rfl⟩]
      · split_ifs at h with hname
        rw [if_neg hfree, find_cons, if_neg hname, ih h]

theorem find_enter_ne (hq : q ≠ name) : find (enter ino name l) q = find l q := by
  induction l with
  | nil =>
      rw [enter, find_cons, if_neg fun h => hq h.2.symm]
  | cons e l ih =>
      rw [enter]
      by_cases hfree : e.1 = 0
      · rw [if_pos hfree, find_cons, find_cons, if_neg fun h => hq h.2.symm, if_neg fun h => h.1 hfree]
      · rw [if_neg hfree, find_cons, find_cons, ih]

theorem find_erase_ne (hq : q ≠ name) : find (erase name l) q = find l q := by
  induction l with
  | nil => rfl
  | cons e l ih =>
      rw [erase]
      by_cases hfound : e.1 ≠ 0 ∧ e.2 = name
      · rw [if_pos hfound, find_cons, find_cons, if_neg fun h => h.1 rfl,
          if_neg fun h => hq (h.2.symm.trans hfound.2)]
      · rw [if_neg hfound, find_cons, find_cons, ih]

theorem mem_enter (h : e ∈ enter ino name l) : e ∈ l ∨ e = (ino, name) := by
  induction l with
  | nil => exact .inr (List.mem_singleton.mp h)
  | cons x l ih =>
      rw [enter] at h
      split_ifs at h
      · exact (List.mem_cons.mp h).symm.imp_left (List.mem_cons_of_mem _)
      · rcases List.mem_cons.mp h with rfl | hmem
        · exact .inl List.mem_cons_self
        · exact (ih hmem).imp_left (List.mem_cons_of_mem _)

theorem length_enter_le (ino : Nat) (name : Text) (l : Names) : (enter ino name l).length ≤ l.length + 1 := by
  induction l with
  | nil => exact le_rfl
  | cons e l ih =>
      rw [enter]
      split_ifs
      · exact Nat.le_succ _
      · exact Nat.succ_le_succ ih

theorem mem_erase (h : e ∈ erase name l) : e ∈ l ∨ e = (0, []) := by
  induction l with
  | nil => exact .inl h
  | cons x l ih =>
      rw [erase] at h
      split_ifs at h
      · exact (List.mem_cons.mp h).symm.imp_left (List.mem_cons_of_mem _)
      · rcases List.mem_cons.mp h with rfl | hmem
        · exact .inl List.mem_cons_self
        · exact (ih hmem).imp_left (List.mem_cons_of_mem _)

theorem enter_eq (l : Names) : enter ino name l = match l.findIdx? (·.1 = 0) with
    | some k => l.set k (ino, name)
    | none => l ++ [(ino, name)] := by
  induction l with
  | nil => rfl
  | cons e l ih =>
      rw [enter, List.findIdx?_cons]
      by_cases hfree : e.1 = 0
      · rw [if_pos hfree, decide_eq_true hfree, if_pos rfl]
        rfl
      · rw [if_neg hfree, decide_eq_false hfree, if_neg Bool.false_ne_true, ih]
        cases l.findIdx? (·.1 = 0) <;> rfl

theorem erase_eq (l : Names) : erase name l = match l.findIdx? fun e => e.1 ≠ 0 ∧ e.2 = name with
    | some k => l.set k (0, [])
    | none => l := by
  induction l with
  | nil => rfl
  | cons e l ih =>
      rw [erase, List.findIdx?_cons]
      by_cases hfound : e.1 ≠ 0 ∧ e.2 = name
      · rw [if_pos hfound, decide_eq_true hfound, if_pos rfl]
        rfl
      · rw [if_neg hfound, decide_eq_false hfound, if_neg Bool.false_ne_true, ih]
        cases l.findIdx? (fun e => decide (e.1 ≠ 0 ∧ e.2 = name)) <;> rfl

end Names

variable {b b' ent : List Byte} {o k : Nat} {name : Text}

/-- The entry at a place. -/
def entry (b : List Byte) (o : Nat) : Nat × Text := (word b o, entryName b o)

/-- The entries in the bytes of a directory. -/
def listing (b : List Byte) : Names := (entries b).map (entry b)

theorem length_listing (h : 16 ∣ b.length) : (listing b).length = b.length / 16 := by
  rw [listing, List.length_map, entries, List.length_map, List.length_range]
  omega

theorem getElem_listing (hk : k < (listing b).length) : (listing b)[k] = entry b (16 * k) := by
  simp only [listing, entries, List.getElem_map, List.getElem_range]

theorem mem_entries (h : 16 ∣ b.length) (ho : o ∈ entries b) : o + 16 ≤ b.length := by
  obtain ⟨k, hk, rfl⟩ := List.mem_map.mp ho
  have hk' := List.mem_range.mp hk
  omega

theorem slice_slice {l : List Byte} {n i j : Nat} (hj : j ≤ n) :
    slice (slice l o (o + n)) i j = slice l (o + i) (o + j) := by
  rw [slice, slice, slice, List.drop_take, List.drop_drop, List.take_take]
  congr 1
  omega

/-- An entry is in its sixteen bytes. -/
theorem entry_slice (b : List Byte) (o : Nat) : entry b o = entry (slice b o (o + 16)) 0 := by
  have hword : word (slice b o (o + 16)) 0 = word b o := by
    rw [word, word, getD_slice _ (by omega), getD_slice _ (by omega)]
    rfl
  rw [entry, entry, hword, entryName, entryName, slice_slice (by decide)]

/-- Sixteen bytes as an entry. -/
theorem entry_congr {o' : Nat} (h : slice b' o' (o' + 16) = slice b o (o + 16)) : entry b' o' = entry b o := by
  rw [entry_slice b', entry_slice b, h]

theorem slice_self (h : b.length = 16) : slice b 0 (0 + 16) = b := by
  rw [slice, List.drop_zero, List.take_of_length_le (by omega)]

/-! ### Reading, entering and erasing -/

theorem findEntry_eq (name : Text) : ∀ {os : List Nat}, (∀ o ∈ os, o + 2 ≤ b.length) → findEntry b name os =
    .ok ((os.find? fun o => (entry b o).1 ≠ 0 ∧ (entry b o).2 = name).map fun o => (o, word b o)) := by
  intro os
  induction os with
  | nil => exact fun _ => rfl
  | cons o os ih =>
      intro h
      rw [findEntry, bind_ok (u16_eq (h o List.mem_cons_self)), List.find?_cons]
      by_cases hfound : word b o ≠ 0 ∧ entryName b o = name
      · rw [if_pos hfound, decide_eq_true (p := (entry b o).1 ≠ 0 ∧ (entry b o).2 = name) hfound]
        rfl
      · rw [if_neg hfound, decide_eq_false (p := (entry b o).1 ≠ 0 ∧ (entry b o).2 = name) hfound]
        exact ih fun x hx => h x (List.mem_cons_of_mem _ hx)

theorem freeEntry_eq : ∀ {os : List Nat}, (∀ o ∈ os, o + 2 ≤ b.length) →
    Fsw.freeEntry b os = .ok (os.find? fun o => (entry b o).1 = 0) := by
  intro os
  induction os with
  | nil => exact fun _ => rfl
  | cons o os ih =>
      intro h
      rw [Fsw.freeEntry, bind_ok (u16_eq (h o List.mem_cons_self)), List.find?_cons]
      by_cases hfree : word b o = 0
      · rw [if_pos hfree, decide_eq_true (p := (entry b o).1 = 0) hfree]
        rfl
      · rw [if_neg hfree, decide_eq_false (p := (entry b o).1 = 0) hfree]
        exact ih fun x hx => h x (List.mem_cons_of_mem _ hx)

/-- A search among the places is one among the entries. -/
theorem find_entries (b : List Byte) (P : Nat × Text → Bool) : (entries b).find? (fun o => P (entry b o)) =
    ((listing b).findIdx? P).map (16 * ·) := by
  rw [listing, entries, List.find?_map, List.findIdx?_map, List.findIdx?_map]
  congr 1
  refine Option.ext fun k => ?_
  rw [List.find?_range_eq_some, List.findIdx?_eq_some_iff_getElem]
  simp

/-- The sixteen bytes `ent` in the place of the `k`th entry. -/
theorem listing_splice (h : 16 ∣ b.length) (hent : ent.length = 16) (hk : 16 * k + 16 ≤ b.length) :
    listing (splice b (16 * k) (16 * k + 16) ent) = (listing b).set k (entry ent 0) := by
  have hput : Put (16 * k) ent b (splice b (16 * k) (16 * k + 16) ent) :=
    ⟨length_splice hk (by rw [hent]), by
      intro i
      rw [hent]
      exact getD_splice hk (by rw [hent]) i⟩
  generalize splice b (16 * k) (16 * k + 16) ent = b' at hput
  have h' : 16 ∣ b'.length := by rwa [hput.length]
  refine List.ext_getElem ?_ fun i hi _ => ?_
  · rw [List.length_set, length_listing h, length_listing h', hput.length]
  · rw [getElem_listing, List.getElem_set, getElem_listing]
    by_cases hik : k = i
    · subst hik
      rw [if_pos rfl]
      have hself := hput.slice_self (by rw [hent]; exact hk)
      rw [hent] at hself
      exact entry_congr (hself.trans (slice_self hent).symm)
    · rw [if_neg hik]
      refine entry_congr (hput.slice_of_apart ?_)
      omega

theorem listing_append (h : 16 ∣ b.length) (hent : ent.length = 16) :
    listing (b ++ ent) = listing b ++ [entry ent 0] := by
  have h' : 16 ∣ (b ++ ent).length := by
    rw [List.length_append, hent]
    exact Nat.dvd_add h (dvd_refl 16)
  refine List.ext_getElem ?_ fun i hi hi' => ?_
  · rw [List.length_append, length_listing h, length_listing h', List.length_append, hent, List.length_singleton]
    omega
  · rw [getElem_listing, List.getElem_append]
    rw [List.length_append, List.length_singleton] at hi'
    split_ifs with hold
    · rw [getElem_listing]
      rw [length_listing h] at hold
      refine entry_congr ?_
      rw [slice, slice, List.drop_append_of_le_length (by omega), List.take_append_of_le_length (by
        rw [List.length_drop]
        omega)]
    · rw [List.getElem_singleton]
      rw [length_listing h] at hold hi'
      obtain rfl : i = b.length / 16 := by omega
      refine entry_congr ?_
      rw [slice_self hent, Nat.mul_div_cancel' h, slice, List.drop_left, List.take_of_length_le (by omega)]

theorem listing_one (h : b.length = 16) : listing b = [entry b 0] := by
  rw [listing, entries, h]
  rfl

theorem dvd_splice (h : 16 ∣ b.length) (hent : ent.length = 16) (hk : 16 * k + 16 ≤ b.length) :
    16 ∣ (splice b (16 * k) (16 * k + 16) ent).length := by
  rwa [length_splice hk (by rw [hent])]

/-- What `_dirent` makes of a directory. -/
theorem entered_eq {ino : Nat} (h : 16 ∣ b.length) (hent : ent.length = 16) (hentry : entry ent 0 = (ino, name)) :
    ∃ b', Fsw.entered b ent = .ok b' ∧ 16 ∣ b'.length ∧ listing b' = (listing b).enter ino name := by
  have hplaces : ∀ o ∈ entries b, o + 2 ≤ b.length := fun o ho => by
    have hin := mem_entries h ho
    omega
  rw [Fsw.entered, bind_ok (freeEntry_eq hplaces), find_entries b (fun e => e.1 = 0), Names.enter_eq]
  cases hk : (listing b).findIdx? (fun e => e.1 = 0) with
  | none =>
      refine ⟨_, rfl, ?_, by rw [listing_append h hent, hentry]⟩
      rw [List.length_append, hent]
      exact Nat.dvd_add h (dvd_refl 16)
  | some k =>
      obtain ⟨hlt, -, -⟩ := List.findIdx?_eq_some_iff_getElem.mp hk
      rw [length_listing h] at hlt
      have hroom : 16 * k + 16 ≤ b.length := by omega
      exact ⟨_, rfl, dvd_splice h hent hroom, by rw [listing_splice h hent hroom, hentry]⟩

/-- What `_undirent` looks for, and what it makes of a directory. -/
theorem findEntry_listing (h : 16 ∣ b.length) (name : Text) : ∃ r, findEntry b name (entries b) = .ok r ∧
    (listing b).find name = r.map (·.2) ∧ ∀ o ino, r = some (o, ino) →
      listing (splice b o (o + 16) (List.replicate 16 0)) = (listing b).erase name ∧
        16 ∣ (splice b o (o + 16) (List.replicate 16 0)).length ∧
        (splice b o (o + 16) (List.replicate 16 0)).length = b.length := by
  have hplaces : ∀ o ∈ entries b, o + 2 ≤ b.length := fun o ho => by
    have hin := mem_entries h ho
    omega
  refine ⟨_, findEntry_eq name hplaces, ?_, fun o ino hfound => ?_⟩
  · rw [Names.find, listing, List.find?_map, Option.map_map, Option.map_map]
    rfl
  · have hzeros : (List.replicate 16 (0 : Byte)).length = 16 := List.length_replicate
    rw [find_entries b (fun e => e.1 ≠ 0 ∧ e.2 = name)] at hfound
    cases hk : (listing b).findIdx? (fun e => e.1 ≠ 0 ∧ e.2 = name) with
    | none =>
        rw [hk] at hfound
        cases hfound
    | some k =>
        rw [hk] at hfound
        cases hfound
        obtain ⟨hlt, -, -⟩ := List.findIdx?_eq_some_iff_getElem.mp hk
        rw [length_listing h] at hlt
        have hroom : 16 * k + 16 ≤ b.length := by omega
        refine ⟨?_, dvd_splice h hzeros hroom, length_splice hroom (by rw [hzeros])⟩
        rw [listing_splice h hzeros hroom, Names.erase_eq, hk]
        rfl

/-! ### Names in bytes -/

/-- A name `cohfsw.py` can enter and `cohfs.py` read back. -/
def Plain (name : Text) : Prop := name.length ≤ 14 ∧ ∀ c ∈ name, 0 < c.val ∧ c.val < 128

instance (name : Text) : Decidable (Plain name) := inferInstanceAs (Decidable (_ ∧ _))

theorem encode_plain (h : Plain name) : encode name = .ok (name.map fun c => BitVec.ofNat 8 c.val) := by
  have hchars : name.mapM utf8 = .ok (name.map fun c => [BitVec.ofNat 8 c.val]) :=
    mapM_eq_ok fun c hc => by
      rw [utf8]
      exact if_pos (h.2 c hc).2
  rw [encode, bind_ok hchars]
  conv_rhs => rw [List.map_eq_flatMap, List.flatMap_def]
  rfl

theorem latin1_plain (h : Plain name) : latin1 (name.map fun c => BitVec.ofNat 8 c.val) = name := by
  rw [latin1, List.map_map]
  conv_rhs => rw [← List.map_id name]
  refine List.map_congr_left fun c hc => Fin.ext ?_
  have hc' := (h.2 c hc).2
  show ((BitVec.ofNat 8 c.val).toNat % 0x110000) = c.val
  rw [BitVec.toNat_ofNat]
  omega

/-- Fourteen bytes of a name. -/
theorem entryName_plain {pre : List Byte} (h : Plain name) (hpre : pre.length = 2) :
    entryName (pre ++ ljust (name.map fun c => BitVec.ofNat 8 c.val) 14) 0 = name := by
  have hlen : (name.map fun c => BitVec.ofNat 8 c.val).length ≤ 14 := by
    rw [List.length_map]
    exact h.1
  have hslice : slice (pre ++ ljust (name.map fun c => BitVec.ofNat 8 c.val) 14) (0 + 2) (0 + 16) =
      ljust (name.map fun c => BitVec.ofNat 8 c.val) 14 := by
    rw [slice, Nat.zero_add, Nat.zero_add, ← hpre, List.drop_left, List.take_of_length_le]
    rw [length_ljust hlen, hpre]
  rw [entryName, hslice, ljust, List.takeWhile_append_of_pos, List.takeWhile_replicate]
  · simpa using latin1_plain h
  · intro x hx
    obtain ⟨c, hc, rfl⟩ := List.mem_map.mp hx
    obtain ⟨hpos, hlt⟩ := h.2 c hc
    refine decide_eq_true fun hzero => ?_
    have hnat := congrArg BitVec.toNat hzero
    rw [BitVec.toNat_ofNat] at hnat
    have hmod : c.val % 2 ^ 8 = 0 := hnat
    omega

theorem word_bytes16_append {n : Nat} (hn : n < 65536) (rest : List Byte) : word (bytes16 n ++ rest) 0 = n :=
  (word_bytes16 hn : _)

/-- The entry `_dirent` packs. -/
theorem dirEntry_eq {ino : Nat} (hino : ino < 65536) (h : Plain name) :
    ∃ ent, Fsw.dirEntry name ino = .ok ent ∧ ent.length = 16 ∧ entry ent 0 = (ino, name) := by
  refine ⟨_, by rw [Fsw.dirEntry, bind_ok (packH_ok hino), bind_ok (encode_plain h)]; rfl, ?_, ?_⟩
  · rw [List.length_append, length_ljust (by rw [List.length_map]; exact h.1)]
    rfl
  · exact Prod.ext (word_bytes16_append hino _) (entryName_plain h rfl)

theorem plain_dots : Plain [0x2E] ∧ Plain [0x2E, 0x2E] := by simp [Plain]

/-- The entries of a new directory. -/
theorem dots_eq {ino parent : Nat} (hino : ino < 65536) (hparent : parent < 65536) : ∃ ents,
    Fsw.dots ino parent = .ok ents ∧ ents.length = 32 ∧
      listing ents = [(ino, [0x2E]), (parent, [0x2E, 0x2E])] := by
  have hself := @entryName_plain _ (bytes16 ino) plain_dots.1 rfl
  have hup := @entryName_plain _ (bytes16 parent) plain_dots.2 rfl
  refine ⟨bytes16 ino ++ ljust [0x2E] 14 ++ (bytes16 parent ++ ljust [0x2E, 0x2E] 14), ?_, rfl, ?_⟩
  · rw [Fsw.dots, bind_ok (packH_ok hino), bind_ok (packH_ok hparent), ← List.append_assoc]
    rfl
  · have hfirst : listing (bytes16 ino ++ ljust [0x2E] 14) = [(ino, [0x2E])] := by
      rw [listing_one rfl]
      exact congrArg (fun e => [e]) (Prod.ext (word_bytes16_append hino _) hself)
    rw [listing_append (dvd_refl 16) rfl, hfirst]
    exact congrArg (fun e => [_, e]) (Prod.ext (word_bytes16_append hparent _) hup)

/-! ### Paths -/

theorem slash_not_mem : ∀ {path part : Text}, part ∈ path.splitOn SLASH → SLASH ∉ part := by
  intro path
  induction path with
  | nil =>
      intro part h
      rw [List.splitOn_nil, List.mem_singleton] at h
      rw [h]
      exact List.not_mem_nil
  | cons c path ih =>
      intro part h
      rw [List.splitOn_cons_eq_if_modifyHead] at h
      split_ifs at h with hc
      · rcases List.mem_cons.mp h with rfl | hmem
        · exact List.not_mem_nil
        · exact ih hmem
      · obtain ⟨first, rest, hsplit⟩ := List.exists_cons_of_ne_nil (List.splitOn_ne_nil SLASH path)
        rw [hsplit, List.modifyHead_cons] at h
        rcases List.mem_cons.mp h with rfl | hmem
        · rw [List.mem_cons, not_or]
          exact ⟨fun heq => hc (beq_iff_eq.mpr heq.symm), ih (hsplit ▸ List.mem_cons_self)⟩
        · exact ih (hsplit ▸ List.mem_cons_of_mem _ hmem)

theorem parts_join {ps : List Text} (h : ∀ p ∈ ps, SLASH ∉ p ∧ p ≠ []) : parts (join ps) = ps := by
  by_cases hnil : ps = []
  · rw [hnil]
    rfl
  · rw [parts, join, List.splitOn_intercalate _ (fun p hp => (h p hp).1) hnil,
      List.filter_eq_self.mpr fun p hp => decide_eq_true (h p hp).2]

/-- The directory a path names, as `_split` has it. -/
theorem parts_dirname (path : Text) : parts (join (parts path).dropLast) = (parts path).dropLast := by
  refine parts_join fun p hp => ?_
  have hmem := List.mem_filter.mp (List.mem_of_mem_dropLast hp)
  exact ⟨slash_not_mem hmem.1, of_decide_eq_true hmem.2⟩

end Sbc386Ex.Cohfs

import Mathlib.Algebra.Order.BigOperators.Group.List
import Sbc386Ex.Cohfs.Paths

/-!
# Sbc386Ex.Cohfs.Links

Links are counted right: of every file there is, as many entries of directories are there as its inode
says, and of no other inode is there any; no directory has a name twice. Every run keeps this so.
-/

namespace Sbc386Ex.Cohfs

open Raising

/-! ### Entries -/

namespace Names

variable {l : Names} {ino i j : Nat} {name q : Text} {P : Nat × Text → Bool}

theorem countP_enter (hP : ∀ e, P e = true → e.1 ≠ 0) :
    (enter ino name l).countP P = l.countP P + if P (ino, name) then 1 else 0 := by
  induction l with
  | nil => rw [enter, List.countP_singleton, List.countP_nil, Nat.zero_add]
  | cons e l ih =>
      rw [enter]
      by_cases hfree : e.1 = 0
      · have hnot : P e = false := Bool.eq_false_iff.mpr fun h => hP e h hfree
        rw [if_pos hfree, List.countP_cons, List.countP_cons, hnot]
        rfl
      · rw [if_neg hfree, List.countP_cons, List.countP_cons, ih, Nat.add_right_comm]

theorem countP_erase (hP : ∀ e, P e = true → e.1 ≠ 0) (h : find l name = some i) :
    (erase name l).countP P + (if P (i, name) then 1 else 0) = l.countP P := by
  induction l with
  | nil => cases h
  | cons e l ih =>
      rw [find_cons] at h
      rw [erase]
      by_cases hfound : e.1 ≠ 0 ∧ e.2 = name
      · rw [if_pos hfound] at h ⊢
        obtain ⟨e₁, e₂⟩ := e
        obtain rfl : e₁ = i := Option.some.inj h
        obtain rfl : e₂ = name := hfound.2
        have hnone : P (0, []) = false := Bool.eq_false_iff.mpr fun hp => hP _ hp rfl
        rw [List.countP_cons, List.countP_cons, hnone]
        rfl
      · rw [if_neg hfound] at h ⊢
        rw [List.countP_cons, List.countP_cons, ← ih h, Nat.add_right_comm]

/-- The entry is in use, and called `q`. -/
def called (q : Text) (e : Nat × Text) : Bool := e.1 ≠ 0 ∧ e.2 = q

theorem called_ne {e : Nat × Text} (h : called q e = true) : e.1 ≠ 0 := (of_decide_eq_true h).1

/-- The entry is of the inode `ino`. -/
def refersTo (ino : Nat) (e : Nat × Text) : Bool := e.1 = ino

theorem refersTo_ne (h : ino ≠ 0) (e : Nat × Text) (he : refersTo ino e = true) : e.1 ≠ 0 :=
  (of_decide_eq_true he) ▸ h

theorem find_eq_none : find l q = none ↔ l.countP (called q) = 0 := by
  rw [find, Option.map_eq_none_iff, List.find?_eq_none, List.countP_eq_zero]
  rfl

/-- No name is there twice. -/
def Distinct (l : Names) : Prop := ∀ q, l.countP (called q) ≤ 1

theorem Distinct.enter (h : Distinct l) (habsent : find l name = none) :
    Distinct (enter ino name l) := fun q => by
  have hq := h q
  rw [countP_enter fun e => called_ne]
  by_cases heq : q = name
  · subst heq
    rw [find_eq_none.mp habsent]
    split_ifs <;> decide
  · have hnot : called q (ino, name) = false := by simp [called, Ne.symm heq]
    rw [hnot]
    exact hq

theorem Distinct.erase (h : Distinct l) (hfind : find l name = some i) :
    Distinct (erase name l) ∧ find (erase name l) name = none := by
  refine ⟨fun q => ?_, find_eq_none.mpr ?_⟩
  · have hcount := countP_erase (P := called q) (fun e => called_ne) hfind
    have hq := h q
    omega
  · have hcount := countP_erase (P := called name) (fun e => called_ne) hfind
    have hself : called name (i, name) = true := by simp [called, (mem_of_find hfind).2]
    have hname := h name
    rw [hself, if_pos rfl] at hcount
    omega

theorem distinct_dots : Distinct [(i, [0x2E]), (j, [0x2E, 0x2E])] := fun q => by
  rw [List.countP_cons, List.countP_cons, List.countP_nil, Nat.zero_add]
  by_cases hq : [0x2E] = q
  · have hne : called q (j, [0x2E, 0x2E]) = false := by simp [called, ← hq]
    rw [hne, if_neg Bool.false_ne_true]
    split_ifs <;> decide
  · have hne : called q (i, [0x2E]) = false := by simp [called, hq]
    rw [hne, if_neg Bool.false_ne_true]
    split_ifs <;> decide

end Names

/-! ### References -/

namespace Files

variable {F F' : Files} {inos : List Nat} {call : Call} {path name : Text}
  {ino i j k parent : Nat} {names l : Names}

/-- The entries of a directory, none of a file that is none. -/
def entriesOf (F : Files) (i : Nat) : Names := (F.names i).getD []

/-- How many entries refer to an inode. -/
def refs (F : Files) (inos : List Nat) (ino : Nat) : Nat :=
  (inos.map fun i => (F.entriesOf i).countP (Names.refersTo ino)).sum

theorem refs_congr (h : ∀ i, F'.names i = F.names i) : F'.refs inos ino = F.refs inos ino := by
  simp only [refs, entriesOf, h]

/-- One directory changes. -/
theorem refs_update (hnodup : inos.Nodup) (hp : parent ∈ inos) (h : ∀ i, i ≠ parent → F'.names i = F.names i)
    (k : Nat) : F'.refs inos k + (F.entriesOf parent).countP (Names.refersTo k) =
      F.refs inos k + (F'.entriesOf parent).countP (Names.refersTo k) := by
  have hperm := List.perm_cons_erase hp
  have hothers : ((inos.erase parent).map fun i => (F'.entriesOf i).countP (Names.refersTo k)) =
      (inos.erase parent).map fun i => (F.entriesOf i).countP (Names.refersTo k) :=
    List.map_congr_left fun i hi => by
      rw [entriesOf, entriesOf, h i fun heq => hnodup.not_mem_erase (heq ▸ hi)]
  rw [refs, refs, (hperm.map _).sum_eq, (hperm.map _).sum_eq, List.map_cons, List.map_cons, List.sum_cons,
    List.sum_cons, hothers]
  omega

/-- What a file that is no directory becomes is none either. -/
theorem refs_set (h : F.names ino = none) {f : Option File} (hf : (F.set ino f).names ino = none) :
    (F.set ino f).refs inos k = F.refs inos k :=
  refs_congr fun i => by
    by_cases hi : i = ino
    · rw [hi, hf, h]
    · exact names_set_ne hi

theorem entriesOf_eq (h : F.names i = some l) : F.entriesOf i = l := by
  rw [entriesOf, h, Option.getD_some]

theorem refs_enter (hnodup : inos.Nodup) (hp : parent ∈ inos) (h : F.names parent = some l) (hk : k ≠ 0) :
    (F.withNames parent (l.enter ino name)).refs inos k = F.refs inos k + if ino = k then 1 else 0 := by
  have hupdate := @refs_update F (F.withNames parent (l.enter ino name)) inos parent hnodup hp
    (fun i hi => names_set_ne hi) k
  have hcount := @Names.countP_enter l ino name _ (Names.refersTo_ne hk)
  rw [entriesOf_eq h, entriesOf_eq (names_withNames h _), hcount] at hupdate
  simp only [Names.refersTo, decide_eq_true_eq] at hupdate
  omega

theorem refs_erase (hnodup : inos.Nodup) (hp : parent ∈ inos) (h : F.names parent = some l)
    (hfind : l.find name = some ino) (hk : k ≠ 0) :
    (F.withNames parent (l.erase name)).refs inos k + (if ino = k then 1 else 0) = F.refs inos k := by
  have hupdate := @refs_update F (F.withNames parent (l.erase name)) inos parent hnodup hp
    (fun i hi => names_set_ne hi) k
  have hcount := Names.countP_erase (Names.refersTo_ne hk) hfind
  rw [entriesOf_eq h, entriesOf_eq (names_withNames h _)] at hupdate
  simp only [Names.refersTo, decide_eq_true_eq] at hcount hupdate
  omega

theorem refs_directory (hnodup : inos.Nodup) (hino : ino ∈ inos) (h : F.names ino = none) (mode uid gid : Int) :
    (F.set ino (some (directory mode uid gid ino parent))).refs inos k =
      F.refs inos k + (if ino = k then 1 else 0) + if parent = k then 1 else 0 := by
  have hupdate := @refs_update F (F.set ino (some (directory mode uid gid ino parent))) inos ino hnodup hino
    (fun i hi => names_set_ne hi) k
  have hnew : (F.set ino (some (directory mode uid gid ino parent))).names ino =
      some [(ino, [0x2E]), (parent, [0x2E, 0x2E])] := by
    rw [names, set_self]
    rfl
  have hold : F.entriesOf ino = [] := by rw [entriesOf, h, Option.getD_none]
  rw [entriesOf_eq hnew, hold] at hupdate
  simp only [List.countP_cons, List.countP_nil, Names.refersTo, decide_eq_true_eq] at hupdate
  omega

/-! ### Counts -/

/-- The count of links that an inode in use has. -/
def nlink (F : Files) (i : Nat) : Option Int := (F i).map (·.nlink)

theorem nlink_set (f : Option File) : (F.set ino f).nlink i = if i = ino then f.map (·.nlink) else F.nlink i := by
  by_cases hi : i = ino
  · rw [if_pos hi, nlink, hi, set_self]
  · rw [if_neg hi, nlink, set_ne hi, nlink]

theorem nlink_withNames : (F.withNames parent l).nlink i = F.nlink i := by
  rw [withNames, nlink_set]
  split_ifs with hi
  · rw [hi, nlink, Option.map_map]
    rfl
  · rfl

theorem nlink_link : (F.link parent).nlink i =
    if i = parent then (F.nlink parent).map (· + 1) else F.nlink i := by
  rw [link, nlink_set]
  split_ifs
  · rw [nlink, Option.map_map, Option.map_map]
    rfl
  · rfl

/-- The count is right. The root has one link more than entries. -/
def Balanced (F : Files) (inos : List Nat) (i : Nat) : Prop :=
  match F.nlink i with
  | some n => n = F.refs inos i + if i = ROOTINO then 1 else 0
  | none => F.refs inos i = 0

/-- **The invariant** of the links. -/
structure Sound (F : Files) (inos : List Nat) : Prop where
  inside : ∀ i, F.nlink i ≠ none → i ∈ inos
  balanced : ∀ i, i ≠ 0 → F.Balanced inos i
  device : ∀ i f n, F i = some f → f.content = .device n → f.nlink = 1
  distinct : ∀ i l, F.names i = some l → l.Distinct

/-- Only what is in use has a name. -/
theorem Sound.present (h : F.Sound inos) {p : Nat} (hp : F.names p = some l) {e : Nat × Text}
    (he : e ∈ l) (hne : e.1 ≠ 0) :
    ∃ f, F e.1 = some f := by
  cases hf : F e.1 with
  | some f => exact ⟨f, rfl⟩
  | none =>
      have hbalanced := h.balanced e.1 hne
      rw [Balanced, nlink, hf, Option.map_none] at hbalanced
      have hmem : p ∈ inos := h.inside p fun hnone => by
        obtain ⟨g, hg, -⟩ := names_eq hp
        rw [nlink, hg] at hnone
        cases hnone
      have hzero : (F.entriesOf p).countP (Names.refersTo e.1) = 0 :=
        List.sum_eq_zero_iff_forall_eq_nat.mp hbalanced _ (List.mem_map.mpr ⟨p, hmem, rfl⟩)
      rw [entriesOf_eq hp, List.countP_eq_zero] at hzero
      exact absurd (decide_eq_true rfl) (hzero e he)

theorem Sound.mem (h : F.Sound inos) (hp : F.names parent = some l) : parent ∈ inos :=
  h.inside parent fun hnone => by
    obtain ⟨f, hf, -⟩ := names_eq hp
    rw [nlink, hf] at hnone
    cases hnone

theorem Sound.refs_unused (h : F.Sound inos) (hi : F i = none) (hne : i ≠ 0) : F.refs inos i = 0 := by
  have hbalanced := h.balanced i hne
  rwa [Balanced, nlink, hi, Option.map_none] at hbalanced

theorem Sound.refs_used {f : File} (h : F.Sound inos) (hi : F i = some f) (hne : i ≠ 0) :
    f.nlink = F.refs inos i + if i = ROOTINO then 1 else 0 := by
  have hbalanced := h.balanced i hne
  rwa [Balanced, nlink, hi, Option.map_some] at hbalanced

theorem of_set {f : Option File} {g : File} (h : F.set ino f i = some g) :
    i = ino ∧ f = some g ∨ F i = some g := by
  by_cases hi : i = ino
  · exact .inl ⟨hi, by rwa [hi, set_self] at h⟩
  · exact .inr ((set_ne hi).symm.trans h)

/-- A file that is no directory becomes another with as many links. -/
theorem Sound.set {f g : File} (h : F.Sound inos) (hf : F ino = some f) (hnlink : g.nlink = f.nlink)
    (hfnames : F.names ino = none) (hgnames : ∀ l, g.content ≠ .names l)
    (hdevice : ∀ n, g.content = .device n → g.nlink = 1) : (F.set ino (some g)).Sound inos := by
  have hnone : (F.set ino (some g)).names ino = none := names_of (set_self ..) hgnames
  have hn : ∀ i, (F.set ino (some g)).nlink i = F.nlink i := fun i => by
    rw [nlink_set]
    split_ifs with hi
    · rw [hi, nlink, hf, Option.map_some, Option.map_some, hnlink]
    · rfl
  refine ⟨fun i hi => h.inside i (hn i ▸ hi), fun i hi => ?_, fun i x n hx hcontent => ?_, fun i l hl => ?_⟩
  · rw [Balanced, hn, refs_set hfnames hnone]
    exact h.balanced i hi
  · rcases of_set hx with ⟨-, hnew⟩ | hwas
    · cases hnew
      exact hdevice n hcontent
    · exact h.device i x n hwas hcontent
  · by_cases heq : i = ino
    · rw [heq, hnone] at hl
      cases hl
    · exact h.distinct i l ((names_set_ne heq).symm.trans hl)

/-- What is a node was one before the names of a directory changed. -/
theorem of_withNames {f : File} {n : Nat} (hf : F.withNames parent l i = some f)
    (hcontent : f.content = .device n) :
    F i = some f := by
  by_cases hi : i = parent
  · rw [withNames, hi, set_self] at hf
    obtain ⟨g, -, rfl⟩ := Option.map_eq_some_iff.mp hf
    cases hcontent
  · rwa [withNames, set_ne hi] at hf

theorem distinct_withNames (h : ∀ i l, F.names i = some l → l.Distinct) (hp : F.names parent = some names)
    (hl : l.Distinct) : ∀ i m, (F.withNames parent l).names i = some m → m.Distinct := fun i m hm => by
  by_cases hi : i = parent
  · rw [hi, names_withNames hp] at hm
    exact Option.some.inj hm ▸ hl
  · exact h i m ((names_set_ne hi).symm.trans hm)

theorem names_withNames_set (h : F.names ino = none) {f : Option File} (hf : (F.set ino f).names ino = none)
    (hp : F.names parent = some l) (m : Names) (i : Nat) :
    ((F.set ino f).withNames parent m).names i = (F.withNames parent m).names i := by
  have hsame : ∀ j, (F.set ino f).names j = F.names j := fun j => by
    by_cases hj : j = ino
    · rw [hj, hf, h]
    · exact names_set_ne hj
  by_cases hi : i = parent
  · rw [hi, names_withNames ((hsame parent).trans hp), names_withNames hp]
  · rw [withNames, withNames, names_set_ne hi, names_set_ne hi, hsame]

/-- A new file with one link, entered into a directory. -/
theorem Sound.enter (h : F.Sound inos) (hnodup : inos.Nodup) (leads : F.Leads path parent name names)
    (absent : names.find name = none) (unused : F.Unused inos ino)
    (hnlink : ∀ i, F'.nlink i = if i = ino then some 1 else F.nlink i)
    (hnames : ∀ i, F'.names i = (F.withNames parent (names.enter ino name)).names i)
    (hdevice : ∀ i f n, F' i = some f → f.content = .device n → f.nlink = 1) : F'.Sound inos := by
  have hroot := unused.above
  refine ⟨fun i hi => ?_, fun i hi => ?_, hdevice, fun i l hl => ?_⟩
  · rw [hnlink] at hi
    split_ifs at hi with heq
    · exact heq ▸ unused.mem
    · exact h.inside i hi
  · rw [Balanced, hnlink, refs_congr hnames, refs_enter hnodup (h.mem leads.names) leads.names hi]
    by_cases heq : i = ino
    · subst heq
      rw [if_pos rfl, if_pos rfl, h.refs_unused unused.free hi, if_neg (Nat.ne_of_gt hroot)]
      rfl
    · rw [if_neg heq, if_neg (Ne.symm heq)]
      exact h.balanced i hi
  · rw [hnames] at hl
    exact distinct_withNames h.distinct leads.names ((h.distinct _ _ leads.names).enter absent) i l hl

/-- A new directory, entered into another. -/
theorem Sound.mkdir {mode uid gid : Int} (h : F.Sound inos) (hnodup : inos.Nodup)
    (leads : F.Leads path parent name names) (absent : names.find name = none) (unused : F.Unused inos ino) :
    (((F.set ino (some (directory mode uid gid ino parent))).withNames parent (names.enter ino name)).link
      parent).Sound inos := by
  have hroot := unused.above
  have hnone := names_none unused.free
  have hne : ino ≠ parent := leads.names_ne hnone
  have hparent : (F.set ino (some (directory mode uid gid ino parent))).names parent = some names :=
    (names_set_ne hne.symm).trans leads.names
  have hmem := h.mem leads.names
  have hnlink : ∀ i, (((F.set ino (some (directory mode uid gid ino parent))).withNames parent
      (names.enter ino name)).link parent).nlink i =
        if i = parent then (F.nlink parent).map (· + 1) else if i = ino then some 2 else F.nlink i := fun i => by
    rw [nlink_link, nlink_withNames, nlink_withNames, nlink_set, nlink_set, if_neg hne.symm]
    rfl
  refine ⟨fun i hi => ?_, fun i hi => ?_, fun i f n hf hcontent => ?_, fun i l hl => ?_⟩
  · rw [hnlink] at hi
    split_ifs at hi with hp heq
    · exact hp ▸ hmem
    · exact heq ▸ unused.mem
    · exact h.inside i hi
  · have hbalanced := h.balanced i hi
    rw [Balanced, hnlink, refs_congr (names_link _ parent), refs_enter hnodup hmem hparent hi,
      refs_directory hnodup unused.mem hnone]
    by_cases hp : i = parent
    · -- the directory's entry ..
      subst hp
      obtain ⟨f, hf, -⟩ := names_eq leads.names
      rw [if_pos rfl, if_neg hne, if_pos rfl, nlink, hf]
      have hused := h.refs_used hf hi
      simp only [Option.map_some]
      omega
    · rw [if_neg hp, if_neg (Ne.symm hp)]
      by_cases heq : i = ino
      · -- its name, and its entry .
        subst heq
        rw [if_pos rfl, if_pos rfl, h.refs_unused unused.free hi, if_neg (Nat.ne_of_gt hroot)]
        rfl
      · rw [if_neg heq, if_neg (Ne.symm heq)]
        exact hbalanced
  · by_cases hp : i = parent
    · subst hp
      rw [link, set_self] at hf
      obtain ⟨g, hg, rfl⟩ := Option.map_eq_some_iff.mp hf
      have hold := names_of hg fun l hl => by rw [hcontent] at hl; cases hl
      rw [names_withNames hparent] at hold
      cases hold
    · rw [link, set_ne hp] at hf
      have hold := of_withNames hf hcontent
      rcases of_set hold with ⟨-, hnew⟩ | hwas
      · cases hnew
        cases hcontent
      · exact h.device i f n hwas hcontent
  · rw [names_link] at hl
    refine distinct_withNames (fun j m hm => ?_) hparent ((h.distinct _ _ leads.names).enter absent) i l hl
    by_cases heq : j = ino
    · rw [heq, Files.names, set_self] at hm
      obtain rfl := Option.some.inj hm
      exact Names.distinct_dots
    · exact h.distinct j m ((names_set_ne heq).symm.trans hm)

/-- One entry less, of a file that is no directory. -/
theorem Sound.leave {f : File} {old : List Byte} {g : Option File} (h : F.Sound inos) (hnodup : inos.Nodup)
    (leads : F.Leads path parent name names) (present : names.find name = some ino) (hf : F ino = some f)
    (hcontent : f.content = .data old)
    (hg : match g with
      | some g => g.nlink = f.nlink - 1 ∧ g.content = .data old
      | none => f.nlink ≤ 1) : ((F.withNames parent (names.erase name)).set ino g).Sound inos := by
  have hne0 : ino ≠ 0 := (Names.mem_of_find present).2
  have hnone : F.names ino = none := names_of hf fun l hl => by rw [hcontent] at hl; cases hl
  have hparent : ino ≠ parent := leads.names_ne hnone
  have hbefore : (F.withNames parent (names.erase name)).names ino = none := (names_set_ne hparent).trans hnone
  have hafter : ((F.withNames parent (names.erase name)).set ino g).names ino = none := by
    cases g with
    | none => exact names_none (set_self ..)
    | some g => exact names_of (set_self ..) fun l hl => by rw [hg.2] at hl; cases hl
  have hused := h.refs_used hf hne0
  have hrefs := refs_erase (k := ino) hnodup (h.mem leads.names) leads.names present hne0
  rw [if_pos rfl] at hrefs
  have hnlink : ∀ i, ((F.withNames parent (names.erase name)).set ino g).nlink i =
      if i = ino then g.map (·.nlink) else F.nlink i := fun i => by
    rw [nlink_set, nlink_withNames]
  refine ⟨fun i hi => ?_, fun i hi => ?_, fun i x n hx hnode => ?_, fun i l hl => ?_⟩
  · rw [hnlink] at hi
    split_ifs at hi with heq
    · refine h.inside i ?_
      rw [heq, nlink, hf]
      exact nofun
    · exact h.inside i hi
  · rw [Balanced, hnlink, refs_set hbefore hafter]
    by_cases heq : i = ino
    · subst heq
      rw [if_pos rfl]
      cases g with
      | none =>
          -- the root has one more than its entries, so this is not the root
          dsimp only at hg
          split_ifs at hused
          · omega
          · show refs _ inos i = 0
            omega
      | some g =>
          obtain ⟨hless, -⟩ := hg
          show g.nlink = _
          omega
    · have hsame := refs_erase (k := i) hnodup (h.mem leads.names) leads.names present hi
      rw [if_neg (Ne.symm heq), Nat.add_zero] at hsame
      rw [if_neg heq, hsame]
      exact h.balanced i hi
  · rcases of_set hx with ⟨-, rfl⟩ | hwas
    · have hdata : x.content = .data old := hg.2
      rw [hnode] at hdata
      cases hdata
    · exact h.device i x n (of_withNames hwas hnode) hnode
  · by_cases heq : i = ino
    · rw [heq, hafter] at hl
      cases hl
    · exact distinct_withNames h.distinct leads.names ((h.distinct _ _ leads.names).erase present).1 i l
        ((names_set_ne heq).symm.trans hl)

/-- **One call keeps** the links right. -/
theorem Step.sound (step : F.Step inos call F') (h : F.Sound inos) (hnodup : inos.Nodup) : F'.Sound inos := by
  cases step with
  | replace found file regular content =>
      exact h.set file rfl (names_of file fun l hl => by rw [content] at hl; cases hl) nofun nofun
  | create leads absent unused =>
      refine h.enter hnodup leads absent unused (fun i => ?_) (fun i => ?_) fun i f n hf hcontent => ?_
      · rw [nlink_withNames, nlink_set]
        rfl
      · exact names_withNames_set (names_none unused.free)
          (names_of (set_self ..) fun l hl => by cases hl) leads.names _ i
      · have hold := of_withNames hf hcontent
        rcases of_set hold with ⟨-, hnew⟩ | hwas
        · cases hnew
          cases hcontent
        · exact h.device i f n hwas hcontent
  | mkdir leads absent unused => exact h.mkdir hnodup leads absent unused
  | renew found file content =>
      have hlinks := h.device _ _ _ file content
      have hnone := names_of file fun l hl => by rw [content] at hl; cases hl
      exact h.set file hlinks.symm hnone nofun fun _ _ => rfl
  | @mknod path mode major minor uid gid ino parent name names leads absent unused =>
      refine h.enter hnodup leads absent unused (fun i => ?_) (fun i => ?_) fun i f n hf hcontent => ?_
      · rw [nlink_set, nlink_withNames]
        rfl
      · have hnone := names_none unused.free
        by_cases heq : i = ino
        · rw [heq, names_of (set_self ..) fun l hl => by cases hl]
          exact ((names_set_ne (leads.names_ne hnone)).trans hnone).symm
        · exact names_set_ne heq
      · rcases of_set hf with ⟨-, hnew⟩ | hwas
        · cases hnew
          rfl
        · exact h.device i f n (of_withNames hwas hcontent) hcontent
  | remove leads present file content last => exact h.leave (g := none) hnodup leads present file content last
  | unlink leads present file content more => exact h.leave hnodup leads present file content ⟨rfl, content⟩

/-- **Every run keeps** the links right. -/
theorem Run.sound {calls : List Call} (run : F.Run inos calls F') (h : F.Sound inos) (hnodup : inos.Nodup) :
    F'.Sound inos := by
  induction run with
  | nil => exact h
  | cons step rest ih => exact ih (step.sound h hnodup)

/-- A path that ends in a directory leads through directories. -/
theorem straight_append {dir : List Text} (h : F.walk dir i = some parent) (hp : F.names parent = some l) :
    F.Straight (dir ++ [name]) i := by
  induction dir generalizing i with
  | nil =>
      obtain rfl := Option.some.inj h
      exact ⟨l, hp, fun _ _ => trivial⟩
  | cons p ps ih =>
      rw [walk] at h
      obtain ⟨m, hm, hrest⟩ := Option.bind_eq_some_iff.mp h
      obtain ⟨k, hk, hwalk⟩ := Option.bind_eq_some_iff.mp hrest
      exact ⟨m, hm, fun k' hk' => Option.some.inj (hk.symm.trans hk') ▸ ih hwalk⟩

/-- **What is removed is gone**: no other entry of the directory has the name. -/
theorem Step.rm_none (step : F.Step inos (.rm path) F') (h : F.Sound inos) :
    F'.Straight (parts path) ROOTINO ∧ F'.walk (parts path) ROOTINO = none := by
  have hspares := step.spares
  obtain ⟨parent, name, names, ino, leads, present, hnone, hafter⟩ : ∃ parent name names ino,
      F.Leads path parent name names ∧ names.find name = some ino ∧ F.names ino = none ∧
        F'.names parent = some (names.erase name) := by
    cases step with
    | remove leads present file content last =>
        have hnone := names_of file fun l hl => by rw [content] at hl; cases hl
        exact ⟨_, _, _, _, leads, present, hnone,
          (names_set_ne (leads.names_ne hnone).symm).trans (names_withNames leads.names _)⟩
    | unlink leads present file content more =>
        have hnone := names_of file fun l hl => by rw [content] at hl; cases hl
        exact ⟨_, _, _, _, leads, present, hnone,
          (names_set_ne (leads.names_ne hnone).symm).trans (names_withNames leads.names _)⟩
  obtain ⟨dir, hparts, hdir⟩ := leads.parts
  have hkept : F.gone (.rm path) ≠ some parent := by
    rw [gone, leads.walk, present]
    exact fun heq => leads.names_ne hnone (Option.some.inj heq)
  have hdir' := hspares.walk hkept hdir
  rw [hparts]
  refine ⟨straight_append hdir' hafter, ?_⟩
  rw [walk_append, hdir', Option.bind_some, walk, hafter, Option.bind_some,
    ((h.distinct _ _ leads.names).erase present).2]
  rfl

/-- **A new file system** has its links right. -/
theorem fresh_sound (hone : 1 ∈ inos) (hroot : ROOTINO ∈ inos) (hnodup : inos.Nodup) : fresh.Sound inos := by
  have hn : ∀ i, fresh.nlink i = if i = 1 then some 0 else if i = ROOTINO then some 3 else none := fun i => by
    rw [nlink, fresh]
    split_ifs <;> rfl
  have hroots : fresh.names ROOTINO = some [(ROOTINO, [0x2E]), (ROOTINO, [0x2E, 0x2E])] := rfl
  have hothers : ∀ i l, fresh.names i = some l → i = ROOTINO ∧
      l = [(ROOTINO, [0x2E]), (ROOTINO, [0x2E, 0x2E])] := by
    intro i l hl
    obtain ⟨f, hf, hcontent⟩ := names_eq hl
    rw [fresh] at hf
    split_ifs at hf with h₁ h₂
    · cases hf
      cases hcontent
    · cases hf
      cases hcontent
      exact ⟨h₂, rfl⟩
  have hrefs : ∀ k, fresh.refs inos k =
      [(ROOTINO, [0x2E]), (ROOTINO, [0x2E, 0x2E])].countP (Names.refersTo k) := by
    intro k
    have hupdate := @refs_update (fun _ => none) fresh inos ROOTINO hnodup hroot (fun i hi => ?_) k
    · rw [entriesOf_eq hroots] at hupdate
      have hempty : refs (fun _ => none) inos k = 0 := by
        simp [refs, entriesOf, names]
      rw [hempty, Nat.zero_add] at hupdate
      simpa [entriesOf, names] using hupdate
    · cases hi' : fresh.names i with
      | none => rfl
      | some l => exact absurd (hothers i l hi').1 hi
  refine ⟨fun i hi => ?_, fun i hi => ?_, fun i f n hf hcontent => ?_, fun i l hl => ?_⟩
  · rw [hn] at hi
    split_ifs at hi with h₁ h₂
    · exact h₁ ▸ hone
    · exact h₂ ▸ hroot
    · exact absurd rfl hi
  · rw [Balanced, hn, hrefs]
    by_cases h₁ : i = 1
    · subst h₁
      rfl
    · by_cases h₂ : i = ROOTINO
      · subst h₂
        rfl
      · rw [if_neg h₁, if_neg h₂]
        simp [Names.refersTo, Ne.symm h₂]
  · rw [fresh] at hf
    split_ifs at hf
    · cases hf
      cases hcontent
    · cases hf
      cases hcontent
  · obtain ⟨-, rfl⟩ := hothers i l hl
    exact Names.distinct_dots

end Files

/-! ### Removed files -/

variable {F : Files} {isize fsize : Nat} {file : List Byte} {path : Text}

theorem nodup_inosOf (isize : Nat) : (inosOf isize).Nodup := List.nodup_range'

theorem fresh_sound_inosOf (h : 3 ≤ isize) : Files.fresh.Sound (inosOf isize) := by
  have hmem : ∀ i, 1 ≤ i → i ≤ 2 → i ∈ inosOf isize := fun i hlow hhigh => by
    rw [inosOf, List.mem_range'_1, show BSIZE / INOSZ = 8 from rfl]
    omega
  have hone := hmem 1 (by decide) (by decide)
  have hroot := hmem ROOTINO (by decide) (by decide)
  exact Files.fresh_sound hone hroot (nodup_inosOf isize)

end Sbc386Ex.Cohfs

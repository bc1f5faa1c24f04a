import Sbc386Ex.Cohfs.Ends
import Sbc386Ex.Cohfs.Reader
import Sbc386Ex.Cohfs.Refusals

/-!
# Sbc386Ex.Cohfs.Paths

What calls do to paths. A path that leads to a file goes on leading to it, and the file is as it was,
unless the call's own path leads to that file too; and what is put under a path is read there.
-/

namespace Sbc386Ex.Cohfs

open Raising

namespace Files

variable {F F' : Files} {inos : List Nat} {call : Call} {path name : Text}
  {ino i j parent : Nat} {names l : Names}

/-- A path that leads somewhere leads there through directories. -/
theorem straight_of_walk_some {ps : List Text} : ∀ {i : Nat}, F.walk ps i = some j → F.Straight ps i := by
  induction ps with
  | nil => exact fun _ => trivial
  | cons p ps ih =>
      intro i h
      rw [walk] at h
      obtain ⟨l, hl, hrest⟩ := Option.bind_eq_some_iff.mp h
      obtain ⟨k, hk, hwalk⟩ := Option.bind_eq_some_iff.mp hrest
      exact ⟨l, hl, fun k' hk' => Option.some.inj (hk.symm.trans hk') ▸ ih hwalk⟩

/-- Every name of a directory is one still, but for those of the file `gone`, which is no directory. -/
structure Spares (F F' : Files) (gone : Option Nat) : Prop where
  names : ∀ i l, F.names i = some l → ∃ l', F'.names i = some l' ∧
    ∀ q k, l.find q = some k → gone ≠ some k → l'.find q = some k
  leaf : ∀ k, gone = some k → F.names k = none

/-- **Paths are kept.** -/
theorem Spares.walk {gone : Option Nat} (h : F.Spares F' gone) (hj : gone ≠ some j) {ps : List Text} :
    ∀ {i : Nat}, F.walk ps i = some j → F'.walk ps i = some j := by
  induction ps with
  | nil => exact id
  | cons p ps ih =>
      intro i hwalk
      rw [Files.walk] at hwalk
      obtain ⟨l, hl, hrest⟩ := Option.bind_eq_some_iff.mp hwalk
      obtain ⟨k, hk, hwalk'⟩ := Option.bind_eq_some_iff.mp hrest
      obtain ⟨l', hl', hfind⟩ := h.names i l hl
      have hkept : gone ≠ some k := fun hgone => by
        -- what is gone is where the path ends
        cases ps with
        | nil => exact hj (hgone.trans (congrArg some (Option.some.inj hwalk')))
        | cons q qs =>
            rw [Files.walk, h.leaf k hgone] at hwalk'
            cases hwalk'
      rw [Files.walk, hl', Option.bind_some, hfind p k hk hkept, Option.bind_some]
      exact ih hwalk'

theorem names_set_ne {f : Option File} (h : i ≠ ino) : (F.set ino f).names i = F.names i := names_congr (set_ne h)

theorem names_none (h : F ino = none) : F.names ino = none := by
  rw [names, h]

theorem names_of {f : File} (h : F ino = some f) (hcontent : ∀ l, f.content ≠ .names l) : F.names ino = none := by
  cases hnames : F.names ino with
  | none => rfl
  | some l =>
      obtain ⟨g, hg, hgcontent⟩ := names_eq hnames
      obtain rfl : g = f := Option.some.inj (hg.symm.trans h)
      exact absurd hgcontent (hcontent l)

theorem names_withNames (h : F.names ino = some l) (l' : Names) : (F.withNames ino l').names ino = some l' := by
  obtain ⟨f, hf, -⟩ := names_eq h
  rw [names, withNames, set_self, hf]
  rfl

theorem Spares.trans {F'' : Files} {gone : Option Nat} (h : F.Spares F' gone) (h' : F'.Spares F'' none) :
    F.Spares F'' gone where
  names i l hl := by
    obtain ⟨l', hl', hfind⟩ := h.names i l hl
    obtain ⟨l'', hl'', hfind'⟩ := h'.names i l' hl'
    exact ⟨l'', hl'', fun q k hk hkept => hfind' q k (hfind q k hk hkept) nofun⟩
  leaf := h.leaf

/-- A file that is no directory becomes another. -/
theorem spares_set (h : F.names ino = none) (f : Option File) : F.Spares (F.set ino f) none where
  names i l hl := by
    have hne : i ≠ ino := fun heq => by
      rw [heq, h] at hl
      cases hl
    exact ⟨l, (names_set_ne hne).trans hl, fun _ _ hk _ => hk⟩
  leaf := nofun

/-- The names of a directory become others. -/
theorem spares_withNames {l' : Names} {gone : Option Nat} (h : F.names parent = some l)
    (hfind : ∀ q k, l.find q = some k → gone ≠ some k → l'.find q = some k)
    (hleaf : ∀ k, gone = some k → F.names k = none) : F.Spares (F.withNames parent l') gone where
  names i m hm := by
    by_cases hi : i = parent
    · subst hi
      obtain rfl : l = m := Option.some.inj (h.symm.trans hm)
      exact ⟨l', names_withNames h l', hfind⟩
    · exact ⟨m, (names_set_ne hi).trans hm, fun _ _ hk _ => hk⟩
  leaf := hleaf

/-- A name is entered that was not there. -/
theorem spares_enter (h : F.names parent = some l) (habsent : l.find name = none) (ino : Nat) :
    F.Spares (F.withNames parent (l.enter ino name)) none :=
  spares_withNames h (fun q k hk _ => by
    rw [Names.find_enter_ne fun heq => ?_, hk]
    rw [heq, habsent] at hk
    cases hk) nofun

theorem names_link (F : Files) (parent i : Nat) : (F.link parent).names i = F.names i := by
  by_cases hi : i = parent
  · subst hi
    rw [names, names, link, set_self]
    cases hf : F i with
    | none => rfl
    | some f =>
        obtain ⟨mode, nlink, uid, gid, content⟩ := f
        cases content <;> rfl
  · exact names_set_ne hi

theorem spares_link (F : Files) (parent : Nat) : F.Spares (F.link parent) none where
  names i l hl := ⟨l, (names_link F parent i).trans hl, fun _ _ hk _ => hk⟩
  leaf := nofun

/-- A name is erased, of a file that is no directory. -/
theorem spares_erase (h : F.names parent = some l) (hpresent : l.find name = some ino)
    (hleaf : F.names ino = none) :
    F.Spares (F.withNames parent (l.erase name)) (some ino) :=
  spares_withNames h (fun q k hk hkept => by
    rw [Names.find_erase_ne fun heq => ?_, hk]
    rw [heq, hpresent] at hk
    exact hkept hk) fun k hk => Option.some.inj hk ▸ hleaf

/-- The file whose name a call takes away. -/
def gone (F : Files) : Call → Option Nat
  | .rm path => F.walk (parts path) ROOTINO
  | _ => none

theorem Leads.names_ne (h : F.Leads path parent name names) (hi : F.names i = none) : i ≠ parent := fun heq => by
  rw [heq, h.names] at hi
  cases hi

/-- **One call keeps** every path, but for those to a file that it removes. -/
theorem Step.spares (h : F.Step inos call F') : F.Spares F' (F.gone call) := by
  cases h with
  | replace found file regular content =>
      exact spares_set (names_of file fun l hl => by rw [content] at hl; cases hl) _
  | create leads absent unused =>
      have hnames := names_none unused.free
      refine (spares_set hnames _).trans (spares_enter ?_ absent _)
      exact (names_set_ne (leads.names_ne hnames).symm).trans leads.names
  | mkdir leads absent unused =>
      have hnames := names_none unused.free
      refine ((spares_set hnames _).trans (spares_enter ?_ absent _)).trans (spares_link _ _)
      exact (names_set_ne (leads.names_ne hnames).symm).trans leads.names
  | renew found file content =>
      exact spares_set (names_of file fun l hl => by rw [content] at hl; cases hl) _
  | mknod leads absent unused =>
      have hnames := names_none unused.free
      refine (spares_enter leads.names absent _).trans (spares_set ?_ _)
      exact (names_set_ne (leads.names_ne hnames)).trans hnames
  | remove leads present file content last =>
      have hnames := names_of file fun l hl => by rw [content] at hl; cases hl
      rw [gone, leads.walk, present]
      refine (spares_erase leads.names present hnames).trans (spares_set ?_ _)
      exact (names_set_ne (leads.names_ne hnames)).trans hnames
  | unlink leads present file content more =>
      have hnames := names_of file fun l hl => by rw [content] at hl; cases hl
      rw [gone, leads.walk, present]
      refine (spares_erase leads.names present hnames).trans (spares_set ?_ _)
      exact (names_set_ne (leads.names_ne hnames)).trans hnames

theorem gone_ne (h : F.walk (parts call.path) ROOTINO ≠ some j) : F.gone call ≠ some j := by
  cases call with
  | rm path => exact h
  | _ => exact nofun

/-- **And every file** that is no directory, but for the one that its path leads to. -/
theorem Step.file {f : File} (h : F.Step inos call F') (hf : F j = some f) (hcontent : ∀ l, f.content ≠ .names l)
    (hne : F.walk (parts call.path) ROOTINO ≠ some j) : F' j = some f := by
  have hj := names_of hf hcontent
  have hused : ∀ {i}, F i = none → j ≠ i := fun hi heq => by
    rw [← heq, hf] at hi
    cases hi
  cases h with
  | replace found => exact (set_ne fun heq => hne (found.trans (congrArg some heq.symm))).trans hf
  | renew found => exact (set_ne fun heq => hne (found.trans (congrArg some heq.symm))).trans hf
  | create leads absent unused =>
      exact (set_ne (leads.names_ne hj)).trans ((set_ne (hused unused.free)).trans hf)
  | mkdir leads absent unused =>
      exact (set_ne (leads.names_ne hj)).trans
        ((set_ne (leads.names_ne hj)).trans ((set_ne (hused unused.free)).trans hf))
  | mknod leads absent unused =>
      exact (set_ne (hused unused.free)).trans ((set_ne (leads.names_ne hj)).trans hf)
  | remove leads present =>
      refine (set_ne fun heq => hne ?_).trans ((set_ne (leads.names_ne hj)).trans hf)
      exact leads.walk.trans (present.trans (congrArg some heq.symm))
  | unlink leads present =>
      refine (set_ne fun heq => hne ?_).trans ((set_ne (leads.names_ne hj)).trans hf)
      exact leads.walk.trans (present.trans (congrArg some heq.symm))

/-- **What is put is there.** -/
theorem Step.put_found {data : List Byte} {mode uid gid : Int}
    (h : F.Step inos (.put path data mode uid gid) F') :
    ∃ ino f, F'.walk (parts path) ROOTINO = some ino ∧ F' ino = some f ∧ f.content = .data data := by
  have hspares := h.spares
  cases h with
  | replace found => exact ⟨_, _, hspares.walk nofun found, set_self .., rfl⟩
  | @create _ _ _ _ _ ino parent name names leads absent unused =>
      obtain ⟨dir, hparts, hdir⟩ := leads.parts
      have hnames := names_none unused.free
      have hne := leads.names_ne hnames
      have hfind : (names.enter ino name).find name = some ino := Names.find_enter_self absent (by
        have hroot := unused.above
        omega)
      refine ⟨ino, _, ?_, (set_ne hne).trans (set_self ..), rfl⟩
      rw [hparts, walk_append, hspares.walk nofun hdir, Option.bind_some, walk,
        names_withNames ((names_set_ne hne.symm).trans leads.names), Option.bind_some, hfind]
      rfl

end Files

/-! ### Sessions -/

variable {F F' : Files} {isize fsize : Nat} {file file' : List Byte} {clock : Nat → Int} {path : Text}

/-- A run is one of its calls after the others. -/
theorem Files.Run.append {inos : List Nat} {calls calls' : List Call} :
    ∀ {F F' : Files}, F.Run inos (calls ++ calls') F' →
    ∃ F₁, F.Run inos calls F₁ ∧ F₁.Run inos calls' F' := by
  induction calls with
  | nil => exact fun {F F'} h => ⟨F, .nil, h⟩
  | cons call calls ih =>
      intro F F' h
      cases h with
      | cons step rest =>
          obtain ⟨F₁, hfirst, hlast⟩ := ih rest
          exact ⟨F₁, .cons step hfirst, hlast⟩

theorem Files.Run.one {inos : List Nat} {call : Call} (h : F.Run inos [call] F') : F.Step inos call F' := by
  cases h with
  | cons step rest =>
      cases rest
      exact step

/-- What a path reads as. -/
def readAs (file : List Byte) (path : Text) (data : List Byte) : Prop :=
  ∃ fs, Fs.load 0 file = .ok fs ∧ fs.img.cat path = .ok data

theorem Kept.readAs {ino : Nat} {f : File} {data : List Byte} (h : Kept isize fsize F file)
    (hwalk : F.walk (parts path) ROOTINO = some ino) (hf : F ino = some f) (hcontent : f.content = .data data) :
    readAs file path data := by
  obtain ⟨fs, hload, -, hread⟩ := cat_kept h.dropped (Files.straight_of_walk_some hwalk)
  have hcat := hread ino f hwalk hf
  rw [hcontent] at hcat
  exact ⟨fs, hload, hcat⟩

/-! ### Letters -/

/-- What `put` of a new file in the root makes. -/
theorem Files.Step.put_root {inos : List Nat} {names : Names} {name : Text} {data : List Byte}
    {mode uid gid : Int}
    (h : F.Step inos (.put path data mode uid gid) F') (hparts : parts path = [name])
    (hroot : F.names ROOTINO = some names) (habsent : names.find name = none) : ∃ ino, F.Unused inos ino ∧
      F' = (F.set ino (some (regular mode uid gid data))).withNames ROOTINO (names.enter ino name) := by
  cases h with
  | replace found =>
      rw [hparts, walk, hroot, Option.bind_some, habsent] at found
      cases found
  | @create _ _ _ _ _ ino parent name' names' leads absent unused =>
      obtain ⟨dir, hdir, hwalk⟩ := leads.parts
      rw [hparts] at hdir
      -- there is no directory before the name
      obtain ⟨rfl, hname⟩ := List.append_inj' (show [] ++ [name] = dir ++ [name'] from hdir) rfl
      obtain rfl := List.singleton_inj.mp hname
      obtain rfl : ROOTINO = parent := Option.some.inj hwalk
      obtain rfl := Option.some.inj (hroot.symm.trans leads.names)
      exact ⟨ino, unused, rfl⟩

theorem Files.put_safe {inos : List Nat} {size : Nat} {names : Names} {name : Text} {data : List Byte}
    (hparts : parts path = [name]) (hplain : Plain name) (hroot : F.names ROOTINO = some names)
    (hused : F.used inos + blocksFor data.length < size) : F.Safe inos size [.put path data 0o644 0 0] := by
  refine ⟨⟨?_, fun name' hname' => ?_, by decide, by decide⟩, ?_, fun _ _ => trivial⟩
  · rw [hparts]
    exact ⟨names, hroot, fun _ _ => trivial⟩
  · rw [hparts] at hname'
    exact Option.some.inj hname' ▸ hplain
  · rw [room]
    split_ifs
    · exact hused
    · omega

def pathA : Text := [SLASH, 0x61]

def pathB : Text := [SLASH, 0x62]

theorem plain_letters : Plain [0x61] ∧ Plain [0x62] := by simp [Plain]

/-- The small file system with a letter in it. -/
def letterFile : List Byte := (session (fun _ => 0) 0 [.put pathA [0x41] 0o644 0 0] smallFile).2

/-- Its files. -/
def Files.letter (i : Nat) : Files :=
  (fresh.set i (some (regular 0o644 0 0 [0x41]))).withNames ROOTINO
    [(ROOTINO, [0x2E]), (ROOTINO, [0x2E, 0x2E]), (i, [0x61])]

theorem Files.letter_facts : ∀ i < 9, 2 < i → (letter i).used (inosOf 3) = 2 ∧
    (letter i).walk (parts pathA) ROOTINO = some i ∧ (letter i).walk (parts pathB) ROOTINO = none ∧
      letter i i = some (regular 0o644 0 0 [0x41]) := by
  decide

theorem Files.letter_root {i : Nat} (h : 2 < i) :
    (letter i).names ROOTINO = some [(ROOTINO, [0x2E]), (ROOTINO, [0x2E, 0x2E]), (i, [0x61])] :=
  names_withNames ((names_set_ne h.ne).trans rfl) _

theorem small_safe {path name : Text} (hparts : parts path = [name]) (hplain : Plain name) (b : Byte) :
    Files.fresh.Safe (inosOf 3) (7 - 3) [.put path [b] 0o644 0 0] :=
  Files.put_safe hparts hplain rfl (by decide : Files.fresh.used (inosOf 3) + blocksFor 1 < 7 - 3)

theorem small_ends :
    (session (fun _ => 0) 0 [.put pathA [0x41] 0o644 0 0] smallFile).1 = .ok () := by
  obtain ⟨first, hloaded⟩ := small_loaded
  have hkept := small_kept
  generalize smallFile = file at hloaded hkept ⊢
  obtain ⟨-, -, own, l, hkeeps⟩ := id hkept
  have hload := load_eq (fun _ => 0) (Image.length_block hkeeps.holds_super)
  rw [hloaded] at hload
  have hleads : Files.fresh.Leads pathA ROOTINO [0x61] [(ROOTINO, [0x2E]), (ROOTINO, [0x2E, 0x2E])] :=
    ⟨⟨[], rfl, rfl⟩, rfl⟩
  have hspare : Image.InTable 3 3 ∧ ROOTINO < 3 ∧ Files.fresh 3 = none :=
    ⟨⟨by decide, by decide⟩, by decide, rfl⟩
  exact session_put_ends hkept hload hleads (by decide) (small_safe rfl plain_letters.1 0x41).1.1
    ⟨by decide, by decide⟩ plain_letters.1 ⟨by decide, by decide, by decide, by decide⟩ (by decide)
    (by decide : Files.fresh.used (inosOf 3) + blocksFor 1 < 7 - 3)
    (by decide : (0 : Int) ≤ (newCache 8).length ∧ ((newCache 8).length : Int) ≤ NICINOD)
    (by decide : (0 : Int) < (8 : Nat) - 2 ∧ ((8 : Nat) : Int) - 2 < 65536) (by decide) hspare

theorem small_letter {F' : Files} (h : Files.fresh.Run (inosOf 3) [.put pathA [0x41] 0o644 0 0] F') :
    ∃ i < 9, 2 < i ∧ F' = Files.letter i := by
  obtain ⟨i, unused, rfl⟩ := h.one.put_root rfl rfl rfl
  have hmem := List.mem_range'_1.mp unused.mem
  rw [show (3 - 2) * (BSIZE / INOSZ) = 8 from rfl] at hmem
  exact ⟨i, hmem.2, unused.above, rfl⟩

/-- The image file that a session leaves. -/
def leaves (calls : List Call) (file : List Byte) : List Byte := (session (fun _ => 0) 0 calls file).2

theorem leaves_kept {calls : List Call} (h : Kept isize fsize F file)
    (hsafe : F.Safe (inosOf isize) (fsize - isize) calls)
    (hends : (session (fun _ => 0) 0 calls file).1 = .ok ()) : ∃ F', F.Run (inosOf isize) calls F' ∧
    Kept isize fsize F' (leaves calls file) :=
  session_run h hsafe (Prod.fst_eq_iff.mp hends)

theorem letterFile_eq : letterFile = leaves [.put pathA [0x41] 0o644 0 0] smallFile := rfl

theorem letter_kept : ∃ i < 9, 2 < i ∧ Files.fresh.Run (inosOf 3) [.put pathA [0x41] 0o644 0 0] (Files.letter i) ∧
    Kept 3 7 (Files.letter i) letterFile := by
  obtain ⟨F', hrun, hkept⟩ := leaves_kept small_kept (small_safe rfl plain_letters.1 0x41) small_ends
  rw [← letterFile_eq] at hkept
  obtain ⟨i, hi, hlow, rfl⟩ := small_letter hrun
  exact ⟨i, hi, hlow, hrun, hkept⟩

/-! ### What is read -/

/-- A session ends in one of two ways. -/
theorem session_ends (clock : Nat → Int) (calls : List Call) (file : List Byte) :
    (∃ e, session clock 0 calls file = (.error e, file)) ∨
      ∃ file', session clock 0 calls file = (.ok (), file') := by
  have hraised : ∀ e, (session clock 0 calls file).1 = .error e → (session clock 0 calls file).2 = file :=
    fun _ => session_raised
  generalize session clock 0 calls file = result at hraised ⊢
  obtain ⟨r, file'⟩ := result
  cases r with
  | ok u => exact .inr ⟨file', rfl⟩
  | error e =>
      obtain rfl : file' = file := hraised e rfl
      exact .inl ⟨e, rfl⟩

/-- No call's path leads where the path does. -/
def Files.Clear (inos : List Nat) (path : Text) : Files → List Call → Prop
  | _, [] => True
  | F, call :: calls => F.walk (parts call.path) ROOTINO ≠ F.walk (parts path) ROOTINO ∧
      ∀ F', F.Step inos call F' → F'.Clear inos path calls

/-- **Every run keeps** the files that none of its calls is for. -/
theorem Files.Run.keeps_file {inos : List Nat} {calls : List Call} {ino : Nat} {f : File}
    (h : F.Run inos calls F')
    (hclear : F.Clear inos path calls) (hwalk : F.walk (parts path) ROOTINO = some ino) (hf : F ino = some f)
    (hcontent : ∀ l, f.content ≠ .names l) : F'.walk (parts path) ROOTINO = some ino ∧ F' ino = some f := by
  induction h with
  | nil => exact ⟨hwalk, hf⟩
  | cons step rest ih =>
      obtain ⟨hne, hrest⟩ := hclear
      rw [hwalk] at hne
      exact ih (hrest _ step) (step.spares.walk (gone_ne hne) hwalk) (step.file hf hcontent hne)

end Sbc386Ex.Cohfs

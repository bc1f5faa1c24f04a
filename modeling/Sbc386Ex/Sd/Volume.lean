import Mathlib.Tactic.IntervalCases
import Sbc386Ex.Sd.CardDetect

/-!
# Sbc386Ex.Sd.Volume

Which sectors of a card `SD.SYS` takes for its volume, for every content of the card.

`findvol` reads sector 0 and looks through its partition table before it asks whether the
sector is a boot sector, and the volume it publishes begins where the table says and is as long
as the BPB says; `FindsVol` is all the ways a search can go. `Conforms` is what is expected of
it, `Plain` which cards it is right about.
-/

namespace Sbc386Ex.Sd.SdSys

open Prog

/-! ### The partition table -/

def partType (table : Block) (i : Nat) : Byte := table (0x1BE + 16 * i + 4)
def partStart (table : Block) (i : Nat) : DWord := dwordAt table (0x1BE + 16 * i + 8)
def partSize (table : Block) (i : Nat) : DWord := dwordAt table (0x1BE + 16 * i + 12)

/-- FAT12 and FAT16. -/
def IsFat (al : Byte) : Prop := al ∈ [0x01, 0x04, 0x06, 0x0E]

instance (al : Byte) : Decidable (IsFat al) := inferInstanceAs (Decidable (_ ∈ _))

/-- The first entry of a FAT type. -/
structure FirstFat (table : Block) (i : Nat) : Prop where
  lt : i < 4
  fat : IsFat (partType table i)
  first : ∀ j < i, ¬ IsFat (partType table j)

/-- The last two bytes of a sector that is an MBR or a boot sector. -/
def Marked (b : Block) : Prop := wordAt b 510 = 0xAA55

instance (b : Block) : Decidable (Marked b) := inferInstanceAs (Decidable (_ = _))

/-- An entry on its turn. -/
theorem findSome_part {table : Block} {p : DWord} (i : Nat) (l : List Nat) :
    (i :: l).findSome? (fun i => if IsFat (partType table i) then some (partStart table i) else none) =
        some p ↔
      IsFat (partType table i) ∧ partStart table i = p ∨ ¬ IsFat (partType table i) ∧
        l.findSome? (fun i => if IsFat (partType table i) then some (partStart table i) else none) =
          some p := by
  rw [List.findSome?_cons]
  by_cases h : IsFat (partType table i) <;> simp [h]

theorem fatPartition_eq_some {table : Block} {p : DWord} :
    fatPartition table = some p ↔ ∃ i, FirstFat table i ∧ partStart table i = p := by
  have hsearch : fatPartition table = [0, 1, 2, 3].findSome? fun i =>
      if IsFat (partType table i) then some (partStart table i) else none := rfl
  have hnone : ([] : List Nat).findSome? (fun i =>
      if IsFat (partType table i) then some (partStart table i) else none) ≠ some p := nofun
  rw [hsearch]
  simp only [findSome_part, hnone, and_false, or_false]
  constructor
  · rintro (⟨h, hp⟩ | ⟨h₀, ⟨h, hp⟩ | ⟨h₁, ⟨h, hp⟩ | ⟨h₂, h, hp⟩⟩⟩)
    · exact ⟨0, ⟨by decide, h, fun j hj => absurd hj (Nat.not_lt_zero j)⟩, hp⟩
    · refine ⟨1, ⟨by decide, h, fun j hj => ?_⟩, hp⟩
      interval_cases j
      exact h₀
    · refine ⟨2, ⟨by decide, h, fun j hj => ?_⟩, hp⟩
      interval_cases j
      · exact h₀
      · exact h₁
    · refine ⟨3, ⟨by decide, h, fun j hj => ?_⟩, hp⟩
      interval_cases j
      · exact h₀
      · exact h₁
      · exact h₂
  · rintro ⟨i, ⟨hlt, h, hfirst⟩, hp⟩
    interval_cases i
    · exact .inl ⟨h, hp⟩
    · exact .inr ⟨hfirst 0 (by decide), .inl ⟨h, hp⟩⟩
    · exact .inr ⟨hfirst 0 (by decide), .inr ⟨hfirst 1 (by decide), .inl ⟨h, hp⟩⟩⟩
    · exact .inr ⟨hfirst 0 (by decide), .inr ⟨hfirst 1 (by decide),
        .inr ⟨hfirst 2 (by decide), h, hp⟩⟩⟩

theorem FirstFat.fatPartition {table : Block} {i : Nat} (h : FirstFat table i) :
    fatPartition table = some (partStart table i) :=
  fatPartition_eq_some.mpr ⟨i, h, rfl⟩

/-! ### A search -/

section Searches

variable {s s' : Sys Drv}

/-- About to read the first sector of a volume at `p`. -/
def seek (s : Sys Drv) (f : Fail) (p : DWord) : Sys Drv :=
  { s with drv := { s.drv with fail := some f, poff := p, lba := 0 } }

def failing (s : Sys Drv) (f : Fail) : Sys Drv := { s with drv := { s.drv with fail := some f } }

/-- `.bs` -/
def taken (s : Sys Drv) : Sys Drv :=
  { s with drv := { s.drv with
    bpb := fun i => if i < BPBLEN then s.drv.secbuf (0x0B + i) else s.drv.bpb i
    vsize := totalSectors s.drv.secbuf } }

/-- The ways a search can go. -/
inductive FindsVol (s : Sys Drv) : Bool → Sys Drv → Prop
  | unread {t : Sys Drv} (read : Runs rdTry (seek s .noread 0) false t) : FindsVol s false t
  | unmarked {t : Sys Drv} (read : Runs rdTry (seek s .noread 0) true t)
      (mark : ¬ Marked t.drv.secbuf) : FindsVol s false (failing t .nomedia)
  | whole {t : Sys Drv} (read : Runs rdTry (seek s .noread 0) true t) (mark : Marked t.drv.secbuf)
      (none : fatPartition t.drv.secbuf = none) (boot : isboot t.drv.secbuf = true) :
      FindsVol s true (taken (failing t .nomedia))
  | noPart {t : Sys Drv} (read : Runs rdTry (seek s .noread 0) true t) (mark : Marked t.drv.secbuf)
      (none : fatPartition t.drv.secbuf = none) (boot : isboot t.drv.secbuf = false) :
      FindsVol s false (failing (failing t .nomedia) .nopart)
  | unreadBoot {t u : Sys Drv} {p : DWord} (read : Runs rdTry (seek s .noread 0) true t)
      (mark : Marked t.drv.secbuf) (first : fatPartition t.drv.secbuf = some p)
      (read' : Runs rdTry (seek t .nomedia p) false u) : FindsVol s false u
  | noBoot {t u : Sys Drv} {p : DWord} (read : Runs rdTry (seek s .noread 0) true t)
      (mark : Marked t.drv.secbuf) (first : fatPartition t.drv.secbuf = some p)
      (read' : Runs rdTry (seek t .nomedia p) true u)
      (not : ¬ (Marked u.drv.secbuf ∧ isboot u.drv.secbuf = true)) :
      FindsVol s false (failing u .noboot)
  | partition {t u : Sys Drv} {p : DWord} (read : Runs rdTry (seek s .noread 0) true t)
      (mark : Marked t.drv.secbuf) (first : fatPartition t.drv.secbuf = some p)
      (read' : Runs rdTry (seek t .nomedia p) true u) (mark' : Marked u.drv.secbuf)
      (boot : isboot u.drv.secbuf = true) : FindsVol s true (taken (failing u .noboot))

theorem runs_takeBpb {r : Bool} (h : Runs takeBpb s r s') : r = true ∧ s' = taken s := by
  obtain ⟨u, t, hset, hpure⟩ := runs_bind.mp h
  obtain rfl := runs_setDrv hset
  exact runs_pure.mp hpure

theorem findvol_finds {r : Bool} (h : Runs findvol s r s') : FindsVol s r s' := by
  obtain ⟨_, t, hfail, h⟩ := runs_bind.mp h
  obtain rfl := runs_setDrv hfail
  obtain ⟨_, t, hseek, h⟩ := runs_bind.mp h
  obtain rfl := runs_setDrv hseek
  obtain ⟨ok, t, hread, h⟩ := runs_bind.mp h
  cases ok with
  | false =>
      obtain ⟨rfl, rfl⟩ := runs_pure.mp h
      exact .unread hread
  | true =>
  obtain ⟨_, t₁, hfail, h⟩ := runs_bind.mp h
  obtain rfl := runs_setDrv hfail
  obtain ⟨d, t₁, hdrv, h⟩ := runs_bind.mp h
  obtain ⟨rfl, rfl⟩ := runs_getDrv hdrv
  rcases runs_ite.mp h with ⟨hmark, h⟩ | ⟨hmark, h⟩
  · obtain ⟨rfl, rfl⟩ := runs_pure.mp h
    exact .unmarked hread hmark
  have hmark : Marked t.drv.secbuf := not_not.mp hmark
  cases hfat : fatPartition t.drv.secbuf with
  | none =>
      simp only [hfat] at h
      rcases runs_ite.mp h with ⟨hboot, h⟩ | ⟨hboot, h⟩
      · obtain ⟨rfl, rfl⟩ := runs_takeBpb h
        exact .whole hread hmark hfat hboot
      · obtain ⟨_, t₂, hfail, h⟩ := runs_bind.mp h
        obtain rfl := runs_setDrv hfail
        obtain ⟨rfl, rfl⟩ := runs_pure.mp h
        exact .noPart hread hmark hfat (Bool.eq_false_of_not_eq_true hboot)
  | some p =>
      simp only [hfat] at h
      obtain ⟨_, t₂, hset, h⟩ := runs_bind.mp h
      obtain rfl := runs_setDrv hset
      obtain ⟨ok, u, hread', h⟩ := runs_bind.mp h
      cases ok with
      | false =>
          obtain ⟨rfl, rfl⟩ := runs_pure.mp h
          exact .unreadBoot hread hmark hfat hread'
      | true =>
      obtain ⟨_, u₁, hfail, h⟩ := runs_bind.mp h
      obtain rfl := runs_setDrv hfail
      obtain ⟨d, u₁, hdrv, h⟩ := runs_bind.mp h
      obtain ⟨rfl, rfl⟩ := runs_getDrv hdrv
      rcases runs_ite.mp h with ⟨hmark', h⟩ | ⟨hmark', h⟩
      · obtain ⟨rfl, rfl⟩ := runs_pure.mp h
        exact .noBoot hread hmark hfat hread' fun hb => hmark' hb.1
      rcases runs_ite.mp h with ⟨hboot, h⟩ | ⟨hboot, h⟩
      · obtain ⟨rfl, rfl⟩ := runs_takeBpb h
        exact .partition hread hmark hfat hread' (not_not.mp hmark') hboot
      · obtain ⟨rfl, rfl⟩ := runs_pure.mp h
        exact .noBoot hread hmark hfat hread' fun hb => hboot hb.2

/-! ### What is read -/

/-- Every sector read is the card's. -/
def ShowsIn (card : Nat → Block) (log : List Ev) : Prop :=
  ∀ c n b, Ev.touch c false n (some b) ∈ log → b = card n

theorem ShowsIn.of_read {card : Nat → Block} {t : Sys Drv} {f : Fail} {p : DWord}
    (h : Runs rdTry (seek s f p) true t) (hcard : ShowsIn card t.log) :
    t.drv.secbuf = card (addressedBy s.drv.ccs p) := by
  have hread := hcard _ _ _ (rdTry_read h)
  have hsector : (seek s f p).drv.lba + (seek s f p).drv.poff = p := BitVec.zero_add p
  rw [hsector] at hread
  exact hread

/-- A read adds to the log, and changes nothing of the driver's data but `secbuf`. -/
theorem seek_read {t : Sys Drv} {f : Fail} {p : DWord} {r : Bool}
    (h : Runs rdTry (seek s f p) r t) :
    (∃ es, t.log = s.log ++ es) ∧ t.drv.ccs = s.drv.ccs ∧ t.drv.poff = p := by
  obtain ⟨d, es, hd, -⟩ := rdTry_spec h
  refine ⟨⟨es, hd.log⟩, ?_, ?_⟩ <;> rw [hd.drv] <;> rfl

theorem ShowsIn.before {card : Nat → Block} {log es : List Ev} (h : ShowsIn card (log ++ es)) :
    ShowsIn card log :=
  fun c n b hb => h c n b (List.mem_append_left es hb)

theorem rdTry_log {k : Nat} {r : Bool} (h : Runs rdTry s r s') (hreads : Reads (k + 1) s) :
    s'.log = s.log ++ [.touch s.socket.card false (s.drv.addressed (s.drv.lba + s.drv.poff))
      (some (s.world.answer s.now).data)] := by
  obtain ⟨d, s₁, hdrv, h⟩ := runs_bind.mp h
  obtain ⟨rfl, rfl⟩ := runs_getDrv hdrv
  obtain ⟨ok, t, hread, h⟩ := runs_bind.mp h
  obtain ⟨d, s₂, hdrv, hread⟩ := runs_bind.mp hread
  obtain ⟨rfl, rfl⟩ := runs_getDrv hdrv
  obtain ⟨p, s₃, hcmd, hread⟩ := runs_bind.mp hread
  obtain ⟨d, hp, hbrought, hdata, hworks, rfl⟩ := runs_dataCommand hcmd
  obtain ⟨_, s₃, hset, hread⟩ := runs_bind.mp hread
  obtain rfl := runs_setDrv hset
  obtain ⟨rfl, rfl⟩ := runs_pure.mp hread
  have hsocket := looked_socket (hreads.stays _ (Nat.le_refl _) (by omega))
  have hsome : d.isSome = true :=
    hworks.mpr ⟨hreads.ok _ (Nat.le_refl _) (by omega), hsocket ▸ hreads.up⟩
  rw [hp, hsome, if_pos rfl] at h
  obtain ⟨-, rfl⟩ := runs_pure.mp h
  obtain ⟨b, rfl⟩ := Option.isSome_iff_exists.mp hsome
  have hb : (s₂.world.answer s₂.now).data = b := hdata.symm.trans (hbrought b rfl)
  rw [hb, ← hsocket]

/-- A card that is up and reads is read at the first try. -/
theorem seek_works {k : Nat} {t : Sys Drv} {f : Fail} {p : DWord} {r : Bool}
    (h : Runs rdTry (seek s f p) r t) (hreads : Reads (k + 1) s) :
    r = true ∧ Reads k t ∧ t.world = s.world ∧ t.now = s.now + 1 ∧ t.log = s.log ++
      [.touch s.socket.card false (addressedBy s.drv.ccs p) (some (s.world.answer s.now).data)] := by
  have hreads' : Reads (k + 1) (seek s f p) := ⟨hreads.up, hreads.stays, hreads.ok⟩
  obtain ⟨hr, hone⟩ := rdTry_works h hreads'
  have hlog := rdTry_log h hreads'
  have hsector : (seek s f p).drv.lba + (seek s f p).drv.poff = p := BitVec.zero_add p
  rw [hsector] at hlog
  exact ⟨hr, hreads'.of_oneRead hone, hone.world, hone.now, hlog⟩

/-! ### The volume of a card -/

/-- Where the volume of a card is, and how long, by the two sectors a search reads. -/
def IsVolume (ccs : Bool) (card : Nat → Block) (poff vsize : DWord) : Prop :=
  Marked (card 0) ∧
    (fatPartition (card 0) = none ∧ isboot (card 0) = true ∧
        poff = 0 ∧ vsize = totalSectors (card 0) ∨
      fatPartition (card 0) = some poff ∧ Marked (card (addressedBy ccs poff)) ∧
        isboot (card (addressedBy ccs poff)) = true ∧
        vsize = totalSectors (card (addressedBy ccs poff)))

/-- What a search that succeeds has found. -/
theorem findvol_isVolume {card : Nat → Block} (h : Runs findvol s true s')
    (hcard : ShowsIn card s'.log) : IsVolume s.drv.ccs card s'.drv.poff s'.drv.vsize := by
  generalize hr : true = r at h
  cases findvol_finds h with
  | unread | unmarked | noPart | unreadBoot | noBoot => cases hr
  | @whole t read mark none boot =>
      have htable : t.drv.secbuf = card 0 := by
        rw [ShowsIn.of_read read hcard, addressedBy_zero]
      obtain ⟨-, -, hpoff⟩ := seek_read read
      rw [htable] at mark none boot
      exact ⟨mark, .inl ⟨none, boot, hpoff, congrArg totalSectors htable⟩⟩
  | @partition t u p read mark first read' mark' boot =>
      obtain ⟨⟨es, hlog⟩, -, hpoff⟩ := seek_read read'
      obtain ⟨-, hccs, -⟩ := seek_read read
      have hboot : u.drv.secbuf = card (addressedBy s.drv.ccs p) := by
        rw [ShowsIn.of_read read' hcard, hccs]
      have hcard' : ShowsIn card t.log := ShowsIn.before (hlog ▸ hcard)
      have htable : t.drv.secbuf = card 0 := by
        rw [ShowsIn.of_read read hcard', addressedBy_zero]
      obtain rfl : u.drv.poff = p := hpoff
      rw [htable] at mark first
      rw [hboot] at mark' boot
      exact ⟨mark, .inr ⟨first, mark', boot, congrArg totalSectors hboot⟩⟩

/-- A search that fails on a card that works, of which there is no volume. -/
theorem not_isVolume {card : Nat → Block} (h : Runs findvol s false s') (hreads : Reads 2 s)
    (hcard : ShowsIn card s'.log) (poff vsize : DWord) :
    ¬ IsVolume s.drv.ccs card poff vsize := by
  generalize hr : false = r at h
  rintro ⟨hmark, hvol⟩
  cases findvol_finds h with
  | whole | partition => cases hr
  | unread read => exact Bool.noConfusion (seek_works read hreads).1
  | @unmarked t read mark =>
      rw [ShowsIn.of_read read hcard, addressedBy_zero] at mark
      exact mark hmark
  | @noPart t read mark none boot =>
      rw [ShowsIn.of_read read hcard, addressedBy_zero] at none boot
      rcases hvol with ⟨-, hboot, -⟩ | ⟨hsome, -⟩
      · exact Bool.noConfusion (boot.symm.trans hboot)
      · cases none.symm.trans hsome
  | unreadBoot read _ _ read' =>
      exact Bool.noConfusion (seek_works read' (seek_works read hreads).2.1).1
  | @noBoot t u p read mark first read' not =>
      obtain ⟨⟨es, hlog⟩, -, -⟩ := seek_read read'
      obtain ⟨-, hccs, -⟩ := seek_read read
      have hcard' : ShowsIn card t.log := ShowsIn.before (hlog ▸ hcard)
      rw [ShowsIn.of_read read hcard', addressedBy_zero] at first
      rw [ShowsIn.of_read read' hcard, hccs] at not
      rcases hvol with ⟨hnone, -⟩ | ⟨hsome, hmark', hboot, -⟩
      · cases hnone.symm.trans first
      · obtain rfl := Option.some.inj (first.symm.trans hsome)
        exact not ⟨hmark', hboot⟩

end Searches

/-! ### What is expected of a search -/

/-- On a card whose first sector is a boot sector the volume is the whole card. On any other it
is the first FAT partition of the table, and no more than its entry says. -/
structure Conforms (card : Nat → Block) (s : Sys Drv) (r : Bool) (d : Drv) : Prop where
  found : isboot (card 0) = true → Reads 2 s → r = true
  whole : isboot (card 0) = true → r = true → d.poff = 0 ∧ d.vsize = totalSectors (card 0)
  first : isboot (card 0) = false → r = true →
    ∃ i, FirstFat (card 0) i ∧ d.poff = partStart (card 0) i
  inside : isboot (card 0) = false → r = true → ∀ i, FirstFat (card 0) i →
    d.vsize.toNat ≤ (partSize (card 0) i).toNat ∧ d.poff.toNat + d.vsize.toNat ≤ 2 ^ 32

/-- The cards a search is right about. A boot sector is marked, and has nothing in place of a
partition table that is of a FAT type, or a first sector 0 there; the size in the BPB of a
partition is no more than the partition has. -/
structure Plain (ccs : Bool) (card : Nat → Block) : Prop where
  boot : isboot (card 0) = true → Marked (card 0) ∧ ∀ i, FirstFat (card 0) i → partStart (card 0) i = 0
  size : isboot (card 0) = false → Marked (card 0) → ∀ i, FirstFat (card 0) i →
    let boot := card (addressedBy ccs (partStart (card 0) i))
    Marked boot → isboot boot = true → (totalSectors boot).toNat ≤ (partSize (card 0) i).toNat ∧
      (partStart (card 0) i).toNat + (totalSectors boot).toNat ≤ 2 ^ 32

section Cards

variable {ccs : Bool} {card : Nat → Block} {s s' : Sys Drv} {r : Bool}

/-- The volume of a card whose boot sector is plain. -/
theorem Plain.isVolume (h : Plain ccs card) (hboot : isboot (card 0) = true) (poff vsize : DWord) :
    IsVolume ccs card poff vsize ↔ poff = 0 ∧ vsize = totalSectors (card 0) := by
  obtain ⟨hmark, hstart⟩ := h.boot hboot
  have hzero : ∀ p, fatPartition (card 0) = some p → p = 0 := by
    intro p hp
    obtain ⟨i, hi, rfl⟩ := fatPartition_eq_some.mp hp
    exact hstart i hi
  constructor
  · rintro ⟨-, ⟨-, -, hvol⟩ | ⟨hsome, -, -, hvsize⟩⟩
    · exact hvol
    · obtain rfl := hzero poff hsome
      rw [addressedBy_zero] at hvsize
      exact ⟨rfl, hvsize⟩
  · rintro ⟨rfl, rfl⟩
    refine ⟨hmark, ?_⟩
    cases hfat : fatPartition (card 0) with
    | none => exact .inl ⟨rfl, hboot, rfl, rfl⟩
    | some p =>
        obtain rfl := hzero p hfat
        rw [addressedBy_zero]
        exact .inr ⟨rfl, hmark, hboot, rfl⟩

/-- **The volume search** on a plain card, tries that fail included. -/
theorem Plain.conforms (h : Plain s.drv.ccs card) (hr : Runs findvol s r s')
    (hcard : ShowsIn card s'.log) : Conforms card s r s'.drv where
  found hboot hreads := by
    cases r with
    | true => rfl
    | false => exact absurd ((h.isVolume hboot _ _).mpr ⟨rfl, rfl⟩) (not_isVolume hr hreads hcard _ _)
  whole hboot hfound := by
    subst hfound
    exact (h.isVolume hboot _ _).mp (findvol_isVolume hr hcard)
  first hboot hfound := by
    subst hfound
    obtain ⟨-, ⟨-, hyes, -⟩ | ⟨hsome, -⟩⟩ := findvol_isVolume hr hcard
    · exact Bool.noConfusion (hboot.symm.trans hyes)
    · obtain ⟨i, hi, hstart⟩ := fatPartition_eq_some.mp hsome
      exact ⟨i, hi, hstart.symm⟩
  inside hboot hfound i hi := by
    subst hfound
    obtain ⟨hmark, ⟨-, hyes, -⟩ | ⟨hsome, hmark', hboot', hvsize⟩⟩ := findvol_isVolume hr hcard
    · exact Bool.noConfusion (hboot.symm.trans hyes)
    · have hpoff : partStart (card 0) i = s'.drv.poff :=
        Option.some.inj (hi.fatPartition.symm.trans hsome)
      rw [hvsize, ← hpoff]
      rw [← hpoff] at hmark' hboot'
      exact h.size hboot hmark i hi hmark' hboot'

/-! ### A card that works -/

/-- The machine with that card in, up and left alone: it answers the two reads of a search. -/
def reading (ccs : Bool) (card : Nat → Block) : Sys Drv where
  world :=
    { before := fun _ => []
      during := fun _ => []
      answer := fun n => ⟨true, true, ccs,
        if n = 0 then card 0 else card (addressedBy ccs ((fatPartition (card 0)).getD 0))⟩ }
  now := 0
  socket := ⟨some 0, true, 0, Socket.idle_first⟩
  log := []
  mem := fun _ => 0
  drv := { benchDrv with ccs := ccs }

theorem reads_reading (k : Nat) : Reads k (reading ccs card) := ⟨rfl, fun _ _ _ => rfl, fun _ _ _ => rfl⟩

theorem ShowsIn.append {log : List Ev} {c : Option Nat} {n : Nat} (h : ShowsIn card log) :
    ShowsIn card (log ++ [.touch c false n (some (card n))]) := by
  intro c' n' b hb
  rcases List.mem_append.mp hb with hb | hb
  · exact h c' n' b hb
  · cases List.mem_singleton.mp hb
    rfl

theorem reading_table {t : Sys Drv} {f : Fail} (h : Runs rdTry (seek (reading ccs card) f 0) r t) :
    Reads 1 t ∧ t.world = (reading ccs card).world ∧ t.now = 1 ∧ ShowsIn card t.log := by
  obtain ⟨-, hreads, hworld, hnow, hlog⟩ := seek_works h (reads_reading 2)
  refine ⟨hreads, hworld, hnow, ?_⟩
  have hempty : ShowsIn card (reading ccs card).log := fun _ _ _ hb => absurd hb List.not_mem_nil
  rw [addressedBy_zero] at hlog
  rw [hlog]
  exact hempty.append

theorem reading_boot {t u : Sys Drv} {f g : Fail} {p : DWord} {r' : Bool}
    (h : Runs rdTry (seek (reading ccs card) f 0) true t) (first : fatPartition t.drv.secbuf = some p)
    (h' : Runs rdTry (seek t g p) r' u) : ShowsIn card u.log := by
  obtain ⟨hreads, hworld, hnow, hshows⟩ := reading_table h
  obtain ⟨-, hccs, -⟩ := seek_read h
  obtain ⟨-, -, -, -, hlog⟩ := seek_works h' hreads
  rw [ShowsIn.of_read h hshows, addressedBy_zero] at first
  have hdata : (t.world.answer t.now).data = card (addressedBy t.drv.ccs p) := by
    rw [hworld, hnow, hccs, reading]
    simp [first]
  rw [hlog, hdata]
  exact hshows.append

theorem reading_shows (h : Runs findvol (reading ccs card) r s') : ShowsIn card s'.log := by
  cases findvol_finds h with
  | unread read | unmarked read | whole read | noPart read => exact (reading_table read).2.2.2
  | unreadBoot read _ first read' | noBoot read _ first read' | partition read _ first read' =>
      have hshows := reading_boot read first read'
      exact hshows

/-- A search that is right about what it finds, on a card that works, is of a plain card. -/
theorem plain_of_conforms (hrun : Runs findvol (reading ccs card) r s')
    (h : Conforms card (reading ccs card) r s'.drv) : Plain ccs card := by
  have hreads : Reads 2 (reading ccs card) := reads_reading 2
  have hshows := reading_shows hrun
  have hfinds : ∀ p v, IsVolume ccs card p v → r = true := by
    intro p v hvol
    cases r with
    | true => rfl
    | false => exact absurd hvol (not_isVolume hrun hreads hshows p v)
  constructor
  · intro hboot
    obtain rfl := h.found hboot hreads
    obtain ⟨hpoff, -⟩ := h.whole hboot rfl
    obtain ⟨hmark, hvol⟩ := findvol_isVolume hrun hshows
    refine ⟨hmark, fun i hi => ?_⟩
    rcases hvol with ⟨hnone, -⟩ | ⟨hsome, -⟩
    · cases hnone.symm.trans hi.fatPartition
    · rw [← hpoff]
      exact Option.some.inj (hi.fatPartition.symm.trans hsome)
  · intro hboot hmark i hi boot hmark' hboot'
    have hvol : IsVolume ccs card (partStart (card 0) i) (totalSectors boot) :=
      ⟨hmark, .inr ⟨hi.fatPartition, hmark', hboot', rfl⟩⟩
    obtain rfl := hfinds _ _ hvol
    have hinside := h.inside hboot rfl i hi
    obtain ⟨-, ⟨-, hyes, -⟩ | ⟨hsome, -, -, hvsize⟩⟩ := findvol_isVolume hrun hshows
    · exact Bool.noConfusion (hboot.symm.trans hyes)
    · have hpoff : partStart (card 0) i = s'.drv.poff :=
        Option.some.inj (hi.fatPartition.symm.trans hsome)
      rw [hvsize, ← hpoff] at hinside
      exact hinside

end Cards

/-- A card with no partition table: its boot sector, with a 6 among the boot code where a table
would have the type of its first partition. -/
def bootCode : Nat → Block
  | 0 => Function.update (Function.update bootBlock 0x1C2 6) 0x1C6 5
  | _ => fun _ => 0

/-- A partition of 10 sectors from sector 1 on, with a boot sector that says 1000. -/
def shortEntry : Nat → Block
  | 0 => fun i =>
      match i with
      | 0x1C2 => 6
      | 0x1C6 => 1
      | 0x1CA => 10
      | 510 => 0x55
      | 511 => 0xAA
      | _ => 0
  | _ => bootBlock

end Sbc386Ex.Sd.SdSys

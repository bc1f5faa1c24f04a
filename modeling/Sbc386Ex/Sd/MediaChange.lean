import Sbc386Ex.Lib.Trace
import Sbc386Ex.Sd.RequestLaw

/-!
# Sbc386Ex.Sd.MediaChange

Cards taken out and put in under `SD.SYS`. A card that is up has not been touched since
`sd_start` ran on it, and `sd_start` runs only in a search for the volume; so what the
driver knows of the volume is of the card a data command works on, or no data command
works, or the driver knows that it does not know.
-/

namespace Sbc386Ex.Sd.SdSys

open Prog

/-! ### Between two looks -/

/-- A data command went to `card`. -/
def Ev.On (card : Option Nat) : Ev → Prop
  | .touch c _ _ _ => c = card
  | .copy _ _ => True

/-- What holds around everything but a run of `sd_start`: a card that is up afterwards was
up all the time, and is the card of every data command. -/
structure Since (s s' : Sys Drv) : Prop where
  events : ∃ es, s'.log = s.log ++ es ∧
    (s'.socket.up = true → s'.socket = s.socket ∧ ∀ e ∈ es, Ev.On s.socket.card e)
  removals : s.socket.removals ≤ s'.socket.removals

instance : Std.Refl Since where
  refl s := ⟨⟨[], (List.append_nil _).symm, fun _ => ⟨rfl, fun e he => by cases he⟩⟩, Nat.le_refl _⟩

instance : IsTrans (Sys Drv) Since where
  trans s t u hst htu := by
    obtain ⟨⟨es, hlog, hup⟩, hle⟩ := hst
    obtain ⟨⟨es', hlog', hup'⟩, hle'⟩ := htu
    refine ⟨⟨es ++ es', by rw [hlog', hlog, List.append_assoc], ?_⟩, Nat.le_trans hle hle'⟩
    intro hu
    obtain ⟨hsocket', hon'⟩ := hup' hu
    obtain ⟨hsocket, hon⟩ := hup (hsocket' ▸ hu)
    refine ⟨hsocket'.trans hsocket, ?_⟩
    intro e he
    rcases List.mem_append.mp he with he | he
    · exact hon e he
    · exact hsocket ▸ hon' e he

/-- What the driver knows of the volume stays. -/
structure Same (s s' : Sys Drv) : Prop extends Since s s' where
  poff : s'.drv.poff = s.drv.poff
  vsize : s'.drv.vsize = s.drv.vsize
  search : s'.drv.search = s.drv.search
  gone : s'.drv.gone = s.drv.gone

instance : Std.Refl Same where
  refl s := { refl_of Since s with poff := rfl, vsize := rfl, search := rfl, gone := rfl }

instance : IsTrans (Sys Drv) Same where
  trans s t u hst htu :=
    { IsTrans.trans s t u hst.toSince htu.toSince with
      poff := htu.poff.trans hst.poff
      vsize := htu.vsize.trans hst.vsize
      search := htu.search.trans hst.search
      gone := htu.gone.trans hst.gone }

/-- It stays, and a card known to have been out stays known so. -/
structure Held (s s' : Sys Drv) : Prop extends Since s s' where
  poff : s'.drv.poff = s.drv.poff
  vsize : s'.drv.vsize = s.drv.vsize
  search : s'.drv.search = s.drv.search
  gone : s.drv.gone = true → s'.drv.gone = true

instance : Std.Refl Held where
  refl s := { refl_of Since s with poff := rfl, vsize := rfl, search := rfl, gone := fun h => h }

instance : IsTrans (Sys Drv) Held where
  trans s t u hst htu :=
    { IsTrans.trans s t u hst.toSince htu.toSince with
      poff := htu.poff.trans hst.poff
      vsize := htu.vsize.trans hst.vsize
      search := htu.search.trans hst.search
      gone := fun h => htu.gone (hst.gone h) }

theorem Same.held {s s' : Sys Drv} (h : Same s s') : Held s s' :=
  { h.toSince with poff := h.poff, vsize := h.vsize, search := h.search, gone := h.gone.trans }

section Frames

variable {s s' : Sys Drv}

theorem since_of_eq (hlog : s'.log = s.log) (hsocket : s'.socket = s.socket) : Since s s' where
  events := ⟨[], by rw [hlog, List.append_nil], fun _ => ⟨hsocket, fun e he => by cases he⟩⟩
  removals := by rw [hsocket]

theorem since_looked (s : Sys Drv) : Since s s.looked :=
  ⟨⟨[], (List.append_nil _).symm, fun hu => ⟨Socket.takes_of_up hu, fun e he => by cases he⟩⟩,
    Socket.removals_le_takes _⟩

theorem keeps_getDrv : Keeps Same (getDrv : DosM Drv) := by
  intro s d s' h
  obtain ⟨-, rfl⟩ := runs_getDrv h
  exact refl_of Same s'

theorem keeps_cardIn : Keeps Same (cardIn : DosM Bool) := by
  intro s b s' h
  obtain ⟨-, rfl⟩ := runs_cardIn h
  exact { since_looked s with poff := rfl, vsize := rfl, search := rfl, gone := rfl }

/-- A change of the driver's data that leaves the volume's alone. -/
theorem keeps_setDrv {f : Drv → Drv} (hpoff : ∀ d, (f d).poff = d.poff)
    (hvsize : ∀ d, (f d).vsize = d.vsize) (hsearch : ∀ d, (f d).search = d.search)
    (hgone : ∀ d, (f d).gone = d.gone) : Keeps Same (setDrv f) := by
  intro s u s' h
  obtain rfl := runs_setDrv h
  exact { since_of_eq rfl rfl with
    poff := hpoff _, vsize := hvsize _, search := hsearch _, gone := hgone _ }

theorem keeps_dataCommand (w : Bool) (n : Nat) (b : Block) :
    Keeps Same (dataCommand w n b : DosM (Bool × Block)) := by
  intro s p s' h
  obtain ⟨d, -, -, -, -, rfl⟩ := runs_dataCommand h
  refine ⟨⟨⟨_, rfl, ?_⟩, Socket.removals_le_takes _⟩, rfl, rfl, rfl, rfl⟩
  intro hu
  have hstay : s.looked.socket = s.socket := Socket.takes_of_up hu
  refine ⟨hstay, ?_⟩
  intro e he
  obtain rfl := List.mem_singleton.mp he
  rw [hstay]
  rfl

theorem keeps_setStatus (v : Word) : Keeps Same (setStatus v) :=
  keeps_setDrv (fun _ => rfl) (fun _ => rfl) (fun _ => rfl) fun _ => rfl

theorem keeps_sdRead (ebx : DWord) : Keeps Same (sdRead ebx) :=
  keeps_getDrv.bind fun _ => (keeps_dataCommand _ _ _).bind fun r =>
    (keeps_setDrv (f := fun d => { d with secbuf := r.2 }) (fun _ => rfl) (fun _ => rfl)
      (fun _ => rfl) fun _ => rfl).bind fun _ => keeps_pure

theorem keeps_wrSector (ebx : DWord) : Keeps Same (wrSector ebx) :=
  keeps_getDrv.bind fun _ => (keeps_dataCommand _ _ _).bind fun _ => keeps_pure

theorem keeps_tryLoop {cmd : DWord → DosM Bool} (hcmd : ∀ ebx, Keeps Same (cmd ebx)) :
    ∀ c, Keeps Same (tryLoop cmd c)
  | 0 => keeps_pure
  | c + 1 =>
      keeps_getDrv.bind fun _ => (hcmd _).bind fun _ => keeps_ite keeps_pure (keeps_tryLoop hcmd c)

theorem keeps_rdTry : Keeps Same rdTry := keeps_tryLoop keeps_sdRead 3

theorem keeps_wrTry : Keeps Same wrTry := keeps_tryLoop keeps_wrSector 3

theorem keeps_copyOut : Keeps Same copyOut := by
  refine keeps_modify fun s => ⟨⟨⟨_, rfl, ?_⟩, Nat.le_refl _⟩, rfl, rfl, rfl, rfl⟩
  exact fun _ => ⟨rfl, fun e he => by obtain rfl := List.mem_singleton.mp he; trivial⟩

theorem keeps_copyIn : Keeps Same copyIn := by
  refine keeps_modify fun s => ⟨⟨⟨_, rfl, ?_⟩, Nat.le_refl _⟩, rfl, rfl, rfl, rfl⟩
  exact fun _ => ⟨rfl, fun e he => by obtain rfl := List.mem_singleton.mp he; trivial⟩

theorem keeps_next : Keeps Same next :=
  keeps_setDrv (fun _ => rfl) (fun _ => rfl) (fun _ => rfl) fun _ => rfl

theorem keeps_compare : Keeps Same compare := by
  intro s r s' h
  obtain ⟨rfl, -⟩ := compare_spec h
  exact refl_of Same s'

theorem keeps_readLoop : ∀ n, Keeps Same (readLoop n)
  | 0 => keeps_pure
  | n + 1 => keeps_rdTry.bind fun _ =>
      keeps_ite (keeps_copyOut.bind fun _ => keeps_next.bind fun _ => keeps_readLoop n)
        (keeps_setStatus _)

theorem keeps_writeSector : Keeps Same writeSector :=
  keeps_copyIn.bind fun _ => keeps_wrTry.bind fun _ => keeps_ite keeps_pure <|
    keeps_getDrv.bind fun _ => keeps_ite keeps_pure <|
      keeps_rdTry.bind fun _ => keeps_ite keeps_pure keeps_compare

theorem keeps_writeLoop : ∀ n, Keeps Same (writeLoop n)
  | 0 => keeps_pure
  | n + 1 => keeps_writeSector.bind fun _ =>
      keeps_ite (keeps_next.bind fun _ => keeps_writeLoop n) (keeps_setStatus _)

theorem keeps_held {α : Type} {p : DosM α} (h : Keeps Same p) : Keeps Held p :=
  h.mono fun _ _ => Same.held

theorem keeps_setGone : Keeps Held (setGone true) := by
  intro s u s' h
  obtain rfl := runs_setDrv h
  exact { since_of_eq rfl rfl with poff := rfl, vsize := rfl, search := rfl, gone := fun _ => rfl }

theorem keeps_notReady : Keeps Held notReady :=
  keeps_setGone.bind fun _ => (keeps_held (keeps_setStatus _)).bind fun _ => keeps_pure

theorem keeps_taken : Keeps Same (setDrv Drv.taken) :=
  keeps_setDrv (fun _ => rfl) (fun _ => rfl) (fun _ => rfl) fun _ => rfl

theorem keeps_getio : Keeps Held getio :=
  (keeps_held keeps_taken).bind fun _ => (keeps_held keeps_cardIn).bind fun _ =>
    keeps_ite keeps_notReady <| (keeps_held keeps_getDrv).bind fun _ =>
      keeps_ite keeps_notReady <| keeps_ite keeps_pure <|
        (keeps_held (keeps_setStatus _)).bind fun _ => keeps_pure

theorem keeps_doRead : Keeps Held doRead :=
  keeps_getio.bind fun _ =>
    keeps_ite (keeps_held (keeps_getDrv.bind fun _ => keeps_readLoop _)) keeps_pure

theorem keeps_doWrite : Keeps Held doWrite :=
  keeps_getio.bind fun _ =>
    keeps_ite (keeps_held (keeps_getDrv.bind fun _ => keeps_writeLoop _)) keeps_pure

theorem keeps_setVerify (verify : Bool) : Keeps Same (setDrv fun d => { d with verify := verify }) :=
  keeps_setDrv (fun _ => rfl) (fun _ => rfl) (fun _ => rfl) fun _ => rfl

theorem keeps_writeRequest (verify : Bool) : Keeps Held (writeRequest verify) :=
  (keeps_held (keeps_setVerify verify)).bind fun _ => keeps_doWrite

theorem keeps_doBpb : Keeps Same doBpb :=
  keeps_getDrv.bind fun _ => keeps_ite (keeps_setStatus _)
    (keeps_setDrv (fun _ => rfl) (fun _ => rfl) (fun _ => rfl) fun _ => rfl)

/-- **Every request but INIT and MEDIA CHECK leaves the volume as it is known.** -/
theorem keeps_dispatch {cmd : Byte} (hinit : cmd ≠ 0) (hmedia : cmd ≠ 1) : Keeps Held (dispatch cmd) := by
  rw [dispatch, if_neg hinit, if_neg hmedia]
  exact keeps_ite (keeps_held keeps_doBpb) <| keeps_ite keeps_doRead <| keeps_ite (keeps_writeRequest false) <|
    keeps_ite (keeps_writeRequest true) (keeps_held (keeps_setStatus _))

end Frames

/-! ### A try that worked -/

section Tries

variable {s s' : Sys Drv}

/-- After a data command that worked the card is up. -/
theorem sdRead_up {ebx : DWord} (h : Runs (sdRead ebx) s true s') : s'.socket.up = true := by
  obtain ⟨d₀, s₁, hdrv, hrest⟩ := runs_bind.mp h
  obtain ⟨rfl, rfl⟩ := runs_getDrv hdrv
  obtain ⟨p, s₂, hcmd, hrest⟩ := runs_bind.mp hrest
  obtain ⟨d, hok, -, -, hworks, rfl⟩ := runs_dataCommand hcmd
  obtain ⟨u, s₃, hset, hpure⟩ := runs_bind.mp hrest
  obtain rfl := runs_setDrv hset
  obtain ⟨hp, rfl⟩ := runs_pure.mp hpure
  exact (hworks.mp (hok.symm.trans hp.symm)).2

theorem wrSector_up {ebx : DWord} (h : Runs (wrSector ebx) s true s') : s'.socket.up = true := by
  obtain ⟨d₀, s₁, hdrv, hrest⟩ := runs_bind.mp h
  obtain ⟨rfl, rfl⟩ := runs_getDrv hdrv
  obtain ⟨p, s₂, hcmd, hrest⟩ := runs_bind.mp hrest
  obtain ⟨d, hok, -, -, hworks, rfl⟩ := runs_dataCommand hcmd
  obtain ⟨hp, rfl⟩ := runs_pure.mp hrest
  exact (hworks.mp (hok.symm.trans hp.symm)).2

theorem tryLoop_up {cmd : DWord → DosM Bool}
    (hcmd : ∀ {ebx s s'}, Runs (cmd ebx) s true s' → s'.socket.up = true) :
    ∀ {c : Nat} {s s' : Sys Drv}, Runs (tryLoop cmd c) s true s' → s'.socket.up = true := by
  intro c
  induction c with
  | zero =>
      intro s s' h
      cases (runs_pure.mp h).1
  | succ c ih =>
      intro s s' h
      obtain ⟨d, s₁, hdrv, hrest⟩ := runs_bind.mp h
      obtain ⟨ok, t, hone, hrest⟩ := runs_bind.mp hrest
      cases ok with
      | false => exact ih hrest
      | true =>
          obtain ⟨-, rfl⟩ := runs_pure.mp hrest
          exact hcmd hone

theorem rdTry_up (h : Runs rdTry s true s') : s'.socket.up = true := tryLoop_up sdRead_up h

theorem wrTry_up (h : Runs wrTry s true s') : s'.socket.up = true := tryLoop_up wrSector_up h

theorem Tried.last {w : Bool} {n c : Nat} {b : Block} {es : List Ev} (h : Tried w n c (some b) es) :
    ∃ card, Ev.touch card w n (some b) ∈ es := by
  generalize hd : some b = d at h
  induction h with
  | gaveUp => cases hd
  | worked card c b' =>
      obtain rfl := Option.some.inj hd
      exact ⟨card, List.mem_singleton.mpr rfl⟩
  | again card rest ih =>
      obtain ⟨card', hlast⟩ := ih hd
      exact ⟨card', List.mem_cons_of_mem _ hlast⟩

/-- A sector read is one of the card that is up. -/
theorem rdTry_read (h : Runs rdTry s true s') :
    Ev.touch s'.socket.card false (s.drv.addressed (s.drv.lba + s.drv.poff)) (some s'.drv.secbuf) ∈
      s'.log := by
  obtain ⟨d, es, hd, htried⟩ := rdTry_spec h
  obtain ⟨b, rfl⟩ := Option.isSome_iff_exists.mp hd.ok.symm
  obtain ⟨card, hlast⟩ := htried.last
  obtain ⟨⟨es', hlog, hon⟩, -⟩ := (keeps_rdTry h).toSince
  obtain ⟨hsocket, hcards⟩ := hon (rdTry_up h)
  obtain rfl : es = es' := List.append_cancel_left (hd.log.symm.trans hlog)
  have hcard : card = s.socket.card := hcards _ hlast
  rw [hsocket, ← hcard, hd.brought b rfl, hd.log]
  exact List.mem_append_right _ hlast

end Tries

/-! ### The volume -/

/-- The offset and the size are what the sectors read off the card say: of the whole card, or
of the first FAT partition. -/
inductive FoundIn (log : List Ev) (f : Search) : Prop
  | whole {b : Block} (table : Ev.touch f.card false 0 (some b) ∈ log)
      (none : fatPartition b = none) (boot : isboot b = true) (poff : f.poff = 0)
      (vsize : f.vsize = totalSectors b)
  | partition {b b' : Block} {ccs : Bool} (table : Ev.touch f.card false 0 (some b) ∈ log)
      (first : fatPartition b = some f.poff)
      (bootSector : Ev.touch f.card false (addressedBy ccs f.poff) (some b') ∈ log)
      (boot : isboot b' = true) (vsize : f.vsize = totalSectors b')

theorem FoundIn.mono {log log' : List Ev} {f : Search} (h : FoundIn log f)
    (hsub : ∀ e ∈ log, e ∈ log') : FoundIn log' f := by
  cases h with
  | whole table none boot poff vsize => exact .whole (hsub _ table) none boot poff vsize
  | partition table first bootSector boot vsize =>
      exact .partition (hsub _ table) first (hsub _ bootSector) boot vsize

/-- The volume the driver has, if it is of the card in the socket. -/
def volume (s : Sys Drv) : Search := ⟨s.socket.card, s.socket.removals, s.drv.poff, s.drv.vsize⟩

/-- What a search keeps. -/
structure Looking (s s' : Sys Drv) : Prop extends Since s s' where
  search : s'.drv.search = s.drv.search
  gone : s'.drv.gone = s.drv.gone

instance : Std.Refl Looking where
  refl s := { refl_of Since s with search := rfl, gone := rfl }

instance : IsTrans (Sys Drv) Looking where
  trans s t u hst htu :=
    { IsTrans.trans s t u hst.toSince htu.toSince with
      search := htu.search.trans hst.search
      gone := htu.gone.trans hst.gone }

section Searches

variable {s s' : Sys Drv}

/-- A change of the driver's data that leaves the last search's alone. -/
theorem keeps_setDrv_looking {f : Drv → Drv} (hsearch : ∀ d, (f d).search = d.search)
    (hgone : ∀ d, (f d).gone = d.gone) : Keeps Looking (setDrv f) := by
  intro s u s' h
  obtain rfl := runs_setDrv h
  exact ⟨since_of_eq rfl rfl, hsearch _, hgone _⟩

theorem keeps_setFail (f : Fail) : Keeps Looking (setFail f) :=
  keeps_setDrv_looking (fun _ => rfl) fun _ => rfl

theorem keeps_looking {α : Type} {p : DosM α} (h : Keeps Same p) : Keeps Looking p :=
  h.mono fun _ _ hsame => ⟨hsame.toSince, hsame.search, hsame.gone⟩

theorem keeps_takeBpb : Keeps Looking takeBpb :=
  Keeps.bind (keeps_setDrv_looking (fun _ => rfl) fun _ => rfl) fun _ => keeps_pure

theorem keeps_findvol : Keeps Looking findvol := by
  refine (keeps_setFail _).bind fun _ => ?_
  refine Keeps.bind (keeps_setDrv_looking (fun _ => rfl) fun _ => rfl) fun _ => ?_
  refine (keeps_looking keeps_rdTry).bind fun _ => keeps_ite keeps_pure <| (keeps_setFail _).bind fun _ => ?_
  refine (keeps_looking keeps_getDrv).bind fun d => keeps_ite keeps_pure ?_
  cases fatPartition d.secbuf with
  | none => exact keeps_ite keeps_takeBpb ((keeps_setFail _).bind fun _ => keeps_pure)
  | some eax =>
      refine Keeps.bind (keeps_setDrv_looking (fun _ => rfl) fun _ => rfl) fun _ => ?_
      refine (keeps_looking keeps_rdTry).bind fun _ => keeps_ite keeps_pure <| (keeps_setFail _).bind fun _ => ?_
      exact (keeps_looking keeps_getDrv).bind fun d => keeps_ite keeps_pure (keeps_ite keeps_takeBpb keeps_pure)

theorem addressedBy_zero (ccs : Bool) : addressedBy ccs 0 = 0 := by cases ccs <;> rfl

theorem takeBpb_spec {r : Bool} (h : Runs takeBpb s r s') :
    s'.socket = s.socket ∧ s'.log = s.log ∧ s'.drv.poff = s.drv.poff ∧
      s'.drv.vsize = totalSectors s.drv.secbuf := by
  obtain ⟨u, t, hset, hpure⟩ := runs_bind.mp h
  obtain rfl := runs_setDrv hset
  obtain ⟨-, rfl⟩ := runs_pure.mp hpure
  exact ⟨rfl, rfl, rfl, rfl⟩

/-- The first sector of a partition at `n`, read off the card that is up. -/
structure ReadAt (n : DWord) (s : Sys Drv) : Prop where
  up : s.socket.up = true
  poff : s.drv.poff = n
  read : ∃ ccs, Ev.touch s.socket.card false (addressedBy ccs n) (some s.drv.secbuf) ∈ s.log

theorem rdTry_at {n : DWord} (h : Runs rdTry s true s') (hlba : s.drv.lba = 0) (hpoff : s.drv.poff = n) :
    ReadAt n s' := by
  obtain ⟨d, es, hd, -⟩ := rdTry_spec h
  refine ⟨rdTry_up h, ?_, s.drv.ccs, ?_⟩
  · rw [hd.drv]
    exact hpoff
  · have hsector : s.drv.lba + s.drv.poff = n := by
      rw [hlba, hpoff]
      exact BitVec.zero_add n
    have hread := rdTry_read h
    rw [hsector] at hread
    exact hread

/-- **A search that succeeds** has the volume of the card that is in, and it is up. -/
theorem findvol_spec (h : Runs findvol s true s') :
    s'.socket.up = true ∧ FoundIn s'.log (volume s') := by
  obtain ⟨u, t, hfail, h⟩ := runs_bind.mp h
  obtain ⟨u, t₁, hzero, h⟩ := runs_bind.mp h
  obtain rfl := runs_setDrv hzero
  obtain ⟨ok, t₂, htable, h⟩ := runs_bind.mp h
  cases ok with
  | false => cases (runs_pure.mp h).1
  | true =>
  obtain ⟨hup, hpoff, ccs, hread⟩ := rdTry_at (n := 0) htable rfl rfl
  rw [addressedBy_zero] at hread
  obtain ⟨u, t₃, hfail, h⟩ := runs_bind.mp h
  obtain rfl := runs_setDrv hfail
  obtain ⟨d, t₃, hdrv, h⟩ := runs_bind.mp h
  obtain ⟨rfl, rfl⟩ := runs_getDrv hdrv
  rcases runs_ite.mp h with ⟨-, h⟩ | ⟨-, h⟩
  · cases (runs_pure.mp h).1
  cases hfat : fatPartition t₂.drv.secbuf with
  | none =>
      simp only [hfat] at h
      rcases runs_ite.mp h with ⟨hboot, h⟩ | ⟨-, h⟩
      · obtain ⟨hsocket, hlog, hp, hv⟩ := takeBpb_spec h
        rw [volume, hsocket, hlog, hp, hv]
        exact ⟨hup, .whole hread hfat hboot hpoff rfl⟩
      · obtain ⟨u, t₄, -, h⟩ := runs_bind.mp h
        cases (runs_pure.mp h).1
  | some eax =>
      simp only [hfat] at h
      obtain ⟨u, t₄, hset, h⟩ := runs_bind.mp h
      obtain rfl := runs_setDrv hset
      obtain ⟨ok, t₅, hsector, h⟩ := runs_bind.mp h
      cases ok with
      | false => cases (runs_pure.mp h).1
      | true =>
      obtain ⟨hup₅, hpoff₅, ccs₅, hread₅⟩ := rdTry_at (n := eax) hsector rfl rfl
      -- the card has not been touched since the table was read off it
      obtain ⟨⟨es, hlog₅, hon⟩, -⟩ := (keeps_rdTry hsector).toSince
      obtain ⟨hsame, -⟩ := hon hup₅
      have htable₅ : Ev.touch t₅.socket.card false 0 (some t₂.drv.secbuf) ∈ t₅.log := by
        rw [hsame, hlog₅]
        exact List.mem_append_left _ hread
      obtain ⟨u, t₆, hfail, h⟩ := runs_bind.mp h
      obtain rfl := runs_setDrv hfail
      obtain ⟨d, t₆, hdrv, h⟩ := runs_bind.mp h
      obtain ⟨rfl, rfl⟩ := runs_getDrv hdrv
      rcases runs_ite.mp h with ⟨-, h⟩ | ⟨-, h⟩
      · cases (runs_pure.mp h).1
      rcases runs_ite.mp h with ⟨hboot, h⟩ | ⟨-, h⟩
      · obtain ⟨hsocket, hlog, hp, hv⟩ := takeBpb_spec h
        rw [← hpoff₅] at hfat hread₅
        rw [volume, hsocket, hlog, hp, hv]
        exact ⟨hup₅, .partition htable₅ hfat hread₅ hboot rfl⟩
      · cases (runs_pure.mp h).1

end Searches

/-! ### The card from nothing -/

/-- What holds around everything: the log grows, and removals are not undone. -/
structure Later (s s' : Sys Drv) : Prop where
  log : ∀ e ∈ s.log, e ∈ s'.log
  removals : s.socket.removals ≤ s'.socket.removals

theorem Since.later {s s' : Sys Drv} (h : Since s s') : Later s s' := by
  obtain ⟨⟨es, hlog, -⟩, hle⟩ := h
  refine ⟨?_, hle⟩
  intro e he
  rw [hlog]
  exact List.mem_append_left _ he

theorem Later.trans {s t u : Sys Drv} (h : Later s t) (h' : Later t u) : Later s u :=
  ⟨fun e he => h'.log e (h.log e he), Nat.le_trans h.removals h'.removals⟩

/-- A restart that failed: the volume may be half overwritten. -/
structure Lost (s s' : Sys Drv) : Prop extends Later s s' where
  search : s'.drv.search = s.drv.search
  gone : s'.drv.gone = s.drv.gone

theorem Looking.lost {s s' : Sys Drv} (h : Looking s s') : Lost s s' :=
  { h.toSince.later with search := h.search, gone := h.gone }

theorem Lost.trans {s t u : Sys Drv} (h : Lost s t) (h' : Lost t u) : Lost s u :=
  { h.toLater.trans h'.toLater with
    search := h'.search.trans h.search
    gone := h'.gone.trans h.gone }

/-- The driver has the volume of the card that is in, as `f` remembers it, and it is up. -/
structure Found (f : Search) (s : Sys Drv) : Prop where
  search : s.drv.search = some f
  here : f = volume s
  found : FoundIn s.log f
  up : s.socket.up = true

section Restart

variable {s s' : Sys Drv}

theorem removals_le_started (k : Socket) (starts : Bool) (l : List Phys) :
    k.removals ≤ (k.started starts l).removals := by
  rw [Socket.started]
  split
  · exact Nat.le_refl _
  · exact Socket.removals_le_takes l

theorem start_lost {a : Option Answer} (h : Runs start s a s') : Lost s s' := by
  obtain ⟨a₁, t, hlook, h⟩ := runs_bind.mp h
  obtain ⟨-, rfl⟩ := runs_look hlook
  obtain ⟨-, rfl⟩ := runs_modifyGet.mp h
  have hlooked : s.socket.removals ≤ s.looked.socket.removals := Socket.removals_le_takes _
  by_cases hcard : s.looked.socket.card.isSome = true
  · rw [if_pos hcard]
    exact ⟨⟨fun e he => he, Nat.le_trans hlooked (removals_le_started _ _ _)⟩, rfl, rfl⟩
  · rw [if_neg hcard]
    exact ⟨⟨fun e he => he, hlooked⟩, rfl, rfl⟩

theorem sdStart_lost {r : Bool} (h : Runs sdStart s r s') : Lost s s' := by
  obtain ⟨a, t, hstart, h⟩ := runs_bind.mp h
  have hlost := start_lost hstart
  cases a with
  | none =>
      obtain ⟨-, rfl⟩ := runs_pure.mp h
      exact hlost
  | some a =>
      obtain ⟨u, t', hset, h⟩ := runs_bind.mp h
      obtain rfl := runs_setDrv hset
      obtain ⟨-, rfl⟩ := runs_pure.mp h
      exact ⟨⟨hlost.log, hlost.removals⟩, hlost.search, hlost.gone⟩

/-- **A restart** leaves the driver with the volume of the card that is in, or with what it
had known of the volume lost. -/
theorem restart_spec {r : Bool} (h : Runs restart s r s') :
    Later s s' ∧ s'.drv.gone = s.drv.gone ∧
      (r = false → s'.drv.search = s.drv.search) ∧ (r = true → ∃ f, Found f s') := by
  obtain ⟨u, t, hfail, h⟩ := runs_bind.mp h
  have hbase := (keeps_setFail _ hfail).lost
  obtain ⟨isin, t₁, hcard, h⟩ := runs_bind.mp h
  have hlooked : Lost t t₁ := by
    obtain ⟨-, rfl⟩ := runs_cardIn hcard
    exact ⟨(since_looked t).later, rfl, rfl⟩
  have hcarded := hbase.trans hlooked
  rcases runs_ite.mp h with ⟨-, h⟩ | ⟨-, h⟩
  · obtain ⟨rfl, rfl⟩ := runs_pure.mp h
    exact ⟨hcarded.toLater, hcarded.gone, fun _ => hcarded.search, fun hr => by cases hr⟩
  obtain ⟨u, t₂, hfail, h⟩ := runs_bind.mp h
  obtain ⟨up, t₃, hstart, h⟩ := runs_bind.mp h
  have hstarted := (hcarded.trans (keeps_setFail _ hfail).lost).trans (sdStart_lost hstart)
  rcases runs_ite.mp h with ⟨-, h⟩ | ⟨-, h⟩
  · obtain ⟨rfl, rfl⟩ := runs_pure.mp h
    exact ⟨hstarted.toLater, hstarted.gone, fun _ => hstarted.search, fun hr => by cases hr⟩
  obtain ⟨found, t₄, hfind, h⟩ := runs_bind.mp h
  have hlost := hstarted.trans (keeps_findvol hfind).lost
  obtain ⟨u, t₅, hnote, h⟩ := runs_bind.mp h
  obtain rfl := runs_modify.mp hnote
  obtain ⟨rfl, rfl⟩ := runs_pure.mp h
  cases r with
  | false => exact ⟨hlost.toLater, hlost.gone, fun _ => hlost.search, fun hr => by cases hr⟩
  | true =>
      obtain ⟨hup, hfound⟩ := findvol_spec hfind
      refine ⟨⟨hlost.log, hlost.removals⟩, hlost.gone, fun hr => by (cases hr), fun _ => ?_⟩
      exact ⟨volume t₄, rfl, rfl, hfound, hup⟩

/-- The byte MEDIA CHECK stores is the byte it answers with. -/
theorem media_answer (v : Word) (al : Byte) :
    ((v &&& 0xFF00) ||| al.setWidth 16).setWidth 8 = al := by
  have hhigh : (0xFF00 : Word).setWidth 8 = 0 := rfl
  rw [BitVec.setWidth_or, BitVec.setWidth_and, hhigh, BitVec.setWidth_setWidth_of_le al (by decide),
    BitVec.setWidth_eq]
  exact (congrArg (· ||| al) BitVec.and_zero).trans BitVec.zero_or

theorem keeps_answerMedia (al : Byte) : Keeps Same (answerMedia al) :=
  keeps_setDrv (fun _ => rfl) (fun _ => rfl) (fun _ => rfl) fun _ => rfl

/-- What MEDIA CHECK comes to: the volume as it was, or lost with the card known to have been
out, or found and the medium reported changed. -/
theorem doMedia_spec {u : Unit} (h : Runs doMedia s u s') :
    Held s s' ∨ (Later s s' ∧ s'.drv.search = s.drv.search ∧ s'.drv.gone = true) ∨
      ∃ f, Later s s' ∧ Found f s' ∧ s'.drv.gone = false ∧ s'.drv.req.media = 0xFF := by
  obtain ⟨u, t, hone, h⟩ := runs_bind.mp h
  have hbase : Held s t := (keeps_answerMedia 1 hone).held
  obtain ⟨isin, t₁, hcard, h⟩ := runs_bind.mp h
  have hheld := IsTrans.trans s t t₁ hbase (keeps_cardIn hcard).held
  rcases runs_ite.mp h with ⟨-, h⟩ | ⟨-, h⟩
  · have hout : Keeps Held (setGone true >>= fun _ => answerMedia 0xFF) :=
      keeps_setGone.bind fun _ => keeps_held (keeps_answerMedia 0xFF)
    exact .inl (IsTrans.trans s t₁ s' hheld (hout h))
  obtain ⟨d, t₂, hdrv, h⟩ := runs_bind.mp h
  obtain ⟨rfl, rfl⟩ := runs_getDrv hdrv
  rcases runs_ite.mp h with ⟨hgone, h⟩ | ⟨-, h⟩
  · obtain ⟨r, t₃, hrestart, h⟩ := runs_bind.mp h
    obtain ⟨hlater, hsame, hfailed, hfound⟩ := restart_spec hrestart
    have hall := hheld.later.trans hlater
    cases r with
    | false =>
        have hanswer : Runs (answerMedia 0xFF) t₃ u s' := h
        obtain rfl := runs_setDrv hanswer
        exact .inr (.inl ⟨⟨hall.log, hall.removals⟩, (hfailed rfl).trans hheld.search, hsame.trans hgone⟩)
    | true =>
        obtain ⟨u, t₄, hclear, hanswer⟩ := runs_bind.mp h
        obtain rfl := runs_setDrv hclear
        obtain rfl := runs_setDrv hanswer
        obtain ⟨f, hf⟩ := hfound rfl
        exact .inr (.inr ⟨f, ⟨hall.log, hall.removals⟩, ⟨hf.search, hf.here, hf.found, hf.up⟩, rfl,
          media_answer _ _⟩)
  · obtain ⟨-, rfl⟩ := runs_pure.mp h
    exact .inl hheld

end Restart

end Sbc386Ex.Sd.SdSys

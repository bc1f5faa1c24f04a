import Sbc386Ex.Sd.MediaSafe
import Sbc386Ex.Sd.Mmc

/-!
# Sbc386Ex.Sd.CardDetect

What becomes of a removal. Both drivers look at card detect when they are asked for
something, and remember in one flag what they saw; a card taken out and put back between
two looks is not seen, and then MEDIA CHECK answers "not changed" and an open succeeds,
with a card in the socket that has not been brought up.
-/

namespace Sbc386Ex.Sd

open Prog

theorem not_isSome_iff {α : Type} {o : Option α} : (!o.isSome) = true ↔ o = none := by
  cases o <;> simp

namespace SdSys

/-! ### The flag -/

section Flag

variable {s s' : Sys Drv}

theorem getio_gone {r : Bool} (h : Runs getio s r s') :
    s'.drv.gone = true ↔ s.drv.gone = true ∨ s.looked.socket.card = none := by
  have hnotReady : ∀ {s r}, Runs notReady s r s' → s'.drv.gone = true := by
    intro s r h
    obtain ⟨u, t, hset, h⟩ := runs_bind.mp h
    obtain ⟨u, t₁, hstat, h⟩ := runs_bind.mp h
    obtain ⟨-, rfl⟩ := runs_pure.mp h
    rw [(keeps_setStatus _ hstat).gone, runs_setDrv hset]
  obtain ⟨u, t, hset, h⟩ := runs_bind.mp h
  obtain rfl := runs_setDrv hset
  obtain ⟨isin, t, hcard, h⟩ := runs_bind.mp h
  obtain ⟨rfl, rfl⟩ := runs_cardIn hcard
  rcases runs_ite.mp h with ⟨hout, h⟩ | ⟨hin, h⟩
  · have hnone : s.looked.socket.card = none := not_isSome_iff.mp hout
    exact iff_of_true (hnotReady h) (.inr hnone)
  have hsome : s.looked.socket.card ≠ none := fun hnone => hin (not_isSome_iff.mpr hnone)
  obtain ⟨d, t, hdrv, h⟩ := runs_bind.mp h
  obtain ⟨rfl, rfl⟩ := runs_getDrv hdrv
  rcases runs_ite.mp h with ⟨hgone, h⟩ | ⟨hgone, h⟩
  · exact iff_of_true (hnotReady h) (.inl hgone)
  have hkept : s'.drv.gone = s.drv.gone := by
    rcases runs_ite.mp h with ⟨-, h⟩ | ⟨-, h⟩
    · obtain ⟨-, rfl⟩ := runs_pure.mp h
      rfl
    · obtain ⟨u, t₁, hstat, h⟩ := runs_bind.mp h
      obtain ⟨-, rfl⟩ := runs_pure.mp h
      exact (keeps_setStatus _ hstat).gone
  rw [hkept]
  exact ⟨.inl, fun h => h.resolve_right hsome⟩

theorem getio_loop_gone {p : DosM Unit} {u : Unit} (hp : Keeps Same p)
    (h : Runs (getio >>= fun ok => if ok then p else pure ()) s u s') :
    s'.drv.gone = true ↔ s.drv.gone = true ∨ s.looked.socket.card = none := by
  obtain ⟨ok, t, hget, h⟩ := runs_bind.mp h
  have hkept : Keeps Same (if ok then p else pure ()) := keeps_ite hp keeps_pure
  rw [(hkept h).gone]
  exact getio_gone hget

/-- A READ or WRITE finds the socket empty. -/
structure FindsOut (s : Sys Drv) (l : Req × Req) : Prop where
  transfer : l.1.cmd = 4 ∨ l.1.cmd = 8 ∨ l.1.cmd = 9
  out : s.looked.socket.card = none

/-- A request other than INIT and MEDIA CHECK. -/
structure NextOther (s : Sys Drv) (l : Req × Req) (s' : Sys Drv) : Prop extends Next s l s' where
  media : l.1.cmd ≠ 1

theorem dispatch_gone {cmd : Byte} (hinit : cmd ≠ 0) (hmedia : cmd ≠ 1) {u : Unit}
    (h : Runs (dispatch cmd) s u s') :
    s'.drv.gone = true ↔ s.drv.gone = true ∨
      (cmd = 4 ∨ cmd = 8 ∨ cmd = 9) ∧ s.looked.socket.card = none := by
  have hwrite : ∀ {v u}, Runs (writeRequest v) s u s' →
      (s'.drv.gone = true ↔ s.drv.gone = true ∨ s.looked.socket.card = none) := by
    intro v u h
    obtain ⟨u₁, t, hset, h⟩ := runs_bind.mp h
    obtain rfl := runs_setDrv hset
    have hio := getio_loop_gone (p := getDrv >>= fun d => writeLoop d.count.toNat)
      (keeps_getDrv.bind fun _ => keeps_writeLoop _) h
    exact hio
  rw [dispatch, if_neg hinit, if_neg hmedia] at h
  rcases runs_ite.mp h with ⟨rfl, h⟩ | ⟨-, h⟩
  · rw [(keeps_doBpb h).gone]
    simp
  rcases runs_ite.mp h with ⟨rfl, h⟩ | ⟨hread, h⟩
  · rw [getio_loop_gone (p := getDrv >>= fun d => readLoop d.count.toNat)
      (keeps_getDrv.bind fun _ => keeps_readLoop _) h]
    simp
  rcases runs_ite.mp h with ⟨rfl, h⟩ | ⟨hout, h⟩
  · rw [hwrite h]
    simp
  rcases runs_ite.mp h with ⟨rfl, h⟩ | ⟨hverify, h⟩
  · rw [hwrite h]
    simp
  · have hnot : ¬ (cmd = 4 ∨ cmd = 8 ∨ cmd = 9) := fun h => h.elim hread fun h => h.elim hout hverify
    rw [(keeps_setStatus _ h).gone]
    exact ⟨.inl, fun h => h.resolve_right fun hp => hnot hp.1⟩

/-- **The flag** is set when it was, or a READ or WRITE has found the socket empty. -/
theorem run_gone {v : Sys Drv} {ls : List (Req × Req)} (hrun : Trace NextOther v ls s) :
    s.drv.gone = true ↔ v.drv.gone = true ∨ Trace.Meets NextOther FindsOut v ls s := by
  have hstep : ∀ {t l u}, NextOther t l u → (u.drv.gone = true ↔ t.drv.gone = true ∨ FindsOut t l) := by
    intro t l u hnext
    obtain ⟨t', hgo, -, rfl⟩ := runs_interrupt hnext.runs
    have hgone := dispatch_gone hnext.cmd hnext.media hgo
    exact hgone.trans (or_congr_right ⟨fun h => ⟨h.1, h.2⟩, fun h => ⟨h.transfer, h.out⟩⟩)
  exact Trace.flag_iff hrun hstep

/-! ### MEDIA CHECK -/

/-- The card that is in works, and stays in, for as long as MEDIA CHECK takes with it: nothing
is done to the socket, `sd_start` brings the card up, and its sectors read. -/
structure Working (s : Sys Drv) : Prop where
  card : s.socket.card.isSome = true
  stays : ∀ n, s.now ≤ n → n < s.now + 4 → s.world.before n = [] ∧ s.world.during n = []
  starts : ∀ n, s.now ≤ n → n < s.now + 4 → (s.world.answer n).starts = true
  ok : ∀ n, s.now ≤ n → n < s.now + 4 → (s.world.answer n).ok = true

/-- And there is a volume on it. -/
def HasVolume (table boot : Block) : Prop :=
  wordAt table 510 = 0xAA55 ∧
    (fatPartition table = none ∧ isboot table = true ∨
      (fatPartition table).isSome = true ∧ wordAt boot 510 = 0xAA55 ∧ isboot boot = true)

/-- What MEDIA CHECK owes a card that has been out: the medium changed, and a card that works
brought up, with its volume, if it has one, the driver's. -/
structure Noticed (s : Sys Drv) (q' : Req) (s' : Sys Drv) : Prop where
  changed : q'.media = 0xFF
  up : Working s.looked → s'.socket.up = true
  volume : Working s.looked →
    HasVolume (s.world.answer (s.now + 3)).data (s.world.answer (s.now + 4)).data →
      s'.drv.gone = false ∧ ∃ f, Found f s'

end Flag

section Works

variable {s s' : Sys Drv}

theorem looked_socket (h : s.world.before s.now = []) : s.looked.socket = s.socket := by
  rw [Sys.looked, h]
  rfl

/-- The machine has not looked at the card. -/
structure Quiet (s s' : Sys Drv) : Prop where
  world : s'.world = s.world
  now : s'.now = s.now
  socket : s'.socket = s.socket
  secbuf : s'.drv.secbuf = s.drv.secbuf

theorem setDrv_quiet {f : Drv → Drv} {u : Unit} (h : Runs (setDrv f) s u s')
    (hsecbuf : ∀ d, (f d).secbuf = d.secbuf) : Quiet s s' := by
  rw [runs_setDrv h]
  exact ⟨rfl, rfl, rfl, hsecbuf _⟩

theorem setFail_quiet {f : Fail} {u : Unit} (h : Runs (setFail f) s u s') : Quiet s s' :=
  setDrv_quiet h fun _ => rfl

theorem Quiet.trans {t : Sys Drv} (h : Quiet s t) (h' : Quiet t s') : Quiet s s' :=
  ⟨h'.world.trans h.world, h'.now.trans h.now, h'.socket.trans h.socket, h'.secbuf.trans h.secbuf⟩

/-- `k` looks from now on the card is up, nobody touches it, and it reads. -/
structure Reads (k : Nat) (s : Sys Drv) : Prop where
  up : s.socket.up = true
  stays : ∀ n, s.now ≤ n → n < s.now + k → s.world.before n = []
  ok : ∀ n, s.now ≤ n → n < s.now + k → (s.world.answer n).ok = true

theorem Reads.of_quiet {k : Nat} (h : Reads k s) (hq : Quiet s s') : Reads k s' := by
  obtain ⟨hworld, hnow, hsocket, -⟩ := hq
  refine ⟨?_, ?_, ?_⟩
  · rw [hsocket]; exact h.up
  · rw [hworld, hnow]; exact h.stays
  · rw [hworld, hnow]; exact h.ok

/-- A read is one look. -/
structure OneRead (s s' : Sys Drv) : Prop where
  world : s'.world = s.world
  now : s'.now = s.now + 1
  socket : s'.socket = s.socket
  data : s'.drv.secbuf = (s.world.answer s.now).data

theorem Reads.of_oneRead {k : Nat} (h : Reads (k + 1) s) (hr : OneRead s s') : Reads k s' := by
  obtain ⟨hworld, hnow, hsocket, -⟩ := hr
  refine ⟨?_, ?_, ?_⟩
  · rw [hsocket]; exact h.up
  · intro n hn hlt
    rw [hworld]
    exact h.stays n (by omega) (by omega)
  · intro n hn hlt
    rw [hworld]
    exact h.ok n (by omega) (by omega)

/-- The first try works. -/
theorem rdTry_works {k : Nat} {r : Bool} (h : Runs rdTry s r s') (hreads : Reads (k + 1) s) :
    r = true ∧ OneRead s s' := by
  obtain ⟨d, s₁, hdrv, h⟩ := runs_bind.mp h
  obtain ⟨rfl, rfl⟩ := runs_getDrv hdrv
  obtain ⟨ok, t, hread, h⟩ := runs_bind.mp h
  obtain ⟨d, s₂, hdrv, hread⟩ := runs_bind.mp hread
  obtain ⟨rfl, rfl⟩ := runs_getDrv hdrv
  obtain ⟨p, s₃, hcmd, hread⟩ := runs_bind.mp hread
  obtain ⟨d, hp, hbrought, hdata, hworks, rfl⟩ := runs_dataCommand hcmd
  obtain ⟨u, s₃, hset, hread⟩ := runs_bind.mp hread
  obtain rfl := runs_setDrv hset
  obtain ⟨rfl, rfl⟩ := runs_pure.mp hread
  have hsocket := looked_socket (hreads.stays _ (Nat.le_refl _) (by omega))
  have htrue : p.1 = true :=
    hp.trans (hworks.mpr ⟨hreads.ok _ (Nat.le_refl _) (by omega), hsocket ▸ hreads.up⟩)
  rw [htrue, if_pos rfl] at h
  obtain ⟨rfl, rfl⟩ := runs_pure.mp h
  exact ⟨rfl, rfl, rfl, hsocket, hdata⟩

/-- A card that reads stays as it is in a search, and its volume is found, if it has one. -/
theorem findvol_works {r : Bool} (h : Runs findvol s r s') (hreads : Reads 2 s) :
    s'.socket = s.socket ∧
      (HasVolume (s.world.answer s.now).data (s.world.answer (s.now + 1)).data → r = true) := by
  obtain ⟨u, t, hfail, h⟩ := runs_bind.mp h
  obtain ⟨u, t₁, hzero, h⟩ := runs_bind.mp h
  have hquiet := (setFail_quiet hfail).trans (setDrv_quiet hzero fun _ => rfl)
  obtain ⟨ok, t₂, htable, h⟩ := runs_bind.mp h
  obtain ⟨rfl, hone⟩ := rdTry_works htable (hreads.of_quiet hquiet)
  have hreads₂ := (hreads.of_quiet hquiet).of_oneRead hone
  have htable : t₂.drv.secbuf = (s.world.answer s.now).data := by
    rw [hone.data, hquiet.world, hquiet.now]
  have hsame : t₂.socket = s.socket := hone.socket.trans hquiet.socket
  obtain ⟨u, t₃, hfail, h⟩ := runs_bind.mp h
  have hquiet₃ := setFail_quiet hfail
  obtain ⟨d, t₃, hdrv, h⟩ := runs_bind.mp h
  obtain ⟨rfl, rfl⟩ := runs_getDrv hdrv
  rw [hquiet₃.secbuf, htable] at h
  have hsame₃ : t₃.socket = s.socket := hquiet₃.socket.trans hsame
  rcases runs_ite.mp h with ⟨hmark, h⟩ | ⟨hmark, h⟩
  · obtain ⟨rfl, rfl⟩ := runs_pure.mp h
    exact ⟨hsame₃, fun hvol => absurd hvol.1 hmark⟩
  cases hfat : fatPartition (s.world.answer s.now).data with
  | none =>
      simp only [hfat] at h
      rcases runs_ite.mp h with ⟨hboot, h⟩ | ⟨hboot, h⟩
      · obtain ⟨hsocket, -⟩ := takeBpb_spec h
        obtain ⟨u, t₄, -, h⟩ := runs_bind.mp h
        obtain ⟨rfl, -⟩ := runs_pure.mp h
        exact ⟨hsocket.trans hsame₃, fun _ => rfl⟩
      · obtain ⟨u, t₄, hfail, h⟩ := runs_bind.mp h
        obtain ⟨rfl, rfl⟩ := runs_pure.mp h
        refine ⟨(setFail_quiet hfail).socket.trans hsame₃, ?_⟩
        rintro ⟨-, ⟨-, hyes⟩ | ⟨hsome, -⟩⟩
        · exact absurd hyes hboot
        · rw [hfat] at hsome
          cases hsome
  | some eax =>
      simp only [hfat] at h
      obtain ⟨u, t₄, hset, h⟩ := runs_bind.mp h
      have hquiet₄ := hquiet₃.trans (setDrv_quiet hset fun _ => rfl)
      obtain ⟨ok, t₅, hsector, h⟩ := runs_bind.mp h
      obtain ⟨rfl, hone₅⟩ := rdTry_works hsector (hreads₂.of_quiet hquiet₄)
      have hboot₅ : t₅.drv.secbuf = (s.world.answer (s.now + 1)).data := by
        rw [hone₅.data, hquiet₄.world, hquiet₄.now, hone.world, hone.now, hquiet.world, hquiet.now]
      have hsame₅ : t₅.socket = s.socket := (hone₅.socket.trans hquiet₄.socket).trans hsame
      obtain ⟨u, t₆, hfail, h⟩ := runs_bind.mp h
      have hquiet₆ := setFail_quiet hfail
      obtain ⟨d, t₆, hdrv, h⟩ := runs_bind.mp h
      obtain ⟨rfl, rfl⟩ := runs_getDrv hdrv
      rw [hquiet₆.secbuf, hboot₅] at h
      have hsame₆ : t₆.socket = s.socket := hquiet₆.socket.trans hsame₅
      rcases runs_ite.mp h with ⟨hmark₆, h⟩ | ⟨hmark₆, h⟩
      · obtain ⟨rfl, rfl⟩ := runs_pure.mp h
        refine ⟨hsame₆, ?_⟩
        rintro ⟨-, ⟨hnone, -⟩ | ⟨-, hyes, -⟩⟩
        · rw [hfat] at hnone
          cases hnone
        · exact absurd hyes hmark₆
      rcases runs_ite.mp h with ⟨hboot, h⟩ | ⟨hboot, h⟩
      · obtain ⟨hsocket, -⟩ := takeBpb_spec h
        obtain ⟨u, t₇, -, h⟩ := runs_bind.mp h
        obtain ⟨rfl, -⟩ := runs_pure.mp h
        exact ⟨hsocket.trans hsame₆, fun _ => rfl⟩
      · obtain ⟨rfl, rfl⟩ := runs_pure.mp h
        refine ⟨hsame₆, ?_⟩
        rintro ⟨-, ⟨hnone, -⟩ | ⟨-, -, hyes⟩⟩
        · rw [hfat] at hnone
          cases hnone
        · exact absurd hyes hboot

theorem sdStart_works {r : Bool} (h : Runs sdStart s r s') (hcard : s.socket.card.isSome = true)
    (hbefore : s.world.before s.now = []) (hduring : s.world.during (s.now + 1) = [])
    (hstarts : (s.world.answer s.now).starts = true) (hok : (s.world.answer s.now).ok = true) :
    r = true ∧ s'.socket.up = true ∧ s'.world = s.world ∧ s'.now = s.now + 1 := by
  have hsocket := looked_socket hbefore
  have hin : s.looked.socket.card.isSome = true := by rw [hsocket, hcard]
  obtain ⟨a, t, hstart, h⟩ := runs_bind.mp h
  obtain ⟨a₁, t₁, hlook, hstart⟩ := runs_bind.mp hstart
  obtain ⟨rfl, rfl⟩ := runs_look hlook
  obtain ⟨rfl, rfl⟩ := runs_modifyGet.mp hstart
  rw [if_pos hin] at h
  obtain ⟨u, t, hset, h⟩ := runs_bind.mp h
  obtain rfl := runs_setDrv hset
  obtain ⟨rfl, rfl⟩ := runs_pure.mp h
  refine ⟨hok, ?_, rfl, rfl⟩
  have htakes : s.looked.world.during s.looked.now = [] := hduring
  dsimp only
  rw [htakes, hstarts, Socket.started_untouched, hin]
  rfl

theorem restart_works {r : Bool} (h : Runs restart s r s') (hw : Working s) :
    s'.socket.up = true ∧
      (HasVolume (s.world.answer (s.now + 2)).data (s.world.answer (s.now + 3)).data → r = true) := by
  obtain ⟨u, t, hfail, h⟩ := runs_bind.mp h
  have hquiet := setFail_quiet hfail
  obtain ⟨isin, t₁, hcard, h⟩ := runs_bind.mp h
  obtain ⟨rfl, rfl⟩ := runs_cardIn hcard
  have hin : t.looked.socket = s.socket := by
    rw [looked_socket, hquiet.socket]
    rw [hquiet.world, hquiet.now]
    exact (hw.stays _ (Nat.le_refl _) (by omega)).1
  rcases runs_ite.mp h with ⟨hout, h⟩ | ⟨-, h⟩
  · rw [hin, hw.card] at hout
    cases hout
  obtain ⟨u, t₂, hfail, h⟩ := runs_bind.mp h
  have hquiet₂ := setFail_quiet hfail
  have hworld₂ : t₂.world = s.world := hquiet₂.world.trans hquiet.world
  have hnow₂ : t₂.now = s.now + 1 := by
    rw [hquiet₂.now]
    exact congrArg (· + 1) hquiet.now
  have hsocket₂ : t₂.socket = s.socket := hquiet₂.socket.trans hin
  obtain ⟨ok, t₃, hstart, h⟩ := runs_bind.mp h
  have hnext : s.now ≤ s.now + 1 ∧ s.now + 1 < s.now + 4 := by omega
  obtain ⟨rfl, hup, hworld, hnow⟩ := sdStart_works hstart (by rw [hsocket₂, hw.card])
    (by rw [hworld₂, hnow₂]; exact (hw.stays _ hnext.1 hnext.2).1)
    (by rw [hworld₂, hnow₂]; exact (hw.stays _ (by omega) (by omega)).2)
    (by rw [hworld₂, hnow₂]; exact hw.starts _ hnext.1 hnext.2)
    (by rw [hworld₂, hnow₂]; exact hw.ok _ hnext.1 hnext.2)
  rw [hworld₂] at hworld
  rw [hnow₂] at hnow
  have hreads : Reads 2 t₃ := by
    refine ⟨hup, ?_, ?_⟩
    · intro n hn hlt
      rw [hworld]
      exact (hw.stays n (by omega) (by omega)).1
    · intro n hn hlt
      rw [hworld]
      exact hw.ok n (by omega) (by omega)
  obtain ⟨found, t₄, hfind, h⟩ := runs_bind.mp h
  obtain ⟨hsame, hfound⟩ := findvol_works hfind hreads
  rw [hworld, hnow] at hfound
  obtain ⟨u, t₅, hnote, h⟩ := runs_bind.mp h
  obtain rfl := runs_modify.mp hnote
  obtain ⟨rfl, rfl⟩ := runs_pure.mp h
  refine ⟨?_, hfound⟩
  have hup₄ : t₄.socket.up = true := by rw [hsame, hup]
  cases r with
  | false => exact hup₄
  | true => exact hup₄

theorem Quiet.looked (h : Quiet s s') : Quiet s.looked s'.looked := by
  obtain ⟨hworld, hnow, hsocket, hsecbuf⟩ := h
  refine ⟨hworld, congrArg (· + 1) hnow, ?_, hsecbuf⟩
  rw [Sys.looked, Sys.looked, hsocket, hworld, hnow]

theorem Working.of_quiet (hw : Working s) (hq : Quiet s s') : Working s' := by
  obtain ⟨hworld, hnow, hsocket, -⟩ := hq
  refine ⟨?_, ?_, ?_, ?_⟩
  · rw [hsocket]; exact hw.card
  · rw [hworld, hnow]; exact hw.stays
  · rw [hworld, hnow]; exact hw.starts
  · rw [hworld, hnow]; exact hw.ok

/-- MEDIA CHECK answers "changed" when the flag is set or it finds the socket empty, and a
card that works is brought up; otherwise it answers "not changed" and does nothing. -/
theorem doMedia_noticed {u : Unit} (h : Runs doMedia s u s') :
    (s.drv.gone = true ∨ s.looked.socket.card = none) ∧ Noticed s s'.drv.req s' ∨
      ¬ (s.drv.gone = true ∨ s.looked.socket.card = none) ∧ s'.drv.req.media = 1 ∧
        s'.socket = s.looked.socket ∧ s'.drv.gone = false := by
  obtain ⟨u, t, hone, h⟩ := runs_bind.mp h
  have hquiet : Quiet s t := setDrv_quiet hone fun _ => rfl
  have hlooked := hquiet.looked
  have hsame : t.drv.gone = s.drv.gone := (keeps_answerMedia 1 hone).gone
  have hmedia : t.drv.req.media = 1 := by
    rw [runs_setDrv hone]
    exact media_answer _ _
  obtain ⟨isin, t₁, hcard, h⟩ := runs_bind.mp h
  obtain ⟨rfl, rfl⟩ := runs_cardIn hcard
  rw [hlooked.socket] at h
  rcases runs_ite.mp h with ⟨hout, h⟩ | ⟨hin, h⟩
  · have hnone : s.looked.socket.card = none := not_isSome_iff.mp hout
    have hnot : ¬ Working s.looked := by
      intro hw
      have hsome := hw.card
      rw [hnone] at hsome
      cases hsome
    obtain ⟨u, t₂, hgone, h⟩ := runs_bind.mp h
    refine .inl ⟨.inr hnone, ?_, fun hw => absurd hw hnot, fun hw => absurd hw hnot⟩
    rw [runs_setDrv h]
    exact media_answer _ _
  have hsome : s.looked.socket.card ≠ none := fun hnone => hin (not_isSome_iff.mpr hnone)
  obtain ⟨d, t₂, hdrv, h⟩ := runs_bind.mp h
  obtain ⟨rfl, rfl⟩ := runs_getDrv hdrv
  rcases runs_ite.mp h with ⟨hgone, h⟩ | ⟨hgone, h⟩
  · obtain ⟨r, t₃, hrestart, h⟩ := runs_bind.mp h
    obtain ⟨-, -, -, hfound⟩ := restart_spec hrestart
    have hworks : Working s.looked → t₃.socket.up = true ∧
        (HasVolume (s.world.answer (s.now + 3)).data (s.world.answer (s.now + 4)).data → r = true) := by
      intro hw
      have hrestarted := restart_works hrestart (hw.of_quiet hlooked)
      rw [hlooked.world, hlooked.now] at hrestarted
      exact hrestarted
    refine .inl ⟨.inl (hsame.symm.trans hgone), ?_⟩
    cases r with
    | false =>
        have hanswer : Runs (answerMedia 0xFF) t₃ u s' := h
        obtain rfl := runs_setDrv hanswer
        exact ⟨media_answer _ _, fun hw => (hworks hw).1, fun hw hvol => by cases (hworks hw).2 hvol⟩
    | true =>
        obtain ⟨u, t₄, hclear, h⟩ := runs_bind.mp h
        obtain rfl := runs_setDrv hclear
        obtain rfl := runs_setDrv h
        obtain ⟨f, hf⟩ := hfound rfl
        exact ⟨media_answer _ _, fun hw => (hworks hw).1,
          fun _ _ => ⟨rfl, f, hf.search, hf.here, hf.found, hf.up⟩⟩
  · have hnot : s.drv.gone = false := hsame.symm.trans (Bool.eq_false_iff.mpr hgone)
    obtain ⟨-, rfl⟩ := runs_pure.mp h
    refine .inr ⟨?_, hmedia, hlooked.socket, hsame.trans hnot⟩
    rintro (hset | hnone)
    · rw [hnot] at hset
      cases hset
    · exact hsome hnone

theorem Next.noticed_iff {m : Req × Req} (h : Next s m s') (hcmd : m.1.cmd = 1) :
    Noticed s m.2 s' ↔ s.drv.gone = true ∨ s.looked.socket.card = none := by
  obtain ⟨t, hgo, hq, rfl⟩ := runs_interrupt h.runs
  rw [hcmd] at hgo
  have hasked : Quiet s { s with drv := s.drv.asked m.1 } := ⟨rfl, rfl, rfl, rfl⟩
  have hmedia : m.2.media = t.drv.req.media := by
    rw [hq]
    rfl
  rcases doMedia_noticed hgo with ⟨hseen, hchanged, hup, hvolume⟩ | ⟨hmissed, hone, -, -⟩
  · refine iff_of_true ⟨hmedia.trans hchanged, fun hw => hup (hw.of_quiet hasked.looked), ?_⟩ hseen
    intro hw hvol
    obtain ⟨hgone, f, hf⟩ := hvolume (hw.of_quiet hasked.looked) hvol
    exact ⟨hgone, f, hf.search, hf.here, hf.found, hf.up⟩
  · refine iff_of_false ?_ hmissed
    intro hn
    have hff := hn.changed
    rw [hmedia, hone] at hff
    revert hff
    decide

/-- A MEDIA CHECK at `s`, the first after `v`, owes it to a card taken out in between. -/
def RemovalNoticed (v s : Sys Drv) (q' : Req) (s' : Sys Drv) : Prop :=
  v.socket.removals < s.looked.socket.removals → Noticed s q' s'

/-- **A removal is noticed exactly when something was asked of the driver while the socket was
empty**, and MEDIA CHECK itself may be what was. -/
theorem removalNoticed_iff {v : Sys Drv} {ls : List (Req × Req)} {m : Req × Req}
    (hrun : Trace NextOther v ls s) (h : Next s m s') (hcmd : m.1.cmd = 1) :
    RemovalNoticed v s m.2 s' ↔ s.looked.socket.removals ≤ v.socket.removals ∨
      v.drv.gone = true ∨ Trace.Meets NextOther FindsOut v ls s ∨ s.looked.socket.card = none := by
  rw [RemovalNoticed, h.noticed_iff hcmd, run_gone hrun, or_assoc]
  exact ⟨fun himp => (Nat.lt_or_ge _ _).symm.imp_right himp,
    fun hor hlt => hor.resolve_left (Nat.not_le_of_lt hlt)⟩

end Works

end SdSys

namespace Mmc

/-! ### The Coherent driver -/

section Opens

variable {s s' : Sys Drv}

/-- The driver's data is as it was. -/
structure Kept (s s' : Sys Drv) : Prop where
  drv : s'.drv = s.drv

instance : Std.Refl Kept where
  refl _ := ⟨rfl⟩

instance : IsTrans (Sys Drv) Kept where
  trans _ _ _ hst htu := ⟨htu.drv.trans hst.drv⟩

theorem keeps_getDrv : Keeps Kept (getDrv : MmcM Drv) := by
  intro s d s' h
  obtain ⟨-, rfl⟩ := runs_getDrv h
  exact refl_of Kept s'

theorem keeps_dataCommand (w : Bool) (n : Nat) (b : Block) :
    Keeps Kept (dataCommand w n b : MmcM (Bool × Block)) := by
  intro s p s' h
  obtain ⟨d, -, -, -, -, rfl⟩ := runs_dataCommand h
  exact ⟨rfl⟩

theorem keeps_sdRead (lba : DWord) (p : Nat) : Keeps Kept (sdRead lba p) :=
  keeps_getDrv.bind fun _ => (keeps_dataCommand _ _ _).bind fun _ =>
    (keeps_modify fun _ => ⟨rfl⟩).bind fun _ => keeps_pure

theorem keeps_sdWrite (lba : DWord) (p : Nat) : Keeps Kept (sdWrite lba p) :=
  keeps_get.bind fun _ => (keeps_dataCommand _ _ _).bind fun _ => keeps_pure

theorem keeps_tryLoop {cmd : MmcM Bool} (hcmd : Keeps Kept cmd) : ∀ t, Keeps Kept (tryLoop cmd t)
  | 0 => keeps_pure
  | t + 1 => hcmd.bind fun _ => keeps_ite keeps_pure (keeps_tryLoop hcmd t)

theorem keeps_blockLoop : ∀ n bno addr bp, Keeps Kept (blockLoop n bno addr bp)
  | 0, _, _, _ => keeps_pure
  | n + 1, bno, addr, _ =>
      (keeps_tryLoop (keeps_ite (keeps_sdWrite bno addr) (keeps_sdRead bno addr)) TRIES).bind
        fun _ => keeps_ite (keeps_blockLoop n _ _ _) keeps_pure

/-- A request that looks at the card finds the socket empty. -/
structure FindsOut (s : Sys Drv) (l : Buf × Buf) : Prop where
  looks : l.1.atEnd s.drv = false
  out : s.looked.socket.card = none

/-- A request, and how it ends. -/
def Next (s : Sys Drv) (l : Buf × Buf) (s' : Sys Drv) : Prop := Runs (mmcblock l.1) s l.2 s'

theorem noteCard_spec {u : Unit} (h : Runs noteCard s u s') :
    s'.drv.up = (s.drv.up && s.looked.socket.card.isSome) ∧ s'.drv.starts = s.drv.starts := by
  obtain ⟨isin, t, hcard, h⟩ := runs_bind.mp h
  obtain ⟨rfl, rfl⟩ := runs_cardIn hcard
  cases hin : s.looked.socket.card.isSome with
  | false =>
      rw [hin] at h
      have hset : Runs (setDrv fun d => { d with up := false }) s.looked u s' := h
      rw [runs_setDrv hset]
      exact ⟨(Bool.and_false _).symm, rfl⟩
  | true =>
      rw [hin] at h
      obtain ⟨-, rfl⟩ := runs_pure.mp h
      exact ⟨(Bool.and_true _).symm, rfl⟩

theorem mmcblock_spec {bp r : Buf} (h : Runs (mmcblock bp) s r s') :
    (s'.drv.up = false ↔ s.drv.up = false ∨ FindsOut s (bp, r)) ∧ s'.drv.starts = s.drv.starts := by
  obtain ⟨d, t, hdrv, h⟩ := runs_bind.mp h
  obtain ⟨rfl, rfl⟩ := runs_getDrv hdrv
  rcases runs_ite.mp h with ⟨hend, h⟩ | ⟨hend, h⟩
  · obtain ⟨-, rfl⟩ := runs_pure.mp h
    refine ⟨⟨.inl, fun hor => hor.resolve_right ?_⟩, rfl⟩
    rintro ⟨hlooks, -⟩
    rw [hend] at hlooks
    cases hlooks
  obtain ⟨u, t₁, hnote, h⟩ := runs_bind.mp h
  obtain ⟨hup, hstarts⟩ := noteCard_spec hnote
  obtain ⟨d, t₂, hdrv, h⟩ := runs_bind.mp h
  obtain ⟨rfl, rfl⟩ := runs_getDrv hdrv
  have hkept : Kept t₂ s' := keeps_ite keeps_pure (keeps_blockLoop _ _ _ _) h
  rw [hkept.drv, hup, hstarts, Bool.and_eq_false_iff]
  refine ⟨or_congr_right ?_, rfl⟩
  rw [Option.isSome_eq_false_iff, Option.isNone_iff_eq_none]
  exact ⟨fun hout => ⟨Bool.eq_false_iff.mpr hend, hout⟩, fun hf => hf.out⟩

/-- **The flag** is clear when it was, or a request has found the socket empty. -/
theorem run_up {v : Sys Drv} {ls : List (Buf × Buf)} (hrun : Trace Next v ls s) :
    s.drv.up = false ↔ v.drv.up = false ∨ Trace.Meets Next FindsOut v ls s := by
  have hstep : ∀ {t l u}, Next t l u → (u.drv.up = false ↔ t.drv.up = false ∨ FindsOut t l) :=
    fun hnext => (mmcblock_spec hnext).1
  exact Trace.flag_iff hrun hstep

/-- `sd_start` has run, or not. -/
structure Later (s s' : Sys Drv) : Prop where
  starts : s.drv.starts ≤ s'.drv.starts

instance : Std.Refl Later where
  refl _ := ⟨Nat.le_refl _⟩

instance : IsTrans (Sys Drv) Later where
  trans _ _ _ hst htu := ⟨Nat.le_trans hst.starts htu.starts⟩

theorem sdStart_spec {r : Bool} (h : Runs sdStart s r s') : s'.drv.starts = s.drv.starts + 1 := by
  obtain ⟨u, t, hset, h⟩ := runs_bind.mp h
  have hone : t.drv.starts = s.drv.starts + 1 := by rw [runs_setDrv hset]
  rw [← hone]
  obtain ⟨isin, t₁, hcard, h⟩ := runs_bind.mp h
  obtain ⟨rfl, rfl⟩ := runs_cardIn hcard
  rcases runs_ite.mp h with ⟨-, h⟩ | ⟨-, h⟩
  · obtain ⟨-, rfl⟩ := runs_pure.mp h
    rfl
  obtain ⟨a, t₂, hstart, h⟩ := runs_bind.mp h
  have hdrv : t₂.drv = t.drv := by
    obtain ⟨a₁, t₃, hlook, hstart⟩ := runs_bind.mp hstart
    obtain ⟨-, rfl⟩ := runs_look hlook
    obtain ⟨-, rfl⟩ := runs_modifyGet.mp hstart
    split <;> rfl
  rw [← hdrv]
  cases a with
  | none =>
      obtain ⟨-, rfl⟩ := runs_pure.mp h
      rfl
  | some a =>
      obtain ⟨u, t₃, hccs, h⟩ := runs_bind.mp h
      obtain rfl := runs_setDrv hccs
      rcases runs_ite.mp h with ⟨-, h⟩ | ⟨-, h⟩
      · obtain ⟨-, rfl⟩ := runs_pure.mp h
        rfl
      · obtain ⟨u, t₄, hup, h⟩ := runs_bind.mp h
        obtain rfl := runs_setDrv hup
        obtain ⟨-, rfl⟩ := runs_pure.mp h
        rfl

theorem keeps_setDrv {f : Drv → Drv} (hf : ∀ d, d.starts ≤ (f d).starts) :
    Keeps Later (setDrv f : MmcM Unit) := by
  intro s u s' h
  rw [runs_setDrv h]
  exact ⟨hf _⟩

theorem keeps_cardIn : Keeps Later (cardIn : MmcM Bool) := by
  intro s b s' h
  obtain ⟨-, rfl⟩ := runs_cardIn h
  exact ⟨Nat.le_refl _⟩

theorem keeps_sdStart : Keeps Later sdStart :=
  fun _ _ _ h => ⟨by rw [sdStart_spec h]; exact Nat.le_succ _⟩

theorem keeps_getDrv_later : Keeps Later (getDrv : MmcM Drv) :=
  keeps_getDrv.mono fun _ _ h => ⟨by rw [h.drv]⟩

theorem keeps_bringUp : Keeps Later bringUp :=
  keeps_getDrv_later.bind fun _ => keeps_ite keeps_pure keeps_sdStart

theorem keeps_mmcblock (bp : Buf) : Keeps Later (mmcblock bp) :=
  fun _ _ _ h => ⟨Nat.le_of_eq (mmcblock_spec h).2.symm⟩

theorem keeps_checkPart (minor : Byte) : Keeps Later (checkPart minor) :=
  keeps_getDrv_later.bind fun _ => keeps_ite keeps_pure (keeps_ite keeps_pure keeps_pure)

/-- The end of an open, once the card is up. -/
theorem keeps_findPart {fdisk : MmcM Unit} (hfdisk : Keeps Later fdisk) (minor : Byte) :
    Keeps Later (getDrv >>= fun d : Drv =>
      if (d.pparm (part minor)).size = 0 then fdisk >>= fun _ => checkPart minor else checkPart minor) :=
  keeps_getDrv_later.bind fun _ =>
    keeps_ite (hfdisk.bind fun _ => keeps_checkPart minor) (keeps_checkPart minor)

theorem keeps_setUp (b : Bool) : Keeps Later (setDrv fun d => { d with up := b } : MmcM Unit) :=
  keeps_setDrv fun _ => Nat.le_refl _

theorem keeps_openWith {fdisk : MmcM Unit} (hfdisk : Keeps Later fdisk) (minor : Byte) :
    Keeps Later (openWith fdisk minor) :=
  keeps_ite keeps_pure <| keeps_cardIn.bind fun _ =>
    keeps_ite ((keeps_setUp false).bind fun _ => keeps_pure) <|
      keeps_bringUp.bind fun _ => keeps_ite keeps_pure <|
        keeps_ite keeps_pure (keeps_findPart hfdisk minor)

theorem keeps_bread (cache : BufferCache) : Keeps Later (bread cache) := by
  refine keeps_get.bind fun s => ?_
  cases cache.block0 s.now with
  | some b => exact keeps_pure
  | none => exact (keeps_mmcblock _).bind fun _ => keeps_get.bind fun _ => keeps_pure

theorem keeps_fdisk (cache : BufferCache) : Keeps Later (fdisk cache) := by
  refine (keeps_openWith keeps_pure XDEV).bind fun e => ?_
  cases e with
  | some e => exact keeps_pure
  | none =>
      refine (keeps_bread cache).bind fun b => ?_
      cases b with
      | none => exact keeps_pure
      | some b => exact keeps_ite (keeps_setDrv fun _ => Nat.le_refl _) keeps_pure

/-- An open of a card known to be down runs `sd_start` before it succeeds. -/
theorem openWith_starts {fdisk : MmcM Unit} (hfdisk : Keeps Later fdisk) {minor : Byte}
    (h : Runs (openWith fdisk minor) s none s')
    (hdown : s.drv.up = false ∨ s.looked.socket.card = none) : s.drv.starts < s'.drv.starts := by
  rcases runs_ite.mp h with ⟨-, h⟩ | ⟨-, h⟩
  · cases (runs_pure.mp h).1
  obtain ⟨isin, t, hcard, h⟩ := runs_bind.mp h
  obtain ⟨rfl, rfl⟩ := runs_cardIn hcard
  rcases runs_ite.mp h with ⟨-, h⟩ | ⟨hin, h⟩
  · obtain ⟨u, t₁, -, h⟩ := runs_bind.mp h
    cases (runs_pure.mp h).1
  have hup : s.drv.up = false := hdown.resolve_right fun hnone => hin (not_isSome_iff.mpr hnone)
  obtain ⟨ok, t₁, hbring, h⟩ := runs_bind.mp h
  have hone : t₁.drv.starts = s.drv.starts + 1 := by
    obtain ⟨d, t₂, hdrv, hbring⟩ := runs_bind.mp hbring
    obtain ⟨rfl, rfl⟩ := runs_getDrv hdrv
    rcases runs_ite.mp hbring with ⟨hset, -⟩ | ⟨-, hbring⟩
    · have hset' : s.drv.up = true := hset
      rw [hup] at hset'
      cases hset'
    · have hstart := sdStart_spec hbring
      exact hstart
  have hrest : Keeps Later (if (!ok) = true then pure (some Errno.EIO) else
      if part minor = WHOLE then pure none else getDrv >>= fun d : Drv =>
        if (d.pparm (part minor)).size = 0 then fdisk >>= fun _ => checkPart minor
        else checkPart minor : MmcM (Option Errno)) :=
    keeps_ite keeps_pure (keeps_ite keeps_pure (keeps_findPart hfdisk minor))
  have hle := (hrest h).starts
  omega

/-- One of a card taken to be up succeeds at once. -/
theorem mmcopen_missed {cache : BufferCache} {minor : Byte} {e : Option Errno} (hx : minor = XDEV)
    (h : Runs (mmcopen cache minor) s e s') (hup : s.drv.up = true)
    (hin : s.looked.socket.card ≠ none) : e = none ∧ s'.drv.starts = s.drv.starts := by
  have hwhole : part minor = WHOLE := by rw [hx]; rfl
  rcases runs_ite.mp h with ⟨hminor, -⟩ | ⟨-, h⟩
  · rw [hx] at hminor
    exact absurd hminor (by decide)
  obtain ⟨isin, t, hcard, h⟩ := runs_bind.mp h
  obtain ⟨rfl, rfl⟩ := runs_cardIn hcard
  rcases runs_ite.mp h with ⟨hout, -⟩ | ⟨-, h⟩
  · exact absurd (not_isSome_iff.mp hout) hin
  obtain ⟨ok, t₁, hbring, h⟩ := runs_bind.mp h
  obtain ⟨d, t₂, hdrv, hbring⟩ := runs_bind.mp hbring
  obtain ⟨rfl, rfl⟩ := runs_getDrv hdrv
  rcases runs_ite.mp hbring with ⟨-, hbring⟩ | ⟨hclear, -⟩
  · obtain ⟨rfl, rfl⟩ := runs_pure.mp hbring
    rcases runs_ite.mp h with ⟨hfail, -⟩ | ⟨-, h⟩
    · cases hfail
    rcases runs_ite.mp h with ⟨-, h⟩ | ⟨hnot, -⟩
    · obtain ⟨rfl, rfl⟩ := runs_pure.mp h
      exact ⟨rfl, rfl⟩
    · exact absurd hwhole hnot
  · exact absurd hup hclear

/-- An open at `s`, the first after `v`, owes it to a card taken out in between. -/
def RemovalNoticed (v s : Sys Drv) (e : Option Errno) (s' : Sys Drv) : Prop :=
  v.socket.removals < s.looked.socket.removals → e = none → s.drv.starts < s'.drv.starts

/-- A removal between `v` and the open at `s` has been seen, if there was one. -/
def RemovalSeen (v : Sys Drv) (ls : List (Buf × Buf)) (s : Sys Drv) : Prop :=
  s.looked.socket.removals ≤ v.socket.removals ∨ v.drv.up = false ∨ Trace.Meets Next FindsOut v ls s ∨
    s.looked.socket.card = none

theorem removalNoticed_of_seen {cache : BufferCache} {minor : Byte} {e : Option Errno} {v : Sys Drv}
    {ls : List (Buf × Buf)} (hrun : Trace Next v ls s) (h : Runs (mmcopen cache minor) s e s')
    (hseen : RemovalSeen v ls s) : RemovalNoticed v s e s' := by
  rintro hout rfl
  rw [RemovalSeen, ← or_assoc (a := v.drv.up = false), ← run_up hrun] at hseen
  exact openWith_starts (keeps_fdisk cache) h (hseen.resolve_left (Nat.not_le_of_lt hout))

theorem seen_of_removalNoticed {cache : BufferCache} {minor : Byte} {e : Option Errno} {v : Sys Drv}
    {ls : List (Buf × Buf)} (hrun : Trace Next v ls s) (hx : minor = XDEV)
    (h : Runs (mmcopen cache minor) s e s') (hnoticed : RemovalNoticed v s e s') : RemovalSeen v ls s := by
  rw [RemovalSeen, ← or_assoc (a := v.drv.up = false), ← run_up hrun]
  refine (Nat.lt_or_ge _ _).symm.imp_right fun hout => ?_
  by_contra hnot
  obtain ⟨hup, hin⟩ := not_or.mp hnot
  obtain ⟨rfl, hsame⟩ := mmcopen_missed hx h (Bool.eq_true_of_not_eq_false hup) hin
  have hlt := hnoticed hout rfl
  omega

end Opens

end Mmc

/-! ### Both drivers -/

/-- **A removal is noticed exactly when a driver was asked for something while the socket was
empty.** MEDIA CHECK of `SD.SYS` then answers "changed" and brings up a card that works; an
open of the Coherent driver then runs `sd_start` before it succeeds, and of the whole card
only then. -/
theorem removal_noticed_iff (cache : Mmc.BufferCache) :
    (∀ {v s s' : Sys SdSys.Drv} {ls : List (SdSys.Req × SdSys.Req)} {m : SdSys.Req × SdSys.Req},
      Trace SdSys.NextOther v ls s → SdSys.Next s m s' → m.1.cmd = 1 →
        (SdSys.RemovalNoticed v s m.2 s' ↔ s.looked.socket.removals ≤ v.socket.removals ∨
          v.drv.gone = true ∨ Trace.Meets SdSys.NextOther SdSys.FindsOut v ls s ∨
            s.looked.socket.card = none)) ∧
    ∀ {v s s' : Sys Mmc.Drv} {ls : List (Mmc.Buf × Mmc.Buf)} {minor : Byte} {e : Option Mmc.Errno},
      Trace Mmc.Next v ls s → Runs (Mmc.mmcopen cache minor) s e s' →
        (Mmc.RemovalSeen v ls s → Mmc.RemovalNoticed v s e s') ∧
        (minor = Mmc.XDEV → Mmc.RemovalNoticed v s e s' → Mmc.RemovalSeen v ls s) := by
  constructor
  · intro v s s' ls m hrun h hcmd
    exact SdSys.removalNoticed_iff hrun h hcmd
  · intro v s s' ls minor e hrun h
    exact ⟨Mmc.removalNoticed_of_seen hrun h, fun hx => Mmc.seen_of_removalNoticed hrun hx h⟩

/-! ### Out and in between two looks -/

/-- A card that works, out and in again at the `k`-th look. -/
def blinkAt (k : Nat) : World where
  before n := if n = k then [.remove, .insert 0] else []
  during _ := []
  answer _ := ⟨true, true, true, SdSys.bootBlock⟩

namespace SdSys

/-- The driver after INIT, when the card is about to be out and in again, and after a MEDIA
CHECK. -/
def blinkInit : Sys Drv := (answered (bare 0) { swapping with world := blinkAt 3 }).2
def blinkChecked : Sys Drv := (answered (bare 1) blinkInit).2

end SdSys

namespace Mmc

/-- The driver loaded, with a card in. -/
def loaded (w : World) : Sys Drv where
  world := w
  now := 0
  socket := ⟨some 0, false, 0, Socket.idle_first⟩
  log := []
  mem := fun _ => 0
  drv := ⟨false, false, fun _ => ⟨0, 0⟩, 0⟩

def emptyCache : BufferCache := ⟨fun _ => none, 0⟩

/-- What an open of the whole card comes to. -/
def opened (s : Sys Drv) : Option Errno × Sys Drv :=
  match (mmcopen emptyCache XDEV).run s with
  | .ok r => r
  | .error e => e.elim

theorem runs_opened (s : Sys Drv) :
    Runs (mmcopen emptyCache XDEV) s (opened s).1 (opened s).2 := by
  obtain ⟨e, s', hrun⟩ := returns (mmcopen emptyCache XDEV) s
  have heq : (mmcopen emptyCache XDEV).run s = .ok (e, s') := hrun
  rw [opened, heq]
  exact heq

end Mmc

/-- A card found out by MEDIA CHECK, and a card that changed before the first open. -/
theorem removal_noticed_swap :
    SdSys.RemovalNoticed SdSys.swapInit SdSys.swapInit (SdSys.answered (SdSys.bare 1) SdSys.swapInit).1
        SdSys.swapOut ∧
      Mmc.RemovalNoticed (Mmc.loaded (blinkAt 0)) (Mmc.loaded (blinkAt 0))
        (Mmc.opened (Mmc.loaded (blinkAt 0))).1 (Mmc.opened (Mmc.loaded (blinkAt 0))).2 := by
  obtain ⟨hsd, hmmc⟩ := removal_noticed_iff Mmc.emptyCache
  have hcheck : SdSys.Next SdSys.swapInit
      (SdSys.bare 1, (SdSys.answered (SdSys.bare 1) SdSys.swapInit).1) SdSys.swapOut :=
    ⟨by decide, SdSys.runs_answered _ _⟩
  have hout : SdSys.swapInit.looked.socket.card = none := rfl
  exact ⟨(hsd .refl hcheck rfl).mpr (.inr (.inr (.inr hout))),
    (hmmc .refl (Mmc.runs_opened _)).1 (.inr (.inl rfl))⟩

/-- **A card out and in again between two requests is not noticed**: MEDIA CHECK answers "not
changed" and every read fails, an open succeeds with no `sd_start`. -/
theorem removal_unnoticed :
    SdSys.Loaded SdSys.blinkInit ∧
      ¬ SdSys.RemovalNoticed SdSys.blinkInit SdSys.blinkInit
        (SdSys.answered (SdSys.bare 1) SdSys.blinkInit).1 SdSys.blinkChecked ∧
      (SdSys.answered (SdSys.readReq 0x2000 3 1) SdSys.blinkChecked).1.status =
        SdSys.errorStatus SdSys.E_READ ∧
      ¬ Mmc.RemovalNoticed (Mmc.opened (Mmc.loaded (blinkAt 3))).2 (Mmc.opened (Mmc.loaded (blinkAt 3))).2
        (Mmc.opened (Mmc.opened (Mmc.loaded (blinkAt 3))).2).1
        (Mmc.opened (Mmc.opened (Mmc.loaded (blinkAt 3))).2).2 := by
  refine ⟨⟨_, SdSys.bare 0, _, rfl, SdSys.runs_answered _ _, rfl⟩, ?_, by decide +kernel, ?_⟩
  · intro hnoticed
    have hchanged := (hnoticed (by decide)).changed
    revert hchanged
    decide
  · intro hnoticed
    have hstarts := hnoticed (by decide) rfl
    revert hstarts
    decide

end Sbc386Ex.Sd

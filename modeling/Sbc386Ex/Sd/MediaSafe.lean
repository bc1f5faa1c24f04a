import Sbc386Ex.Sd.MediaChange

/-!
# Sbc386Ex.Sd.MediaSafe

The law of a changed card. Whatever is done to the socket, and wherever between the
driver's looks at it, a READ or WRITE that reports success was done on the card the volume
was found on, which has not been out since; and only a MEDIA CHECK that answers "changed"
finds another volume.
-/

namespace Sbc386Ex.Sd.SdSys

open Prog

/-! ### A transfer that succeeds -/

section Transfers

variable {s s' : Sys Drv}

/-- A READ that reports success ended on a card that is up. -/
theorem readLoop_up {n : Nat} : ∀ {s s' : Sys Drv} {u : Unit}, Runs (readLoop n) s u s' →
    s'.drv.status = ST_DONE → n = 0 ∧ s'.socket = s.socket ∨ s'.socket.up = true := by
  induction n with
  | zero =>
      intro s s' u h _
      obtain ⟨-, rfl⟩ := runs_pure.mp h
      exact .inl ⟨rfl, rfl⟩
  | succ n ih =>
      intro s s' u h hdone
      obtain ⟨ok, t, htry, h⟩ := runs_bind.mp h
      cases ok with
      | false =>
          have hset : Runs (setStatus (errorStatus E_READ)) t u s' := h
          obtain rfl := runs_setDrv hset
          exact absurd hdone (errorStatus_ne _)
      | true =>
          have hread := rdTry_up htry
          obtain ⟨u₁, t₁, hcopy, h⟩ := runs_bind.mp h
          obtain rfl := runs_modify.mp hcopy
          obtain ⟨u₂, t₂, hnext, h⟩ := runs_bind.mp h
          obtain rfl := runs_setDrv hnext
          rcases ih h hdone with ⟨-, hsame⟩ | hup
          · right
            rw [hsame]
            exact hread
          · exact .inr hup

theorem writeSector_up (h : Runs writeSector s true s') : s'.socket.up = true := by
  obtain ⟨u, t, hcopy, h⟩ := runs_bind.mp h
  obtain ⟨ok, t₁, hwrite, h⟩ := runs_bind.mp h
  cases ok with
  | false => cases (runs_pure.mp h).1
  | true =>
  obtain ⟨d, t₂, hdrv, h⟩ := runs_bind.mp h
  obtain ⟨rfl, rfl⟩ := runs_getDrv hdrv
  rcases runs_ite.mp h with ⟨-, h⟩ | ⟨-, h⟩
  · obtain ⟨-, rfl⟩ := runs_pure.mp h
    exact wrTry_up hwrite
  obtain ⟨ok, t₃, hread, h⟩ := runs_bind.mp h
  cases ok with
  | false => cases (runs_pure.mp h).1
  | true =>
      obtain ⟨rfl, -⟩ := compare_spec h
      exact rdTry_up hread

/-- And a WRITE. -/
theorem writeLoop_up {n : Nat} : ∀ {s s' : Sys Drv} {u : Unit}, Runs (writeLoop n) s u s' →
    s'.drv.status = ST_DONE → n = 0 ∧ s'.socket = s.socket ∨ s'.socket.up = true := by
  induction n with
  | zero =>
      intro s s' u h _
      obtain ⟨-, rfl⟩ := runs_pure.mp h
      exact .inl ⟨rfl, rfl⟩
  | succ n ih =>
      intro s s' u h hdone
      obtain ⟨ok, t, hone, h⟩ := runs_bind.mp h
      cases ok with
      | false =>
          have hset : Runs (setStatus (errorStatus E_WRITE)) t u s' := h
          obtain rfl := runs_setDrv hset
          exact absurd hdone (errorStatus_ne _)
      | true =>
          have hwritten := writeSector_up hone
          obtain ⟨u₁, t₁, hnext, h⟩ := runs_bind.mp h
          obtain rfl := runs_setDrv hnext
          rcases ih h hdone with ⟨-, hsame⟩ | hup
          · right
            rw [hsame]
            exact hwritten
          · exact .inr hup

/-- `getio` and a loop. -/
theorem getio_loop_up {loop : Nat → DosM Unit} {u : Unit}
    (hloop : ∀ {n s s' u}, Runs (loop n) s u s' → s'.drv.status = ST_DONE →
      n = 0 ∧ s'.socket = s.socket ∨ s'.socket.up = true)
    (h : Runs (getio >>= fun ok => if ok then getDrv >>= fun d => loop d.count.toNat else pure ()) s u s')
    (hdone : s'.drv.status = ST_DONE) (hcount : s.drv.req.count ≠ 0) : s'.socket.up = true := by
  obtain ⟨ok, t, hget, h⟩ := runs_bind.mp h
  rcases getio_spec hget with ⟨rfl, -, -, rfl⟩ | ⟨rfl, hrefused, -⟩
  · obtain ⟨d, t, hdrv, h⟩ := runs_bind.mp h
    obtain ⟨rfl, rfl⟩ := runs_getDrv hdrv
    rcases hloop h hdone with ⟨hzero, -⟩ | hup
    · exact absurd (BitVec.eq_of_toNat_eq hzero) hcount
    · exact hup
  · obtain ⟨-, rfl⟩ := runs_pure.mp h
    exact absurd hdone hrefused.status

theorem dispatch_up {cmd : Byte} (hcmd : cmd = 4 ∨ cmd = 8 ∨ cmd = 9) {u : Unit}
    (h : Runs (dispatch cmd) s u s') (hdone : s'.drv.status = ST_DONE) (hcount : s.drv.req.count ≠ 0) :
    s'.socket.up = true := by
  have hwrite : ∀ {v u}, Runs (writeRequest v) s u s' → s'.socket.up = true := by
    intro v u h
    obtain ⟨u₁, t, hset, h⟩ := runs_bind.mp h
    obtain rfl := runs_setDrv hset
    exact getio_loop_up writeLoop_up h hdone hcount
  rcases hcmd with rfl | rfl | rfl
  · exact getio_loop_up readLoop_up h hdone hcount
  · exact hwrite h
  · exact hwrite h

end Transfers

/-! ### Requests, one after another -/

/-- A request DOS makes after INIT, and the packet it gets back. -/
structure Next (s : Sys Drv) (l : Req × Req) (s' : Sys Drv) : Prop where
  cmd : l.1.cmd ≠ 0
  runs : Runs (interrupt l.1) s l.2 s'

/-- INIT has found a volume, and the driver stays. -/
def Loaded (s : Sys Drv) : Prop :=
  ∃ s₀ q q', q.cmd = 0 ∧ Runs (interrupt q) s₀ q' s ∧ q'.units = 1

/-- A READ or WRITE of at least one sector that reports success. -/
structure Succeeded (l : Req × Req) : Prop where
  transfer : l.1.cmd = 4 ∨ l.1.cmd = 8 ∨ l.1.cmd = 9
  sectors : l.1.count ≠ 0
  status : l.2.status = ST_DONE

/-- What the driver knows: the volume `f`, if no card is known to have been out, and if the
card is up, that it is `f`'s and has not been out since. -/
structure Known (f : Search) (s : Sys Drv) : Prop where
  search : s.drv.search = some f
  found : FoundIn s.log f
  removals : f.removals ≤ s.socket.removals
  volume : s.drv.gone = false → s.drv.poff = f.poff ∧ s.drv.vsize = f.vsize
  card : s.drv.gone = false → s.socket.up = true →
    s.socket.card = f.card ∧ s.socket.removals = f.removals

section Steps

variable {f : Search} {s s' : Sys Drv} {l : Req × Req}

theorem Known.of_held (hk : Known f s) (h : Held s s') : Known f s' := by
  have hlater := h.later
  have hgone : s'.drv.gone = false → s.drv.gone = false := by
    intro hnot
    cases hs : s.drv.gone with
    | false => rfl
    | true => exact absurd (h.gone hs) (by rw [hnot]; decide)
  refine ⟨h.search.trans hk.search, hk.found.mono hlater.log, Nat.le_trans hk.removals hlater.removals,
    ?_, ?_⟩
  · intro hnot
    obtain ⟨hpoff, hvsize⟩ := hk.volume (hgone hnot)
    exact ⟨h.poff.trans hpoff, h.vsize.trans hvsize⟩
  · intro hnot hup
    obtain ⟨es, -, hon⟩ := h.events
    obtain ⟨hsame, -⟩ := hon hup
    rw [hsame] at hup ⊢
    exact hk.card (hgone hnot) hup

/-- Nothing is known while a card is known to have been out. -/
theorem Known.of_gone (hk : Known f s) (hlater : Later s s') (hsearch : s'.drv.search = s.drv.search)
    (hgone : s'.drv.gone = true) : Known f s' where
  search := hsearch.trans hk.search
  found := hk.found.mono hlater.log
  removals := Nat.le_trans hk.removals hlater.removals
  volume := fun hnot => by rw [hgone] at hnot; cases hnot
  card := fun hnot => by rw [hgone] at hnot; cases hnot

theorem Found.known (h : Found f s) : Known f s where
  search := h.search
  found := h.found
  removals := Nat.le_of_eq (congrArg Search.removals h.here)
  volume := fun _ => by rw [h.here]; exact ⟨rfl, rfl⟩
  card := fun _ _ => by rw [h.here]; exact ⟨rfl, rfl⟩

/-- A driver that stays knows the volume INIT found. -/
theorem Loaded.known (h : Loaded s) : ∃ f, Known f s := by
  obtain ⟨s₀, q, q', hcmd, hrun, hunits⟩ := h
  obtain ⟨t, hgo, rfl, rfl⟩ := runs_interrupt hrun
  rw [hcmd] at hgo
  obtain ⟨r, t₁, hrestart, hgo⟩ := runs_bind.mp hgo
  obtain ⟨-, -, -, hfound⟩ := restart_spec hrestart
  cases r with
  | true =>
      simp only [if_true] at hgo
      obtain rfl := runs_setDrv hgo
      obtain ⟨f, hf⟩ := hfound rfl
      exact ⟨f, Found.known ⟨hf.search, hf.here, hf.found, hf.up⟩⟩
  | false =>
      obtain ⟨u, t₂, hset, hgo⟩ := runs_bind.mp hgo
      obtain rfl := runs_setDrv hset
      obtain rfl := runs_setDrv hgo
      cases hunits

theorem held_asked (s : Sys Drv) (q : Req) : Held s { s with drv := s.drv.asked q } :=
  { since_of_eq rfl rfl with poff := rfl, vsize := rfl, search := rfl, gone := fun h => h }

theorem held_answered (s : Sys Drv) (q : Req) : Held s { s with drv.req := q } :=
  { since_of_eq rfl rfl with poff := rfl, vsize := rfl, search := rfl, gone := fun h => h }

/-- **One request.** What is known stays known, or a MEDIA CHECK answers "changed" and has
found the volume of the card that is in. -/
theorem Next.known (hk : Known f s) (h : Next s l s') :
    Later s s' ∧ (Known f s' ∨ ∃ g, Found g s' ∧ l.1.cmd = 1 ∧ l.2.media = 0xFF) := by
  obtain ⟨hcmd, hrun⟩ := h
  obtain ⟨t, hgo, hq, rfl⟩ := runs_interrupt hrun
  have hasked := held_asked s l.1
  have hanswered := held_answered t { t.drv.req with status := t.drv.status }
  have hk₀ := hk.of_held hasked
  by_cases hmedia : l.1.cmd = 1
  · rw [hmedia] at hgo
    rcases doMedia_spec hgo with hheld | ⟨hlater, hsearch, hgone⟩ | ⟨g, hlater, hfound, hgone, hanswer⟩
    · exact ⟨(hasked.later.trans hheld.later).trans hanswered.later,
        .inl ((hk₀.of_held hheld).of_held hanswered)⟩
    · exact ⟨(hasked.later.trans hlater).trans hanswered.later,
        .inl ((hk₀.of_gone hlater hsearch hgone).of_held hanswered)⟩
    · refine ⟨(hasked.later.trans hlater).trans hanswered.later, .inr ⟨g, ?_, hmedia, ?_⟩⟩
      · exact ⟨hfound.search, hfound.here, hfound.found, hfound.up⟩
      · rw [hq]
        exact hanswer
  · have hheld := keeps_dispatch hcmd hmedia hgo
    exact ⟨(hasked.later.trans hheld.later).trans hanswered.later,
      .inl ((hk₀.of_held hheld).of_held hanswered)⟩

/-! ### The law -/

/-- A transfer on the volume `f`: its card has not been out since it was found, every data
command is one to that card, and the offset and the size are the ones read off it. -/
structure OnVolume (f : Search) (s : Sys Drv) (l : Req × Req) (s' : Sys Drv) : Prop where
  search : s'.drv.search = some f
  found : FoundIn s.log f
  card : s'.socket.card = f.card
  removals : s'.socket.removals = f.removals
  range : l.1.span ≤ f.vsize.toNat
  did : ∃ es, s'.log = s.log ++ es ∧ (∀ e ∈ es, Ev.On f.card e) ∧
    Served s.mem (l.1.cmd ≠ 4) (l.1.cmd = 9)
      (fun k => addressedBy s.drv.ccs (l.1.startSector + BitVec.ofNat 32 k + f.poff)) l.1.addrsOf 0
      l.1.count.toNat l.2.count.toNat es

/-- **A transfer that reports success** is on the volume that is known. -/
theorem Next.onVolume (hk : Known f s) (h : Next s l s') (hs : Succeeded l) : OnVolume f s l s' := by
  obtain ⟨hcmd, hrun⟩ := h
  rcases interrupt_transfer hs.transfer hrun with ⟨-, -, -, hstatus, -⟩ | ⟨hgone, hrange, es, hlog, -, hserved⟩
  · exact absurd hs.status hstatus
  obtain ⟨t, hgo, hq, rfl⟩ := runs_interrupt hrun
  have hmedia : l.1.cmd ≠ 1 := by
    intro hone
    rcases hs.transfer with h | h | h <;> rw [h] at hone <;> revert hone <;> decide
  have hheld : Held s t := IsTrans.trans _ _ _ (held_asked s l.1) (keeps_dispatch hcmd hmedia hgo)
  have hdone : t.drv.status = ST_DONE := by
    have hstatus := hs.status
    rw [hq] at hstatus
    exact hstatus
  have hup := dispatch_up hs.transfer hgo hdone hs.sectors
  obtain ⟨es', hlog', hon⟩ := hheld.events
  obtain ⟨hsame, hcards⟩ := hon hup
  obtain rfl : es' = es := List.append_cancel_left (hlog'.symm.trans hlog)
  obtain ⟨hcard, hremovals⟩ := hk.card hgone (hsame ▸ hup)
  obtain ⟨hpoff, hvsize⟩ := hk.volume hgone
  refine ⟨hheld.search.trans hk.search, hk.found, ?_, ?_, hvsize ▸ hrange, es', hlog, ?_, ?_⟩
  · exact (congrArg Socket.card hsame).trans hcard
  · exact (congrArg Socket.removals hsame).trans hremovals
  · rw [← hcard]
    exact hcards
  · rw [← hpoff]
    exact hserved

end Steps

/-- In the run `ls` from `s` to `t` a MEDIA CHECK answers "changed", and has found `f`, the
volume of the card that is then in. -/
def Changed (f : Search) (s : Sys Drv) (ls : List (Req × Req)) (t : Sys Drv) : Prop :=
  ∃ ls₁ m ls₂ v, ls = ls₁ ++ [m] ++ ls₂ ∧ Trace Next s (ls₁ ++ [m]) v ∧ Trace Next v ls₂ t ∧
    m.1.cmd = 1 ∧ m.2.media = 0xFF ∧ Found f v

section Runs

variable {f : Search} {s t u : Sys Drv} {ls : List (Req × Req)} {l : Req × Req}

theorem Changed.snoc (h : Changed f s ls t) (hlast : Next t l u) : Changed f s (ls ++ [l]) u := by
  obtain ⟨ls₁, m, ls₂, v, rfl, hbefore, hafter, hrest⟩ := h
  exact ⟨ls₁, m, ls₂ ++ [l], v, List.append_assoc _ _ _, hbefore, hafter.snoc hlast, hrest⟩

/-- **A run of requests.** -/
theorem run_known (hk : Known f s) (hrun : Trace Next s ls t) :
    Later s t ∧ ∃ g, Known g t ∧ (g = f ∨ Changed g s ls t) := by
  induction hrun with
  | refl => exact ⟨⟨fun e he => he, Nat.le_refl _⟩, f, hk, .inl rfl⟩
  | @snoc ls t u l run last ih =>
      obtain ⟨hlater, g, hg, hwhence⟩ := ih
      obtain ⟨hnext, hknown | ⟨g', hfound, hcmd, hanswer⟩⟩ := last.known hg
      · refine ⟨hlater.trans hnext, g, hknown, ?_⟩
        rcases hwhence with rfl | hchanged
        · exact .inl rfl
        · exact .inr (hchanged.snoc last)
      · refine ⟨hlater.trans hnext, g', hfound.known, .inr ?_⟩
        exact ⟨ls, l, [], u, (List.append_nil _).symm, run.snoc last, .refl, hcmd, hanswer, hfound⟩

/-- **No card is taken for another.** A READ or WRITE that reports success is on a volume read
off the very card its data commands went to, which has not been out since; so once the card
of the last search has been out, a MEDIA CHECK has answered "changed" before it and has
found the volume of the card that was in. -/
theorem media_change_safe {s₀ : Sys Drv} {ls₀ : List (Req × Req)} (hload : Loaded s₀)
    (hbefore : Trace Next s₀ ls₀ s) (hsearch : s.drv.search = some f) (hrun : Trace Next s ls t)
    (hlast : Next t l u) (hs : Succeeded l) :
    ∃ g, OnVolume g t l u ∧ (f.removals < s.socket.removals → Changed g s ls t) := by
  obtain ⟨f₀, hk₀⟩ := hload.known
  obtain ⟨-, f', hk, -⟩ := run_known hk₀ hbefore
  obtain rfl : f = f' := Option.some.inj (hsearch.symm.trans hk.search)
  obtain ⟨hlater, g, hg, hwhence⟩ := run_known hk hrun
  have hon := hlast.onVolume hg hs
  refine ⟨g, hon, ?_⟩
  intro hout
  rcases hwhence with rfl | hchanged
  · -- the card has been out, and `g`'s has not
    have hle := (hlast.known hg).1.removals
    have hremovals := hon.removals
    have hrest := hlater.removals
    omega
  · exact hchanged

end Runs

/-! ### A swap -/

/-- The boot sector of a volume of 1000 sectors. -/
def bootBlock : Block := fun i =>
  match i with
  | 0 => 0xEB
  | 0x0C => 0x02
  | 0x0D => 1
  | 0x10 => 2
  | 0x13 => 0xE8
  | 0x14 => 0x03
  | 510 => 0x55
  | 511 => 0xAA
  | _ => 0

/-- A machine with a card in; it is out at the fourth look, and another in at the fifth. -/
def swapping : Sys Drv where
  world :=
    { before := fun n => if n = 3 then [.remove] else if n = 4 then [.insert 1] else []
      during := fun _ => []
      answer := fun _ => ⟨true, true, true, bootBlock⟩ }
  now := 0
  socket := ⟨some 0, false, 0, Socket.idle_first⟩
  log := []
  mem := fun _ => 0
  drv := benchDrv

/-- What a request comes to. -/
def answered (q : Req) (s : Sys Drv) : Req × Sys Drv :=
  match (interrupt q).run s with
  | .ok r => r
  | .error e => e.elim

theorem runs_answered (q : Req) (s : Sys Drv) :
    Runs (interrupt q) s (answered q s).1 (answered q s).2 := by
  obtain ⟨q', s', hrun⟩ := returns (interrupt q) s
  have heq : (interrupt q).run s = .ok (q', s') := hrun
  rw [answered, heq]
  exact heq

/-- A request with nothing but a command. -/
def bare (cmd : Byte) : Req := ⟨cmd, 0, 0, 0, 0, 0, 0, 0⟩

/-- The driver after INIT, after a MEDIA CHECK with the card out, and after one with another
in. -/
def swapInit : Sys Drv := (answered (bare 0) swapping).2
def swapOut : Sys Drv := (answered (bare 1) swapInit).2
def swapIn : Sys Drv := (answered (bare 1) swapOut).2

/-- The read after the swap is on the second card's volume. -/
theorem media_change_safe_swap :
    ∃ g, OnVolume g swapIn (readReq 0x2000 3 1, (answered (readReq 0x2000 3 1) swapIn).1)
        (answered (readReq 0x2000 3 1) swapIn).2 ∧
      Changed g swapOut [(bare 1, (answered (bare 1) swapOut).1)] swapIn := by
  have hload : Loaded swapInit := ⟨swapping, bare 0, _, rfl, runs_answered _ _, rfl⟩
  have hout : Next swapInit (bare 1, (answered (bare 1) swapInit).1) swapOut :=
    ⟨by decide, runs_answered _ _⟩
  have hin : Next swapOut (bare 1, (answered (bare 1) swapOut).1) swapIn :=
    ⟨by decide, runs_answered _ _⟩
  have hread : Next swapIn (readReq 0x2000 3 1, (answered (readReq 0x2000 3 1) swapIn).1)
      (answered (readReq 0x2000 3 1) swapIn).2 := ⟨by decide, runs_answered _ _⟩
  have hsearch : swapOut.drv.search = some ⟨some 0, 0, 0, 1000⟩ := rfl
  have hremovals : 0 < swapOut.socket.removals := by decide
  have hstatus : (answered (readReq 0x2000 3 1) swapIn).1.status = ST_DONE := by decide +kernel
  obtain ⟨g, hon, hchanged⟩ := media_change_safe hload (.snoc .refl hout) hsearch (.snoc .refl hin)
    hread ⟨.inl rfl, by decide, hstatus⟩
  exact ⟨g, hon, hchanged hremovals⟩

end Sbc386Ex.Sd.SdSys
